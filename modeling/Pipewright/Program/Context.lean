import Pipewright.Command.Reading
import Pipewright.Preview.Cycle
import Pipewright.Program.Ending
import Pipewright.Program.Environment
import Pipewright.Program.Usage.Invocation
import Pipewright.StateFile

/-!
# What surrounds a command

A command finds files, variables of the environment, its standard input, and a way to run other
programs. Which state file and which tool it uses is settled before it starts: a switch counts
more than a variable, and a variable more than the default.

## Main definitions

* `Launch`, `Toolbox`: a program that is to be run, and the way to run it.
* `Host`: what a command finds.
* `Context`, `Context.settle`: the host with the state file, the tool and the style.
* `Context.load`, `Context.inputText`: the saved configuration and the standard input.
-/

namespace Pipewright.Program

/-- A program that is to be run. -/
structure Launch where
  /-- The program. -/
  program : String
  /-- The variables of its environment. -/
  environment : Environment
  /-- The time that it may take. -/
  limit : Duration
  /-- What it is given. -/
  request : Preview.Request

/-- A way to run programs. They can read the files but leave them alone. -/
abbrev Toolbox := Files.Tree → Launch → Except Preview.RunError Preview.ToolReply

/-- What a command finds. -/
structure Host where
  /-- The files. -/
  files : Files.Tree
  /-- The variables of the environment. -/
  environment : Environment := []
  /-- The octets of the standard input. -/
  input : List UInt8 := []
  /-- The way to run other programs. -/
  toolbox : Toolbox
  /-- The time that a run of another program is seen to take, in milliseconds. -/
  elapsed : Nat := 0

/-- What surrounds a command. -/
structure Context where
  /-- What the command finds. -/
  host : Host
  /-- The state file. -/
  stateFile : String
  /-- The tool. -/
  tool : String

namespace Context

/-- The context that the switches and the environment select. -/
def settle (host : Host) (common : Common) : Context where
  host := host
  stateFile :=
    (common.stateFile?.or (host.environment.filled? stateVariable)).getD
      host.environment.homeStateFile
  tool := (common.tool?.or (host.environment.filled? toolVariable)).getD toolWord

/-- The files. -/
def files (c : Context) : Files.Tree :=
  c.host.files

/-- What the terminal can show. -/
def style (c : Context) : Display.Style :=
  c.host.environment.style

/-- The saved configuration, or the default one if nothing has been saved; the second part says
that there is a saved one. -/
def load (c : Context) : Except Failure (Configuration × Bool) :=
  match StateFile.read c.files c.stateFile with
  | .ok configuration => .ok (configuration, true)
  | .error (.notFound _) => .ok ({}, false)
  | .error e => .error (.because "Failed to load saved state" e.chain)

/-- The failure to read the standard input. -/
def inputFailure : Failure :=
  .because "Failed to read standard input" [Files.Cause.notUtf8.message]

/-- The whole standard input. -/
def inputText (c : Context) : Except Failure String :=
  match Text.decode? c.host.input with
  | some text => .ok text
  | none => .error inputFailure

/-- The files after saving the configuration, and the failure if it could not be saved. -/
def save (c : Context) (configuration : Configuration) : Except Failure Unit × Files.Tree :=
  match StateFile.write c.files c.stateFile configuration with
  | (.ok (), files) => (.ok (), files)
  | (.error e, files) =>
    (.error (.because ("Failed to save state to " ++ c.stateFile) e.chain), files)

/-- The files after a save whose failure does not matter. -/
def filesAfterSave (c : Context) (configuration : Configuration) : Files.Tree :=
  (c.save configuration).2

/-- Runs the tool. -/
def runTool (c : Context) (limit : Duration) (request : Preview.Request) :
    Except Preview.RunError Preview.ToolReply :=
  c.host.toolbox c.files ⟨c.tool, c.host.environment, limit, request⟩

end Context

end Pipewright.Program
