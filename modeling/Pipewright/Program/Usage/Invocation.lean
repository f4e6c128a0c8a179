import Pipewright.Program.Level
import Pipewright.Program.Usage.Given

/-!
# What the program is asked to do

The switches that concern the whole program may stand behind any command; the one that stands
lowest counts.

## Main definitions

* `Common`: the switches that concern the whole program.
* `Task`: the commands with their switches and operands.
* `Invocation`, `Invocation.read`: both, as read from the words of the program.
* `helpText`, `versionText`: the answers to the questions for usage and version.
-/

namespace Pipewright.Program

/-- The switches that concern the whole program. -/
structure Common where
  /-- How much is logged. -/
  level : Level := .info
  /-- The state file. -/
  stateFile? : Option String := none
  /-- The tool. -/
  tool? : Option String := none
  /-- The directory for logs. -/
  logDirectory? : Option String := none
  deriving DecidableEq, Repr

/-- What a preview is asked for. -/
structure PreviewTask where
  /-- The input file. -/
  input? : Option String := none
  /-- The pasted text. -/
  text? : Option String := none
  /-- The command line to take over first. -/
  command? : Option String := none
  /-- The number of lines of the sample. -/
  lines? : Option UInt64 := none
  /-- The answer is JSON. -/
  json : Bool := false
  deriving DecidableEq, Repr

/-- What a run is asked for. -/
structure RunTask where
  /-- The input file. -/
  input? : Option String := none
  /-- The file for the output. -/
  output? : Option String := none
  /-- The time that the tool may take, in seconds. -/
  timeout : UInt64 := 600
  deriving DecidableEq, Repr

/-- What live editing is asked for. -/
structure WatchTask where
  /-- The pause after an edit, in milliseconds. -/
  debounce : UInt64 := 500
  /-- The number of lines of the sample. -/
  lines? : Option UInt64 := none
  deriving DecidableEq, Repr

/-- A command with its switches and operands. -/
inductive Task where
  /-- Show the saved pipeline. -/
  | show (json : Bool)
  /-- Take over the command line that the words stand for, and perhaps save it. -/
  | parse (words : List String) (save json : Bool)
  /-- Preview on a sample. -/
  | preview (task : PreviewTask)
  /-- Run on the whole input. -/
  | run (task : RunTask)
  /-- Edit line by line. -/
  | watch (task : WatchTask)
  /-- Write the saved pipeline to a file. -/
  | exportState (path : String)
  /-- Read the pipeline to save from a file. -/
  | importState (path : String)
  deriving DecidableEq, Repr

/-- What the program is asked to do. -/
structure Invocation where
  /-- The switches that concern the whole program. -/
  common : Common
  /-- The command. -/
  task : Task
  deriving DecidableEq, Repr

namespace Usage

/-- The value of a switch at the lowest level that has it. -/
def lowestValue? (levels : List Given) (s : Switch) : Option String :=
  levels.findSome? (·.value? s)

/-- How often a switch is given at the lowest level that has it. -/
def lowestCount (levels : List Given) (s : Switch) : Nat :=
  ((levels.find? (·.has s)).map (·.count s)).getD 0

/-- The switches that concern the whole program. -/
def common (levels : List Given) : Common where
  level := .ofSwitches (lowestCount levels .verbose) (levels.any (·.has .quiet))
  stateFile? := lowestValue? levels .state
  tool? := lowestValue? levels .tool
  logDirectory? := lowestValue? levels .logDirectory

/-- The number that a switch has for its value. -/
def number? (g : Given) (s : Switch) : Option UInt64 :=
  (g.value? s).bind Text.readUInt64?

/-- The command that stands lowest. -/
def task? (g : Given) : Option Task :=
  match g.node with
  | .show => some (.show (g.has .json))
  | .parse => some (.parse g.operands (g.has .save) (g.has .json))
  | .preview => some (.preview
      { input? := g.value? .input
        text? := g.value? .text
        command? := g.value? .command
        lines? := number? g .lines
        json := g.has .json })
  | .run => some (.run
      { input? := g.value? .input
        output? := g.value? .output
        timeout := (number? g .timeout).getD 600 })
  | .watch => some (.watch
      { debounce := (number? g .debounce).getD 500
        lines? := number? g .lines })
  | .exportState => g.operands.head?.map .exportState
  | .importState => g.operands.head?.map .importState
  | .program | .state => none

/-- The version of the program. -/
def version : String := "0.1.0"

/-- The answer to the question for the version. -/
def versionText (path : List String) : String :=
  "-".intercalate path ++ " " ++ version ++ "\n"

/-- The switch as it is shown in the usage of a command. -/
def shownSwitch (s : Switch) : String :=
  let letter := match s.letter? with
    | some c => .ofList ['-', c, ',', ' ']
    | none => ""
  let value := match s.takes with
    | .nothing | .count => ""
    | .text => " <TEXT>"
    | .path => " <PATH>"
    | .number => " <N>"
  "  " ++ letter ++ "--" ++ s.name ++ value

/-- The lines of the usage of a command. -/
def helpLines (n : Node) : List String :=
  let operands := match n.operands with
    | .none => if n.children.isEmpty then "" else " <COMMAND>"
    | .path => " <PATH>"
    | .words => " <COMMAND>..."
  ["Usage: " ++ n.name ++ " [OPTIONS]" ++ operands] ++
    (if n.children.isEmpty then [] else "" :: "Commands:" :: n.children.map ("  " ++ ·.name)) ++
    ["", "Options:"] ++ n.switches.map shownSwitch

/-- The answer to the question for the usage of a command. -/
def helpText (n : Node) : String :=
  "\n".intercalate (helpLines n) ++ "\n"

end Usage

/-- What the program is asked to do by its words. -/
def Invocation.read (words : List String) : Except Usage.Stop Invocation :=
  match Usage.readProgram words with
  | .error stop => .error stop
  | .ok [] => .error (.refused (.missingCommand .program))
  | .ok (lowest :: above) =>
    match Usage.task? lowest with
    | some task => .ok ⟨Usage.common (lowest :: above), task⟩
    | none => .error (.refused (.missingCommand lowest.node))

end Pipewright.Program
