import Pipewright.Program.Dialogue
import Pipewright.Program.FullRun
import Pipewright.Program.Overview
import Pipewright.Program.TakeOver
import Pipewright.Program.Transfer
import Pipewright.Program.Trial

/-!
# The program

The words of the program are read, the directory for logs is made, and the command does its
work. The program ends with status zero, with one if the command fails, and with two if the
words are refused. What is logged is left aside: there is a directory for logs, and no log file
in it.

## Main definitions

* `perform`: what a command leaves behind.
* `Finish`: the status, what is printed, and the files.
* `run`: the program.
-/

namespace Pipewright.Program

/-- What a task leaves behind. -/
def Task.perform (c : Context) : Task → Ending
  | .show json => showPipeline c json
  | .parse words save json => takeOverLine c words save json
  | .preview task => previewPipeline c task
  | .run task => runPipeline c task
  | .watch task => watchPipeline c task
  | .exportState path => Program.exportState c path
  | .importState path => Program.importState c path

/-- The host with the directory for logs, if one is named. The log file of the day, which is opened
in that directory and grows while the command does its work, is left aside. So the files say
nothing about a log file, and nothing about the saved state if the state path names one. -/
def openLog (host : Host) (common : Common) : Except Failure Unit × Host :=
  match common.logDirectory?.or (host.environment.filled? logDirectoryVariable) with
  | none => (.ok (), host)
  | some path =>
    match host.files.makeDirectories path with
    | (.ok (), files) => (.ok (), { host with files })
    | (.error cause, files) =>
      (.error (.because ("Failed to create log directory: " ++ path) [cause.message]),
        { host with files })

/-- What the program leaves behind when it is asked to do something. -/
def perform (host : Host) (invocation : Invocation) : Ending :=
  match openLog host invocation.common with
  | (.error failure, host) => .ofFailure host.files failure
  | (.ok (), host) => invocation.task.perform (.settle host invocation.common)

/-- How the program ends. -/
structure Finish where
  /-- The exit status. -/
  status : Nat
  /-- What is printed on the standard output. -/
  output : String
  /-- What is printed on the standard error. -/
  messages : String
  /-- The files. -/
  files : Files.Tree

/-- The status of a program that fails. -/
def failureStatus : Nat := 1

/-- The status of a program whose words are refused. -/
def refusalStatus : Nat := 2

/-- How the program ends after a task. -/
def Ending.finish (e : Ending) : Finish :=
  match e.failure? with
  | none => ⟨0, e.output, e.messages, e.files⟩
  | some failure => ⟨failureStatus, e.output, e.messages ++ line failure.report, e.files⟩

/-- How the program ends when its words are no task. -/
def Usage.Stop.finish (files : Files.Tree) : Usage.Stop → Finish
  | .help node => ⟨0, Usage.helpText node, "", files⟩
  | .version path => ⟨0, Usage.versionText path, "", files⟩
  | .refused reason => ⟨refusalStatus, "", line ("error: " ++ reason.message), files⟩

/-- The program, called with the given words. -/
def run (host : Host) (words : List String) : Finish :=
  match Invocation.read words with
  | .error stop => stop.finish host.files
  | .ok invocation => (perform host invocation).finish

end Pipewright.Program
