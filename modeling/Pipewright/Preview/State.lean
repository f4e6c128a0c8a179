import Pipewright.Bench
import Pipewright.Preview.Failure

/-!
# What a preview shows

Every edit has a stamp, and later edits have greater ones. The state of the preview says which
edit it is about and how far it has come.

## Main definitions

* `Success`, `Outcome`: the result of a preview.
* `State`: what is shown.
* `Submission`: an edit that is to be previewed.
-/

namespace Pipewright.Preview

/-- The identity of an edit. -/
abbrev Stamp := Nat

/-- The stamp as people see it. -/
def Stamp.shown (s : Stamp) : String :=
  "#" ++ toString s

/-- A preview that went well. -/
structure Success where
  /-- The output of the tool. -/
  output : String
  /-- The command line of the configuration that produced it. -/
  command : String
  /-- The format of the output. -/
  format : OutputFormat
  deriving DecidableEq, Repr

/-- The result of a preview, as it is shown. -/
inductive Outcome where
  /-- The preview went well. -/
  | success (result : Success)
  /-- The preview failed; `transport` says that the tool could not be run. -/
  | failure (message : String) (transport : Bool)
  deriving DecidableEq, Repr

/-- The outcome that shows a result. -/
def Outcome.ofResult : Except Failure Success → Outcome
  | .ok result => success result
  | .error e => failure e.report e.isFailureToRun

/-- What is shown. -/
inductive State where
  /-- Nothing. -/
  | idle (stamp : Stamp)
  /-- The edit waits for a pause. -/
  | waiting (stamp : Stamp)
  /-- The tool runs. -/
  | running (stamp : Stamp)
  /-- The result. -/
  | showing (stamp : Stamp) (outcome : Outcome)
  deriving DecidableEq, Repr

namespace State

/-- The edit that the state is about. -/
def stamp : State → Stamp
  | idle s | waiting s | running s | showing s _ => s

/-- Nothing is waited for. -/
def isFinal : State → Bool
  | idle _ | showing .. => true
  | waiting _ | running _ => false

/-- The name of the state. -/
def name : State → String
  | idle _ => "idle"
  | waiting _ => "debouncing"
  | running _ => "running"
  | showing _ (.success _) => "success"
  | showing _ (.failure ..) => "failure"

end State

/-- An edit that is to be previewed. -/
structure Submission where
  /-- The stamp of the edit. -/
  stamp : Stamp
  /-- The bench after the edit. -/
  bench : Bench
  deriving DecidableEq, Repr

end Pipewright.Preview
