import Pipewright.Command.Arguments
import Pipewright.Files.Cause
import Pipewright.Preview.Tool

/-!
# Why a preview fails

## Main definitions

* `Failure`: the failures of one preview.
* `Failure.chain`, `Failure.report`: a failure with the reasons behind it.
-/

namespace Pipewright.Preview

/-- Why a preview fails. -/
inductive Failure where
  /-- The sample cannot be read. -/
  | noSample (path : String) (cause : Files.Cause)
  /-- The tool ended badly or had something to say. -/
  | badEnding (status : Option Int) (messages : String)
  /-- The tool could not be run. -/
  | notRun (error : RunError)
  /-- There are no arguments for the tool. -/
  | noArguments (error : SplitError)
  /-- The preview itself broke down. -/
  | breakdown (message : String)
  deriving DecidableEq, Repr

/-- How the tool ended and what it said, in words. -/
def toolReport (status : Option Int) (messages : String) : String :=
  let said := Text.trim messages
  let ending := match status with
    | some code => "mlr exited with status " ++ toString code
    | none => "mlr was terminated by a signal"
  if said.isEmpty then ending
  else if status = some 0 then "mlr reported: " ++ said
  else ending ++ ": " ++ said

namespace Failure

/-- The error with the reasons behind it, each in words. -/
def chain : Failure → List String
  | noSample path cause => ["cannot read sample from " ++ path, cause.message]
  | badEnding status messages => [toolReport status messages]
  | notRun e => e.chain
  | noArguments e => [e.message]
  | breakdown message => ["internal error: " ++ message]

/-- The error in words. -/
def message (e : Failure) : String :=
  e.chain.head?.getD ""

/-- The error and the reasons behind it on one line. -/
def report (e : Failure) : String :=
  ": ".intercalate e.chain

/-- The tool could not be run. -/
def isFailureToRun : Failure → Bool
  | notRun _ => true
  | noSample .. | badEnding .. | noArguments _ | breakdown _ => false

end Failure

end Pipewright.Preview
