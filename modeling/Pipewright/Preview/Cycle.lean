import Pipewright.Head
import Pipewright.Preview.State

/-!
# One preview

A preview turns the configuration into arguments, takes a sample of the input, runs the tool on
it and judges the answer. Nothing but a clean answer is a success.

## Main definitions

* `Settings`: the bounds of a preview.
* `request`: what the tool is given.
* `judge`: the result that an answer amounts to.
* `cycle`: the whole preview.
-/

namespace Pipewright.Preview

/-- The bounds of a preview. -/
structure Settings where
  /-- The pause after an edit before the tool runs, in milliseconds. -/
  pause : Nat := 500
  /-- The greatest number of lines of a sample. -/
  lineLimit : Nat := 100
  /-- The greatest number of bytes of pasted text in a sample. -/
  byteLimit : Nat := 1048576
  deriving DecidableEq, Repr

/-- The sample of the input. -/
def sample (files : Files.Tree) (s : Settings) (bench : Bench) : Except Failure String :=
  match bench.configuration.inputFile? with
  | some path => (fileHead files path s.lineLimit).mapError (.noSample path)
  | none => .ok (textHead bench.text s.lineLimit s.byteLimit)

/-- What the tool is given. -/
def request (files : Files.Tree) (s : Settings) (bench : Bench) :
    Except Failure Request := do
  let arguments ← (bench.configuration.arguments).mapError .noArguments
  let content ← sample files s bench
  return ⟨arguments, .text content, bench.configuration.outputFormat⟩

/-- The result that the reply of the tool amounts to. -/
def judge (c : Configuration) (reply : Except RunError ToolReply) :
    Except Failure Success :=
  match reply with
  | .error e => .error (.notRun e)
  | .ok o =>
    if o.endedWell then .ok ⟨o.output, c.commandLine, c.outputFormat⟩
    else .error (.badEnding o.status o.messages)

/-- The whole preview, where `tool` runs the tool. -/
def cycle (files : Files.Tree) (s : Settings) (tool : Request → Except RunError ToolReply)
    (bench : Bench) : Except Failure Success := do
  judge bench.configuration (tool (← request files s bench))

/-- What is said of a preview that broke down without a message. -/
def unknownBreakdown : String := "preview task panicked"

/-- The result that an answer amounts to; a breakdown is a failure of the preview. -/
def settleAnswer (c : Configuration) : Answer → Except Failure Success
  | .reply reply => judge c reply
  | .breakdown message => .error (.breakdown (message.getD unknownBreakdown))

end Pipewright.Preview
