import Pipewright.Command.Line
import Pipewright.Words.Split

/-!
# The arguments of an execution

What is executed is a list of arguments, without the tool and without the input file. Options
and steps are split into words here; a text that cannot be split is reported and not guessed
at.

## Main definitions

* `SplitError`: the text that cannot be split.
* `Configuration.arguments`: the arguments that a configuration stands for.
-/

namespace Pipewright

/-- The part of a configuration that is split into words. -/
inductive SplitPart where
  /-- The options. -/
  | options
  /-- A step. -/
  | step
  deriving DecidableEq, Repr

/-- The name of the part in messages. -/
def SplitPart.name : SplitPart → String
  | options => "options"
  | step => "verb"

/-- A text with a quote that is never closed. -/
structure SplitError where
  /-- The part that the text belongs to. -/
  part : SplitPart
  /-- The text. -/
  text : String
  deriving DecidableEq, Repr

namespace SplitError

/-- The reason in words. -/
def reason (_ : SplitError) : String :=
  "missing closing quote"

/-- The error in words. -/
def message (e : SplitError) : String :=
  "cannot split " ++ e.part.name ++ " '" ++ e.text ++ "' into arguments: " ++ e.reason

end SplitError

/-- The words of a text that belongs to `part`. -/
def SplitPart.words (part : SplitPart) (text : String) : Except SplitError (List String) :=
  match Words.split? text with
  | some words => .ok words
  | none => .error ⟨part, text⟩

/-- The arguments that a configuration stands for. -/
def Configuration.arguments (c : Configuration) : Except SplitError (List String) := do
  let flags := c.formatFlags.flatMap fun f => f.1 :: f.2.toList
  let options ← c.trimmedOptions?.toList.mapM (SplitPart.words .options)
  let steps ← c.enabledSteps.mapM fun s => SplitPart.words .step s.text
  return flags ++ options.flatten ++ (steps.intersperse [connective]).flatten

end Pipewright
