/-!
# How a command fails

A command that fails says so in one sentence, followed by the causes from the nearest to the
deepest. A single cause is indented; several causes are numbered from zero.

## Main definitions

* `Failure`: the sentence with its causes.
* `Failure.report`: the failure as it is printed.
-/

namespace Pipewright.Program

/-- Why a command fails. -/
structure Failure where
  /-- What went wrong, in words. -/
  message : String
  /-- The causes, the nearest first. -/
  causes : List String := []
  deriving DecidableEq, Repr

/-- The text with `lead` in front of its first line and `hang` in front of the others. -/
def hangIndent (lead hang text : String) : String :=
  lead ++ .ofList (text.toList.flatMap fun c => if c == '\n' then '\n' :: hang.toList else [c])

/-- The number, filled up with blanks in front to a width of five. -/
def causeNumber (n : Nat) : String :=
  let digits := toString n
  .ofList (List.replicate (5 - digits.length) ' ') ++ digits

/-- The lines of the causes. -/
def causeLines : List String → List String
  | [] => []
  | [cause] => [hangIndent "    " "    " cause]
  | causes => causes.mapIdx fun i cause => hangIndent (causeNumber i ++ ": ") "       " cause

namespace Failure

/-- The failure whose causes are the links of a chain. -/
def because (message : String) (chain : List String) : Failure :=
  ⟨message, chain⟩

/-- The failure as it is printed, without the line feed at its end. -/
def report (f : Failure) : String :=
  "Error: " ++ f.message ++
    if f.causes.isEmpty then ""
    else "\n\nCaused by:\n" ++ "\n".intercalate (causeLines f.causes)

end Failure

end Pipewright.Program
