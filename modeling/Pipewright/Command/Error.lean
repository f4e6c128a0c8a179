import Pipewright.Command.Flag

/-!
# Why a command line is refused

A command line is refused because it has no tokens, because two of its flags set the same
slot, because a flag lacks its value, or because a stage of its pipeline is empty. Every error
knows the byte offset that it is about.

## Main definitions

* `CommandError`: the causes, with `CommandError.position` and `CommandError.message`.
* `CommandError.Kind`: the coarse classification.
-/

namespace Pipewright

/-- Why a command line yields no configuration. -/
inductive CommandError where
  /-- The text has no tokens. -/
  | noTokens (error : TokenError)
  /-- `flag` sets a slot that `previous` has already set. -/
  | slotTaken (flag previous : String) (slot : Slot) (position : Nat)
  /-- `flag` stands at the end and takes a value. -/
  | noValue (flag : String) (position : Nat)
  /-- A stage next to the connective at `position` is empty. -/
  | noStage (position : Nat)
  deriving DecidableEq, Repr

namespace CommandError

/-- The coarse classification of errors. -/
inductive Kind where
  /-- The text has no tokens. -/
  | tokens
  /-- The tokens make no command. -/
  | command
  deriving DecidableEq, Repr

/-- The name of the classification. -/
def Kind.name : Kind → String
  | tokens => "lex"
  | command => "semantic"

/-- The coarse classification of the error. -/
def kind : CommandError → Kind
  | noTokens _ => .tokens
  | slotTaken .. | noValue .. | noStage _ => .command

/-- The byte offset that the error is about. -/
def position : CommandError → Nat
  | noTokens e => e.position
  | slotTaken _ _ _ p => p
  | noValue _ p => p
  | noStage p => p

/-- The error in words. -/
def message : CommandError → String
  | noTokens e => e.message
  | slotTaken flag previous slot p =>
    "duplicate flag '" ++ flag ++ "' at byte " ++ toString p ++ " (" ++ slot.name ++
      " already set by '" ++ previous ++ "')"
  | noValue flag p => "flag '" ++ flag ++ "' at byte " ++ toString p ++ " expects a value"
  | noStage p => "empty pipeline stage next to 'then' at byte " ++ toString p

end CommandError

end Pipewright
