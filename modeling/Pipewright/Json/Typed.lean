import Pipewright.Json.Number

/-!
# Values of one kind

Where a truth value, a text or a container is asked for, a value of another kind is refused.

## Main definitions

* `wrongKind`: the refusal.
* `readBool`, `readText`: a truth value and a text.
-/

namespace Pipewright.Json

/-- The value where it is not wanted. Containers are only looked at; other values are read, so
that the place of the failure is behind them. -/
def readFound (cs : List Char) : Outcome Found :=
  match cs with
  | [] => fail .endInValue [] 1
  | c :: rest =>
    if c == 'n' then (readLetters ['u', 'l', 'l'] rest).map (.null, ·)
    else if c == 't' then (readLetters ['r', 'u', 'e'] rest).map (.boolean true, ·)
    else if c == 'f' then (readLetters ['a', 'l', 's', 'e'] rest).map (.boolean false, ·)
    else if c == '-' then readNumber true rest
    else if c.isDigit then readNumber false (c :: rest)
    else if c == '"' then mapValue .string (readStringBody "" rest)
    else if c == '[' then .ok (.list, c :: rest)
    else if c == '\x7b' then .ok (.object, c :: rest)
    else fail .noValue (c :: rest) 1

/-- The failure where something else than `expected` stands. -/
def wrongKind {α : Type} (expected : String) (cs : List Char) : Except Failure α := do
  let (found, rest) ← readFound cs
  fail (.wrongKind found expected) rest

/-- A truth value. -/
def readBool (cs : List Char) : Outcome Bool :=
  match skipSpace cs with
  | 't' :: rest => (readLetters ['r', 'u', 'e'] rest).map (true, ·)
  | 'f' :: rest => (readLetters ['a', 'l', 's', 'e'] rest).map (false, ·)
  | other => wrongKind "a boolean" other

/-- A text. -/
def readText (cs : List Char) : Outcome String :=
  match skipSpace cs with
  | '"' :: rest => readStringBody "" rest
  | other => wrongKind "a string" other

end Pipewright.Json
