import Pipewright.Json.Skip
import Pipewright.Json.Typed

/-!
# The way through lists and objects

A container is read with a state that every item or member changes. The reader of the items may
stop before the list ends, which is a failure of the list.

## Main definitions

* `nextItem?`, `nextName?`: the next item and the name of the next member, if there is one.
* `readMemberValue`, `skipMember`: the value of a member.
* `readItems`, `readMembers`: all items and all members.
* `endList`, `endObject`, `inContainer`: a body and the end of its container.
* `readWhole`: the value of a text.
-/

namespace Pipewright.Json

/-- Where the next item stands, or nothing at the end of the list, with the rest. `first` says
that no item came before. -/
def nextItem? (first : Bool) (cs : List Char) : Outcome Bool :=
  match skipSpace cs with
  | [] => fail .endInList [] 1
  | ']' :: rest => .ok (false, ']' :: rest)
  | c :: rest =>
    if first then .ok (true, c :: rest)
    else if c == ',' then
      match skipSpace rest with
      | [] => fail .endInValue [] 1
      | ']' :: rest => fail .trailingComma (']' :: rest) 1
      | other => .ok (true, other)
    else fail .noListCommaOrEnd (c :: rest) 1

/-- The name of the next member, or nothing at the end of the object, with the rest. `first`
says that no member came before. -/
def nextName? (first : Bool) (cs : List Char) : Outcome (Option String) :=
  match skipSpace cs with
  | [] => fail .endInObject [] 1
  | '\x7d' :: rest => .ok (none, '\x7d' :: rest)
  | c :: rest =>
    if first then
      if c == '"' then name rest else fail .nameNotString (c :: rest) 1
    else if c == ',' then
      match skipSpace rest with
      | [] => fail .endInValue [] 1
      | '"' :: rest => name rest
      | '\x7d' :: rest => fail .trailingComma ('\x7d' :: rest) 1
      | other => fail .nameNotString other 1
    else fail .noObjectCommaOrEnd (c :: rest) 1
where
  /-- The name whose opening quote has been read. -/
  name (cs : List Char) : Outcome (Option String) :=
    mapValue some (readStringBody "" cs)

/-- The rest behind the colon of a member. -/
def readColon (cs : List Char) : Except Failure (List Char) :=
  match skipSpace cs with
  | [] => fail .endInObject [] 1
  | ':' :: rest => .ok rest
  | other => fail .noColon other 1

/-- The value of a member, behind its colon. -/
def readMemberValue {α : Type} (reader : Reader α) : Reader α := fun cs =>
  match readColon cs with
  | .error f => .error f
  | .ok rest => reader rest

/-- The value `kept` behind a member that is skipped. -/
def skipMember {α : Type} (kept : α) : Reader α :=
  readMemberValue fun cs => (skipValue cs).map (kept, ·)

/-- The state after all items of a list; `item` reads one. There are at most `bound` items. -/
def readItems {σ : Type} (item : σ → Reader σ) : (bound : Nat) → Bool → σ → Reader σ
  | 0, _, state, cs => .ok (state, cs)
  | bound + 1, first, state, cs =>
    match nextItem? first cs with
    | .error f => .error f
    | .ok (false, rest) => .ok (state, rest)
    | .ok (true, rest) =>
      match item state rest with
      | .error f => .error f
      | .ok (state, rest) => readItems item bound false state rest

/-- The state after all members of an object; `member` reads the colon and the value behind a
name. There are at most `bound` members. -/
def readMembers {σ : Type} (member : String → σ → Reader σ) : (bound : Nat) → Bool → σ → Reader σ
  | 0, _, state, cs => .ok (state, cs)
  | bound + 1, first, state, cs =>
    match nextName? first cs with
    | .error f => .error f
    | .ok (none, rest) => .ok (state, rest)
    | .ok (some name, rest) =>
      match member name state rest with
      | .error f => .error f
      | .ok (state, rest) => readMembers member bound false state rest

/-- The rest behind the end of a list. -/
def endList (cs : List Char) : Except Failure (List Char) :=
  match skipSpace cs with
  | [] => fail .endInList [] 1
  | ']' :: rest => .ok rest
  | ',' :: rest =>
    match skipSpace rest with
    | ']' :: rest => fail .trailingComma (']' :: rest) 1
    | other => fail .trailingCharacters other 1
  | other => fail .trailingCharacters other 1

/-- The rest behind the end of an object. -/
def endObject (cs : List Char) : Except Failure (List Char) :=
  match skipSpace cs with
  | [] => fail .endInObject [] 1
  | '\x7d' :: rest => .ok rest
  | ',' :: rest => fail .trailingComma (',' :: rest) 1
  | other => fail .trailingCharacters other 1

/-- The outcome of a body up to the end of its container, which `close` reads. A failure
without a place gets the place to which the way to the end leads. -/
def inContainer {α : Type} (close : List Char → Except Failure (List Char))
    (body : Outcome α) : Outcome α :=
  match body with
  | .ok (value, rest) => (close rest).map (value, ·)
  | .error f =>
    if f.placed then .error f
    else
      match close f.rest with
      | .ok rest => fail f.fault rest
      | .error stop => fail f.fault stop.rest

/-- A value that is a list or an object: `list` and `object` read the body behind the opening
bracket, and nothing else than `expected` is allowed. -/
def readContainer {α : Type} (expected : String) (list object : Option (Reader α)) : Reader α :=
  fun cs =>
    match skipSpace cs, list, object with
    | '[' :: rest, some body, _ => inContainer endList (body rest)
    | '\x7b' :: rest, _, some body => inContainer endObject (body rest)
    | other, _, _ => wrongKind expected other

/-- The value of a whole text. -/
def readWhole {α : Type} (reader : Reader α) (input : String) : Except ReadError α :=
  match reader input.toList with
  | .error f => .error (f.locate input)
  | .ok (value, rest) =>
    match skipSpace rest with
    | [] => .ok value
    | other => .error (Failure.locate ⟨.trailingCharacters, other, 1, true⟩ input)

end Pipewright.Json
