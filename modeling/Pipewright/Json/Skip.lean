import Pipewright.Json.Reader

/-!
# Values that nobody asks for

An unknown member of an object is skipped. Its value has to be a JSON value, but strings may
hold any escapes and numbers may be of any size.

## Main definitions

* `skipStringBody`, `skipNumber`: the rest behind a string and behind a number.
* `skipValue`: the rest behind any value.
-/

namespace Pipewright.Json

/-- The rest behind the closing quote of a string that nobody asks for. -/
def skipStringBody : List Char → Except Failure (List Char)
  | [] => fail .endInString []
  | '"' :: rest => .ok rest
  | '\\' :: 'u' :: a :: b :: c :: d :: rest =>
    match hexValue4? a b c d with
    | none => failHex (a :: b :: c :: d :: rest)
    | some _ => skipStringBody rest
  | '\\' :: 'u' :: rest => failHex rest
  | '\\' :: c :: rest =>
    match escaped? c with
    | some _ => skipStringBody rest
    | none => fail .badEscape (c :: rest) 1
  | ['\\'] => fail .endInString []
  | c :: rest =>
    if c.toNat < 0x20 then fail .controlCharacter (c :: rest) else skipStringBody rest

/-- The rest behind the exponent of a number that nobody asks for; `cs` follows its letter. -/
def skipExponent (cs : List Char) : Except Failure (List Char) :=
  let digits := match cs with
    | '+' :: rest => rest
    | '-' :: rest => rest
    | other => other
  match spanDigits digits with
  | ([], rest) => fail .badNumber rest 1
  | (_, rest) => .ok rest

/-- The rest behind the fraction and the exponent of a number that nobody asks for. -/
def skipFraction (cs : List Char) : Except Failure (List Char) :=
  match cs with
  | '.' :: behind =>
    match spanDigits behind with
    | ([], rest) => fail .badNumber rest 1
    | (_, 'e' :: rest) => skipExponent rest
    | (_, 'E' :: rest) => skipExponent rest
    | (_, rest) => .ok rest
  | 'e' :: rest => skipExponent rest
  | 'E' :: rest => skipExponent rest
  | other => .ok other

/-- The rest behind a number without its sign that nobody asks for. -/
def skipNumber (cs : List Char) : Except Failure (List Char) :=
  match spanDigits cs with
  | ([], rest) => fail .badNumber rest 1
  | ('0' :: d :: ds, rest) => fail .badNumber (d :: ds ++ rest) 1
  | (_, rest) => skipFraction rest

/-! ### Values -/

mutual

/-- The rest behind a value; the value is nested at most `depth` deep and wide. -/
def skipValueWithin : (depth : Nat) → List Char → Except Failure (List Char)
  | 0, cs => .ok cs
  | depth + 1, cs =>
    match skipSpace cs with
    | [] => fail .endInValue [] 1
    | c :: rest =>
      if c == 'n' then readLetters ['u', 'l', 'l'] rest
      else if c == 't' then readLetters ['r', 'u', 'e'] rest
      else if c == 'f' then readLetters ['a', 'l', 's', 'e'] rest
      else if c == '-' then skipNumber rest
      else if c.isDigit then skipNumber (c :: rest)
      else if c == '"' then skipStringBody rest
      else if c == '[' then
        match skipSpace rest with
        | [] => fail .endInList [] 1
        | ']' :: rest => .ok rest
        | other => skipItemsWithin depth other
      else if c == '\x7b' then
        match skipSpace rest with
        | [] => fail .endInObject [] 1
        | '\x7d' :: rest => .ok rest
        | other => skipMembersWithin depth other
      else fail .noValue (c :: rest) 1

/-- The rest behind a list whose next item is in front. -/
def skipItemsWithin : (depth : Nat) → List Char → Except Failure (List Char)
  | 0, cs => .ok cs
  | depth + 1, cs => do
    match skipSpace (← skipValueWithin depth cs) with
    | [] => fail .endInList [] 1
    | ',' :: rest => skipItemsWithin depth rest
    | ']' :: rest => return rest
    | other => fail .noListCommaOrEnd other 1

/-- The rest behind an object whose next member is in front. -/
def skipMembersWithin : (depth : Nat) → List Char → Except Failure (List Char)
  | 0, cs => .ok cs
  | depth + 1, cs => do
    match skipSpace cs with
    | [] => fail .endInObject [] 1
    | '"' :: name =>
      match skipSpace (← skipStringBody name) with
      | [] => fail .endInObject [] 1
      | ':' :: value =>
        match skipSpace (← skipValueWithin depth value) with
        | [] => fail .endInObject [] 1
        | ',' :: rest => skipMembersWithin depth rest
        | '\x7d' :: rest => return rest
        | other => fail .noObjectCommaOrEnd other 1
      | other => fail .noColon other 1
    | other => fail .nameNotString other 1

end

/-- The rest behind a value. Every step takes a character or goes from a container to what is in
it, so twice the length is deep enough. -/
def skipValue (cs : List Char) : Except Failure (List Char) :=
  skipValueWithin (2 * cs.length + 2) cs

end Pipewright.Json
