import Pipewright.Json.Fault

/-!
# Reading JSON

A reader takes a value from the front of the characters that are left and yields it with the
rest. This module holds what readers are and the parts of values: blanks, literals, strings and
digits.

## Main definitions

* `Outcome`, `Reader`: what a reader is.
* `mapValue`: an outcome with another value.
* `fail`, `failInside`: failures with and without a place.
* `readLetters`, `readStringBody`: literals and strings.
-/

namespace Pipewright.Json

/-- What is read and the rest, or a failure. -/
abbrev Outcome (α : Type) := Except Failure (α × List Char)

/-- A reader takes a value from the front of the characters. -/
abbrev Reader (α : Type) := List Char → Outcome α

/-- The outcome with its value changed by `f`. -/
def mapValue {α β : Type} (f : α → β) (o : Outcome α) : Outcome β :=
  o.map fun r => (f r.1, r.2)

/-- A failure in front of `rest`, with `ahead` more octets counted as read. -/
def fail {α : Type} (fault : Fault) (rest : List Char) (ahead : Nat := 0) : Except Failure α :=
  .error ⟨fault, rest, ahead, true⟩

/-- A failure whose place the container around it settles. -/
def failInside {α : Type} (fault : Fault) (rest : List Char) : Except Failure α :=
  .error ⟨fault, rest, 0, false⟩

/-- The blanks between values. -/
def isSpace (c : Char) : Bool :=
  c == ' ' || c == '\n' || c == '\t' || c == '\r'

/-- The characters behind the blanks in front. -/
def skipSpace (cs : List Char) : List Char :=
  cs.dropWhile isSpace

/-- The rest behind the characters of `word`, which a literal still lacks. -/
def readLetters : (word : List Char) → List Char → Except Failure (List Char)
  | [], cs => .ok cs
  | _ :: _, [] => fail .endInValue []
  | w :: ws, c :: cs => if c == w then readLetters ws cs else fail .misspelt (c :: cs) 1

/-! ### Strings -/

/-- The value of a hexadecimal digit. -/
def hexValue? (c : Char) : Option Nat :=
  if c.isDigit then some (c.toNat - 48)
  else if 'a' ≤ c ∧ c ≤ 'f' then some (c.toNat - 87)
  else if 'A' ≤ c ∧ c ≤ 'F' then some (c.toNat - 55)
  else none

/-- The value of four hexadecimal digits. -/
def hexValue4? (a b c d : Char) : Option Nat := do
  return (((← hexValue? a) * 16 + (← hexValue? b)) * 16 + (← hexValue? c)) * 16 + (← hexValue? d)

/-- The character that a backslash and the given letter stand for. -/
def escaped? (c : Char) : Option Char :=
  [('"', '"'), ('\\', '\\'), ('/', '/'), ('b', '\x08'), ('f', '\x0c'), ('n', '\n'),
    ('r', '\r'), ('t', '\t')].lookup c

/-- The failure of an escape with fewer than four hexadecimal digits; `cs` follows the letter
of the escape. -/
def failHex {α : Type} (cs : List Char) : Except Failure α :=
  if (cs.flatMap Text.encodeChar).length < 4 then fail .endInString []
  else fail .badEscape cs 4

/-- The code units from U+D800 to U+DBFF start a pair. -/
def isHighHalf (n : Nat) : Bool :=
  0xD800 ≤ n && n ≤ 0xDBFF

/-- The code units from U+DC00 to U+DFFF end a pair. -/
def isLowHalf (n : Nat) : Bool :=
  0xDC00 ≤ n && n ≤ 0xDFFF

/-- The character that a pair of code units stands for. -/
def pairChar (high low : Nat) : Char :=
  Char.ofNat (0x10000 + (high - 0xD800) * 0x400 + (low - 0xDC00))

/-- The failure of an escape that starts a pair and is not followed by its other half; `cs`
follows the escape. -/
def failPair {α : Type} (cs : List Char) : Except Failure α :=
  match cs with
  | [] => fail .endInString []
  | '\\' :: [] => fail .endInString []
  | '\\' :: 'u' :: rest => failHex rest
  | '\\' :: c :: rest => fail .endOfEscape (c :: rest) 1
  | c :: rest => fail .endOfEscape (c :: rest) 1

/-- The text up to the closing quote and the rest behind it, where `acc` has been read. -/
def readStringBody (acc : String) : List Char → Outcome String
  | [] => fail .endInString []
  | '"' :: rest => .ok (acc, rest)
  | '\\' :: 'u' :: a :: b :: c :: d :: rest =>
    match hexValue4? a b c d with
    | none => failHex (a :: b :: c :: d :: rest)
    | some n =>
      if isLowHalf n then fail .loneSurrogate rest
      else if isHighHalf n then
        match rest with
        | '\\' :: 'u' :: e :: f :: g :: h :: rest' =>
          match hexValue4? e f g h with
          | none => failHex (e :: f :: g :: h :: rest')
          | some m =>
            if isLowHalf m then readStringBody (acc.push (pairChar n m)) rest'
            else fail .loneSurrogate rest'
        | other => failPair other
      else readStringBody (acc.push (Char.ofNat n)) rest
  | '\\' :: 'u' :: rest => failHex rest
  | '\\' :: c :: rest =>
    match escaped? c with
    | some e => readStringBody (acc.push e) rest
    | none => fail .badEscape (c :: rest) 1
  | ['\\'] => fail .endInString []
  | c :: rest =>
    if c.toNat < 0x20 then fail .controlCharacter rest else readStringBody (acc.push c) rest

/-! ### Digits -/

/-- The digits in front and the rest. -/
def spanDigits (cs : List Char) : List Char × List Char :=
  (cs.takeWhile Char.isDigit, cs.dropWhile Char.isDigit)

end Pipewright.Json
