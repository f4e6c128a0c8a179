import Pipewright.Text.Utf8

/-!
# Why a text is refused as JSON

A text is refused either by the grammar of JSON or because it holds something else than the
reader asks for. Either way the fault is reported with a line and a column; the column counts
octets and is that of the last octet read, or of the next one when it is to blame.

## Main definitions

* `Fault`, `Fault.message`: the faults.
* `Failure`: a fault and what was still to be read.
* `ReadError`: a fault with its line and column.
-/

namespace Pipewright.Json

/-- What a text holds where the reader asks for something else. -/
inductive Found where
  /-- The null value. -/
  | null
  /-- A truth value. -/
  | boolean (value : Bool)
  /-- A whole number of 64 bits. -/
  | integer (value : Int)
  /-- Another number, as it is shown. -/
  | decimal (shown : String)
  /-- A text. -/
  | string (value : String)
  /-- A list. -/
  | list
  /-- An object. -/
  | object
  deriving DecidableEq, Repr

/-- A fault of a text. -/
inductive Fault where
  /-- The text ends inside a list. -/
  | endInList
  /-- The text ends inside an object. -/
  | endInObject
  /-- The text ends inside a string. -/
  | endInString
  /-- The text ends where a value has to be. -/
  | endInValue
  /-- There is no colon behind a name. -/
  | noColon
  /-- There is neither a comma nor the end of the list. -/
  | noListCommaOrEnd
  /-- There is neither a comma nor the end of the object. -/
  | noObjectCommaOrEnd
  /-- A literal is misspelt. -/
  | misspelt
  /-- There is no value. -/
  | noValue
  /-- A backslash is followed by something that it does not escape. -/
  | badEscape
  /-- A number breaks off or starts with an idle zero. -/
  | badNumber
  /-- A number is too great. -/
  | numberOutOfRange
  /-- A control character stands in a string. -/
  | controlCharacter
  /-- A name is not a string. -/
  | nameNotString
  /-- A half of a surrogate pair stands alone. -/
  | loneSurrogate
  /-- A comma comes right before the end. -/
  | trailingComma
  /-- Something follows the value. -/
  | trailingCharacters
  /-- The second half of a surrogate pair is missing. -/
  | endOfEscape
  /-- The value is not of the kind asked for. -/
  | wrongKind (found : Found) (expected : String)
  /-- The list is too short. -/
  | tooShort (length : Nat) (expected : String)
  /-- A field is given twice. -/
  | duplicateField (name : String)
  /-- A field is not given. -/
  | missingField (name : String)
  deriving DecidableEq, Repr

/-- The character may be shown as it is. -/
def isShowable (c : Char) : Bool :=
  let n := c.toNat
  !(n < 0x20 || (0x7F ≤ n && n < 0xA0) || n == 0xAD || (0x200B ≤ n && n ≤ 0x200F) ||
    (0x2028 ≤ n && n ≤ 0x202E) || (0x2060 ≤ n && n ≤ 0x206F) || (0xE000 ≤ n && n ≤ 0xF8FF) ||
    n == 0xFEFF || 0xE0000 ≤ n)

/-- The hexadecimal digits of a number, in lower case and without leading zeros. -/
def hexText (n : Nat) : List Char :=
  Nat.toDigits 16 n

/-- The character as it is shown between quotes. -/
def showChar (c : Char) : List Char :=
  if c == '"' then ['\\', '"']
  else if c == '\\' then ['\\', '\\']
  else if c == '\n' then ['\\', 'n']
  else if c == '\r' then ['\\', 'r']
  else if c == '\t' then ['\\', 't']
  else if c == '\x00' then ['\\', '0']
  else if isShowable c then [c]
  else ['\\', 'u', '\x7b'] ++ hexText c.toNat ++ ['\x7d']

/-- What was found, in words. -/
def Found.message : Found → String
  | null => "null"
  | boolean b => "boolean \x60" ++ toString b ++ "\x60"
  | integer n => "integer \x60" ++ toString n ++ "\x60"
  | decimal shown => "floating point \x60" ++ shown ++ "\x60"
  | string s => "string \"" ++ .ofList (s.toList.flatMap showChar) ++ "\""
  | list => "sequence"
  | object => "map"

/-- The fault in words. -/
def Fault.message : Fault → String
  | endInList => "EOF while parsing a list"
  | endInObject => "EOF while parsing an object"
  | endInString => "EOF while parsing a string"
  | endInValue => "EOF while parsing a value"
  | noColon => "expected \x60:\x60"
  | noListCommaOrEnd => "expected \x60,\x60 or \x60]\x60"
  | noObjectCommaOrEnd => "expected \x60,\x60 or \x60\x7d\x60"
  | misspelt => "expected ident"
  | noValue => "expected value"
  | badEscape => "invalid escape"
  | badNumber => "invalid number"
  | numberOutOfRange => "number out of range"
  | controlCharacter => "control character (\\u0000-\\u001F) found while parsing a string"
  | nameNotString => "key must be a string"
  | loneSurrogate => "lone leading surrogate in hex escape"
  | trailingComma => "trailing comma"
  | trailingCharacters => "trailing characters"
  | endOfEscape => "unexpected end of hex escape"
  | wrongKind found expected => "invalid type: " ++ found.message ++ ", expected " ++ expected
  | tooShort length expected =>
    "invalid length " ++ toString length ++ ", expected " ++ expected
  | duplicateField name => "duplicate field \x60" ++ name ++ "\x60"
  | missingField name => "missing field \x60" ++ name ++ "\x60"

/-- A fault together with what was still to be read. -/
structure Failure where
  /-- The fault. -/
  fault : Fault
  /-- The characters that were not read. -/
  rest : List Char
  /-- How many octets of those are counted as read. -/
  ahead : Nat
  /-- The place of the fault is settled; otherwise the container around it settles it. -/
  placed : Bool
  deriving Repr

/-- A fault with its line and column. -/
structure ReadError where
  /-- The fault. -/
  fault : Fault
  /-- The line, from one. -/
  line : Nat
  /-- The number of octets of the line up to the fault. -/
  column : Nat
  deriving Repr

/-- The error in words. -/
def ReadError.message (e : ReadError) : String :=
  e.fault.message ++ " at line " ++ toString e.line ++ " column " ++ toString e.column

/-- The failure with its line and column in `input`. -/
def Failure.locate (f : Failure) (input : String) : ReadError :=
  let octets := Text.encode input
  let unread := (f.rest.flatMap Text.encodeChar).length
  let read := octets.take (octets.length - unread + f.ahead)
  ⟨f.fault, 1 + read.count 0x0A, (read.reverse.takeWhile (· != 0x0A)).length⟩

end Pipewright.Json
