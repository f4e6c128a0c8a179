import Pipewright.Json.Reader
import Pipewright.Text.Utf8

/-!
# Templates

A template is a text with escapes and conversions. An escape is a backslash with a letter or
with the number of an octet; a conversion is a percent sign with a letter, and takes the place
of an argument. Which escapes there are differs from program to program.

## Main definitions

* `Dialect`: what a program understands.
* `Piece`: octets, a conversion, or the end of all output.
* `pieces`: the pieces of a template.
* `unescape`: the octets of a text without conversions.
-/

namespace Pipewright.Toolbox

/-- What a program understands in a template. -/
structure Dialect where
  /-- A percent sign starts a conversion. -/
  conversions : Bool := false
  /-- Octets can be given by hexadecimal numbers, and there is a letter for the escape
  character. -/
  hexadecimal : Bool := false
  /-- A zero in front of an octal number is not one of its three digits. -/
  leadingZero : Bool := false

/-- A piece of a template. -/
inductive Piece where
  /-- An octet that stands for itself. -/
  | octet (value : UInt8)
  /-- A conversion: its flags, width and precision as they are written, and its letter. -/
  | conversion (modifiers : List Char) (letter : Char)
  /-- No output follows. -/
  | stop

/-- What has been read of an escape or a conversion. -/
inductive Pending where
  /-- Nothing. -/
  | nothing
  /-- A backslash. -/
  | backslash
  /-- Some digits of an octal number, of which more may follow. -/
  | octal (more value : Nat)
  /-- Some digits of a hexadecimal number, of which more may follow. -/
  | hexadecimal (more value : Nat)
  /-- A percent sign with flags, a width and a precision. -/
  | percent (modifiers : List Char)

/-- The octet of an escape with a letter. -/
def letterEscape? (d : Dialect) (c : Char) : Option UInt8 :=
  match c with
  | '\\' => some 0x5C
  | 'a' => some 0x07
  | 'b' => some 0x08
  | 'f' => some 0x0C
  | 'n' => some 0x0A
  | 'r' => some 0x0D
  | 't' => some 0x09
  | 'v' => some 0x0B
  | '"' => if d.conversions then some 0x22 else none
  | 'e' => if d.hexadecimal then some 0x1B else none
  | _ => none

/-- The value of an octal digit. -/
def octalValue? (c : Char) : Option Nat :=
  if '0' ≤ c && c ≤ '7' then some (c.toNat - 48) else none

/-- The octets of a character. -/
def charPieces (c : Char) : List Piece :=
  (Text.encodeChar c).map .octet

/-- The character is a flag, or belongs to a width or a precision. -/
def isModifier (c : Char) : Bool :=
  c.isDigit || ['-', '+', ' ', '#', '.'].contains c

/-- Reads a character when nothing is pending. -/
def startPiece (d : Dialect) (c : Char) : Pending × List Piece :=
  if c == '\\' then (.backslash, [])
  else if c == '%' && d.conversions then (.percent [], [])
  else (.nothing, charPieces c)

/-- Reads the character behind a backslash. -/
def readEscape (d : Dialect) (c : Char) : Pending × List Piece :=
  match letterEscape? d c with
  | some octet => (.nothing, [.octet octet])
  | none =>
    match octalValue? c with
    | some v => (.octal (if d.leadingZero && v == 0 then 3 else 2) v, [])
    | none =>
      if c == 'c' then (.nothing, [.stop])
      else if c == 'x' && d.hexadecimal then (.hexadecimal 2 0, [])
      else (.nothing, .octet 0x5C :: charPieces c)

/-- The pieces of what is pending when nothing belongs to it any more. -/
def closePending : Pending → List Piece
  | .nothing => []
  | .backslash => [.octet 0x5C]
  | .octal _ value | .hexadecimal _ value => [.octet value.toUInt8]
  | .percent modifiers => .octet 0x25 :: modifiers.flatMap charPieces

/-- Reads a digit of a number, or what follows the number. -/
def readDigit (d : Dialect) (pending next : Pending) (digit? : Option Nat) (more : Nat)
    (c : Char) : Pending × List Piece :=
  if digit?.isSome && 0 < more then (next, [])
  else
    let (p, ps) := startPiece d c
    (p, closePending pending ++ ps)

/-- Reads a character. -/
def readPiece (d : Dialect) (pending : Pending) (c : Char) : Pending × List Piece :=
  match pending with
  | .nothing => startPiece d c
  | .backslash => readEscape d c
  | .octal more value =>
    let digit? := octalValue? c
    readDigit d pending (.octal (more - 1) (8 * value + digit?.getD 0)) digit? more c
  | .hexadecimal more value =>
    let digit? := Json.hexValue? c
    readDigit d pending (.hexadecimal (more - 1) (16 * value + digit?.getD 0)) digit? more c
  | .percent modifiers =>
    if isModifier c then (.percent (modifiers ++ [c]), [])
    else (.nothing, [.conversion modifiers c])

/-- The pieces of the characters. -/
def piecesFrom (d : Dialect) (pending : Pending) : List Char → List Piece
  | [] => closePending pending
  | c :: cs =>
    let (pending', ps) := readPiece d pending c
    ps ++ piecesFrom d pending' cs

/-- The pieces of a template. -/
def pieces (d : Dialect) (template : String) : List Piece :=
  piecesFrom d .nothing template.toList

/-- The octets in front of the end of all output; the second part says that there is such an
end. -/
def octetsOf : List Piece → List UInt8 × Bool
  | [] => ([], false)
  | .octet b :: rest =>
    let (bs, stopped) := octetsOf rest
    (b :: bs, stopped)
  | .stop :: _ => ([], true)
  | .conversion .. :: rest => octetsOf rest

/-- The octets of a text with escapes; the second part says that no output follows. -/
def unescape (d : Dialect) (text : String) : List UInt8 × Bool :=
  octetsOf (pieces d text)

end Pipewright.Toolbox
