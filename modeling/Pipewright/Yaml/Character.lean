/-!
# Classes of characters in YAML

YAML knows five line breaks, two blanks and a set of printable characters. Texts with other
characters are refused when they are read and escaped when they are written.

## Main definitions

* `isBreak`, `isBlankChar`, `isGap`: the ends of lines and the room between words.
* `isAdmitted`: the characters that a document may hold.
* `isPrintable`: the characters that are written as they are.
-/

namespace Pipewright.Yaml

/-- The character ends a line. -/
def isBreak (c : Char) : Bool :=
  c == '\n' || c == '\r' || c == '\x85' || c == '\u2028' || c == '\u2029'

/-- The character is a space or a tab. -/
def isBlankChar (c : Char) : Bool :=
  c == ' ' || c == '\t'

/-- The character is a blank or ends a line. -/
def isGap (c : Char) : Bool :=
  isBlankChar c || isBreak c

/-- At a gap or at the end of the text. -/
def atGap (next : Option Char) : Bool :=
  next.all isGap

/-- At a line break or at the end of the text. -/
def atLineEnd (next : Option Char) : Bool :=
  next.all isBreak

/-- A letter, a digit, a low line or a hyphen. -/
def isNameChar (c : Char) : Bool :=
  c.isAlphanum || c == '_' || c == '-'

/-- The character may stand in a document. -/
def isAdmitted (c : Char) : Bool :=
  let n := c.toNat
  n == 0x9 || n == 0xA || n == 0xD || (0x20 ≤ n && n ≤ 0x7E) || n == 0x85 ||
    (0xA0 ≤ n && n ≤ 0xFFFD) || 0x10000 ≤ n

/-- The mark that some programs put in front of a text. -/
def byteOrderMark : Char := '\uFEFF'

/-- The character is written as it is. -/
def isPrintable (c : Char) : Bool :=
  let n := c.toNat
  n == 0xA || (0x20 ≤ n && n ≤ 0x7E) || (0xA0 ≤ n && n ≤ 0xFFFD && c != byteOrderMark)

end Pipewright.Yaml
