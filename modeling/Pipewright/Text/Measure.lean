/-!
# Byte offsets in a text

Positions in a text are counted in bytes of its UTF-8 form. This module measures lists of
characters in bytes and cuts them at byte offsets; a cut inside a character falls behind it.

## Main definitions

* `byteLength`: the number of bytes of the UTF-8 form.
* `dropBytes`, `takeBytes`, `slice`: cuts at byte offsets.
* `isBoundary`: the offset falls between two characters.
* `boundaryUpTo?`, `takeWithin`: the cut that keeps within a number of bytes.
-/

namespace Pipewright.Text

/-- The number of bytes of the UTF-8 form of the characters. -/
def byteLength : List Char → Nat
  | [] => 0
  | c :: cs => c.utf8Size + byteLength cs

/-- The characters that start at or behind byte offset `n`. -/
def dropBytes : Nat → List Char → List Char
  | 0, cs => cs
  | _, [] => []
  | n, c :: cs => dropBytes (n - c.utf8Size) cs

/-- The characters that start before byte offset `n`. -/
def takeBytes : Nat → List Char → List Char
  | 0, _ => []
  | _, [] => []
  | n, c :: cs => c :: takeBytes (n - c.utf8Size) cs

/-- The characters from byte offset `start` up to byte offset `stop`. -/
def slice (start stop : Nat) (cs : List Char) : List Char :=
  takeBytes (stop - start) (dropBytes start cs)

/-- Byte offset `n` falls between two characters of the text or at one of its ends. -/
def isBoundary : Nat → List Char → Bool
  | 0, _ => true
  | _, [] => false
  | n, c :: cs => if n < c.utf8Size then false else isBoundary (n - c.utf8Size) cs

/-- The last boundary of the text up to byte offset `n`, searched for one byte at a time; none if
the search leaves the text at its front. -/
def boundaryUpTo? (n : Nat) (cs : List Char) : Option Nat :=
  if isBoundary n cs then some n
  else
    match n with
    | 0 => none
    | n + 1 => boundaryUpTo? n cs

/-- The longest beginning of the text that has at most `n` bytes. -/
def takeWithin (n : Nat) (cs : List Char) : List Char :=
  if byteLength cs ≤ n then cs else takeBytes ((boundaryUpTo? n cs).getD 0) cs

end Pipewright.Text
