/-!
# Blank characters

The characters that separate words are those with the Unicode property `White_Space`. This
module holds the property and the trimming of texts at both ends, on lists of characters and
on strings.

## Main definitions

* `isBlank`: the `White_Space` property.
* `trimChars`, `trim`: a text without the blanks at its ends.
* `isBlankText`: nothing but blanks.
-/

namespace Pipewright.Text

/-- The characters with the Unicode property `White_Space`: the ASCII controls from tab to
carriage return, the space, and the seventeen blanks outside ASCII. -/
def isBlank (c : Char) : Bool :=
  let n := c.toNat
  (0x9 ≤ n && n ≤ 0xD) || n == 0x20 || n == 0x85 || n == 0xA0 || n == 0x1680 ||
    (0x2000 ≤ n && n ≤ 0x200A) || n == 0x2028 || n == 0x2029 || n == 0x202F || n == 0x205F ||
    n == 0x3000

/-- The list without the characters satisfying `p` at its end. -/
def dropWhileEnd (p : Char → Bool) (cs : List Char) : List Char :=
  (cs.reverse.dropWhile p).reverse

/-- The text without the blanks at its end. -/
def trimEndChars (cs : List Char) : List Char :=
  dropWhileEnd isBlank cs

/-- The text without the blanks at both ends. -/
def trimChars (cs : List Char) : List Char :=
  trimEndChars (cs.dropWhile isBlank)

/-- The text without the blanks at both ends. -/
def trim (s : String) : String :=
  .ofList (trimChars s.toList)

/-- The text without the blanks at its end. -/
def trimEnd (s : String) : String :=
  .ofList (trimEndChars s.toList)

/-- The text holds nothing but blanks. -/
def isBlankText (s : String) : Bool :=
  s.toList.all isBlank

/-- The first word of a trimmed text and the trimmed text behind it. -/
def cutWord (s : String) : String × String :=
  let cs := trimChars s.toList
  (.ofList (cs.takeWhile (!isBlank ·)), .ofList (trimChars (cs.dropWhile (!isBlank ·))))

end Pipewright.Text
