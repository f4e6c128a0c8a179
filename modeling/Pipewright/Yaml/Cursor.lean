import Pipewright.Yaml.Character

/-!
# A place in a YAML document

The place of the next character matters as well as the character: columns show the structure
of a document.

## Main definitions

* `Cursor`: what is left, and where it starts.
* `Cursor.step`, `Cursor.lineBreak?`: the way over a character and over a line break.
* `Cursor.skipWhile`, `Cursor.spanWhile`: the way over characters of a class.
* `Gap`, `Cursor.takeGap?`: the room between words, perhaps over several lines.
-/

namespace Pipewright.Yaml

/-- A place in a document. -/
structure Cursor where
  /-- The characters that are left. -/
  rest : List Char
  /-- The number of characters in front of the place. -/
  index : Nat
  /-- The number of lines above the place. -/
  line : Nat
  /-- The number of characters of the line in front of the place. -/
  column : Nat
  deriving DecidableEq, Repr

namespace Cursor

/-- The beginning of a text. -/
def ofList (cs : List Char) : Cursor :=
  ⟨cs, 0, 0, 0⟩

/-- The next character. -/
def next? (c : Cursor) : Option Char :=
  c.rest.head?

/-- The character behind the next `n` characters. -/
def ahead? (c : Cursor) (n : Nat) : Option Char :=
  c.rest[n]?

/-- The place behind the next `n` characters of the line. -/
def step (c : Cursor) (n : Nat := 1) : Cursor :=
  { c with rest := c.rest.drop n, index := c.index + n, column := c.column + n }

/-- The place behind a line break of `n` characters. -/
def stepLine (c : Cursor) (n : Nat) : Cursor :=
  ⟨c.rest.drop n, c.index + n, c.line + 1, 0⟩

/-- The line break in front, as it counts in a text, and the place behind it. -/
def lineBreak? (c : Cursor) : Option (Char × Cursor) :=
  match c.rest with
  | '\r' :: '\n' :: _ => some ('\n', c.stepLine 2)
  | b :: _ =>
    if b == '\u2028' || b == '\u2029' then some (b, c.stepLine 1)
    else if isBreak b then some ('\n', c.stepLine 1)
    else none
  | [] => none

/-- The characters of class `p` in front and the place behind them; none of them is a line
break. -/
def spanWhile (p : Char → Bool) (c : Cursor) : List Char × Cursor :=
  let taken := c.rest.takeWhile p
  (taken, c.step taken.length)

/-- The place behind the characters of class `p`; none of them is a line break. -/
def skipWhile (p : Char → Bool) (c : Cursor) : Cursor :=
  (c.spanWhile p).2

/-- The place at the end of the line, if only blanks and a comment stand in front of it. -/
def skipComment? (c : Cursor) : Option Cursor :=
  let behind := c.skipWhile isBlankChar
  let stop := if behind.next? == some '#' then behind.skipWhile (!isBreak ·) else behind
  if atLineEnd stop.next? then some stop else none

/-- A mark between documents stands in front. -/
def atMark (c : Cursor) : Bool :=
  c.column == 0 && (['-', '-', '-'].isPrefixOf c.rest || ['.', '.', '.'].isPrefixOf c.rest) &&
    atGap (c.ahead? 3)

end Cursor

/-- The room between two words. -/
structure Gap where
  /-- The blanks in front of the first line break. -/
  blanks : List Char := []
  /-- The first line break, if it counts in the text. -/
  first : List Char := []
  /-- The other line breaks. -/
  others : List Char := []
  /-- There is a line break. -/
  broken : Bool := false
  deriving DecidableEq, Repr

namespace Gap

/-- A first line break and further ones, folded: an ordinary break alone becomes a space and is
dropped in front of others. -/
def fold (first others : List Char) : List Char :=
  if first == ['\n'] then if others.isEmpty then [' '] else others else first ++ others

/-- What the gap amounts to in a text. -/
def text (g : Gap) : List Char :=
  if g.broken then fold g.first g.others else g.blanks

end Gap

namespace Cursor

/-- The gap in front, which continues `g`, and the place behind it. Behind a line break, tabs
are refused in front of column `indent`. The gap has at most `bound` characters. -/
def takeGap? (indent : Int) : (bound : Nat) → Gap → Cursor → Option (Gap × Cursor)
  | 0, g, c => some (g, c)
  | bound + 1, g, c =>
    match c.next? with
    | none => some (g, c)
    | some b =>
      if isBlankChar b then
        if g.broken then
          if b == '\t' && c.column < indent then none else takeGap? indent bound g c.step
        else takeGap? indent bound { g with blanks := g.blanks ++ [b] } c.step
      else
        match c.lineBreak? with
        | none => some (g, c)
        | some (shown, behind) =>
          if g.broken then takeGap? indent bound { g with others := g.others ++ [shown] } behind
          else
            takeGap? indent bound { g with blanks := [], first := [shown], broken := true } behind

end Cursor

end Pipewright.Yaml
