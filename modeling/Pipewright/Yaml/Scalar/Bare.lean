import Pipewright.Yaml.Cursor

/-!
# Texts without quotes

A text without quotes ends at a colon in front of a gap, at a comment, at a mark between
documents and at a line that is not indented. Between brackets it also ends at a comma or a
bracket. Line breaks in it are folded.

## Main definitions

* `takeBare?`: a text without quotes.
-/

namespace Pipewright.Yaml

/-- A comma, a bracket or a brace. -/
def isFlowIndicator (c : Char) : Bool :=
  c == ',' || c == '[' || c == ']' || c == '\x7b' || c == '\x7d'

/-- A text without quotes ends in front of the character; `inFlow` says that it stands between
brackets. -/
def endsBare (inFlow : Bool) (ch : Char) (behind : Option Char) : Bool :=
  (ch == ':' && atGap behind) || (inFlow && isFlowIndicator ch)

/-- A colon between brackets that is followed by something it must not be followed by. -/
def isStrayColon (inFlow : Bool) (ch : Char) (behind : Option Char) : Bool :=
  inFlow && ch == ':' && behind.any fun b => isFlowIndicator b || b == '?'

/-- The characters up to the next gap or the end of the text. There are at most `bound`. -/
def takeBareWord? (inFlow : Bool) : (bound : Nat) → List Char → Cursor → Option (List Char × Cursor)
  | 0, acc, c => some (acc.reverse, c)
  | bound + 1, acc, c =>
    match c.next? with
    | none => some (acc.reverse, c)
    | some ch =>
      if isGap ch then some (acc.reverse, c)
      else if isStrayColon inFlow ch (c.ahead? 1) then none
      else if endsBare inFlow ch (c.ahead? 1) then some (acc.reverse, c)
      else takeBareWord? inFlow bound (ch :: acc) c.step

/-- The words of a text, which continue `acc` behind the gap `gap`; columns in front of
`indent` do not belong to it. The last answer says that a line break follows the text. There
are at most `bound` words. -/
def takeBareWords? (inFlow : Bool) (indent : Int) :
    (bound : Nat) → String → Gap → Cursor → Option (String × Cursor × Bool)
  | 0, acc, gap, c => some (acc, c, gap.broken)
  | bound + 1, acc, gap, c => do
    if c.atMark || c.next? == some '#' then return (acc, c, gap.broken)
    let (word, behind) ← takeBareWord? inFlow c.rest.length [] c
    if word.isEmpty then return (acc, c, gap.broken)
    let acc := acc ++ String.ofList (gap.text ++ word)
    let (gap, stop) ← behind.takeGap? indent behind.rest.length {}
    if !inFlow && stop.column < indent then return (acc, stop, gap.broken)
    takeBareWords? inFlow indent bound acc gap stop

/-- The text without quotes in front, the place behind it and the gap that follows, and whether
there is a line break in that gap. -/
def takeBare? (inFlow : Bool) (indent : Int) (c : Cursor) : Option (String × Cursor × Bool) :=
  takeBareWords? inFlow indent (c.rest.length + 1) "" {} c

end Pipewright.Yaml
