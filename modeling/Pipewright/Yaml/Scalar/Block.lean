import Pipewright.Yaml.Cursor

/-!
# Blocks of lines

A block starts behind a bar or an arrow and goes on as long as its lines are indented. Behind a
bar the lines are literal; behind an arrow single line breaks are folded, except next to lines
that are indented further. Line breaks at the end are kept, clipped to one or stripped.

## Main definitions

* `Header`, `takeHeader?`: the hints in the first line.
* `takeBlock?`: the text of a block.
-/

namespace Pipewright.Yaml

/-- What becomes of line breaks at the end of a block. -/
inductive Chomping where
  /-- None is kept. -/
  | strip
  /-- One is kept. -/
  | clip
  /-- All are kept. -/
  | keep
  deriving DecidableEq, Repr

/-- The hints in the first line of a block. -/
structure Header where
  /-- What becomes of line breaks at the end. -/
  chomping : Chomping
  /-- How far the lines are indented, or zero if the first line shows it. -/
  increment : Nat

/-- The chomping that a character stands for. -/
def chomping? (c : Option Char) : Option Chomping :=
  if c == some '+' then some .keep else if c == some '-' then some .strip else none

/-- The increment in front, zero if there is none; a zero is refused. -/
def takeIncrement? (c : Cursor) : Option (Nat × Cursor) :=
  match c.next? with
  | some d =>
    if d == '0' then none
    else if d.isDigit then some (d.toNat - 48, c.step)
    else some (0, c)
  | none => some (0, c)

/-- The hints behind the bar or arrow, and the place behind their line. -/
def takeHeader? (c : Cursor) : Option (Header × Cursor) := do
  let (header, c) ← match chomping? c.next? with
    | some chomping => (takeIncrement? c.step).map fun r => ((⟨chomping, r.1⟩ : Header), r.2)
    | none =>
      (takeIncrement? c).map fun (increment, behind) =>
        if increment == 0 then (⟨.clip, 0⟩, behind)
        else
          match chomping? behind.next? with
          | some chomping => (⟨chomping, increment⟩, behind.step)
          | none => (⟨.clip, increment⟩, behind)
  let c ← c.skipComment?
  return (header, match c.lineBreak? with
    | some (_, behind) => behind
    | none => c)

/-- The empty lines in front and the place behind their indentation, with the greatest column
reached. `indent` is the indentation, or zero if it is not known yet; a tab in it is refused.
There are at most `bound` lines. -/
def takeEmptyLines? (indent : Nat) :
    (bound : Nat) → (widest : Nat) → List Char → Cursor → Option (List Char × Nat × Cursor)
  | 0, widest, acc, c => some (acc, widest, c)
  | bound + 1, widest, acc, c =>
    let blanks := c.rest.takeWhile (· == ' ')
    let count := if indent == 0 then blanks.length else min blanks.length (indent - c.column)
    let c := c.step count
    let widest := max widest c.column
    if (indent == 0 || c.column < indent) && c.next? == some '\t' then none
    else
      match c.lineBreak? with
      | none => some (acc, widest, c)
      | some (shown, behind) => takeEmptyLines? indent bound widest (acc ++ [shown]) behind

/-- The text so far, with the line breaks behind its last line. -/
structure BlockText where
  /-- The text up to the last line. -/
  text : String := ""
  /-- The line break behind the last line. -/
  first : List Char := []
  /-- The line breaks of the empty lines that follow. -/
  others : List Char := []
  /-- The last line starts with a blank. -/
  blankLine : Bool := false

/-- The line breaks in front of the next line, which starts with a blank or not. -/
def BlockText.joint (b : BlockText) (literal blank : Bool) : List Char :=
  if !literal && b.first == ['\n'] && !b.blankLine && !blank then
    if b.others.isEmpty then [' '] else b.others
  else b.first ++ b.others

/-- The lines of a block that are indented by `indent`. There are at most `bound`. -/
def takeBlockLines? (literal : Bool) (indent : Nat) :
    (bound : Nat) → BlockText → Cursor → Option (BlockText × Cursor)
  | 0, b, c => some (b, c)
  | bound + 1, b, c =>
    if c.column != indent || c.next? == none then some (b, c)
    else do
      let blank := c.next?.any isBlankChar
      let (line, stop) := c.spanWhile (!isBreak ·)
      let (first, behind) := match stop.lineBreak? with
        | some (shown, behind) => ([shown], behind)
        | none => ([], stop)
      let (others, _, behind) ← takeEmptyLines? indent (behind.rest.length + 1) 0 [] behind
      takeBlockLines? literal indent bound
        ⟨b.text ++ String.ofList (b.joint literal blank ++ line), first, others, blank⟩ behind

/-- The text with the line breaks at its end that are kept. -/
def BlockText.chomp (b : BlockText) : Chomping → String
  | .strip => b.text
  | .clip => b.text ++ String.ofList b.first
  | .keep => b.text ++ String.ofList (b.first ++ b.others)

/-- The text of the block in front and the place behind it. `indent` is the indentation of what
the block belongs to. -/
def takeBlock? (literal : Bool) (indent : Int) (c : Cursor) : Option (String × Cursor) := do
  let (header, c) ← takeHeader? c.step
  let base := indent.toNat
  let known := if header.increment == 0 then 0 else base + header.increment
  let (others, widest, c) ← takeEmptyLines? known (c.rest.length + 1) 0 [] c
  let depth := if known == 0 then max widest (max (indent + 1).toNat 1) else known
  let (b, c) ← takeBlockLines? literal depth (c.rest.length + 1) { others := others } c
  return (b.chomp header.chomping, c)

end Pipewright.Yaml
