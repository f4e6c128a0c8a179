import Pipewright.Yaml.Scalar.Bare
import Pipewright.Yaml.Scalar.Block
import Pipewright.Yaml.Scalar.Quoted
import Pipewright.Yaml.Tag

/-!
# From a document to tokens

Indentation becomes tokens: where a line is indented further than what it belongs to, a list or
a mapping begins, and where a line is indented less, one ends. That something is a key shows
only at the colon behind it, so the places where a key may have begun are kept, and the key
token is put there when the colon comes. A key ends on its line and within 1024 characters.

## Main definitions

* `KeyPlace`: a place where a key may have begun.
* `Scan`: the tokens so far and what the structure depends on.
* `Scan.advance?`: the step over one token.
* `tokens?`: the tokens of a text.
-/

namespace Pipewright.Yaml

/-- A place where a key may have begun. -/
structure KeyPlace where
  /-- The number of tokens in front of it. -/
  token : Nat
  /-- The place. -/
  place : Cursor
  /-- A key has to be there, because the line starts with it. -/
  required : Bool

/-- The state of the reading. -/
structure Scan where
  /-- The place that has been reached. -/
  cursor : Cursor
  /-- The tokens so far. -/
  tokens : Array Token := #[]
  /-- The column of the innermost list or mapping of lines, or -1. -/
  indent : Int := -1
  /-- The columns of those around it. -/
  outer : List Int := []
  /-- A key may begin here. -/
  keyAllowed : Bool := true
  /-- The place of a possible key outside all brackets, or inside the innermost ones. -/
  key : Option KeyPlace := none
  /-- The places of possible keys around the brackets, the innermost first. -/
  keys : List (Option KeyPlace) := []

namespace Scan

/-- The reading is between brackets. -/
def inFlow (x : Scan) : Bool :=
  !x.keys.isEmpty

/-- The state with one more token. -/
def push (x : Scan) (t : Token) : Scan :=
  { x with tokens := x.tokens.push t }

/-- The state at another place. -/
def moveTo (x : Scan) (c : Cursor) : Scan :=
  { x with cursor := c }

/-- The column of the place that has been reached. -/
def column (x : Scan) : Int :=
  x.cursor.column

/-! ### Keys -/

/-- The greatest number of characters in front of the colon of a key. -/
def keyLimit : Nat := 1024

/-- The key that began at `k` can no longer end. -/
def isStale (x : Scan) (k : KeyPlace) : Bool :=
  k.place.line < x.cursor.line || k.place.index + keyLimit < x.cursor.index

/-- A possible key, unless it can no longer end; a required one is an error then. -/
def refreshKey? (x : Scan) (k : Option KeyPlace) : Option (Option KeyPlace) :=
  match k with
  | none => some none
  | some k => if x.isStale k then if k.required then none else some none else some (some k)

/-- The state without possible keys that can no longer end. -/
def refreshKeys? (x : Scan) : Option Scan := do
  return { x with key := ← x.refreshKey? x.key, keys := ← x.keys.mapM x.refreshKey? }

/-- The state without the innermost possible key; a required one is an error. -/
def dropKey? (x : Scan) : Option Scan :=
  if x.key.any (·.required) then none else some { x with key := none }

/-- The state with a possible key at the place that has been reached. -/
def saveKey? (x : Scan) : Option Scan := do
  if x.keyAllowed then
    let x ← x.dropKey?
    return { x with key := some ⟨x.tokens.size, x.cursor, !x.inFlow && x.indent == x.column⟩ }
  return x

/-! ### Indentation -/

/-- The array with an element at position `i`. -/
def insertAt (ts : Array Token) (i : Nat) (t : Token) : Array Token :=
  (ts.toList.take i ++ t :: ts.toList.drop i).toArray

/-- The state in which lines belong to column `column`, where `start` begins in front of token
`i`; nothing happens between brackets and unless the column is further right. -/
def indentTo (x : Scan) (column : Int) (i : Nat) (start : Token) : Scan :=
  if x.inFlow || column ≤ x.indent then x
  else
    { x with
      indent := column
      outer := x.indent :: x.outer
      tokens := insertAt x.tokens i start }

/-- The state in which nothing that belongs further right than `column` is open; `outer` are the
columns around. -/
def dedentFrom (x : Scan) (column : Int) : List Int → Scan
  | [] => x
  | previous :: outer =>
    if column < x.indent then
      dedentFrom { x with indent := previous, outer := outer, tokens := x.tokens.push .blockEnd }
        column outer
    else x

/-- The state in which nothing that belongs further right than `column` is open. -/
def dedentTo (x : Scan) (column : Int) : Scan :=
  if x.inFlow then x else x.dedentFrom column x.outer

/-! ### Tokens -/

/-- The state in front of the next token: blanks, comments and line breaks are skipped. Tabs
are no blanks where a key may begin. There are at most `bound` lines. -/
def skipGap : (bound : Nat) → Scan → Scan
  | 0, x => x
  | bound + 1, x =>
    let c := x.cursor
    let c := if c.column == 0 && c.next? == some byteOrderMark then c.step else c
    let c := c.skipWhile fun b => b == ' ' || ((x.inFlow || !x.keyAllowed) && b == '\t')
    let c := if c.next? == some '#' then c.skipWhile (!isBreak ·) else c
    match c.lineBreak? with
    | some (_, below) =>
      skipGap bound { x with cursor := below, keyAllowed := x.keyAllowed || !x.inFlow }
    | none => x.moveTo c

/-- The state behind a token of `n` characters. -/
def take (x : Scan) (n : Nat) (t : Token) : Scan :=
  (x.push t).moveTo (x.cursor.step n)

/-- The state at the end of everything that is open outside brackets. -/
def closeBlocks? (x : Scan) : Option Scan := do
  return { ← (x.dedentTo (-1)).dropKey? with keyAllowed := false }

/-- A directive. -/
def takeDirective? (x : Scan) : Option Scan := do
  let x ← x.closeBlocks?
  let (t, behind) ← Yaml.takeDirective? x.cursor
  return (x.push t).moveTo behind

/-- A mark between documents. -/
def takeMark? (x : Scan) (t : Token) : Option Scan := do
  return (← x.closeBlocks?).take 3 t

/-- An opening bracket. -/
def openFlow? (x : Scan) (t : Token) : Option Scan := do
  let x ← x.saveKey?
  return { x with key := none, keys := x.key :: x.keys, keyAllowed := true }.take 1 t

/-- A closing bracket. -/
def closeFlow? (x : Scan) (t : Token) : Option Scan := do
  let x ← x.dropKey?
  let x := match x.keys with
    | [] => x
    | key :: keys => { x with key := key, keys := keys }
  return { x with keyAllowed := false }.take 1 t

/-- A comma between brackets. -/
def takeFlowEntry? (x : Scan) : Option Scan := do
  return { ← x.dropKey? with keyAllowed := true }.take 1 .flowEntry

/-- The hyphen of an item. -/
def takeBlockEntry? (x : Scan) : Option Scan := do
  if !x.inFlow && !x.keyAllowed then none
  let x := x.indentTo x.column x.tokens.size .blockSequenceStart
  return { ← x.dropKey? with keyAllowed := true }.take 1 .blockEntry

/-- A question mark, which announces a key. -/
def takeKey? (x : Scan) : Option Scan := do
  if !x.inFlow && !x.keyAllowed then none
  let x := x.indentTo x.column x.tokens.size .blockMappingStart
  let x ← x.dropKey?
  return { x with keyAllowed := !x.inFlow }.take 1 .key

/-- A colon, which makes a key of what is at the possible place, or follows a key that was
announced. -/
def takeValue? (x : Scan) : Option Scan := do
  match x.key with
  | some k =>
    let x := { x with tokens := insertAt x.tokens k.token .key, key := none, keyAllowed := false }
    return (x.indentTo k.place.column k.token .blockMappingStart).take 1 .value
  | none =>
    if !x.inFlow && !x.keyAllowed then none
    let x := x.indentTo x.column x.tokens.size .blockMappingStart
    return { x with keyAllowed := !x.inFlow }.take 1 .value

/-- A part of a node that a key may begin with: `taken` is the token with the place behind
it. -/
def takeNodePart? (x : Scan) (taken : Option (Token × Cursor)) : Option Scan := do
  let x ← x.saveKey?
  let (t, behind) ← taken
  return { x with keyAllowed := false, cursor := behind, tokens := x.tokens.push t }

/-- A block of lines. -/
def takeBlock? (x : Scan) (style : ScalarStyle) : Option Scan := do
  let x ← x.dropKey?
  let (text, behind) ← Yaml.takeBlock? (style == .literal) x.indent x.cursor
  return ({ x with keyAllowed := true }.push (.scalar text style)).moveTo behind

/-- A text without quotes. -/
def takeBare? (x : Scan) : Option Scan := do
  let x ← x.saveKey?
  let (text, behind, broken) ← Yaml.takeBare? x.inFlow (x.indent + 1) x.cursor
  return ({ x with keyAllowed := broken }.push (.scalar text .plain)).moveTo behind

/-- The characters that no text without quotes starts with. -/
def isIndicator (c : Char) : Bool :=
  "-?:,[]\x7b\x7d#&*!|>'\"%@\x60".toList.contains c

/-- A text without quotes starts with `ch` in front of `behind`. -/
def startsBare (inFlow : Bool) (ch : Char) (behind : Option Char) : Bool :=
  !(isGap ch || isIndicator ch) || (ch == '-' && !behind.any isBlankChar) ||
    (!inFlow && (ch == '?' || ch == ':') && !atGap behind)

/-- The step over the token that starts with `ch`. -/
def takeToken? (x : Scan) (ch : Char) : Option Scan :=
  let c := x.cursor
  let behind := c.ahead? 1
  if c.column == 0 && ch == '%' then x.takeDirective?
  else if c.atMark then x.takeMark? (if ch == '-' then .documentStart else .documentEnd)
  else if ch == '[' then x.openFlow? .flowSequenceStart
  else if ch == '\x7b' then x.openFlow? .flowMappingStart
  else if ch == ']' then x.closeFlow? .flowSequenceEnd
  else if ch == '\x7d' then x.closeFlow? .flowMappingEnd
  else if ch == ',' then x.takeFlowEntry?
  else if ch == '-' && atGap behind then x.takeBlockEntry?
  else if ch == '?' && (x.inFlow || atGap behind) then x.takeKey?
  else if ch == ':' && (x.inFlow || atGap behind) then x.takeValue?
  else if ch == '*' then x.takeNodePart? ((takeName? c).map fun r => (.alias r.1, r.2))
  else if ch == '&' then x.takeNodePart? ((takeName? c).map fun r => (.anchor r.1, r.2))
  else if ch == '!' then x.takeNodePart? (takeTag? x.inFlow c)
  else if ch == '|' && !x.inFlow then x.takeBlock? .literal
  else if ch == '>' && !x.inFlow then x.takeBlock? .folded
  else if ch == '\'' then x.takeNodePart? ((takeQuoted? c).map fun r => (.scalar r.1 .single, r.2))
  else if ch == '"' then x.takeNodePart? ((takeQuoted? c).map fun r => (.scalar r.1 .double, r.2))
  else if startsBare x.inFlow ch behind then x.takeBare?
  else none

/-- The state after the next token, and whether there was one: at the end of the text all that
is open is closed. -/
def advance? (x : Scan) : Option (Scan × Bool) := do
  let x := skipGap (x.cursor.rest.length + 1) x
  let x ← x.refreshKeys?
  let x := x.dedentTo x.column
  match x.cursor.next? with
  | none => return (← x.closeBlocks?, false)
  | some ch => return (← x.takeToken? ch, true)

/-- The tokens up to the end of the text; there are at most `bound` steps. -/
def finish? : (bound : Nat) → Scan → Option (List Token)
  | 0, _ => none
  | bound + 1, x => do
    match ← x.advance? with
    | (x, false) => return x.tokens.toList
    | (x, true) => finish? bound x

end Scan

/-- The tokens of a text. A byte order mark in front of it is ignored; characters that no
document may hold are refused. -/
def tokens? (input : String) : Option (List Token) :=
  let cs := match input.toList with
    | c :: cs => if c == byteOrderMark then cs else c :: cs
    | [] => []
  if cs.all isAdmitted then Scan.finish? (cs.length + 2) { cursor := .ofList cs } else none

end Pipewright.Yaml
