import Pipewright.Yaml.Character
import Pipewright.Yaml.Plain

/-!
# How a text is written in YAML

A text with a line feed is written as a block of literal lines, a text that would stand for
something else between single quotes, and any other text without quotes. Where the text does
not allow for its form, the next more robust one is taken: plain, single quotes, double quotes.

## Main definitions

* `Traits`, `traits`: what matters about a text.
* `Form`, `form`: the form in which a text is written.
* `writeText`: the written text, up to the end of its last line.
-/

namespace Pipewright.Yaml

/-- What matters for the form of a text. -/
structure Traits where
  /-- It has no characters. -/
  isEmpty : Bool
  /-- It has a line break. -/
  hasBreak : Bool
  /-- It starts with a space or a line break. -/
  startsOpen : Bool
  /-- It ends with a space or a line break. -/
  endsOpen : Bool
  /-- It ends with a space. -/
  endsInSpace : Bool
  /-- A space follows a line break. -/
  breakSpace : Bool
  /-- A line break follows a space. -/
  spaceBreak : Bool
  /-- It has a character that is not printable. -/
  hasSpecial : Bool
  /-- It has a character with a meaning of its own where it stands. -/
  hasIndicator : Bool
  deriving DecidableEq, Repr

/-- The characters that mean something at the beginning of a text. -/
def isLeadingIndicator (c : Char) : Bool :=
  "#,[]\x7b\x7d&*!|>'\"%@\x60".toList.contains c

/-- The first character means something; `next` follows it. -/
def leadIndicates (c : Char) (next : Option Char) : Bool :=
  isLeadingIndicator c || ((c == '?' || c == ':' || c == '-') && atGap next)

/-- A character behind `previous` means something: a colon in front of a gap and a number sign
behind one do. -/
def innerIndicates (previous c : Char) (next : Option Char) : Bool :=
  (c == ':' && atGap next) || (c == '#' && isGap previous)

/-- Some character behind `previous` means something. -/
def anyInnerIndicates (previous : Char) : List Char → Bool
  | [] => false
  | c :: cs => innerIndicates previous c cs.head? || anyInnerIndicates c cs

/-- The text starts like the mark between documents. -/
def startsLikeMark (cs : List Char) : Bool :=
  ['-', '-', '-'].isPrefixOf cs || ['.', '.', '.'].isPrefixOf cs

/-- A character that means something stands in the text. -/
def indicates : List Char → Bool
  | [] => false
  | c :: cs => startsLikeMark (c :: cs) || leadIndicates c cs.head? || anyInnerIndicates c cs

/-- Two neighbours of the text satisfy `p` and `q`. -/
def hasNeighbours (p q : Char → Bool) (cs : List Char) : Bool :=
  (cs.zip cs.tail).any fun r => p r.1 && q r.2

/-- What matters about a text. -/
def traits (cs : List Char) : Traits where
  isEmpty := cs.isEmpty
  hasBreak := cs.any isBreak
  startsOpen := cs.head?.any fun c => c == ' ' || isBreak c
  endsOpen := cs.getLast?.any fun c => c == ' ' || isBreak c
  endsInSpace := cs.getLast? == some ' '
  breakSpace := hasNeighbours isBreak (· == ' ') cs
  spaceBreak := hasNeighbours (· == ' ') isBreak cs
  hasSpecial := cs.any fun c => !isPrintable c
  hasIndicator := indicates cs

namespace Traits

/-- The text may be written without quotes. -/
def allowsPlain (t : Traits) : Bool :=
  !(t.startsOpen || t.endsOpen || t.breakSpace || t.spaceBreak || t.hasSpecial || t.hasBreak ||
    t.hasIndicator)

/-- The text may be written between single quotes. -/
def allowsSingle (t : Traits) : Bool :=
  !(t.breakSpace || t.spaceBreak || t.hasSpecial)

/-- The text may be written as a block. -/
def allowsBlock (t : Traits) : Bool :=
  !(t.isEmpty || t.endsInSpace || t.spaceBreak || t.hasSpecial)

end Traits

/-- The form in which a text is written. -/
inductive Form where
  /-- Without quotes. -/
  | plain
  /-- Between single quotes. -/
  | single
  /-- Between double quotes. -/
  | double
  /-- As a block of literal lines. -/
  | block
  deriving DecidableEq, Repr

/-- The form in which a text is written. -/
def form (s : String) : Form :=
  let t := traits s.toList
  let quoted : Form := if t.allowsSingle then .single else .double
  if s.toList.contains '\n' then if t.allowsBlock then .block else .double
  else if isPlainText s && t.allowsPlain then .plain
  else quoted

/-- The blanks that indent a line. -/
def indentation (indent : Nat) : List Char :=
  List.replicate indent ' '

/-- The inside of single quotes. Quotes are doubled, and what follows line breaks is indented;
`broken` says that a line break came last. -/
def singleInside (indent : Nat) (broken : Bool) : List Char → List Char
  | [] => if broken then indentation indent else []
  | c :: cs =>
    if isBreak c then c :: singleInside indent true cs
    else
      (if broken then indentation indent else []) ++
        (if c == '\'' then ['\'', '\''] else [c]) ++ singleInside indent false cs

/-- The letters that name characters behind a backslash. -/
def namedEscapes : List (Char × Char) := [
  ('\x00', '0'), ('\x07', 'a'), ('\x08', 'b'), ('\t', 't'), ('\n', 'n'), ('\x0b', 'v'),
  ('\x0c', 'f'), ('\r', 'r'), ('\x1b', 'e'), ('"', '"'), ('\\', '\\'), ('\x85', 'N'),
  ('\u00a0', '_'), ('\u2028', 'L'), ('\u2029', 'P')]

/-- The hexadecimal digit of a number below sixteen, in capitals. -/
def capitalDigit (n : Nat) : Char :=
  if n < 10 then Char.ofNat (48 + n) else Char.ofNat (55 + n)

/-- The last `count` hexadecimal digits of a number. -/
def capitalDigits : (count : Nat) → Nat → List Char
  | 0, _ => []
  | count + 1, n => capitalDigits count (n / 16) ++ [capitalDigit (n % 16)]

/-- The escape of a character. -/
def escapeOf (c : Char) : List Char :=
  match namedEscapes.lookup c with
  | some letter => ['\\', letter]
  | none =>
    let n := c.toNat
    if n ≤ 0xFF then '\\' :: 'x' :: capitalDigits 2 n
    else if n ≤ 0xFFFF then '\\' :: 'u' :: capitalDigits 4 n
    else '\\' :: 'U' :: capitalDigits 8 n

/-- The inside of double quotes. -/
def doubleInside (cs : List Char) : List Char :=
  cs.flatMap fun c =>
    if !isPrintable c || isBreak c || c == '"' || c == '\\' then escapeOf c else [c]

/-- The lines of a block, indented; `broken` says that a line break came last. -/
def blockInside (indent : Nat) (broken : Bool) : List Char → List Char
  | [] => []
  | c :: cs =>
    if isBreak c then c :: blockInside indent true cs
    else (if broken then indentation indent else []) ++ c :: blockInside indent false cs

/-- The number of blanks a step of indentation has. -/
def indentStep : Nat := 2

/-- The hints behind the bar of a block: the step of indentation if the first line does not
show it, and what becomes of the line breaks at the end. -/
def blockHints (cs : List Char) : List Char :=
  (if cs.head?.any (fun c => c == ' ' || isBreak c) then Nat.toDigits 10 indentStep else []) ++
    match cs.reverse with
    | [] => ['-']
    | last :: before =>
      if !isBreak last then ['-']
      else if before.head?.all isBreak then ['+']
      else []

/-- The characters with a line feed at the end, unless they end in a line break. -/
def endLine (cs : List Char) : List Char :=
  if cs.getLast?.any isBreak then cs else cs ++ ['\n']

/-- The text as it is written behind a name, up to the end of its last line. Lines that it goes
on to are indented by `indent` blanks. -/
def writeText (indent : Nat) (s : String) : String :=
  let cs := s.toList
  .ofList <|
    match form s with
    | .plain => cs ++ ['\n']
    | .single => '\'' :: singleInside indent false cs ++ ['\'', '\n']
    | .double => '"' :: doubleInside cs ++ ['"', '\n']
    | .block => endLine ('|' :: blockHints cs ++ '\n' :: blockInside indent true cs)

end Pipewright.Yaml
