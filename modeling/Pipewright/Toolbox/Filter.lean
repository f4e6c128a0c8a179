import Pipewright.Text.Line
import Pipewright.Text.Numeral
import Pipewright.Toolbox.Execution
import Pipewright.Words.Quote

/-!
# Filters

A filter reads the files that its arguments name, or its standard input, and prints what it
makes of them. A hyphen names the standard input.

## Main definitions

* `cat`: prints everything.
* `head`: prints the first lines or octets.
* `wc`: counts lines, words or octets.
-/

namespace Pipewright.Toolbox

/-- What has come of reading the sources so far. -/
structure Reading where
  /-- The octets of the output. -/
  output : List UInt8 := []
  /-- The complaints. -/
  messages : String := ""
  /-- What is left of the standard input. -/
  input : List UInt8

/-- Reads a source and prints what `f` makes of it. -/
def readSource (program : String) (files : Files.Tree) (f : List UInt8 → List UInt8)
    (r : Reading) (source : String) : Reading :=
  if source == "-" then { r with output := r.output ++ f r.input, input := [] }
  else
    match files.readBytes source with
    | .ok octets => { r with output := r.output ++ f octets }
    | .error cause =>
      { r with
        messages := r.messages ++ program ++ ": " ++ Words.quote source ++ ": " ++ cause.words ++
          "\n" }

/-- Reads the sources, or the standard input if there are none. -/
def filterSources (program : String) (c : Call) (f : List UInt8 → List UInt8)
    (sources : List String) : Execution :=
  let r := (if sources.isEmpty then ["-"] else sources).foldl (readSource program c.files f)
    { input := c.input }
  { output := r.output
    messages := Text.encode r.messages
    status := some (if r.messages.isEmpty then 0 else 1)
    rest := r.input }

/-- The arguments of a program that has no switches: the operands, or a complaint. -/
def operandsOnly (program : String) : List String → Except String (List String)
  | [] => .ok []
  | word :: rest =>
    match word.toList with
    | ['-'] => (operandsOnly program rest).map (word :: ·)
    | ['-', '-'] => .ok rest
    | '-' :: '-' :: _ => .error (unknownSwitch program word)
    | '-' :: letter :: _ => .error (unknownLetter program letter)
    | _ => (operandsOnly program rest).map (word :: ·)

/-- Prints everything. -/
def cat (c : Call) : Execution :=
  match operandsOnly "cat" c.arguments with
  | .ok sources => filterSources "cat" c id sources
  | .error complaint => complain c complaint

/-- The first `n` lines. -/
def firstLinesOf (n : Nat) (octets : List UInt8) : List UInt8 :=
  ((Text.bytePieces octets).take n).flatten

/-- Prints the first lines or octets. -/
def head (c : Call) : Execution :=
  let count (word : String) := (Text.readNat? word.toList).getD 0
  match c.arguments with
  | "-n" :: n :: sources => filterSources "head" c (firstLinesOf (count n)) sources
  | "-c" :: n :: sources => filterSources "head" c (·.take (count n)) sources
  | word :: sources =>
    match word.toList with
    | '-' :: 'n' :: digits =>
      filterSources "head" c (firstLinesOf (count (.ofList digits))) sources
    | '-' :: 'c' :: digits => filterSources "head" c (·.take (count (.ofList digits))) sources
    | '-' :: d :: digits =>
      filterSources "head" c (firstLinesOf (count (.ofList (d :: digits)))) sources
    | _ => filterSources "head" c (firstLinesOf 10) (word :: sources)
  | [] => filterSources "head" c (firstLinesOf 10) []

/-- The number of words: runs of octets that are no ASCII blanks. -/
def wordCount (inside : Bool) : List UInt8 → Nat
  | [] => 0
  | b :: bs =>
    let blank := b == 0x20 || (0x09 ≤ b && b ≤ 0x0D)
    (if !blank && !inside then 1 else 0) + wordCount (!blank) bs

/-- The number, filled up with blanks in front to a width of seven. -/
def countColumn (n : Nat) : String :=
  .ofList (List.replicate (7 - (toString n).length) ' ') ++ toString n

/-- The line with the numbers that a switch asks for. -/
def countLine (switch : Option String) (octets : List UInt8) : String :=
  let lines := octets.count 0x0A
  match switch with
  | some "-l" => toString lines
  | some "-c" => toString octets.length
  | some "-w" => toString (wordCount false octets)
  | _ =>
    " ".intercalate [countColumn lines, countColumn (wordCount false octets),
      countColumn octets.length]

/-- Counts the lines, the words or the octets of the standard input. -/
def wc (c : Call) : Execution :=
  filterSources "wc" c
    (fun octets => Text.encode ((countLine c.arguments.head? octets).push '\n')) []

end Pipewright.Toolbox
