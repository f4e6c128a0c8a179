import Pipewright.Text.Numeral
import Pipewright.Toolbox.Execution
import Pipewright.Toolbox.Template

/-!
# Printing with a template

The first argument is a template, and the others take the place of its conversions. The template
is used again as long as arguments are left.

## Main definitions

* `Layout`: the flags, width and precision of a conversion.
* `printf`: the program.
-/

namespace Pipewright.Toolbox

/-- The flags, width and precision of a conversion. -/
structure Layout where
  /-- The text stands at the left. -/
  left : Bool
  /-- Numbers are filled up with zeros. -/
  zeros : Bool
  /-- The least number of characters. -/
  width : Nat
  /-- The greatest number of characters of a text. -/
  precision? : Option Nat

/-- The layout that the characters between the percent sign and the letter select. -/
def Layout.ofModifiers (cs : List Char) : Layout :=
  let isFlag (c : Char) := ['-', '+', ' ', '#', '0'].contains c
  let flags := cs.takeWhile isFlag
  let sizes := cs.dropWhile isFlag
  { left := flags.contains '-'
    zeros := flags.contains '0'
    width := (Text.readNat? (sizes.takeWhile Char.isDigit)).getD 0
    precision? :=
      match sizes.dropWhile Char.isDigit with
      | '.' :: digits => some ((Text.readNat? digits).getD 0)
      | _ => none }

/-- The octets filled up to the width of the layout. -/
def fill (l : Layout) (filler : UInt8) (octets : List UInt8) : List UInt8 :=
  let padding := List.replicate (l.width - octets.length) (if l.left then 0x20 else filler)
  if l.left then octets ++ padding else padding ++ octets

/-- The number that an argument denotes. -/
def integer? (word : String) : Option Int :=
  match word.toList with
  | '-' :: cs => (Text.readNat? cs).map fun n => -(n : Int)
  | cs => (Text.readNat? (Text.unsigned cs)).map Int.ofNat

/-- What has come of printing so far. -/
structure Printing where
  /-- The octets of the output. -/
  output : List UInt8 := []
  /-- The complaints. -/
  messages : String := ""
  /-- The arguments that are left. -/
  arguments : List String
  /-- An argument has taken the place of a conversion. -/
  consumed : Bool := false
  /-- The template has a conversion. -/
  converts : Bool := false
  /-- No output follows. -/
  stopped : Bool := false

namespace Printing

/-- More output. -/
def emit (p : Printing) (octets : List UInt8) : Printing :=
  { p with output := p.output ++ octets }

/-- The next argument, and the printing without it. -/
def next (p : Printing) : String × Printing :=
  match p.arguments with
  | [] => ("", { p with converts := true })
  | word :: rest => (word, { p with arguments := rest, consumed := true, converts := true })

/-- Puts an argument in the place of a conversion. -/
def convert (p : Printing) (l : Layout) (letter : Char) : Printing :=
  if letter == '%' then p.emit [0x25]
  else if letter == 's' then
    let (word, p) := p.next
    let octets := Text.encode word
    p.emit (fill l 0x20 (match l.precision? with
      | some n => octets.take n
      | none => octets))
  else if letter == 'b' then
    let (word, p) := p.next
    let (octets, stopped) := unescape { leadingZero := true } word
    { p.emit (fill l 0x20 octets) with stopped := stopped }
  else if letter == 'c' then
    let (word, p) := p.next
    p.emit (fill l 0x20 ((Text.encode word).take 1))
  else if letter == 'd' || letter == 'i' then
    let (word, p) := p.next
    let filler : UInt8 := if l.zeros then 0x30 else 0x20
    match if word.isEmpty then some 0 else integer? word with
    | some n => p.emit (fill l filler (Text.encode (toString n)))
    | none =>
      { p.emit (fill l filler (Text.encode "0")) with
        messages := p.messages ++ "printf: '" ++ word ++ "': expected a numeric value\n" }
  else
    { p with
      messages := p.messages ++ "printf: %" ++ String.singleton letter ++
        ": invalid conversion specification\n"
      stopped := true }

/-- Prints a piece of the template. -/
def piece (p : Printing) (q : Piece) : Printing :=
  if p.stopped then p
  else
    match q with
    | .octet b => p.emit [b]
    | .stop => { p with stopped := true }
    | .conversion modifiers letter => p.convert (.ofModifiers modifiers) letter

/-- Prints the template again and again, at most `rounds` times, as long as it takes arguments
and some are left. -/
def repeatTemplate (template : List Piece) : (rounds : Nat) → Printing → Printing
  | 0, p => p
  | rounds + 1, p =>
    let p' := template.foldl piece { p with consumed := false }
    if p'.stopped || !p'.consumed || p'.arguments.isEmpty then p'
    else repeatTemplate template rounds p'

end Printing

/-- The complaint about arguments that no conversion takes. -/
def excessWarning (word : String) : String :=
  "printf: warning: ignoring excess arguments, starting with '" ++ word ++ "'\n"

/-- Prints with the template that is the first argument. Arguments that no conversion takes are
complained about if `warns` says so. -/
def printfWith (d : Dialect) (warns : Bool) (c : Call) (template : String)
    (arguments : List String) : Execution :=
  let p := Printing.repeatTemplate (pieces d template) (arguments.length + 1) { arguments }
  let excess := match p.arguments with
    | word :: _ => if warns && !p.converts && !p.stopped then excessWarning word else ""
    | [] => ""
  { output := p.output
    messages := Text.encode (p.messages ++ excess)
    status := some (if p.messages.isEmpty then 0 else 1)
    rest := c.input }

/-- The arguments without two hyphens in front. -/
def withoutEscape : List String → List String
  | "--" :: rest => rest
  | words => words

/-- Prints with the template that is the first argument. -/
def printf (c : Call) : Execution :=
  match withoutEscape c.arguments with
  | [] => complain c ("printf: missing operand" ++ seeHelp "printf")
  | template :: arguments =>
    printfWith { conversions := true, hexadecimal := true } true c template arguments

/-- The command of the shell, which says nothing of excess arguments. -/
def plainPrintf (c : Call) : Execution :=
  match withoutEscape c.arguments with
  | [] => { complain c "printf: usage: printf format [arg ...]" with status := some 2 }
  | template :: arguments => printfWith { conversions := true } false c template arguments

end Pipewright.Toolbox
