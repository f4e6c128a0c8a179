import Pipewright.Toolbox.Execution
import Pipewright.Toolbox.Template

/-!
# Printing the arguments

## Main definitions

* `echo`: the program, which knows switches for escapes.
* `plainEcho`: the command of the shell, which always reads escapes.
-/

namespace Pipewright.Toolbox

/-- What the switches in front of the arguments select. -/
structure EchoSwitches where
  /-- A line feed ends the output. -/
  lineFeed : Bool := true
  /-- Escapes are read. -/
  escapes : Bool := false

/-- The switches after one more letter. -/
def EchoSwitches.add (s : EchoSwitches) (letter : Char) : EchoSwitches :=
  if letter == 'n' then { s with lineFeed := false } else { s with escapes := letter == 'e' }

/-- The letters of a word that is made of switches. -/
def echoLetters? (word : String) : Option (List Char) :=
  match word.toList with
  | '-' :: c :: cs => if (c :: cs).all (['n', 'e', 'E'].contains ·) then some (c :: cs) else none
  | _ => none

/-- The switches in front of the arguments, and the arguments behind them. -/
def echoSwitches (s : EchoSwitches) : List String → EchoSwitches × List String
  | [] => (s, [])
  | word :: rest =>
    match echoLetters? word with
    | some letters => echoSwitches (letters.foldl EchoSwitches.add s) rest
    | none => (s, word :: rest)

/-- The words with blanks between them, with their escapes read. -/
def echoOctets (d : Dialect) (words : List String) (lineFeed : Bool) : List UInt8 :=
  let (octets, stopped) := unescape d (" ".intercalate words)
  octets ++ if lineFeed && !stopped then [0x0A] else []

/-- Prints the arguments with blanks between them. -/
def echo (c : Call) : Execution :=
  let (s, words) := echoSwitches {} c.arguments
  succeed c <|
    if s.escapes then echoOctets { hexadecimal := true, leadingZero := true } words s.lineFeed
    else Text.encode (" ".intercalate words) ++ if s.lineFeed then [0x0A] else []

/-- Prints the arguments with blanks between them and with their escapes read; a first argument
`-n` leaves out the line feed. -/
def plainEcho (c : Call) : Execution :=
  succeed c <|
    match c.arguments with
    | "-n" :: words => echoOctets { leadingZero := true } words false
    | words => echoOctets { leadingZero := true } words true

end Pipewright.Toolbox
