import Pipewright.Text.Numeral
import Pipewright.Toolbox.Execution
import Pipewright.Words.Quote

/-!
# Letting time pass

## Main definitions

* `interval?`: the number of nanoseconds that a word denotes.
* `sleep`: the program.
-/

namespace Pipewright.Toolbox

/-- The number of nanoseconds in the unit with the given letters; no letters are seconds. -/
def unit? : List Char → Option Nat
  | [] | ['s'] => some (Nat.pow 10 9)
  | ['m'] => some (60 * Nat.pow 10 9)
  | ['h'] => some (3600 * Nat.pow 10 9)
  | ['d'] => some (86400 * Nat.pow 10 9)
  | _ => none

/-- The number of nanoseconds that a word denotes: a decimal number and perhaps a unit. -/
def interval? (word : String) : Option Nat := do
  let cs := Text.unsigned word.toList
  let whole := cs.takeWhile Char.isDigit
  let behind := cs.dropWhile Char.isDigit
  let fraction := match behind with
    | '.' :: ds => ds.takeWhile Char.isDigit
    | _ => []
  let unit ← unit? (match behind with
    | '.' :: ds => ds.dropWhile Char.isDigit
    | letters => letters)
  let digits ← Text.readNat? (whole ++ fraction)
  return digits * unit / Nat.pow 10 fraction.length

/-- The complaint about a word that denotes no interval. -/
def invalidInterval (word : String) : String :=
  "sleep: invalid time interval '" ++ word ++ "'"

/-- The complaint about the arguments, if there is one. -/
def sleepComplaint? (words : List String) : Option String :=
  if words.isEmpty then some "sleep: missing operand"
  else
    let invalid := words.filter fun word => (interval? word).isNone
    if invalid.isEmpty then none else some ("\n".intercalate (invalid.map invalidInterval))

/-- Lets the sum of the intervals pass. -/
def sleep (c : Call) : Execution :=
  match c.arguments.find? fun word => 1 < word.length && word.toList.head? == some '-' with
  | some word =>
    match word.toList with
    | '-' :: '-' :: _ => complain c (unknownSwitch "sleep" word)
    | _ :: letter :: _ => complain c (unknownLetter "sleep" letter)
    | _ => complain c (invalidInterval word ++ seeHelp "sleep")
  | none =>
    match sleepComplaint? c.arguments with
    | some complaint => complain c (complaint ++ seeHelp "sleep")
    | none => { elapsed := (c.arguments.filterMap interval?).foldr (· + ·) 0, rest := c.input }

end Pipewright.Toolbox
