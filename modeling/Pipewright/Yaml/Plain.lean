import Pipewright.Text.Case
import Pipewright.Text.Numeral

/-!
# Texts that stand for something else

A text without quotes may stand for the null value, a truth value or a number. Such a text is
quoted when it is written, so that it stays a text.

## Main definitions

* `isNull`, `readTruth?`, `isWholeNumber`, `isFloat`: what a text may stand for.
* `isPlainText`: it stands for itself.
-/

namespace Pipewright.Yaml

/-- The text stands for the null value. -/
def isNull (s : String) : Bool :=
  s == "" || s == "null" || s == "Null" || s == "NULL" || s == "~"

/-- The truth value that the text stands for. -/
def readTruth? (s : String) : Option Bool :=
  if s == "true" || s == "True" || s == "TRUE" then some true
  else if s == "false" || s == "False" || s == "FALSE" then some false
  else none

/-- The text without a sign in front. -/
def withoutSign : List Char → List Char
  | '+' :: cs => cs
  | '-' :: cs => cs
  | cs => cs

/-- Digits behind an idle zero, with or without a sign: a text and not a number. -/
def hasIdleZero (cs : List Char) : Bool :=
  match withoutSign cs with
  | '0' :: d :: ds => (d :: ds).all Char.isDigit
  | _ => false

/-- The value of a digit up to base sixteen. -/
def digitValue? (c : Char) : Option Nat :=
  if c.isDigit then some (c.toNat - 48)
  else if 'a' ≤ c ∧ c ≤ 'f' then some (c.toNat - 87)
  else if 'A' ≤ c ∧ c ≤ 'F' then some (c.toNat - 55)
  else none

/-- The number that digits of the given base denote. -/
def readDigits? (base : Nat) (cs : List Char) : Option Nat :=
  if cs.isEmpty then none
  else cs.foldlM (fun n c => do
    let d ← digitValue? c
    if d < base then return n * base + d else none) 0

/-- The base that two characters announce. -/
def announcedBase? : List Char → Option (Nat × List Char)
  | '0' :: 'x' :: cs => some (16, cs)
  | '0' :: 'o' :: cs => some (8, cs)
  | '0' :: 'b' :: cs => some (2, cs)
  | _ => none

/-- The magnitude of the number that digits denote, in base ten or in the base that they
announce. -/
def readMagnitude? (cs : List Char) : Option Nat :=
  match announcedBase? cs with
  | some (base, digits) => readDigits? base digits
  | none => if hasIdleZero cs then none else readDigits? 10 cs

/-- The text stands for a whole number of at most 128 bits. -/
def isWholeNumber (s : String) : Bool :=
  match s.toList with
  | '-' :: cs => (readMagnitude? cs).any (· ≤ Nat.pow 2 127)
  | '+' :: cs => (readMagnitude? cs).any (· < Nat.pow 2 128)
  | cs => (readMagnitude? cs).any (· < Nat.pow 2 128)

/-- A decimal fraction: its digits and the power of ten of the last one. -/
structure Fraction where
  /-- The digits. -/
  digits : List Char
  /-- The power of ten. -/
  exponent : Int

/-- The exponent behind a decimal fraction, or zero if nothing follows. -/
def readExponent? : List Char → Option Int
  | [] => some 0
  | e :: cs =>
    if e == 'e' || e == 'E' then
      match cs with
      | '-' :: ds => (Text.readNat? ds).map fun n => -(n : Int)
      | '+' :: ds => (Text.readNat? ds).map fun n => (n : Int)
      | ds => (Text.readNat? ds).map fun n => (n : Int)
    else none

/-- The decimal fraction, without its sign, that a text denotes. -/
def readFraction? (cs : List Char) : Option Fraction := do
  let whole := cs.takeWhile Char.isDigit
  let (part, rest) := match cs.dropWhile Char.isDigit with
    | '.' :: behind => (behind.takeWhile Char.isDigit, behind.dropWhile Char.isDigit)
    | behind => ([], behind)
  if whole.isEmpty && part.isEmpty then none
  let exponent ← readExponent? rest
  return ⟨whole ++ part, exponent - part.length⟩

/-- The number just halfway between the greatest finite floating point number and the power of
two behind it. -/
def overflowBound : Nat := (Nat.pow 2 54 - 1) * Nat.pow 2 970

/-- The fraction is close to a finite floating point number. -/
def Fraction.isFinite (f : Fraction) : Bool :=
  let digits := f.digits.dropWhile (· == '0')
  let top := (digits.length : Int) + f.exponent
  if digits.isEmpty || top ≤ 300 then true
  else if 310 < top then false
  else
    let n := (Text.readNat? digits).getD 0
    if 0 ≤ f.exponent then n * Nat.pow 10 f.exponent.toNat < overflowBound
    else n < overflowBound * Nat.pow 10 (-f.exponent).toNat

/-- The text stands for a floating point number. -/
def isFloat (s : String) : Bool :=
  let cs := s.toList
  let unsigned := Text.unsigned cs
  if [".inf", ".Inf", ".INF", "-.inf", "-.Inf", "-.INF"].contains s then true
  else if ["+.inf", "+.Inf", "+.INF", ".nan", ".NaN", ".NAN"].contains s then true
  else if hasIdleZero cs then false
  else if cs.head? == some '+' && (unsigned.head? == some '+' || unsigned.head? == some '-') then
    false
  else
    let magnitude := match unsigned with
      | '-' :: rest => rest
      | rest => rest
    (readFraction? magnitude).any Fraction.isFinite

/-- The text stands for itself when it is written without quotes, and nobody would take it for
something else. -/
def isPlainText (s : String) : Bool :=
  !(isNull s || (readTruth? s).isSome || isWholeNumber s || isFloat s || hasIdleZero s.toList)

end Pipewright.Yaml
