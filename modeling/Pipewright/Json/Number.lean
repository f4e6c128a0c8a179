import Pipewright.Decimal.Shortest
import Pipewright.Json.Reader

/-!
# Numbers that are refused

Nothing that is read asks for a number, but the message about a number in the wrong place shows
its value. A whole number of 64 bits is shown as it is, any other number as the floating point
number that it is taken for.

## Main definitions

* `Numeral`: digits with a power of ten.
* `Numeral.float?`: the floating point number.
* `readNumber`: the reading of a number.
-/

namespace Pipewright.Json

/-- The digits of a number that fit into 64 bits, and the power of ten they are scaled with. -/
structure Numeral where
  /-- The digits. -/
  significand : Nat
  /-- The power of ten. -/
  exponent : Int
  deriving DecidableEq, Repr

/-- Digits are taken behind `significand` as long as 64 bits hold them; the second answer is
the number of digits left out. -/
def takeDigits (significand : Nat) : List Char → Nat × Nat
  | [] => (significand, 0)
  | d :: ds =>
    let next := 10 * significand + (d.toNat - 48)
    if next < Nat.pow 2 64 then takeDigits next ds else (significand, ds.length + 1)

/-- The greatest magnitude of an exponent. -/
def exponentLimit : Nat := Nat.pow 2 31 - 1

/-- The value of the digits of an exponent, or the digits behind the one that exceeds the
limit. -/
def takeExponent (value : Nat) : List Char → Nat ⊕ List Char
  | [] => .inl value
  | d :: ds =>
    let next := 10 * value + (d.toNat - 48)
    if next ≤ exponentLimit then takeExponent next ds else .inr ds

/-- The numeral with an exponent; `cs` follows the letter of the exponent. An exponent beyond
the limit makes zero of a small number and is an error for a great one. -/
def readExponent (n : Numeral) (cs : List Char) : Outcome Numeral :=
  let (up, digits) := match cs with
    | '+' :: rest => (true, rest)
    | '-' :: rest => (false, rest)
    | other => (true, other)
  match spanDigits digits with
  | ([], []) => fail .endInValue []
  | ([], rest) => fail .badNumber rest 1
  | (ds, rest) =>
    match takeExponent 0 ds with
    | .inl e => .ok ({ n with exponent := if up then n.exponent + e else n.exponent - e }, rest)
    | .inr unread =>
      if n.significand ≠ 0 ∧ up then fail .numberOutOfRange (unread ++ rest)
      else .ok (⟨0, 0⟩, rest)

/-- The numeral with a fraction and an exponent, if they follow; nothing if neither does. -/
def readFraction (n : Numeral) (cs : List Char) : Outcome (Option Numeral) :=
  match cs with
  | '.' :: behind =>
    match spanDigits behind with
    | ([], []) => fail .endInValue []
    | ([], rest) => fail .badNumber rest 1
    | (ds, rest) =>
      let (significand, left) := takeDigits n.significand ds
      let scaled : Numeral := ⟨significand, n.exponent - (ds.length - left : Nat)⟩
      match rest with
      | 'e' :: rest => mapValue some (readExponent scaled rest)
      | 'E' :: rest => mapValue some (readExponent scaled rest)
      | rest => .ok (some scaled, rest)
  | 'e' :: rest => mapValue some (readExponent n rest)
  | 'E' :: rest => mapValue some (readExponent n rest)
  | rest => .ok (none, rest)

/-- The value scaled by a power of ten, in steps that a floating point number can hold; nothing
if it is too great. -/
def scaleFloat? : (bound : Nat) → Float → Int → Option Float
  | 0, x, _ => some x
  | bound + 1, x, e =>
    if e.natAbs ≤ 308 then
      if 0 ≤ e then
        let y := x * Float.ofScientific 1 false e.natAbs
        if y.isInf then none else some y
      else some (x / Float.ofScientific 1 false e.natAbs)
    else if x == 0 then some x
    else if 0 ≤ e then none
    else scaleFloat? bound (x / Float.ofScientific 1 false 308) (e + 308)

/-- The floating point number that a numeral is taken for, if it is not too great. -/
def Numeral.float? (n : Numeral) : Option Float :=
  scaleFloat? 4 (UInt64.ofNat n.significand).toFloat n.exponent

/-- The number with the given sign and digits; `plain` numbers have neither a fraction nor an
exponent. -/
def foundNumber (negative plain : Bool) (n : Numeral) (rest : List Char) : Outcome Found :=
  if plain && !negative then .ok (.integer n.significand, rest)
  else if plain && n.significand ≠ 0 && n.significand ≤ Nat.pow 2 63 then
    .ok (.integer (-n.significand), rest)
  else
    match n.float? with
    | some x => .ok (.decimal (Decimal.showFloat (if negative then -x else x)), rest)
    | none => fail .numberOutOfRange rest

/-- A number without its sign. -/
def readNumber (negative : Bool) (cs : List Char) : Outcome Found :=
  match spanDigits cs with
  | ([], []) => fail .endInValue []
  | ([], rest) => fail .badNumber rest 1
  | ('0' :: d :: ds, rest) => fail .badNumber (d :: ds ++ rest) 1
  | (ds, rest) =>
    let (significand, left) := takeDigits 0 ds
    let whole : Numeral := ⟨significand, left⟩
    match readFraction whole rest with
    | .ok (some n, rest) => foundNumber negative false n rest
    | .ok (none, rest) => foundNumber negative (left == 0) whole rest
    | .error e => .error e

end Pipewright.Json
