/-!
# The shortest decimal form of a binary fraction

A binary floating point number stands for all reals that round to it. Its shortest decimal form
has the fewest digits among the decimals in that interval, and among those it is the one
nearest to the number.

## Main definitions

* `BinaryFraction`: a mantissa and a power of two.
* `BinaryFraction.shortest`: the digits and the power of ten.
* `showPositional`: the usual notation of digits and a power of ten.
-/

namespace Pipewright.Decimal

/-- The number `mantissa · 2 ^ exponent`. -/
structure BinaryFraction where
  /-- The mantissa. -/
  mantissa : Nat
  /-- The power of two. -/
  exponent : Int
  /-- The next smaller number is only half as far away as the next greater one. -/
  closeBelow : Bool
  deriving DecidableEq, Repr

/-- A positive number as a quotient. -/
structure Quotient where
  /-- The numerator. -/
  num : Nat
  /-- The denominator. -/
  den : Nat

/-- The quotient `n · base ^ e`. -/
def Quotient.scaled (n base : Nat) (e : Int) : Quotient :=
  if 0 ≤ e then ⟨n * base.pow e.toNat, 1⟩ else ⟨n, base.pow (-e).toNat⟩

/-- The finite number with the given bits, without its sign. -/
def BinaryFraction.ofBits (bits : UInt64) : BinaryFraction :=
  let fraction : Nat := bits.toNat % Nat.pow 2 52
  let biased : Nat := bits.toNat / Nat.pow 2 52 % Nat.pow 2 11
  if biased = 0 then ⟨fraction, -1074, false⟩
  else ⟨Nat.pow 2 52 + fraction, (biased : Int) - 1075, fraction == 0 && 1 < biased⟩

/-- The power of ten of the first digit of `q`. -/
def magnitude (q : Quotient) : Int :=
  if q.den ≤ q.num then ((Nat.toDigits 10 (q.num / q.den)).length : Int) - 1
  else -(((List.range 400).find? fun t => q.den ≤ q.num * Nat.pow 10 t).getD 400 : Nat)

namespace BinaryFraction

/-- The number as a quotient. -/
def quotient (b : BinaryFraction) : Quotient :=
  .scaled b.mantissa 2 b.exponent

/-- The decimal `k · 10 ^ e` rounds to the number; bounds belong to even mantissas. -/
def covers (b : BinaryFraction) (k : Nat) (e : Int) : Bool :=
  let below := Quotient.scaled (4 * b.mantissa - if b.closeBelow then 1 else 2) 2 (b.exponent - 2)
  let above := Quotient.scaled (4 * b.mantissa + 2) 2 (b.exponent - 2)
  let d := Quotient.scaled k 10 e
  if b.mantissa % 2 = 0 then
    below.num * d.den ≤ d.num * below.den && d.num * above.den ≤ above.num * d.den
  else below.num * d.den < d.num * below.den && d.num * above.den < above.num * d.den

/-- The neighbour of the number on the grid of multiples of `10 ^ e` that rounds to it, the
nearer one if both do; of two equally near the even one. -/
def onGrid? (b : BinaryFraction) (e : Int) : Option Nat :=
  let q := b.quotient
  let unit := Quotient.scaled 1 10 e
  let k := q.num * unit.den / (q.den * unit.num)
  let twice := 2 * (q.num * unit.den % (q.den * unit.num))
  let upNearer := q.den * unit.num < twice || (q.den * unit.num == twice && k % 2 == 1)
  match b.covers k e, b.covers (k + 1) e with
  | true, true => some (if upNearer then k + 1 else k)
  | true, false => some k
  | false, true => some (k + 1)
  | false, false => none

/-- The shortest decimal form of a positive number: digits and power of ten. -/
def shortest (b : BinaryFraction) : Nat × Int :=
  let top := magnitude b.quotient
  ((List.range 17).findSome? fun (n : Nat) => (b.onGrid? (top - n)).map (·, top - n)).getD (0, 0)

end BinaryFraction

/-- The digits `k` times ten to the power of `e`, without zeros at the end of the digits. -/
def trimZeros : (bound : Nat) → Nat → Int → Nat × Int
  | 0, k, e => (k, e)
  | bound + 1, k, e => if k % 10 = 0 ∧ k ≠ 0 then trimZeros bound (k / 10) (e + 1) else (k, e)

/-- The notation of `k · 10 ^ e`: positional with a decimal point up to sixteen digits in front
of the point and four zeros behind it, and with an exponent otherwise. -/
def showPositional (k : Nat) (e : Int) : String :=
  let digits := Nat.toDigits 10 k
  let point := (digits.length : Int) + e
  if 0 ≤ e ∧ point ≤ 16 then
    .ofList (digits ++ List.replicate e.toNat '0' ++ ['.', '0'])
  else if 0 < point ∧ point ≤ 16 then
    .ofList (digits.take point.toNat ++ '.' :: digits.drop point.toNat)
  else if -5 < point ∧ point ≤ 0 then
    .ofList ('0' :: '.' :: List.replicate (-point).toNat '0' ++ digits)
  else
    let exponent := "e" ++ toString (point - 1)
    match digits with
    | [] => exponent
    | [d] => .ofList [d] ++ exponent
    | d :: ds => .ofList (d :: '.' :: ds) ++ exponent

/-- The shortest notation of a finite floating point number. -/
def showFloat (x : Float) : String :=
  let bits := x.toBits
  let sign := if bits.toNat / Nat.pow 2 63 = 1 then "-" else ""
  let b := BinaryFraction.ofBits bits
  if b.mantissa = 0 then sign ++ "0.0"
  else
    let (k, e) := b.shortest
    let (k, e) := trimZeros 20 k e
    sign ++ showPositional k e

end Pipewright.Decimal
