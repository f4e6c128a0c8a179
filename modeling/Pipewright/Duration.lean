/-!
# Durations

A duration is shown in the greatest unit that fits into it once, from seconds down to
nanoseconds, with as many decimals as it needs.

## Main definitions

* `Duration`: a number of nanoseconds.
* `Duration.shown`: the duration with its unit.
-/

namespace Pipewright

/-- A duration. -/
structure Duration where
  /-- The duration in nanoseconds. -/
  nanoseconds : Nat
  deriving DecidableEq, Repr

namespace Duration

/-- A number of seconds. -/
def ofSeconds (n : Nat) : Duration :=
  ⟨n * 1000000000⟩

/-- The last `count` decimal digits of a number, without zeros at the end. -/
def decimals : (count : Nat) → Nat → List Char
  | 0, _ => []
  | count + 1, n =>
    if n % 10 = 0 then decimals count (n / 10)
    else decimals.keep count (n / 10) ++ [Char.ofNat (48 + n % 10)]
where
  /-- The last `count` decimal digits of a number. -/
  keep : (count : Nat) → Nat → List Char
    | 0, _ => []
    | count + 1, n => keep count (n / 10) ++ [Char.ofNat (48 + n % 10)]

/-- A number of nanoseconds in a unit of `10 ^ places` of them. -/
def inUnit (n places : Nat) (unit : String) : String :=
  let fraction := decimals places (n % Nat.pow 10 places)
  toString (n / Nat.pow 10 places) ++
    (if fraction.isEmpty then "" else "." ++ String.ofList fraction) ++ unit

/-- The duration with its unit. -/
def shown (d : Duration) : String :=
  if Nat.pow 10 9 ≤ d.nanoseconds then inUnit d.nanoseconds 9 "s"
  else if Nat.pow 10 6 ≤ d.nanoseconds then inUnit d.nanoseconds 6 "ms"
  else if Nat.pow 10 3 ≤ d.nanoseconds then inUnit d.nanoseconds 3 "µs"
  else inUnit d.nanoseconds 0 "ns"

end Duration

end Pipewright
