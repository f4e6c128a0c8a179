/-!
# Numerals

Numbers that people type are 64-bit numbers without a sign, apart from a plus sign that may
stand in front.

## Main definitions

* `readNat?`: the number that a run of decimal digits denotes.
* `readUInt64?`: the 64-bit number that a text denotes.
-/

namespace Pipewright.Text

/-- The number that decimal digits denote, most significant first; no digits denote none. -/
def readNat? (cs : List Char) : Option Nat :=
  if cs.isEmpty || !cs.all Char.isDigit then none
  else some (cs.foldl (fun n c => 10 * n + (c.toNat - 48)) 0)

/-- The digits of a numeral, without a plus sign in front. -/
def unsigned : List Char → List Char
  | '+' :: cs => cs
  | cs => cs

/-- The 64-bit number that a text denotes. -/
def readUInt64? (s : String) : Option UInt64 := do
  let n ← readNat? (unsigned s.toList)
  if n < UInt64.size then return n.toUInt64 else none

end Pipewright.Text
