import Mathlib.Tactic.IntervalCases
import Pipewright.Text.Utf8

/-!
# Texts and Their UTF-8 Form

The UTF-8 form of a text is read back as that text. A first octet announces how many octets
follow and within which bounds the next one lies; the four lengths of a form are taken one by
one, and in each the octets that follow are within the bounds that were announced.

## Main results

* `takePiece_encodeChar`: the form of a character is read as its code point.
* `pieces_encode`: the form of a text is read as its characters.
* `decode?_encode`: the form of a text is that of no other.
-/

namespace Pipewright.Text

/-- A number of eight bits is its own octet. -/
theorem toNat_toUInt8 {n : Nat} (h : n < 0x100) : n.toUInt8.toNat = n := by
  rw [Nat.toUInt8_eq, UInt8.toNat_ofNat', Nat.mod_eq_of_lt h]

/-- A character's code point is no surrogate, and it is below U+110000. -/
theorem codePoint_cases (c : Char) :
    c.toNat < 0xD800 ∨ (0xDFFF < c.toNat ∧ c.toNat < 0x110000) :=
  c.valid

/-- An octet within its bounds is taken into the code point. -/
theorem takeTails_cons {tails low high bits n : Nat} {rest : List UInt8} (hlow : low ≤ 0x80 + n)
    (hhigh : 0x80 + n ≤ high) (hn : n < 0x40) :
    takeTails (tails + 1) low high bits ((0x80 + n).toUInt8 :: rest) =
      takeTails tails 0x80 0xBF (bits * 0x40 + n) rest := by
  have hoctet : (0x80 + n).toUInt8.toNat = 0x80 + n := toNat_toUInt8 (by omega)
  rw [takeTails, hoctet, if_pos (by simp [hlow, hhigh]), Nat.add_sub_cancel_left]

/-! ### First octets -/

/-- The first octet of a form of two octets. -/
theorem lead?_two {n : Nat} (hlow : 0x80 ≤ n) (hhigh : n < 0x800) :
    lead? (0xC0 + n / 0x40) = some ⟨1, 0x80, 0xBF, n / 0x40⟩ := by
  rw [lead?, if_neg (by omega), if_neg (by omega), if_pos (by omega), Nat.add_sub_cancel_left]

/-- The first octet of a form of three octets, and the bounds that it sets for the second. -/
theorem exists_lead?_three {n : Nat} (hlow : 0x800 ≤ n) (hhigh : n < 0x10000)
    (hvalid : n < 0xD800 ∨ 0xDFFF < n) : ∃ low high,
      lead? (0xE0 + n / 0x1000) = some ⟨2, low, high, n / 0x1000⟩ ∧
      low ≤ 0x80 + n / 0x40 % 0x40 ∧ 0x80 + n / 0x40 % 0x40 ≤ high := by
  obtain ⟨q, hq⟩ : ∃ q, n / 0x1000 = q := ⟨_, rfl⟩
  have hq16 : q < 16 := by omega
  rw [hq]
  interval_cases q
  all_goals exact ⟨_, _, rfl, by omega, by omega⟩

/-- The first octet of a form of four octets, and the bounds that it sets for the second. -/
theorem exists_lead?_four {n : Nat} (hlow : 0x10000 ≤ n) (hhigh : n < 0x110000) : ∃ low high,
    lead? (0xF0 + n / 0x40000) = some ⟨3, low, high, n / 0x40000⟩ ∧
      low ≤ 0x80 + n / 0x1000 % 0x40 ∧ 0x80 + n / 0x1000 % 0x40 ≤ high := by
  obtain ⟨q, hq⟩ : ∃ q, n / 0x40000 = q := ⟨_, rfl⟩
  have hq5 : q < 5 := by omega
  rw [hq]
  interval_cases q
  all_goals exact ⟨_, _, rfl, by omega, by omega⟩

/-! ### Characters and texts -/

/-- **The form of a character is read as its code point**, whatever follows it. -/
theorem takePiece_encodeChar (c : Char) (rest : List UInt8) : ∃ b bs,
    encodeChar c = b :: bs ∧ takePiece b (bs ++ rest) = (some c.toNat, rest) := by
  have hcases := codePoint_cases c
  rw [encodeChar]
  generalize c.toNat = n at hcases
  split
  next hone =>
    refine ⟨_, _, rfl, ?_⟩
    rw [takePiece, toNat_toUInt8 (by omega), lead?, if_pos hone]
    rfl
  split
  next hone htwo =>
    refine ⟨_, _, rfl, ?_⟩
    rw [takePiece, toNat_toUInt8 (by omega), lead?_two (by omega) htwo]
    dsimp only [List.cons_append, List.nil_append]
    rw [takeTails_cons (by omega) (by omega) (by omega), takeTails]
    congr 2
    omega
  split
  next hone htwo hthree =>
    obtain ⟨low, high, hlead, hlow, hhigh⟩ :=
      exists_lead?_three (n := n) (by omega) hthree (by omega)
    refine ⟨_, _, rfl, ?_⟩
    rw [takePiece, toNat_toUInt8 (by omega), hlead]
    dsimp only [List.cons_append, List.nil_append]
    rw [takeTails_cons hlow hhigh (by omega), takeTails_cons (by omega) (by omega) (by omega),
      takeTails]
    congr 2
    omega
  next hone htwo hthree =>
    obtain ⟨low, high, hlead, hlow, hhigh⟩ := exists_lead?_four (n := n) (by omega) (by omega)
    refine ⟨_, _, rfl, ?_⟩
    rw [takePiece, toNat_toUInt8 (by omega), hlead]
    dsimp only [List.cons_append, List.nil_append]
    rw [takeTails_cons hlow hhigh (by omega), takeTails_cons (by omega) (by omega) (by omega),
      takeTails_cons (by omega) (by omega) (by omega), takeTails]
    congr 2
    omega

/-- The form of a character is one piece. -/
theorem pieces_encodeChar_append (c : Char) (rest : List UInt8) :
    pieces (encodeChar c ++ rest) = some c :: pieces rest := by
  obtain ⟨b, bs, hform, hpiece⟩ := takePiece_encodeChar c rest
  rw [hform, List.cons_append, pieces, hpiece, Option.map_some, Char.ofNat_toNat]

/-- **The form of a text is read as its characters.** -/
theorem pieces_encode (s : String) : pieces (encode s) = s.toList.map some := by
  rw [encode]
  induction s.toList with
  | nil => rw [List.flatMap_nil, pieces, List.map_nil]
  | cons c cs ih => rw [List.flatMap_cons, pieces_encodeChar_append, ih, List.map_cons]

/-- **The UTF-8 form of a text is read back as the text.** -/
theorem decode?_encode (s : String) : decode? (encode s) = some s := by
  have hall (cs : List Char) : (cs.map some).mapM id = some cs := by
    induction cs with
    | nil => rfl
    | cons c cs ih => rw [List.map_cons, List.mapM_cons, ih]; rfl
  rw [decode?, pieces_encode, hall, Option.map_some, String.ofList_toList]

end Pipewright.Text
