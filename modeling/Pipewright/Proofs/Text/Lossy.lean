import Mathlib.Data.List.Infix
import Pipewright.Proofs.Text.Utf8

/-!
# Lossy Readings Cut at ASCII Characters

Octets that are no UTF-8 are read all the same, with U+FFFD in place of every maximal piece that
no character has. Such a piece can begin anywhere and can be broken off anywhere, but an octet
below 0x80 is never part of one: no character of several octets goes on with it, so that it ends
whatever was begun before it and is a character by itself. Hence octets may be cut in front of
such an octet or behind it, and the pieces read one by one.

## Main definitions

* `lossyChars`: the characters of the lossy reading.
* `IsSoleOctet`: an octet is the form of a character.

## Main results

* `lossyChars_append_cons`: octets are read apart in front of an ASCII character and behind it.
* `mem_of_mem_lossyChars`: an ASCII character comes from its octet only.
* `decodeLossy_of_decode?`: octets that are a text are read as that text.
-/

namespace Pipewright.Text

/-- The characters of the lossy reading. -/
def lossyChars (bs : List UInt8) : List Char :=
  (pieces bs).map (·.getD '\uFFFD')

/-- The lossy reading has these characters. -/
@[simp] theorem toList_decodeLossy (bs : List UInt8) : (decodeLossy bs).toList = lossyChars bs :=
  String.toList_ofList

/-- The octet is the whole form of the character, which is not the null character. -/
structure IsSoleOctet (b : UInt8) (c : Char) : Prop where
  /-- It is the code point of the character. -/
  toNat_eq : b.toNat = c.toNat
  /-- The character is not the null character. -/
  pos : 0 < c.toNat
  /-- The character is an ASCII character. -/
  lt : c.toNat < 0x80

/-- The octet of a line feed. -/
theorem isSoleOctet_lineFeed : IsSoleOctet 0x0A '\n' :=
  ⟨by decide, by decide, by decide⟩

/-- The octet of a carriage return. -/
theorem isSoleOctet_carriageReturn : IsSoleOctet 0x0D '\r' :=
  ⟨by decide, by decide, by decide⟩

/-! ### Pieces of several octets -/

/-- **What a first octet announces**: nothing but itself, or octets from 0x80 on that make up a
code point from 0x80 on. -/
theorem lead?_cases {b : Nat} {l : Lead} (h : lead? b = some l) :
    (b < 0x80 ∧ l = ⟨0, 0, 0, b⟩) ∨
      ∃ tails, l.tails = tails + 1 ∧ 0x80 ≤ l.low ∧
        0x80 ≤ (l.bits * 0x40 + (l.low - 0x80)) * 0x40 ^ tails := by
  rw [lead?] at h
  split_ifs at h with hone
  · exact .inl ⟨hone, (Option.some.inj h).symm⟩
  -- the least octet that may come next makes up for leading bits that are all zero
  all_goals
    obtain rfl := Option.some.inj h
    simp only [beq_iff_eq] at *
    exact .inr ⟨_, rfl, by omega, by omega⟩

/-- The octets that follow a first octet end in front of an octet below 0x80, be they enough or
not. -/
theorem takeTails_append_cons {tails low high bits : Nat} {b : UInt8} (hb : b.toNat < 0x80)
    (hlow : 0 < tails → 0x80 ≤ low) (bs rest : List UInt8) :
    takeTails tails low high bits (bs ++ b :: rest) =
      ((takeTails tails low high bits bs).1,
        (takeTails tails low high bits bs).2 ++ b :: rest) := by
  induction tails generalizing low high bits bs with
  | zero => rfl
  | succ tails ih =>
      have hlow := hlow (Nat.succ_pos _)
      cases bs with
      | nil => simp [takeTails, show ¬ low ≤ b.toNat by omega]
      | cons x bs =>
          simp only [List.cons_append, takeTails]
          split
          · exact ih (fun _ => le_rfl) bs
          · rfl

/-- A piece ends in front of an octet below 0x80. -/
theorem takePiece_append_cons {b : UInt8} (hb : b.toNat < 0x80) (x : UInt8)
    (bs rest : List UInt8) :
    takePiece x (bs ++ b :: rest) = ((takePiece x bs).1, (takePiece x bs).2 ++ b :: rest) := by
  rw [takePiece, takePiece]
  cases hlead : lead? x.toNat with
  | none => rfl
  | some l =>
      refine takeTails_append_cons hb (fun htails => ?_) bs rest
      rcases lead?_cases hlead with ⟨-, rfl⟩ | ⟨-, -, hlow, -⟩
      · exact absurd htails (Nat.lt_irrefl 0)
      · exact hlow

/-- An octet below 0x80 is a piece by itself. -/
theorem takePiece_of_lt {b : UInt8} (hb : b.toNat < 0x80) (rest : List UInt8) :
    takePiece b rest = (some b.toNat, rest) := by
  rw [takePiece, lead?, if_pos hb]
  rfl

/-- A code point does not lose bits when octets are taken into it. -/
theorem le_of_takeTails {tails low high bits n : Nat} {bs rest : List UInt8}
    (h : takeTails tails low high bits bs = (some n, rest)) : bits * 0x40 ^ tails ≤ n := by
  induction tails generalizing low high bits bs with
  | zero => simp_all [takeTails]
  | succ tails ih =>
      cases bs with
      | nil => exact absurd h (by simp [takeTails])
      | cons b bs =>
          rw [takeTails] at h
          split at h
          next hbounds =>
            have hmore := ih h
            calc
              bits * 0x40 ^ (tails + 1) = bits * 0x40 * 0x40 ^ tails := by
                rw [Nat.pow_succ', Nat.mul_assoc]
              _ ≤ (bits * 0x40 + (b.toNat - 0x80)) * 0x40 ^ tails :=
                Nat.mul_le_mul_right _ (Nat.le_add_right _ _)
              _ ≤ n := hmore
          next => exact absurd (Prod.mk.inj h).1.symm (Option.some_ne_none n)

/-- **An ASCII code point comes from its own octet only**: forms that are longer than they need
be are no forms. -/
theorem eq_of_takePiece {b : UInt8} {bs rest : List UInt8} {n : Nat}
    (h : takePiece b bs = (some n, rest)) (hn : n < 0x80) : n = b.toNat := by
  rw [takePiece] at h
  cases hlead : lead? b.toNat with
  | none => simp [hlead] at h
  | some l =>
      rw [hlead] at h
      dsimp only at h
      rcases lead?_cases hlead with ⟨-, rfl⟩ | ⟨tails, htails, hlow, hbits⟩
      · exact (Option.some.inj (Prod.mk.inj h).1).symm
      · rw [htails] at h
        cases bs with
        | nil => exact absurd h (by simp [takeTails])
        | cons x bs =>
            rw [takeTails] at h
            split at h
            next hbounds =>
              have hx : l.low ≤ x.toNat := by simp_all
              have hmore := le_of_takeTails h
              have hleast : (l.bits * 0x40 + (l.low - 0x80)) * 0x40 ^ tails ≤
                  (l.bits * 0x40 + (x.toNat - 0x80)) * 0x40 ^ tails :=
                Nat.mul_le_mul_right _ (by omega)
              omega
            next => exact absurd (Prod.mk.inj h).1.symm (Option.some_ne_none n)

/-- What is left behind a piece is an end of what followed its first octet. -/
theorem takePiece_snd_isSuffix (b : UInt8) (bs : List UInt8) : (takePiece b bs).2 <:+ bs := by
  have htails (tails low high bits : Nat) (bs : List UInt8) :
      (takeTails tails low high bits bs).2 <:+ bs := by
    induction tails generalizing low high bits bs with
    | zero => exact List.suffix_rfl
    | succ tails ih =>
        cases bs with
        | nil => exact List.suffix_rfl
        | cons x bs =>
            rw [takeTails]
            split
            · exact (ih ..).trans (List.suffix_cons x bs)
            · exact List.suffix_rfl
  rw [takePiece]
  split
  · exact List.suffix_rfl
  · exact htails ..

/-! ### Cuts at an ASCII character -/

section Cut

variable {b : UInt8} {c : Char}

/-- The octet of a character is that character. -/
theorem IsSoleOctet.ofNat_eq (h : IsSoleOctet b c) : Char.ofNat b.toNat = c := by
  rw [h.toNat_eq, Char.ofNat_toNat]

/-- Octets are read apart in front of an ASCII character and behind it. -/
theorem pieces_append_cons (h : IsSoleOctet b c) (bs rest : List UInt8) :
    pieces (bs ++ b :: rest) = pieces bs ++ some c :: pieces rest := by
  have hb : b.toNat < 0x80 := h.toNat_eq ▸ h.lt
  induction bs using pieces.induct with
  | case1 =>
      have hnil : pieces [] = [] := by rw [pieces]
      rw [List.nil_append, hnil, List.nil_append, pieces, takePiece_of_lt hb, Option.map_some,
        h.ofNat_eq]
  | case2 x bs ih =>
      rw [List.cons_append, pieces, takePiece_append_cons hb, ih, pieces, List.cons_append]

/-- **Lossy readings may be cut at an ASCII character.** -/
theorem lossyChars_append_cons (h : IsSoleOctet b c) (bs rest : List UInt8) :
    lossyChars (bs ++ b :: rest) = lossyChars bs ++ c :: lossyChars rest := by
  simp [lossyChars, pieces_append_cons h]

/-- **An ASCII character comes from its octet only.** -/
theorem mem_of_mem_lossyChars (h : IsSoleOctet b c) {bs : List UInt8} (hc : c ∈ lossyChars bs) :
    b ∈ bs := by
  induction bs using pieces.induct with
  | case1 => simp [lossyChars, pieces] at hc
  | case2 x bs ih =>
      rw [lossyChars, pieces, List.map_cons, List.mem_cons] at hc
      rcases hc with hfirst | hrest
      · obtain ⟨n, hn⟩ : ∃ n, (takePiece x bs).1 = some n := by
          cases hpiece : (takePiece x bs).1 with
          | some n => exact ⟨n, rfl⟩
          | none =>
              rw [hpiece] at hfirst
              have hlt := h.lt
              rw [hfirst] at hlt
              exact absurd hlt (by decide)
        have hchar : Char.ofNat n = c := by rw [hfirst, hn]; rfl
        have hcode : n = c.toNat := by
          by_cases hvalid : n.isValidChar
          · rw [← hchar, Char.ofNat, dif_pos hvalid]
            rfl
          · rw [Char.ofNat, dif_neg hvalid] at hchar
            exact absurd h.pos (hchar ▸ by decide)
        have hx : n = x.toNat := eq_of_takePiece (Prod.ext hn rfl) (hcode ▸ h.lt)
        have hoctet : b = x := UInt8.toNat_inj.mp (by rw [h.toNat_eq, ← hcode, hx])
        exact hoctet ▸ List.mem_cons_self
      · exact List.mem_cons_of_mem _ ((takePiece_snd_isSuffix x bs).subset (ih hrest))

/-- There are characters where there are octets. -/
theorem lossyChars_ne_nil {bs : List UInt8} (h : bs ≠ []) : lossyChars bs ≠ [] := by
  obtain ⟨x, bs, rfl⟩ := List.exists_cons_of_ne_nil h
  simp [lossyChars, pieces]

/-- The last character is an ASCII character if the last octet is its octet. -/
theorem getLast?_lossyChars_eq_iff (h : IsSoleOctet b c) {bs : List UInt8} :
    (lossyChars bs).getLast? = some c ↔ bs.getLast? = some b := by
  constructor
  · intro hlast
    have hmem := mem_of_mem_lossyChars h (List.mem_of_getLast? hlast)
    -- cut behind the last octet of this kind: there is no such character in what is left
    obtain ⟨behind, front, hreverse, hnot⟩ := List.eq_append_cons_of_mem (List.mem_reverse.mpr hmem)
    have hcut : bs = front.reverse ++ b :: behind.reverse := by
      rw [← List.reverse_reverse bs, hreverse]
      simp
    rcases eq_or_ne behind.reverse [] with hnil | hne
    · rw [hcut, hnil, List.getLast?_concat]
    · rw [hcut, lossyChars_append_cons h, List.getLast?_append_cons,
        List.getLast?_cons_of_ne_nil (lossyChars_ne_nil hne)] at hlast
      have hback := mem_of_mem_lossyChars h (List.mem_of_getLast? hlast)
      exact absurd (List.mem_reverse.mp hback) hnot
  · intro hlast
    obtain ⟨front, rfl⟩ := List.getLast?_eq_some_iff.mp hlast
    rw [lossyChars_append_cons h]
    simp [lossyChars, pieces]

end Cut

/-! ### Octets that are a text -/

/-- **Octets that are a text are read as that text.** -/
theorem decodeLossy_of_decode? {bs : List UInt8} {text : String} (h : decode? bs = some text) :
    decodeLossy bs = text := by
  have hall (ps : List (Option Char)) (cs : List Char) (hps : ps.mapM id = some cs) :
      ps.map (·.getD '\uFFFD') = cs := by
    induction ps generalizing cs with
    | nil => simpa using hps
    | cons p ps ih =>
        simp only [List.mapM_cons, Option.bind_eq_bind, Option.bind_eq_some_iff] at hps
        obtain ⟨c, hc, cs', hcs', hpure⟩ := hps
        obtain rfl := Option.some.inj hpure
        rw [List.map_cons, ih cs' hcs', show p = some c from hc, Option.getD_some]
  obtain ⟨cs, hcs, rfl⟩ := Option.map_eq_some_iff.mp h
  rw [decodeLossy, hall _ cs hcs]

end Pipewright.Text
