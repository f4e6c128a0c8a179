import Pipewright.Proofs.Text.Span

/-!
# Cuts Within a Number of Bytes

A text that is too long is cut behind the last character that still fits. The cut is found by a
search that goes down from the limit one byte at a time until it stands between two characters.
The front of a text is such a place, so that the search never leaves the text; what it finds is
the last one, so that no longer beginning of the text fits.

## Main results

* `exists_boundaryUpTo?`: the search finds the last boundary up to the limit.
* `takeWithin_isPrefix`, `byteLength_takeWithin_le`, `isPrefix_takeWithin`: the cut text is the
  longest beginning that fits.
-/

namespace Pipewright.Text

/-- The front of a text is a boundary. -/
@[simp] theorem isBoundary_zero (cs : List Char) : isBoundary 0 cs = true :=
  isBoundary.eq_1 cs

/-- **The search for a boundary** finds the last one up to where it starts. -/
theorem exists_boundaryUpTo? (n : Nat) (cs : List Char) :
    ∃ cut, boundaryUpTo? n cs = some cut ∧ cut ≤ n ∧ isBoundary cut cs = true ∧
      ∀ m ≤ n, isBoundary m cs = true → m ≤ cut := by
  induction n with
  | zero => exact ⟨0, by simp [boundaryUpTo?], le_rfl, isBoundary_zero cs, fun m hm _ => hm⟩
  | succ n ih =>
      by_cases hhere : isBoundary (n + 1) cs = true
      · exact ⟨n + 1, by simp [boundaryUpTo?, hhere], le_rfl, hhere, fun m hm _ => hm⟩
      · obtain ⟨cut, hfound, hle, hcut, hlast⟩ := ih
        refine ⟨cut, by rw [boundaryUpTo?, if_neg hhere, hfound], by omega, hcut, ?_⟩
        intro m hm hboundary
        rcases Nat.lt_or_eq_of_le hm with hlt | rfl
        · exact hlast m (by omega) hboundary
        · exact absurd hboundary hhere

/-- A text that is too long is cut where the search for a boundary ends. -/
theorem exists_takeWithin_eq {n : Nat} {cs : List Char} (h : n < byteLength cs) :
    ∃ rest, cs = takeWithin n cs ++ rest ∧
      boundaryUpTo? n cs = some (byteLength (takeWithin n cs)) := by
  obtain ⟨cut, hfound, -, hcut, -⟩ := exists_boundaryUpTo? n cs
  obtain ⟨a, b, rfl, rfl⟩ := isBoundary_iff.mp hcut
  have htake : takeWithin n (a ++ b) = a := by
    rw [takeWithin, if_neg (by omega), hfound, Option.getD_some, takeBytes_append]
  exact ⟨b, by rw [htake], by rw [htake, hfound]⟩

/-- A text that fits is not cut. -/
theorem takeWithin_of_le {n : Nat} {cs : List Char} (h : byteLength cs ≤ n) :
    takeWithin n cs = cs :=
  if_pos h

/-- What is left is a beginning of the text. -/
theorem takeWithin_isPrefix (n : Nat) (cs : List Char) : takeWithin n cs <+: cs := by
  rcases Nat.lt_or_ge n (byteLength cs) with hlong | hfits
  · obtain ⟨rest, hcs, -⟩ := exists_takeWithin_eq hlong
    exact ⟨rest, hcs.symm⟩
  · rw [takeWithin_of_le hfits]

/-- What is left fits. -/
theorem byteLength_takeWithin_le (n : Nat) (cs : List Char) :
    byteLength (takeWithin n cs) ≤ n := by
  rcases Nat.lt_or_ge n (byteLength cs) with hlong | hfits
  · obtain ⟨cut, hfound, hle, -⟩ := exists_boundaryUpTo? n cs
    obtain ⟨-, -, hcut⟩ := exists_takeWithin_eq hlong
    obtain rfl := Option.some.inj (hfound.symm.trans hcut)
    exact hle
  · rwa [takeWithin_of_le hfits]

/-- **No longer beginning of the text fits.** -/
theorem isPrefix_takeWithin {n : Nat} {cs a : List Char} (ha : a <+: cs)
    (hfits : byteLength a ≤ n) : a <+: takeWithin n cs := by
  obtain ⟨b, rfl⟩ := ha
  rcases Nat.lt_or_ge n (byteLength (a ++ b)) with hlong | hwhole
  · obtain ⟨cut, hfound, -, -, hlast⟩ := exists_boundaryUpTo? n (a ++ b)
    obtain ⟨rest, hsplit, hcut⟩ := exists_takeWithin_eq hlong
    obtain rfl := Option.some.inj (hfound.symm.trans hcut)
    have hle := hlast _ hfits (isBoundary_append a b)
    obtain ⟨more, hmore, -⟩ := exists_append_of_byteLength_le hsplit hle
    exact ⟨more, hmore.symm⟩
  · rw [takeWithin_of_le hwhole]
    exact List.prefix_append a b

end Pipewright.Text
