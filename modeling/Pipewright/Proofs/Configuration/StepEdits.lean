import Pipewright.Configuration.Edit
import Pipewright.Proofs.Outcome
import Pipewright.Proofs.Text.Words

/-!
# Edits of Steps at Machine Positions

A step is edited at a position, which is any 64-bit number. An edit at a position within the list
cuts the list there, changes what stands at the cut and leaves all else of the configuration
alone; an edit at any other position is refused. Every edit guards its position in its own way.
One of them, the exchange with the step behind, asks for the position behind the given one before
it looks at the list, and at the greatest position there is none: it neither exchanges anything
nor refuses to, but goes beyond the 64-bit numbers.

## Main definitions

* `Configuration.EditsAt`: what the edits at a position do.

## Main results

* `removeStep?_eq_some_iff`, `moveStepUp?_eq_some_iff`, `moveStepDown_eq_some_iff`,
  `changeStep?_eq_some_iff`: an edit is a change at a cut through the list.
* `Configuration.editsAt`: what the edits do at any position of any configuration.
* `moveStepDown_greatest`: the greatest position is not refused.
-/

namespace Pipewright

/-! ### Cuts through a list -/

section Cuts

variable {α : Type}

/-- A list is cut at each of its positions. -/
theorem exists_cut {l : List α} {n : Nat} (h : n < l.length) :
    ∃ before a behind, l = before ++ a :: behind ∧ before.length = n :=
  ⟨l.take n, l[n], l.drop (n + 1), by simp, by simp [Nat.le_of_lt h]⟩

/-- A list is cut at each position that has another one behind it. -/
theorem exists_cut_pair {l : List α} {n : Nat} (h : n + 1 < l.length) :
    ∃ before a b behind, l = before ++ a :: b :: behind ∧ before.length = n := by
  obtain ⟨before, a, behind, rfl, rfl⟩ := exists_cut (Nat.lt_of_succ_lt h)
  cases behind with
  | nil => simp at h
  | cons b behind => exact ⟨before, a, b, behind, rfl, rfl⟩

/-- The position of a cut is a position of the list. -/
theorem lt_length_of_cut {l before behind : List α} {a : α} {n : Nat}
    (h : l = before ++ a :: behind) (hn : before.length = n) : n < l.length := by
  rw [h, List.length_append, List.length_cons]
  omega

/-- The position behind a cut in front of two elements is a position of the list. -/
theorem succ_lt_length_of_cut {l before behind : List α} {a b : α} {n : Nat}
    (h : l = before ++ a :: b :: behind) (hn : before.length = n) : n + 1 < l.length := by
  rw [h, List.length_append, List.length_cons, List.length_cons]
  omega

/-- What stands at a cut is found there. -/
theorem getElem?_cut (before behind : List α) (a : α) :
    (before ++ a :: behind)[before.length]? = some a := by
  rw [List.getElem?_append_right le_rfl, Nat.sub_self, List.getElem?_cons_zero]

/-- What stands at a cut is erased there. -/
theorem eraseIdx_cut (before behind : List α) (a : α) :
    (before ++ a :: behind).eraseIdx before.length = before ++ behind := by
  rw [List.eraseIdx_append_of_length_le le_rfl, Nat.sub_self, List.eraseIdx_cons_zero]

/-- What stands at a cut is changed there. -/
theorem modify_cut (before behind : List α) (a : α) (f : α → α) :
    (before ++ a :: behind).modify before.length f = before ++ f a :: behind := by
  induction before with
  | nil => rfl
  | cons b before ih => simpa using ih

/-- What stands at a cut and behind it is exchanged there. -/
theorem swapNeighbours_cut (before behind : List α) (a b : α) :
    swapNeighbours before.length (before ++ a :: b :: behind) = before ++ b :: a :: behind := by
  induction before with
  | nil => rfl
  | cons c before ih => simpa [swapNeighbours] using ih

end Cuts

/-! ### One edit -/

namespace Configuration

variable {c c' : Configuration} {i : UInt64}

/-- A step is removed at a cut through the list. -/
theorem removeStep?_eq_some_iff :
    c.removeStep? i = some c' ↔ ∃ before s behind, c.steps = before ++ s :: behind ∧
      before.length = i.toNat ∧ c' = { c with steps := before ++ behind } := by
  rw [removeStep?, Option.ite_none_right_eq_some, Option.some.injEq]
  constructor
  · rintro ⟨hi, rfl⟩
    obtain ⟨before, s, behind, hsteps, hbefore⟩ := exists_cut hi
    exact ⟨before, s, behind, hsteps, hbefore, by rw [← hbefore, hsteps, eraseIdx_cut]⟩
  · rintro ⟨before, s, behind, hsteps, hbefore, rfl⟩
    exact ⟨lt_length_of_cut hsteps hbefore, by rw [← hbefore, hsteps, eraseIdx_cut]⟩

/-- A step is removed unless the position is out of range. -/
theorem removeStep?_eq_none_iff : c.removeStep? i = none ↔ c.steps.length ≤ i.toNat := by
  simp [removeStep?]

/-- A step is changed at a cut through the list. -/
theorem changeStep?_eq_some_iff {f : Step → Step} :
    c.changeStep? i f = some c' ↔ ∃ before s behind, c.steps = before ++ s :: behind ∧
      before.length = i.toNat ∧ c' = { c with steps := before ++ f s :: behind } := by
  rw [changeStep?, Option.ite_none_right_eq_some, Option.some.injEq]
  constructor
  · rintro ⟨hi, rfl⟩
    obtain ⟨before, s, behind, hsteps, hbefore⟩ := exists_cut hi
    exact ⟨before, s, behind, hsteps, hbefore, by rw [← hbefore, hsteps, modify_cut]⟩
  · rintro ⟨before, s, behind, hsteps, hbefore, rfl⟩
    exact ⟨lt_length_of_cut hsteps hbefore, by rw [← hbefore, hsteps, modify_cut]⟩

/-- A step is changed unless the position is out of range. -/
theorem changeStep?_eq_none_iff {f : Step → Step} :
    c.changeStep? i f = none ↔ c.steps.length ≤ i.toNat := by
  simp [changeStep?]

/-- A text replaces that of a step with its blanks trimmed, if anything is left of it. -/
theorem retextStep?_eq_some_iff {text : String} :
    c.retextStep? i text = some c' ↔ Text.isBlankText text = false ∧
      c.changeStep? i (fun s => { s with text := Text.trim text }) = some c' := by
  rw [retextStep?, Step.ofText?, Text.trim_isEmpty]
  cases Text.isBlankText text <;> simp

/-- A text is refused if it is blank, and otherwise where the position is out of range. -/
theorem retextStep?_eq_none_iff {text : String} :
    c.retextStep? i text = none ↔ Text.isBlankText text = true ∨ c.steps.length ≤ i.toNat := by
  rw [retextStep?, Step.ofText?, Text.trim_isEmpty]
  cases Text.isBlankText text <;> simp [changeStep?_eq_none_iff]

/-- A step and the one before it are exchanged at a cut between them. -/
theorem moveStepUp?_eq_some_iff :
    c.moveStepUp? i = some c' ↔ ∃ before s t behind, c.steps = before ++ s :: t :: behind ∧
      before.length + 1 = i.toNat ∧ c' = { c with steps := before ++ t :: s :: behind } := by
  rw [moveStepUp?, Option.ite_none_right_eq_some, Option.some.injEq]
  constructor
  · rintro ⟨⟨hpos, hi⟩, rfl⟩
    obtain ⟨before, s, t, behind, hsteps, hbefore⟩ :=
      exists_cut_pair (l := c.steps) (n := i.toNat - 1) (by omega)
    exact ⟨before, s, t, behind, hsteps, by omega, by rw [← hbefore, hsteps, swapNeighbours_cut]⟩
  · rintro ⟨before, s, t, behind, hsteps, hbefore, rfl⟩
    have hlt := succ_lt_length_of_cut hsteps rfl
    refine ⟨by omega, ?_⟩
    rw [← hbefore, Nat.add_sub_cancel, hsteps, swapNeighbours_cut]

/-- A step moves up unless it is the first one or the position is out of range. -/
theorem moveStepUp?_eq_none_iff :
    c.moveStepUp? i = none ↔ i.toNat = 0 ∨ c.steps.length ≤ i.toNat := by
  simp only [moveStepUp?, ite_eq_right_iff, reduceCtorEq, imp_false]
  omega

/-- With a position behind its own, a step moves down if there is a step at that position. -/
theorem moveStepDown_of_lt (c : Configuration) (h : i.toNat + 1 < UInt64.size) :
    c.moveStepDown i = .ok (if i.toNat + 1 < c.steps.length then
      some { c with steps := swapNeighbours i.toNat c.steps } else none) := by
  rw [moveStepDown, positionBehind, if_pos h]
  exact (apply_ite Except.ok _ _ _).symm

/-- Without a position behind its own, no step moves down, and none is refused to. -/
theorem moveStepDown_of_le (c : Configuration) (h : UInt64.size ≤ i.toNat + 1) :
    c.moveStepDown i = .error (.behind i) := by
  rw [moveStepDown, positionBehind, if_neg (Nat.not_lt.mpr h)]
  rfl

/-- A step and the one behind it are exchanged at a cut between them. -/
theorem moveStepDown_eq_some_iff :
    c.moveStepDown i = .ok (some c') ↔ i.toNat + 1 < UInt64.size ∧
      ∃ before s t behind, c.steps = before ++ s :: t :: behind ∧ before.length = i.toNat ∧
        c' = { c with steps := before ++ t :: s :: behind } := by
  rcases Nat.lt_or_ge (i.toNat + 1) UInt64.size with hbehind | hsize
  · rw [moveStepDown_of_lt c hbehind, Except.ok.injEq, Option.ite_none_right_eq_some,
      Option.some.injEq]
    refine ⟨fun h => ⟨hbehind, ?_⟩, fun h => ?_⟩
    · obtain ⟨hi, rfl⟩ := h
      obtain ⟨before, s, t, behind, hsteps, hbefore⟩ := exists_cut_pair hi
      exact ⟨before, s, t, behind, hsteps, hbefore, by rw [← hbefore, hsteps, swapNeighbours_cut]⟩
    · obtain ⟨-, before, s, t, behind, hsteps, hbefore, rfl⟩ := h
      exact ⟨succ_lt_length_of_cut hsteps hbefore, by rw [← hbefore, hsteps, swapNeighbours_cut]⟩
  · rw [moveStepDown_of_le c hsize]
    exact ⟨fun h => absurd h error_ne_ok, fun h => absurd h.1 (Nat.not_lt.mpr hsize)⟩

/-- A step is refused to move down if it is the last one or the position is out of range, as long
as there is a position behind. -/
theorem moveStepDown_eq_none_iff :
    c.moveStepDown i = .ok none ↔ i.toNat + 1 < UInt64.size ∧ c.steps.length ≤ i.toNat + 1 := by
  rcases Nat.lt_or_ge (i.toNat + 1) UInt64.size with hbehind | hsize
  · rw [moveStepDown_of_lt c hbehind]
    simp [hbehind]
  · rw [moveStepDown_of_le c hsize]
    exact ⟨fun h => absurd h error_ne_ok, fun h => absurd h.1 (Nat.not_lt.mpr hsize)⟩

/-- The exchange with the step behind goes beyond the 64-bit numbers at the greatest position. -/
theorem moveStepDown_eq_error_iff {e : PositionOverflow} :
    c.moveStepDown i = .error e ↔ i.toNat + 1 = UInt64.size ∧ e = .behind i := by
  have hlast := i.toNat_lt_size
  rcases Nat.lt_or_ge (i.toNat + 1) UInt64.size with hbehind | hsize
  · rw [moveStepDown_of_lt c hbehind]
    exact ⟨fun h => absurd h ok_ne_error, fun h => absurd h.1 (by omega)⟩
  · rw [moveStepDown_of_le c hsize, Except.error.injEq]
    exact ⟨fun h => ⟨by omega, h.symm⟩, fun h => h.2.symm⟩

/-! ### All edits at a position -/

/-- What the edits at a position do. -/
structure EditsAt (c : Configuration) (i : UInt64) : Prop where
  /-- Removal takes the step out of the list. -/
  removed : ∀ c', c.removeStep? i = some c' ↔ ∃ before s behind,
    c.steps = before ++ s :: behind ∧ before.length = i.toNat ∧
      c' = { c with steps := before ++ behind }
  /-- Removal is refused out of range. -/
  notRemoved : c.removeStep? i = none ↔ c.steps.length ≤ i.toNat
  /-- Moving up exchanges the step with the one before it. -/
  movedUp : ∀ c', c.moveStepUp? i = some c' ↔ ∃ before s t behind,
    c.steps = before ++ s :: t :: behind ∧ before.length + 1 = i.toNat ∧
      c' = { c with steps := before ++ t :: s :: behind }
  /-- Moving up is refused at the first position and out of range. -/
  notMovedUp : c.moveStepUp? i = none ↔ i.toNat = 0 ∨ c.steps.length ≤ i.toNat
  /-- Moving down exchanges the step with the one behind it. -/
  movedDown : ∀ c', c.moveStepDown i = .ok (some c') ↔ i.toNat + 1 < UInt64.size ∧
    ∃ before s t behind, c.steps = before ++ s :: t :: behind ∧ before.length = i.toNat ∧
      c' = { c with steps := before ++ t :: s :: behind }
  /-- Moving down is refused at the last position and out of range, except for the greatest
  position. -/
  notMovedDown : c.moveStepDown i = .ok none ↔
    i.toNat + 1 < UInt64.size ∧ c.steps.length ≤ i.toNat + 1
  /-- Moving down goes beyond the 64-bit numbers at the greatest position, and there only. -/
  overflow : ∀ e, c.moveStepDown i = .error e ↔ i.toNat + 1 = UInt64.size ∧ e = .behind i
  /-- A switch turns over the flag of the step. -/
  toggled : ∀ c', c.toggleStep? i = some c' ↔ ∃ before s behind,
    c.steps = before ++ s :: behind ∧ before.length = i.toNat ∧
      c' = { c with steps := before ++ ⟨s.text, !s.enabled⟩ :: behind }
  /-- A switch is refused out of range. -/
  notToggled : c.toggleStep? i = none ↔ c.steps.length ≤ i.toNat
  /-- A new text takes the place of the old one, trimmed, and the flag of the step stays. -/
  retexted : ∀ text c', c.retextStep? i text = some c' ↔ Text.isBlankText text = false ∧
    ∃ before s behind, c.steps = before ++ s :: behind ∧ before.length = i.toNat ∧
      c' = { c with steps := before ++ ⟨Text.trim text, s.enabled⟩ :: behind }
  /-- A new text is refused if it is blank, and out of range. -/
  notRetexted : ∀ text, c.retextStep? i text = none ↔
    Text.isBlankText text = true ∨ c.steps.length ≤ i.toNat

/-- **The edits at a position** change what stands there and nothing else, or they are refused
because the position is out of range or the text is blank; only at the greatest position one of
them does neither. -/
theorem editsAt (c : Configuration) (i : UInt64) : c.EditsAt i where
  removed _ := removeStep?_eq_some_iff
  notRemoved := removeStep?_eq_none_iff
  movedUp _ := moveStepUp?_eq_some_iff
  notMovedUp := moveStepUp?_eq_none_iff
  movedDown _ := moveStepDown_eq_some_iff
  notMovedDown := moveStepDown_eq_none_iff
  overflow _ := moveStepDown_eq_error_iff
  toggled _ := changeStep?_eq_some_iff
  notToggled := changeStep?_eq_none_iff
  retexted _ _ := by rw [retextStep?_eq_some_iff, changeStep?_eq_some_iff]
  notRetexted _ := retextStep?_eq_none_iff

/-- The greatest position is out of range, yet the exchange with the step behind is not refused
there: the position behind it is no 64-bit number. -/
theorem moveStepDown_greatest :
    let c : Configuration := { steps := [⟨"cat", true⟩, ⟨"head", true⟩] }
    let i : UInt64 := 18446744073709551615
    c.steps.length ≤ i.toNat ∧ c.moveStepDown i ≠ .ok none ∧
      c.moveStepDown i = .error (.behind i) :=
  ⟨by decide, nofun, rfl⟩

end Configuration

end Pipewright
