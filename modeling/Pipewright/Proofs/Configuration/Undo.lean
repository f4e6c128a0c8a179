import Pipewright.Proofs.Configuration.Repair
import Pipewright.Proofs.Configuration.StepEdits

/-!
# Undoing Edits of Steps

There is no history of edits, and none is needed: every edit of the step list is undone by edits
of the step list. An exchange is undone by the exchange back, a switch by itself and a new text by
the old one. A step that was removed is the one case with work to do. It can only be appended, and
it comes back switched on, so that it has to be raised to its old position one exchange at a time
and switched off there if it was off before.

Raising a step is followed by an induction over the steps that it passes, of which the last one is
passed first (`raiseStep?_eq_some`): whatever stands in front of these and behind the step stays
where it is.

## Main definitions

* `Configuration.raiseStep?`: a step moved up several times.
* `Configuration.restoreStep?`: a removed step put back.
* `Configuration.Undoable`: every edit of a step can be undone.

## Main results

* `Configuration.raiseStep?_eq_some`: a raised step passes the steps in front of it.
* `Configuration.undoable_of_isTidy`: the edits of a configuration with tidy steps can be undone.
-/

namespace Pipewright.Configuration

variable {c c' : Configuration} {i : UInt64}

/-- The configuration with the step at `i` moved up `n` times, one position at a time. -/
def raiseStep? (c : Configuration) (i : UInt64) : Nat → Option Configuration
  | 0 => some c
  | n + 1 => (c.moveStepUp? i).bind fun moved => moved.raiseStep? (i - 1) n

/-- The configuration with the removed step `s` at `i` again: it is appended, raised from the
position `last` at the end, and switched off if it was off. -/
def restoreStep? (c : Configuration) (s : Step) (last i : UInt64) : Option Configuration := do
  let added ← c.addStep? s.text
  let raised ← added.raiseStep? last (last.toNat - i.toNat)
  if s.enabled then return raised else raised.toggleStep? i

/-! ### What the edits do to a cut list -/

/-- A configuration is its own with the steps that it has. -/
theorem withSteps_eq {steps : List Step} (h : c.steps = steps) :
    { c with steps := steps } = c := by
  subst h
  rfl

/-- A tidy text is appended as it is, switched on. -/
theorem addStep?_of_isTidy {s : Step} (hs : s.IsTidy) (c : Configuration) :
    c.addStep? s.text = some { c with steps := c.steps ++ [⟨s.text, true⟩] } := by
  rw [addStep?, hs.ofText?_eq, Option.map_some]

/-- The position before one that is not the first. -/
theorem toNat_sub_one {i : UInt64} (h : 0 < i.toNat) : (i - 1).toNat = i.toNat - 1 :=
  UInt64.toNat_sub_of_le _ _ (UInt64.le_iff_toNat_le.mpr h)

/-- The position behind one that has another one behind it. -/
theorem toNat_add_one {i : UInt64} (h : i.toNat + 1 < UInt64.size) :
    (i + 1).toNat = i.toNat + 1 := by
  rw [UInt64.toNat_add, UInt64.toNat_one, Nat.mod_eq_of_lt h]

/-- **A raised step** passes the steps in front of it, and all others stay where they are. -/
theorem raiseStep?_eq_some {before passed behind : List Step} {s : Step}
    (hsteps : c.steps = before ++ passed ++ s :: behind)
    (hi : i.toNat = before.length + passed.length) :
    c.raiseStep? i passed.length =
      some { c with steps := before ++ s :: (passed ++ behind) } := by
  induction passed using List.reverseRecOn generalizing c i behind with
  | nil =>
      rw [List.length_nil, raiseStep?, List.nil_append, withSteps_eq (by simpa using hsteps)]
  | append_singleton passed t ih =>
      rw [List.length_append, List.length_singleton] at hi
      have hmove : c.moveStepUp? i =
          some { c with steps := before ++ passed ++ s :: t :: behind } := by
        refine moveStepUp?_eq_some_iff.mpr ⟨before ++ passed, t, s, behind, ?_, ?_, rfl⟩
        · rw [hsteps]
          simp
        · rw [List.length_append]
          omega
      have hrest : ({ c with steps := before ++ passed ++ s :: t :: behind } :
          Configuration).raiseStep? (i - 1) passed.length =
            some { c with steps := before ++ s :: (passed ++ t :: behind) } :=
        ih rfl (by rw [toNat_sub_one (by omega)]; omega)
      rw [List.length_append, List.length_singleton, raiseStep?, hmove, Option.bind_some,
        ← List.append_cons]
      exact hrest

/-! ### Undoing -/

/-- Every edit of a step can be undone by edits of steps. Where a step is appended, it is at the
position `last` at the end of the list, which only a list that is too long for 64-bit positions
does not have. -/
structure Undoable (c : Configuration) : Prop where
  /-- An appended step is removed. -/
  added : ∀ text c', c.addStep? text = some c' →
    ∀ last : UInt64, last.toNat + 1 = c'.steps.length → c'.removeStep? last = some c
  /-- A step that moved up moves down again. -/
  movedUp : ∀ i c', c.moveStepUp? i = some c' → c'.moveStepDown (i - 1) = .ok (some c)
  /-- A step that moved down moves up again. -/
  movedDown : ∀ i c', c.moveStepDown i = .ok (some c') → c'.moveStepUp? (i + 1) = some c
  /-- A switch is turned over again. -/
  toggled : ∀ i c', c.toggleStep? i = some c' → c'.toggleStep? i = some c
  /-- A new text gives way to the old one. -/
  retexted : ∀ i text c', c.retextStep? i text = some c' →
    ∃ s, c.steps[i.toNat]? = some s ∧ c'.retextStep? i s.text = some c
  /-- A removed step is appended, raised and switched off if it was off. -/
  removed : ∀ i c', c.removeStep? i = some c' →
    ∀ last : UInt64, last.toNat + 1 = c.steps.length →
      ∃ s, c.steps[i.toNat]? = some s ∧ c'.restoreStep? s last i = some c

/-- An appended step is removed. -/
theorem removeStep?_of_addStep? {text : String} (h : c.addStep? text = some c') {last : UInt64}
    (hlast : last.toNat + 1 = c'.steps.length) : c'.removeStep? last = some c := by
  obtain ⟨s, -, rfl⟩ := Option.map_eq_some_iff.mp h
  rw [List.length_append, List.length_singleton, Nat.add_right_cancel_iff] at hlast
  exact removeStep?_eq_some_iff.mpr ⟨c.steps, s, [], rfl, hlast.symm, by rw [List.append_nil]⟩

/-- A step that moved up moves down again. -/
theorem moveStepDown_of_moveStepUp? (h : c.moveStepUp? i = some c') :
    c'.moveStepDown (i - 1) = .ok (some c) := by
  obtain ⟨before, s, t, behind, hsteps, hi, rfl⟩ := moveStepUp?_eq_some_iff.mp h
  have hbefore := toNat_sub_one (i := i) (by omega)
  have hsize := i.toNat_lt_size
  exact moveStepDown_eq_some_iff.mpr ⟨by omega, before, t, s, behind, rfl, by omega,
    (withSteps_eq hsteps).symm⟩

/-- A step that moved down moves up again. -/
theorem moveStepUp?_of_moveStepDown (h : c.moveStepDown i = .ok (some c')) :
    c'.moveStepUp? (i + 1) = some c := by
  obtain ⟨hsize, before, s, t, behind, hsteps, hi, rfl⟩ := moveStepDown_eq_some_iff.mp h
  have hbehind := toNat_add_one hsize
  exact moveStepUp?_eq_some_iff.mpr ⟨before, t, s, behind, rfl, by omega,
    (withSteps_eq hsteps).symm⟩

/-- A change that is taken back at the same position is undone. -/
theorem changeStep?_of_changeStep? {f g : Step → Step} (h : c.changeStep? i f = some c')
    (hundo : ∀ s, c.steps[i.toNat]? = some s → g (f s) = s) :
    c'.changeStep? i g = some c := by
  obtain ⟨before, s, behind, hsteps, hi, rfl⟩ := changeStep?_eq_some_iff.mp h
  have hs : c.steps[i.toNat]? = some s := by rw [hsteps, ← hi, getElem?_cut]
  exact changeStep?_eq_some_iff.mpr ⟨before, f s, behind, rfl, hi,
    by rw [hundo s hs, withSteps_eq hsteps]⟩

/-- A removed step is put back. -/
theorem restoreStep?_of_removeStep? (htidy : ∀ s ∈ c.steps, s.IsTidy)
    (h : c.removeStep? i = some c') {last : UInt64} (hlast : last.toNat + 1 = c.steps.length) :
    ∃ s, c.steps[i.toNat]? = some s ∧ c'.restoreStep? s last i = some c := by
  obtain ⟨before, s, passed, hsteps, hi, rfl⟩ := removeStep?_eq_some_iff.mp h
  refine ⟨s, by rw [hsteps, ← hi, getElem?_cut], ?_⟩
  have hs : s.IsTidy := htidy s (by simp [hsteps])
  have hraised : ({ c with steps := before ++ passed ++ [⟨s.text, true⟩] } :
      Configuration).raiseStep? last (last.toNat - i.toNat) =
        some { c with steps := before ++ ⟨s.text, true⟩ :: passed } := by
    rw [hsteps, List.length_append, List.length_cons] at hlast
    have hpassed : last.toNat - i.toNat = passed.length := by omega
    rw [hpassed, raiseStep?_eq_some rfl (by omega), List.append_nil]
  rw [restoreStep?, addStep?_of_isTidy hs]
  simp only [Option.bind_eq_bind, Option.bind_some, hraised]
  cases henabled : s.enabled with
  | true =>
      have hsame : (⟨s.text, true⟩ : Step) = s := by rw [← henabled]
      rw [if_pos rfl, hsame]
      exact congrArg some (withSteps_eq hsteps)
  | false =>
      refine changeStep?_eq_some_iff.mpr ⟨before, _, passed, rfl, hi, ?_⟩
      have hsame : (⟨s.text, false⟩ : Step) = s := by rw [← henabled]
      exact (withSteps_eq (hsame ▸ hsteps)).symm

/-- **The edits of a configuration with tidy steps can be undone.** -/
theorem undoable_of_isTidy (htidy : ∀ s ∈ c.steps, s.IsTidy) : c.Undoable where
  added _ _ h _ hlast := removeStep?_of_addStep? h hlast
  movedUp _ _ h := moveStepDown_of_moveStepUp? h
  movedDown _ _ h := moveStepUp?_of_moveStepDown h
  toggled _ _ h := changeStep?_of_changeStep? h fun s _ => by simp
  retexted i text c' h := by
    obtain ⟨-, hchange⟩ := retextStep?_eq_some_iff.mp h
    obtain ⟨before, s, behind, hsteps, hi, -⟩ := changeStep?_eq_some_iff.mp hchange
    have hs : c.steps[i.toNat]? = some s := by rw [hsteps, ← hi, getElem?_cut]
    have htext := htidy s (by simp [hsteps])
    refine ⟨s, hs, retextStep?_eq_some_iff.mpr ⟨?_, ?_⟩⟩
    · rw [← Text.trim_isEmpty, htext.trim_eq, String.isEmpty_eq_false_iff]
      exact htext.ne_empty
    · refine changeStep?_of_changeStep? hchange fun s' hs' => ?_
      obtain rfl := Option.some.inj (hs.symm.trans hs')
      rw [htext.trim_eq]
  removed _ _ h _ hlast := restoreStep?_of_removeStep? htidy h hlast

/-- Three steps, one of them off, which is removed from the front and put back. -/
theorem undoable_of_isTidy_disabled :
    let c : Configuration := { steps := [⟨"cat -n", false⟩, ⟨"tac", true⟩, ⟨"head", true⟩] }
    (∀ s ∈ c.steps, s.IsTidy) ∧ c.Undoable ∧
      ∃ c', c.removeStep? 0 = some c' ∧ c'.restoreStep? ⟨"cat -n", false⟩ 2 0 = some c := by
  have htidy : ∀ s ∈ [(⟨"cat -n", false⟩ : Step), ⟨"tac", true⟩, ⟨"head", true⟩], s.IsTidy := by
    intro s hs
    simp only [List.mem_cons, List.not_mem_nil, or_false] at hs
    rcases hs with rfl | rfl | rfl
    all_goals exact ⟨by decide, by decide +kernel⟩
  exact ⟨htidy, undoable_of_isTidy htidy, _, rfl, by decide +kernel⟩

end Pipewright.Configuration
