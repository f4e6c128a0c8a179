import Pipewright.Proofs.Command.Reading

/-!
# Repaired Configurations

A configuration that was written by hand may have an empty separator, blank steps and steps
with blanks around them. Its repair has none of these, and a configuration without them is
its own repair. Every configuration that is read from a command is of this kind.

## Main results

* `Configuration.repaired_eq_iff`: the configurations that are their own repair.
* `Configuration.repaired_repaired`: a repair is not repaired any further.
* `Configuration.isTidy_of_ofCommand`: what is read from a command needs no repair.
-/

namespace Pipewright

/-- The text of the step is neither empty nor has it blanks at its ends. -/
structure Step.IsTidy (s : Step) : Prop where
  /-- There is a text. -/
  ne_empty : s.text ≠ ""
  /-- The text has no blanks at its ends. -/
  trim_eq : Text.trim s.text = s.text

/-- A text that is neither empty nor has blanks at its ends is the text of its step. -/
theorem Step.IsTidy.ofText?_eq {s : Step} (h : s.IsTidy) :
    Step.ofText? s.text = some ⟨s.text, true⟩ := by
  rw [Step.ofText?, h.trim_eq]
  simp [h.ne_empty]

/-- The step of a text is tidy. -/
theorem Step.isTidy_of_ofText? {text : String} {s : Step} (h : Step.ofText? text = some s) :
    s.IsTidy := by
  rw [Step.ofText?] at h
  split at h
  · exact absurd h.symm (Option.some_ne_none s)
  next hne =>
    obtain rfl := Option.some.inj h
    exact ⟨by simpa using hne, Text.trim_trim text⟩

/-- A separator in place of an empty one is not empty. -/
theorem orDefaultSeparator_ne_empty (separator : String) : orDefaultSeparator separator ≠ "" := by
  rw [orDefaultSeparator]
  split
  · decide
  next hne => simpa using hne

namespace Configuration

/-- The configuration needs no repair: there is a separator, and all steps are tidy. -/
structure IsTidy (c : Configuration) : Prop where
  /-- There is a separator. -/
  separator : c.fieldSeparator ≠ ""
  /-- The steps are tidy. -/
  steps : ∀ s ∈ c.steps, s.IsTidy

/-- A repaired configuration is tidy. -/
theorem isTidy_repaired (c : Configuration) : c.repaired.IsTidy where
  separator := orDefaultSeparator_ne_empty c.fieldSeparator
  steps s hs := by
    obtain ⟨s₀, -, hs₀⟩ := List.mem_filterMap.mp hs
    obtain ⟨s₁, hs₁, rfl⟩ := Option.map_eq_some_iff.mp hs₀
    have htidy := Step.isTidy_of_ofText? hs₁
    exact ⟨htidy.ne_empty, htidy.trim_eq⟩

/-- A tidy configuration is its own repair. -/
theorem IsTidy.repaired_eq {c : Configuration} (h : c.IsTidy) : c.repaired = c := by
  have hseparator : orDefaultSeparator c.fieldSeparator = c.fieldSeparator := by
    simp [orDefaultSeparator, h.separator]
  have hsteps : c.steps.filterMap (fun s =>
      (Step.ofText? s.text).map fun s' => { s' with enabled := s.enabled }) = c.steps := by
    refine (List.filterMap_congr fun s hs => ?_).trans List.filterMap_some
    rw [(h.steps s hs).ofText?_eq]
    rfl
  rw [repaired, hseparator, hsteps]

/-- **The configurations that are their own repair** are the tidy ones. -/
theorem repaired_eq_iff {c : Configuration} : c.repaired = c ↔ c.IsTidy :=
  ⟨fun h => h ▸ c.isTidy_repaired, IsTidy.repaired_eq⟩

/-- **A repair is not repaired any further.** -/
theorem repaired_repaired (c : Configuration) : c.repaired.repaired = c.repaired :=
  c.isTidy_repaired.repaired_eq

/-- The steps of a pipeline are tidy. -/
theorem isTidy_of_pipelineSteps {input : String} {region : List Token} {steps : List Step}
    (h : pipelineSteps input region = .ok steps) : ∀ s ∈ steps, s.IsTidy := by
  by_cases hne : region = []
  · subst hne
    obtain rfl := Except.ok.inj h
    exact List.forall_mem_nil _
  · obtain ⟨parts, hparts⟩ := exists_stages region
    intro s hs
    obtain ⟨part, -, first, -, last, -, hstep⟩ :=
      exists_left_of_forall₂ ((hparts.pipelineSteps_eq_ok_iff hne).mp h) hs
    exact Step.isTidy_of_ofText? hstep

/-- **What is read from a command needs no repair.** -/
theorem isTidy_of_ofCommand {input : String} {current c : Configuration}
    (h : ofCommand input current = .ok c) : c.IsTidy := by
  obtain ⟨ts, groups, region, slots, steps, -, -, -, hsteps, rfl⟩ := ofCommand_eq_ok_iff.mp h
  have hfilled : (current.filled slots steps (optionsText input groups)).IsTidy :=
    ⟨orDefaultSeparator_ne_empty _, isTidy_of_pipelineSteps hsteps⟩
  cases (splitInputFile region).2 with
  | none => exact hfilled
  | some path => exact ⟨hfilled.separator, hfilled.steps⟩

end Configuration

end Pipewright
