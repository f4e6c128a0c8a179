import Pipewright.Proofs.Command.Reading

/-!
# Commands With the Same Words

What a command is read as hangs on the values of its tokens and on which of them are
connectives; the text itself matters for the steps and the options only, which are cut out
of it. This module follows a change of tokens that keeps the values and the connectives
through the reading: the flags, the slots, the stages and the input file are the same, up to
that change.

## Main results

* `flagGroups_map`: the leading flags of changed tokens.
* `fillSlots_map`: they put the same into the slots.
* `Stages.map`: the stages of changed tokens.
* `Configuration.ofCommand_map`: what a command with changed tokens is read as.
-/

namespace Pipewright

section Changed

variable {f : Token → Token}

/-- The tokens of changed groups. -/
theorem groupTokens_map (f : Token → Token) (groups : List FlagGroup) :
    groupTokens (groups.map (FlagGroup.map f)) = (groupTokens groups).map f := by
  rw [groupTokens, List.flatMap_map, groupTokens, List.map_flatMap]
  exact List.flatMap_congr fun g _ => g.tokens_map f

variable (hf : KeepsReading f)

include hf

/-- The words of a command behind the tool. -/
theorem dropTool_map (ts : List Token) : dropTool (ts.map f) = (dropTool ts).map f := by
  cases ts with
  | nil => rfl
  | cons t rest =>
      have htool : (f t).namesTool = t.namesTool := by
        rw [Token.namesTool, hf.value, Token.namesTool]
      rw [List.map_cons, dropTool, dropTool, htool]
      split <;> rfl

/-- Changed leading flags are leading flags. -/
theorem LeadingFlags.map {groups : List FlagGroup} {region : List Token}
    (h : LeadingFlags groups region) :
    LeadingFlags (groups.map (FlagGroup.map f)) (region.map f) := by
  induction h with
  | nil hstop =>
      refine .nil fun t ht => ?_
      rw [List.head?_map] at ht
      obtain ⟨u, hu, rfl⟩ := Option.map_eq_some_iff.mp ht
      rw [hf.isOption]
      exact hstop u hu
  | @cons g groups region hproper hlacks _ ih =>
      refine .cons ((g.proper_map hf).mpr hproper) (fun hg => ?_) ih
      obtain ⟨rfl, rfl⟩ := hlacks ((g.lacks_map hf).mp hg)
      exact ⟨rfl, rfl⟩

/-- **The leading flags of changed tokens** are the changed leading flags. -/
theorem flagGroups_map (ts : List Token) :
    flagGroups (ts.map f) =
      ((flagGroups ts).1.map (FlagGroup.map f), (flagGroups ts).2.map f) := by
  obtain ⟨hts, hflags⟩ := flagGroups_eq_iff.mp (rfl : flagGroups ts = _)
  rw [flagGroups_eq_iff, groupTokens_map, ← List.map_append, ← hts]
  exact ⟨rfl, hflags.map hf⟩

/-- The stages of changed tokens. -/
theorem Stages.map {region : List Token} {stages : List (List Token)} (h : Stages region stages) :
    Stages (region.map f) (stages.map (List.map f)) := by
  have hfree {stage : List Token} (hstage : ∀ t ∈ stage, t.isConnective = false) :
      ∀ t ∈ stage.map f, t.isConnective = false := by
    intro t ht
    obtain ⟨u, hu, rfl⟩ := List.mem_map.mp ht
    rw [hf.isConnective]
    exact hstage u hu
  induction h with
  | last hstage => exact .last (hfree hstage)
  | @cons stage region t stages hstage ht _ ih =>
      rw [List.map_append, List.map_cons, List.map_cons]
      exact .cons (hfree hstage) ((hf.isConnective t).trans ht) ih

namespace SlotFill

variable {s s' : SlotFill}

omit hf in
/-- A flag with the same value sets the same. -/
theorem set_congr {flag flag' : Token} (hflag : flag'.value = flag.value) {setting : Setting}
    (h : s.set flag setting = .ok s') : s.set flag' setting = .ok s' := by
  cases setting with
  | both i o =>
      obtain ⟨mid, hmid, hset⟩ := bind_eq_ok_iff.mp h
      obtain ⟨hinput, rfl⟩ := occupy_bind_eq_ok_iff.mp hmid
      obtain ⟨houtput, rfl⟩ := occupy_bind_eq_ok_iff.mp hset
      exact bind_eq_ok_iff.mpr ⟨_, occupy_bind_eq_ok_iff.mpr ⟨hinput, rfl⟩,
        occupy_bind_eq_ok_iff.mpr ⟨houtput, by rw [hflag]⟩⟩
  | separator => exact absurd h (by simp [set])
  | input | output | ragged | headerless =>
      obtain ⟨hfree, rfl⟩ := occupy_bind_eq_ok_iff.mp h
      exact occupy_bind_eq_ok_iff.mpr ⟨hfree, by rw [hflag]⟩

/-- A changed group sets the same. -/
theorem add_map {g : FlagGroup} (h : s.add g = .ok s') : s.add (g.map f) = .ok s' := by
  cases g with
  | setting flag setting => exact set_congr (hf.value flag) h
  | separator flag value =>
      cases value with
      | none => exact absurd h (by simp [add])
      | some v =>
          obtain ⟨hfree, rfl⟩ := occupy_bind_eq_ok_iff.mp h
          refine occupy_bind_eq_ok_iff.mpr ⟨hfree, ?_⟩
          rw [hf.value, hf.value]
  | passed flag value => exact h

/-- Changed groups set the same, one behind the other. -/
theorem foldlM_add_map {groups : List FlagGroup} (h : groups.foldlM add s = .ok s') :
    (groups.map (FlagGroup.map f)).foldlM add s = .ok s' := by
  induction groups generalizing s with
  | nil => exact h
  | cons g groups ih =>
      rw [List.foldlM_cons] at h
      obtain ⟨mid, hmid, hrest⟩ := bind_eq_ok_iff.mp h
      rw [List.map_cons, List.foldlM_cons]
      exact bind_eq_ok_iff.mpr ⟨mid, add_map hf hmid, ih hrest⟩

end SlotFill

/-- **Changed flags put the same into the slots.** -/
theorem fillSlots_map {groups : List FlagGroup} {slots : SlotFill}
    (h : fillSlots groups = .ok slots) :
    fillSlots (groups.map (FlagGroup.map f)) = .ok slots :=
  SlotFill.foldlM_add_map hf h

/-- **A command with changed tokens** is read as the same configuration, but for the steps and
the options, if its stages become steps. -/
theorem Configuration.ofCommand_map {input input' : String} {current c : Configuration}
    {ts : List Token} {steps' : List Step} (h : ofCommand input current = .ok c)
    (hts : tokensOf input = .ok ts) (hts' : tokensOf input' = .ok (ts.map f))
    (hsteps' : pipelineSteps input' ((splitInputFile (flagGroups (dropTool ts)).2).1.map f) =
      .ok steps') :
    ofCommand input' current =
      .ok { c with
        steps := steps'
        options := optionsText input' ((flagGroups (dropTool ts)).1.map (FlagGroup.map f)) } := by
  obtain ⟨us, groups, region, slots, steps, hus, hgroups, hslots, -, rfl⟩ :=
    ofCommand_eq_ok_iff.mp h
  obtain rfl := Except.ok.inj (hts.symm.trans hus)
  rw [hgroups] at hsteps' ⊢
  rw [ofCommand_eq_ok_iff]
  refine ⟨_, _, region.map f, slots, steps', hts', ?_, fillSlots_map hf hslots, ?_, ?_⟩
  · rw [dropTool_map hf, flagGroups_map hf, hgroups]
  · rw [splitInputFile_map hf]
    exact hsteps'
  · rw [splitInputFile_map hf]
    cases (splitInputFile region).2 with
    | none => rfl
    | some path => simp [withFile, setInputFile, filled, hf.value]

end Changed

end Pipewright
