import Pipewright.Proofs.Command.Layout
import Pipewright.Proofs.Command.Options

/-!
# The Flags That a Configuration Shows

The command line of a configuration holds flags for its formats and switches and for its
separator. As groups of flags these are proper, none of them is passed on, and together
they denote for each slot what the configuration shows of it.

## Main results

* `Configuration.formatGroups_proper`: the flags are proper groups that set slots.
* `Configuration.filterMap_formatGroups`: what the flags denote for each slot.
-/

namespace Pipewright

/-- The group that a flag of a configuration makes. -/
def FlagGroup.ofFormat : String × Option String → FlagGroup
  | (flag, none) => .setting (Token.ofWord flag) ((Setting.ofFlag? flag).getD .separator)
  | (flag, some value) => .separator (Token.ofWord flag) (some (Token.ofWord value))

/-- The flags without a value denote settings, and the separator flag the separator. -/
theorem ofFlag?_formatWords : ∀ word ∈ formatWords,
    (Token.ofWord word).isOption = true ∧
      Setting.ofFlag? word = some ((Setting.ofFlag? word).getD .separator) ∧
      (Setting.ofFlag? word).getD .separator ≠ .separator := by
  decide +kernel

/-- Only the format that is left to the tool has no flag. -/
theorem InputFormat.flag?_eq_none_iff {f : InputFormat} : f.flag? = none ↔ f = .auto := by
  cases f <;> simp [InputFormat.flag?]

/-- Only the format that is left to the tool has no flag. -/
theorem OutputFormat.flag?_eq_none_iff {f : OutputFormat} : f.flag? = none ↔ f = .auto := by
  cases f <;> simp [OutputFormat.flag?]

/-- The flag of an input format denotes it. -/
theorem ofFlag?_of_inputFlag {f : InputFormat} {word : String} (h : f.flag? = some word) :
    Setting.ofFlag? word = some (.input f) := by
  cases f <;> simp only [InputFormat.flag?, Option.some.injEq, reduceCtorEq] at h <;> subst h <;>
    decide

/-- The flag of an output format denotes it. -/
theorem ofFlag?_of_outputFlag {f : OutputFormat} {word : String} (h : f.flag? = some word) :
    Setting.ofFlag? word = some (.output f) := by
  cases f <;> simp only [OutputFormat.flag?, Option.some.injEq, reduceCtorEq] at h <;> subst h <;>
    decide

namespace Configuration

/-- The groups of the flags of a configuration. -/
def formatGroups (c : Configuration) : List FlagGroup :=
  c.formatFlags.map FlagGroup.ofFormat

/-- The tokens of these groups are those of the pieces of the flags. -/
theorem groupTokens_formatGroups (c : Configuration) :
    groupTokens c.formatGroups = c.flagPieces.flatMap (·.tokens) := by
  rw [groupTokens, formatGroups, flagPieces, List.flatMap_map, List.flatMap_assoc]
  refine List.flatMap_congr fun f _ => ?_
  obtain ⟨flag, _ | value⟩ := f <;> rfl

/-- **The flags of a configuration are proper**: each sets a slot, has its word if it takes
one, and is not passed on. -/
theorem formatGroups_proper {c : Configuration} {g : FlagGroup} (hg : g ∈ c.formatGroups) :
    g.Proper ∧ ¬ g.Lacks ∧ ¬ g.IsPassed := by
  obtain ⟨f, hf, rfl⟩ := List.mem_map.mp hg
  rcases mem_formatFlags hf with rfl | ⟨word, hword, rfl⟩
  · have hseparator : (Token.ofWord separatorWord).isOption = true ∧
        Setting.ofFlag? separatorWord = some .separator := by decide
    exact ⟨hseparator, Option.some_ne_none _, id⟩
  · obtain ⟨hoption, hset, hs⟩ := ofFlag?_formatWords word hword
    exact ⟨⟨hoption, hset, hs⟩, id, id⟩

/-- What a configuration shows of a slot on its command line, if anything: formats other than
`auto`, switches where the format has a separator, and the separator of comma-separated
values if it is no comma. -/
def shown? (c : Configuration) : (slot : Slot) → Option slot.Value
  | .inputFormat => if c.inputFormat = .auto then none else some c.inputFormat
  | .outputFormat => if c.outputFormat = .auto then none else some c.outputFormat
  | .ragged => if c.inputFormat.hasSeparator && c.ragged then some true else none
  | .headerless => if c.inputFormat.hasSeparator && c.headerless then some true else none
  | .separator =>
    if c.inputFormat = .csv ∧ c.separator ≠ defaultSeparator then some c.separator else none

/-- What a flag denotes that may be missing. -/
theorem filterMap_flag {flag? : Option String} {s : Setting}
    (h : ∀ flag, flag? = some flag → Setting.ofFlag? flag = some s) (slot : Slot) :
    ((flag?.toList.map fun flag => (flag, none)).map FlagGroup.ofFormat).filterMap
        (·.denoted? slot) =
      if flag? = none then [] else (s.denoted? slot).toList := by
  cases flag? with
  | none => rfl
  | some flag =>
      have hgroup : FlagGroup.ofFormat (flag, none) = .setting (Token.ofWord flag) s := by
        rw [FlagGroup.ofFormat, h flag rfl]
        rfl
      cases hs : s.denoted? slot <;> simp [hgroup, hs]

/-- What a flag denotes that is shown under a condition. -/
theorem filterMap_flagIf (p : Prop) [Decidable p] (f : String × Option String) (slot : Slot) :
    ((if p then [f] else []).map FlagGroup.ofFormat).filterMap (·.denoted? slot) =
      if p then ((FlagGroup.ofFormat f).denoted? slot).toList else [] := by
  split
  · cases h : (FlagGroup.ofFormat f).denoted? slot <;> simp [h]
  · rfl

/-- **What the flags of a configuration denote** for a slot is what the configuration shows of
it. -/
theorem filterMap_formatGroups (c : Configuration) (slot : Slot) :
    c.formatGroups.filterMap (·.denoted? slot) = (c.shown? slot).toList := by
  have hragged : FlagGroup.ofFormat (raggedWord, none) =
      .setting (Token.ofWord raggedWord) .ragged := by decide
  have hheaderless : FlagGroup.ofFormat (headerlessWord, none) =
      .setting (Token.ofWord headerlessWord) .headerless := by decide
  have hseparator : FlagGroup.ofFormat (separatorWord, some c.separator) =
      .separator (Token.ofWord separatorWord) (some (Token.ofWord c.separator)) := rfl
  have hvalue : orDefaultSeparator (Token.ofWord c.separator).value = c.separator :=
    orDefaultSeparator_orDefaultSeparator c.fieldSeparator
  rw [formatGroups, formatFlags]
  simp only [List.map_append, List.filterMap_append, filterMap_flagIf,
    filterMap_flag fun _ => ofFlag?_of_inputFlag, filterMap_flag fun _ => ofFlag?_of_outputFlag,
    InputFormat.flag?_eq_none_iff, OutputFormat.flag?_eq_none_iff, hragged, hheaderless, hseparator]
  cases slot <;> simp only [FlagGroup.denoted?, Setting.denoted?, shown?, hvalue,
    Option.toList_none, Option.toList_some, ite_self, List.append_nil, List.nil_append] <;>
    split <;> rfl

end Configuration

end Pipewright
