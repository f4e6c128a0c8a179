import Pipewright.Command.Reading
import Pipewright.Proofs.Outcome

/-!
# What Flags Put into the Slots

Every slot of a configuration takes its value from at most one flag. This module says for
each slot what a group of flags denotes for it, and shows that filling the slots puts just
these values into them, in one statement for all slots.

## Main results

* `SlotFill.held_of_add`, `held_of_fillSlots`: what the slots hold after a group of flags,
  and after all groups.
* `exists_fillSlots`: the slots can be filled when no slot is denoted twice and the
  separator flag has its word.
-/

namespace Pipewright

/-- The values that a slot takes. -/
abbrev Slot.Value : Slot → Type
  | inputFormat => InputFormat
  | outputFormat => OutputFormat
  | ragged => Bool
  | headerless => Bool
  | separator => String

/-- The value of a slot that no flag has set. -/
def Slot.unset : (slot : Slot) → slot.Value
  | inputFormat => .auto
  | outputFormat => .auto
  | ragged => false
  | headerless => false
  | separator => defaultSeparator

/-- The value that a slot has in a configuration. -/
def Configuration.slot (c : Configuration) : (slot : Slot) → slot.Value
  | .inputFormat => c.inputFormat
  | .outputFormat => c.outputFormat
  | .ragged => c.ragged
  | .headerless => c.headerless
  | .separator => c.fieldSeparator

/-- What a slot holds, if a flag has set it. An empty separator is held as a comma. -/
def SlotFill.held (s : SlotFill) : (slot : Slot) → Option slot.Value
  | .inputFormat => s.inputFormat.map (·.value)
  | .outputFormat => s.outputFormat.map (·.value)
  | .ragged => s.ragged.map fun _ => true
  | .headerless => s.headerless.map fun _ => true
  | .separator => s.separator.map fun o => orDefaultSeparator o.value

/-- A separator in place of an empty one is not empty. -/
theorem orDefaultSeparator_orDefaultSeparator (separator : String) :
    orDefaultSeparator (orDefaultSeparator separator) = orDefaultSeparator separator := by
  have hcomma : orDefaultSeparator defaultSeparator = defaultSeparator := by decide
  cases h : separator.isEmpty with
  | true => rw [orDefaultSeparator.eq_def separator, if_pos h, hcomma]
  | false => simp [orDefaultSeparator, h]

/-- What a flag that denotes `setting` puts into a slot, if anything. -/
def Setting.denoted? : Setting → (slot : Slot) → Option slot.Value
  | input f, .inputFormat => some f
  | output f, .outputFormat => some f
  | both i _, .inputFormat => some i
  | both _ o, .outputFormat => some o
  | ragged, .ragged => some true
  | headerless, .headerless => some true
  | _, _ => none

namespace FlagGroup

/-- What a group of flags puts into a slot, if anything. -/
def denoted? : FlagGroup → (slot : Slot) → Option slot.Value
  | setting _ s, slot => s.denoted? slot
  | separator _ (some v), .separator => some (orDefaultSeparator v.value)
  | _, _ => none

/-- A flag of the vocabulary denotes what its setting does. -/
@[simp] theorem denoted?_setting (flag : Token) (s : Setting) (slot : Slot) :
    (setting flag s).denoted? slot = s.denoted? slot := rfl

/-- A flag that is passed on denotes nothing. -/
@[simp] theorem denoted?_passed (flag : Token) (value : Option Token) (slot : Slot) :
    (passed flag value).denoted? slot = none := by
  cases slot <;> rfl

/-- The group sets the separator and has no word for it. -/
def LacksSeparator : FlagGroup → Prop
  | setting _ s => s = .separator
  | separator _ value => value = none
  | passed _ _ => False

end FlagGroup

namespace SlotFill

variable {α : Type} {s s' : SlotFill} {flag : Token}

/-- A value goes into a slot that holds none, and the slots change as `put` says. -/
theorem occupy_bind_eq_ok_iff {slot : Slot} {occupant : Option (Occupant α)} {value : α}
    {put : Option (Occupant α) → SlotFill} :
    (occupy slot occupant flag value >>= fun o => Except.ok (put o)) = .ok s' ↔
      occupant = none ∧ put (some ⟨value, flag.value⟩) = s' := by
  cases occupant with
  | none => simp [occupy, bind, Except.bind]
  | some previous => simp [occupy, bind, Except.bind]

/-- The slots after a flag of the vocabulary hold what they held and what it denotes. -/
theorem held_of_set {setting : Setting} (h : s.set flag setting = .ok s') (slot : Slot) :
    (s'.held slot).toList = (s.held slot).toList ++ (setting.denoted? slot).toList := by
  cases setting with
  | input f =>
      obtain ⟨hfree, rfl⟩ := occupy_bind_eq_ok_iff.mp h
      cases slot <;> simp [held, Setting.denoted?, hfree]
  | output f =>
      obtain ⟨hfree, rfl⟩ := occupy_bind_eq_ok_iff.mp h
      cases slot <;> simp [held, Setting.denoted?, hfree]
  | both i o =>
      obtain ⟨mid, hmid, hset⟩ := bind_eq_ok_iff.mp h
      obtain ⟨hinput, rfl⟩ := occupy_bind_eq_ok_iff.mp hmid
      obtain ⟨houtput, rfl⟩ := occupy_bind_eq_ok_iff.mp hset
      cases slot <;> simp_all [held, Setting.denoted?]
  | ragged =>
      obtain ⟨hfree, rfl⟩ := occupy_bind_eq_ok_iff.mp h
      cases slot <;> simp [held, Setting.denoted?, hfree]
  | headerless =>
      obtain ⟨hfree, rfl⟩ := occupy_bind_eq_ok_iff.mp h
      cases slot <;> simp [held, Setting.denoted?, hfree]
  | separator => exact absurd h (by simp [set])

/-- **One group of flags**: the slots hold what they held before and what the group
denotes. -/
theorem held_of_add {g : FlagGroup} (h : s.add g = .ok s') (slot : Slot) :
    (s'.held slot).toList = (s.held slot).toList ++ (g.denoted? slot).toList := by
  cases g with
  | setting flag setting => exact held_of_set h slot
  | separator flag value =>
      cases value with
      | none => exact absurd h (by simp [add])
      | some v =>
          obtain ⟨hfree, rfl⟩ := occupy_bind_eq_ok_iff.mp h
          cases slot <;> simp [held, FlagGroup.denoted?, hfree]
  | passed flag value =>
      obtain rfl := Except.ok.inj h
      cases slot <;> simp [FlagGroup.denoted?]

/-- A flag of the vocabulary can be added when each slot that it denotes holds nothing. -/
theorem exists_set {setting : Setting} (hs : setting ≠ .separator)
    (h : ∀ slot, s.held slot = none ∨ setting.denoted? slot = none) :
    ∃ s', s.set flag setting = .ok s' := by
  cases setting with
  | input f =>
      have hfree : s.inputFormat = none := by
        simpa [held, Setting.denoted?] using h .inputFormat
      exact ⟨_, occupy_bind_eq_ok_iff.mpr ⟨hfree, rfl⟩⟩
  | output f =>
      have hfree : s.outputFormat = none := by
        simpa [held, Setting.denoted?] using h .outputFormat
      exact ⟨_, occupy_bind_eq_ok_iff.mpr ⟨hfree, rfl⟩⟩
  | both i o =>
      have hinput : s.inputFormat = none := by
        simpa [held, Setting.denoted?] using h .inputFormat
      have houtput : s.outputFormat = none := by
        simpa [held, Setting.denoted?] using h .outputFormat
      exact ⟨_, bind_eq_ok_iff.mpr ⟨_, occupy_bind_eq_ok_iff.mpr ⟨hinput, rfl⟩,
        occupy_bind_eq_ok_iff.mpr ⟨houtput, rfl⟩⟩⟩
  | ragged =>
      have hfree : s.ragged = none := by simpa [held, Setting.denoted?] using h .ragged
      exact ⟨_, occupy_bind_eq_ok_iff.mpr ⟨hfree, rfl⟩⟩
  | headerless =>
      have hfree : s.headerless = none := by simpa [held, Setting.denoted?] using h .headerless
      exact ⟨_, occupy_bind_eq_ok_iff.mpr ⟨hfree, rfl⟩⟩
  | separator => exact absurd rfl hs

/-- A group of flags can be added when it has its separator and each slot that it denotes
holds nothing. -/
theorem exists_add_iff {g : FlagGroup} :
    (∃ s', s.add g = .ok s') ↔
      ¬ g.LacksSeparator ∧ ∀ slot, s.held slot = none ∨ g.denoted? slot = none := by
  constructor
  · rintro ⟨s', h⟩
    refine ⟨fun hlacks => ?_, fun slot => ?_⟩
    · cases g with
      | setting flag setting =>
          obtain rfl := hlacks
          exact absurd h (by simp [add, set])
      | separator flag value =>
          obtain rfl := hlacks
          exact absurd h (by simp [add])
      | passed flag value => exact hlacks
    · -- the slot holds one value at most, also after the group
      have hheld := held_of_add h slot
      cases hbefore : s.held slot <;> cases hdenoted : g.denoted? slot <;>
        cases hafter : s'.held slot <;> simp_all
  · rintro ⟨hhas, h⟩
    cases g with
    | setting flag setting => exact exists_set hhas h
    | separator flag value =>
        cases value with
        | none => exact absurd rfl hhas
        | some v =>
            have hfree : s.separator = none := by
              simpa [held, FlagGroup.denoted?] using h .separator
            exact ⟨_, occupy_bind_eq_ok_iff.mpr ⟨hfree, rfl⟩⟩
    | passed flag value => exact ⟨s, rfl⟩

/-- The slots after several groups hold what they held and what the groups denote. -/
theorem held_of_foldlM_add {groups : List FlagGroup} (h : groups.foldlM add s = .ok s')
    (slot : Slot) :
    (s'.held slot).toList = (s.held slot).toList ++ groups.filterMap (·.denoted? slot) := by
  induction groups generalizing s with
  | nil =>
      obtain rfl := Except.ok.inj h
      simp
  | cons g groups ih =>
      rw [List.foldlM_cons] at h
      obtain ⟨mid, hmid, hrest⟩ := bind_eq_ok_iff.mp h
      rw [ih hrest, held_of_add hmid slot, List.append_assoc]
      cases hdenoted : g.denoted? slot <;> simp [hdenoted]

/-- Several groups can be added when each has its separator and no slot gets a second
value. -/
theorem exists_foldlM_add {groups : List FlagGroup} (hhas : ∀ g ∈ groups, ¬ g.LacksSeparator)
    (h : ∀ slot, (s.held slot).toList.length + (groups.filterMap (·.denoted? slot)).length ≤ 1) :
    ∃ s', groups.foldlM add s = .ok s' := by
  induction groups generalizing s with
  | nil => exact ⟨s, rfl⟩
  | cons g groups ih =>
      have hfree : ∀ slot, s.held slot = none ∨ g.denoted? slot = none := by
        intro slot
        have hslot := h slot
        cases hdenoted : g.denoted? slot with
        | none => exact .inr rfl
        | some v =>
            refine .inl (Option.toList_eq_nil_iff.mp (List.length_eq_zero_iff.mp ?_))
            simp only [List.filterMap_cons, hdenoted, List.length_cons] at hslot
            omega
      obtain ⟨mid, hmid⟩ := exists_add_iff.mpr ⟨hhas g List.mem_cons_self, hfree⟩
      have hrest : ∀ slot, (mid.held slot).toList.length +
          (groups.filterMap (·.denoted? slot)).length ≤ 1 := by
        intro slot
        have hslot := h slot
        rw [held_of_add hmid slot, List.length_append]
        cases hdenoted : g.denoted? slot <;> simp [hdenoted] at hslot ⊢ <;> omega
      obtain ⟨s', hs'⟩ := ih (fun g' hg' => hhas g' (List.mem_cons_of_mem g hg')) hrest
      exact ⟨s', by rw [List.foldlM_cons]; exact bind_eq_ok_iff.mpr ⟨mid, hmid, hs'⟩⟩

end SlotFill

/-- A slot that nothing has set holds nothing. -/
theorem held_empty (slot : Slot) : ({} : SlotFill).held slot = none := by
  cases slot <;> rfl

/-- **What the slots hold in the end** is what the leading flags denote for them, which is
one value at most. -/
theorem held_of_fillSlots {groups : List FlagGroup} {s : SlotFill}
    (h : fillSlots groups = .ok s) (slot : Slot) :
    (s.held slot).toList = groups.filterMap (·.denoted? slot) := by
  simpa [held_empty] using SlotFill.held_of_foldlM_add h slot

/-- **When the slots can be filled**: when every group has its separator and no slot is
denoted twice. -/
theorem exists_fillSlots {groups : List FlagGroup} (hhas : ∀ g ∈ groups, ¬ g.LacksSeparator)
    (h : ∀ slot, (groups.filterMap (·.denoted? slot)).length ≤ 1) :
    ∃ s, fillSlots groups = .ok s :=
  SlotFill.exists_foldlM_add hhas fun slot => by simpa [held_empty] using h slot

end Pipewright
