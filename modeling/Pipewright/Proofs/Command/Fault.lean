import Pipewright.Proofs.Command.LeadingFlags
import Pipewright.Proofs.Command.Slots
import Pipewright.Proofs.Command.Stages

/-!
# What a Command Is Refused For

A command is refused for the first fault that is met on the way through its tokens. This
module says what a fault of the flags is and what a fault of the stages is, without saying
how either is found, and shows that the filling of the slots and the making of the steps
fail with just these errors.

A flag of the vocabulary makes demands: that a word is left for it if it takes one, and then
that the slots it fills are free. A connective is at fault if no stage stands in front of it
or none behind it.

## Main results

* `exists_firstFault_iff`: there is a first fault where there is any.
* `fillSlots_eq_error_iff`: filling the slots fails for the first demand that is not met.
* `pipelineSteps_eq_error_iff`: a pipeline fails for the first connective at fault.
-/

namespace Pipewright

/-! ### The first fault of a list -/

/-- In the list `rest`, read from its front, the first element at fault is to blame for `e`.
What `fault` says of an element may depend on what stands in front of it and behind it;
`before` stands in front of `rest`. -/
inductive FirstFault {α ε : Type} (fault : List α → α → List α → ε → Prop) :
    List α → List α → ε → Prop
  | here {before rest : List α} {a : α} {e : ε} :
      fault before a rest e → FirstFault fault before (a :: rest) e
  | later {before rest : List α} {a : α} {e : ε} :
      (∀ e', ¬ fault before a rest e') → FirstFault fault (before ++ [a]) rest e →
      FirstFault fault before (a :: rest) e

section FirstFault

variable {α ε : Type} {fault : List α → α → List α → ε → Prop} {before rest : List α} {e : ε}

/-- Nothing is at fault where there is nothing. -/
theorem not_firstFault_nil : ¬ FirstFault fault before [] e := nofun

/-- The first fault is that of the first element, or that of the others if it has none. -/
theorem firstFault_cons_iff {a : α} :
    FirstFault fault before (a :: rest) e ↔
      fault before a rest e ∨
        (∀ e', ¬ fault before a rest e') ∧ FirstFault fault (before ++ [a]) rest e := by
  constructor
  · rintro (h | ⟨hnone, h⟩)
    · exact .inl h
    · exact .inr ⟨hnone, h⟩
  · rintro (h | ⟨hnone, h⟩)
    · exact .here h
    · exact .later hnone h

/-- The first fault is that of the first element if it has one. -/
theorem firstFault_cons_of_fault {a : α} {e₀ : ε}
    (h : ∀ e', fault before a rest e' ↔ e₀ = e') :
    FirstFault fault before (a :: rest) e ↔ e₀ = e := by
  rw [firstFault_cons_iff, h]
  refine or_iff_left ?_
  rintro ⟨hnone, -⟩
  exact hnone e₀ ((h e₀).mpr rfl)

/-- The first fault is that of the others if the first element has none. -/
theorem firstFault_cons_of_not_fault {a : α} (h : ∀ e', ¬ fault before a rest e') :
    FirstFault fault before (a :: rest) e ↔ FirstFault fault (before ++ [a]) rest e := by
  rw [firstFault_cons_iff, or_iff_right (h e), and_iff_right h]

/-- **There is a first fault where there is any.** -/
theorem exists_firstFault_iff :
    (∃ e, FirstFault fault before rest e) ↔
      ∃ front a behind e, rest = front ++ a :: behind ∧ fault (before ++ front) a behind e := by
  induction rest generalizing before with
  | nil => simp [not_firstFault_nil]
  | cons a rest ih =>
      constructor
      · rintro ⟨e, h⟩
        rcases firstFault_cons_iff.mp h with h | ⟨-, h⟩
        · exact ⟨[], a, rest, e, rfl, by simpa using h⟩
        · obtain ⟨front, a', behind, e', rfl, hfault⟩ := ih.mp ⟨e, h⟩
          rw [List.append_assoc, List.singleton_append] at hfault
          exact ⟨a :: front, a', behind, e', rfl, hfault⟩
      · rintro ⟨front, a', behind, e', hrest, hfault⟩
        by_cases hnone : ∀ e, ¬ fault before a rest e
        · cases front with
          | nil =>
              obtain ⟨rfl, rfl⟩ := List.cons.inj hrest
              exact absurd (by simpa using hfault) (hnone e')
          | cons _ front =>
              obtain ⟨rfl, rfl⟩ := List.cons.inj hrest
              rw [← List.singleton_append, ← List.append_assoc] at hfault
              obtain ⟨e, h⟩ := ih.mpr ⟨front, a', behind, e', rfl, hfault⟩
              exact ⟨e, .later hnone h⟩
        · push Not at hnone
          obtain ⟨e, h⟩ := hnone
          exact ⟨e, .here h⟩

/-- What is at fault first stands in the list. -/
theorem FirstFault.exists_mem (h : FirstFault fault before rest e) :
    ∃ front a behind, a ∈ rest ∧ fault front a behind e := by
  induction h with
  | here h => exact ⟨_, _, _, List.mem_cons_self, h⟩
  | later _ _ ih =>
      obtain ⟨front, a, behind, ha, hfault⟩ := ih
      exact ⟨front, a, behind, List.mem_cons_of_mem _ ha, hfault⟩

end FirstFault

/-! ### Faults of the flags -/

/-- The slots that a setting fills, in order. -/
def Setting.slots : Setting → List Slot
  | input _ => [.inputFormat]
  | output _ => [.outputFormat]
  | both _ _ => [.inputFormat, .outputFormat]
  | ragged => [.ragged]
  | headerless => [.headerless]
  | separator => [.separator]

/-- The slots that a group of flags fills, in order. -/
def FlagGroup.slots : FlagGroup → List Slot
  | setting _ s => s.slots
  | separator _ _ => [.separator]
  | passed _ _ => []

/-- What a flag asks for. -/
inductive Demand where
  /-- The flag asks for the word behind it. -/
  | word (flag : Token) (value : Option Token)
  /-- The flag asks for a slot that no flag has filled. -/
  | free (flag : Token) (slot : Slot)

/-- The flag that asks. -/
def Demand.flag : Demand → Token
  | word flag _ => flag
  | free flag _ => flag

/-- What a group of flags asks for, in order: first the word of a flag that takes one, then
the slots. -/
def FlagGroup.demands : FlagGroup → List Demand
  | setting flag s => s.slots.map (.free flag)
  | separator flag value => [.word flag value, .free flag .separator]
  | passed _ _ => []

/-- The demand is not met behind the demands `before`: the word is missing, or an earlier flag
has filled the slot. -/
def Demand.Unmet (before : List Demand) (d : Demand) (_behind : List Demand)
    (e : CommandError) : Prop :=
  match d with
  | word flag value => value = none ∧ e = .noValue flag.value flag.start
  | free flag slot =>
    ∃ previous, .free previous slot ∈ before ∧
      e = .slotTaken flag.value previous.value slot flag.start

/-- The flag that asks is one of the command. -/
theorem flag_mem_groupTokens {groups : List FlagGroup} {d : Demand}
    (h : d ∈ groups.flatMap FlagGroup.demands) : d.flag ∈ groupTokens groups := by
  obtain ⟨g, hg, hd⟩ := List.mem_flatMap.mp h
  refine List.mem_flatMap.mpr ⟨g, hg, ?_⟩
  cases g with
  | setting flag setting =>
      obtain ⟨slot, -, rfl⟩ := List.mem_map.mp hd
      exact List.mem_singleton_self flag
  | separator flag value =>
      rcases List.mem_pair.mp hd with rfl | rfl <;> exact List.mem_cons_self
  | passed flag value => exact absurd hd List.not_mem_nil

namespace SlotFill

/-- The flag that has filled a slot. -/
def owner? (s : SlotFill) : Slot → Option String
  | .inputFormat => s.inputFormat.map (·.flag)
  | .outputFormat => s.outputFormat.map (·.flag)
  | .ragged => s.ragged.map (·.flag)
  | .headerless => s.headerless.map (·.flag)
  | .separator => s.separator.map (·.flag)

/-- The slots are filled by just the flags that have asked for them. -/
def Records (s : SlotFill) (before : List Demand) : Prop :=
  ∀ slot previous, s.owner? slot = some previous ↔
    ∃ flag, .free flag slot ∈ before ∧ flag.value = previous

/-- No flag has filled a slot at the beginning. -/
theorem records_empty : ({} : SlotFill).Records [] := by
  intro slot previous
  cases slot <;> simp [owner?]

/-- What becomes of the slots when `flag` asks for `slot`: it is refused if a flag has filled
the slot, and otherwise it fills this slot and no other. -/
structure Claims (s : SlotFill) (flag : Token) (slot : Slot)
    (r : Except CommandError SlotFill) : Prop where
  /-- A slot that is filled is refused. -/
  taken : ∀ previous, s.owner? slot = some previous →
    r = .error (.slotTaken flag.value previous slot flag.start)
  /-- A slot that is free is filled. -/
  free : s.owner? slot = none → ∃ s', r = .ok s' ∧
    ∀ slot', s'.owner? slot' = if slot' = slot then some flag.value else s.owner? slot'

variable {s : SlotFill} {flag : Token} {slot : Slot} {r : Except CommandError SlotFill}
  {before : List Demand}

/-- A value that goes into a slot claims it: `held` is what the slot holds, and the slots change
as `put` says. -/
theorem claims_occupy {α : Type} {held : Option (Occupant α)} {value : α}
    {put : Option (Occupant α) → SlotFill} (hheld : s.owner? slot = held.map (·.flag))
    (hput : ∀ o slot', (put (some o)).owner? slot' =
      if slot' = slot then some o.flag else s.owner? slot') :
    s.Claims flag slot (occupy slot held flag value >>= fun o => .ok (put o)) where
  taken previous h := by
    rw [hheld] at h
    obtain ⟨o, rfl, rfl⟩ := Option.map_eq_some_iff.mp h
    rfl
  free h := by
    rw [hheld] at h
    obtain rfl := Option.map_eq_none_iff.mp h
    exact ⟨_, rfl, hput ⟨value, flag.value⟩⟩

/-- A flag that sets the input format claims its slot. -/
theorem claims_setInput (f : InputFormat) : s.Claims flag .inputFormat (s.setInput flag f) :=
  claims_occupy rfl fun _ slot' => by cases slot' <;> rfl

/-- A flag that sets the output format claims its slot. -/
theorem claims_setOutput (f : OutputFormat) : s.Claims flag .outputFormat (s.setOutput flag f) :=
  claims_occupy rfl fun _ slot' => by cases slot' <;> rfl

/-- A flag that sets the separator claims its slot. -/
theorem claims_setSeparator (v : String) : s.Claims flag .separator (s.setSeparator flag v) :=
  claims_occupy rfl fun _ slot' => by cases slot' <;> rfl

/-- A flag that turns a switch on claims its slot. -/
theorem claims_set_ragged : s.Claims flag .ragged (s.set flag .ragged) :=
  claims_occupy rfl fun _ slot' => by cases slot' <;> rfl

/-- A flag that turns a switch on claims its slot. -/
theorem claims_set_headerless : s.Claims flag .headerless (s.set flag .headerless) :=
  claims_occupy rfl fun _ slot' => by cases slot' <;> rfl

/-- A flag that claims a slot is refused for a demand that is not met. -/
theorem Claims.eq_error_iff (h : s.Claims flag slot r) (hs : s.Records before)
    {behind : List Demand} {e : CommandError} :
    r = .error e ↔ (Demand.free flag slot).Unmet before behind e := by
  cases howner : s.owner? slot with
  | some previous =>
      rw [h.taken previous howner]
      constructor
      · intro he
        obtain ⟨flag', hflag', rfl⟩ := (hs slot previous).mp howner
        exact ⟨flag', hflag', (Except.error.inj he).symm⟩
      · rintro ⟨flag', hflag', rfl⟩
        have howner' := (hs slot flag'.value).mpr ⟨flag', hflag', rfl⟩
        rw [howner] at howner'
        rw [Option.some.inj howner']
  | none =>
      obtain ⟨s', rfl, -⟩ := h.free howner
      constructor
      · exact nofun
      · rintro ⟨flag', hflag', -⟩
        have howner' := (hs slot flag'.value).mpr ⟨flag', hflag', rfl⟩
        rw [howner] at howner'
        exact absurd howner' (by simp)

/-- A flag that has claimed a slot is recorded. -/
theorem Claims.records (h : s.Claims flag slot r) (hs : s.Records before) {s' : SlotFill}
    (hr : r = .ok s') : s'.Records (before ++ [.free flag slot]) := by
  subst hr
  have hnone : s.owner? slot = none := by
    cases howner : s.owner? slot with
    | none => rfl
    | some previous => exact absurd (h.taken previous howner) nofun
  obtain ⟨s'', hs'', howner⟩ := h.free hnone
  obtain rfl := Except.ok.inj hs''
  intro slot' previous
  rw [howner]
  by_cases hslot : slot' = slot
  · subst hslot
    have hnot : ∀ flag', .free flag' slot' ∉ before := by
      intro flag' hflag'
      have := (hs slot' flag'.value).mpr ⟨flag', hflag', rfl⟩
      rw [hnone] at this
      exact absurd this (by simp)
    simp [hnot]
  · simp [hslot, hs slot' previous]

/-- **One demand for a slot**: a claim and a program behind it fail for the first demand that
is not met if the program does so behind the claim. -/
theorem Claims.bind_eq_error (h : s.Claims flag slot r) (hs : s.Records before)
    {k : SlotFill → Except CommandError SlotFill} {rest : List Demand} {e : CommandError}
    (hk : ∀ s', s'.Records (before ++ [.free flag slot]) →
      (k s' = .error e ↔ FirstFault Demand.Unmet (before ++ [.free flag slot]) rest e)) :
    r >>= k = .error e ↔ FirstFault Demand.Unmet before (.free flag slot :: rest) e := by
  rw [firstFault_cons_iff, bind_eq_error_iff, h.eq_error_iff hs]
  refine or_congr_right ⟨?_, ?_⟩
  · rintro ⟨s', rfl, hrest⟩
    refine ⟨fun e' he' => ?_, (hk s' (h.records hs rfl)).mp hrest⟩
    exact absurd ((h.eq_error_iff hs).mpr he') nofun
  · rintro ⟨hmet, hrest⟩
    cases r with
    | error e' => exact absurd ((h.eq_error_iff hs).mp rfl) (hmet e')
    | ok s' => exact ⟨s', rfl, (hk s' (h.records hs rfl)).mpr hrest⟩

/-- **Filling the slots behind other flags** fails for the first demand that is not met. -/
theorem foldlM_add_eq_error_iff {groups : List FlagGroup} (hproper : ∀ g ∈ groups, g.Proper)
    (hs : s.Records before) {e : CommandError} :
    groups.foldlM add s = .error e ↔
      FirstFault Demand.Unmet before (groups.flatMap FlagGroup.demands) e := by
  induction groups generalizing s before with
  | nil => exact iff_of_false ok_ne_error not_firstFault_nil
  | cons g groups ih =>
      obtain ⟨hg, hproper⟩ := List.forall_mem_cons.mp hproper
      have hrest : ∀ (s' : SlotFill) (before' : List Demand), s'.Records before' →
          (groups.foldlM add s' = .error e ↔
            FirstFault Demand.Unmet before' (groups.flatMap FlagGroup.demands) e) :=
        fun s' before' hs' => ih hproper hs'
      rw [List.foldlM_cons, List.flatMap_cons]
      cases g with
      | passed flag value => exact hrest s before hs
      | separator flag value =>
          cases value with
          | none =>
              have hword : (s.add (.separator flag none) >>= fun s' => groups.foldlM add s') =
                  .error (.noValue flag.value flag.start) := rfl
              have hunmet : ∀ e', (Demand.word flag none).Unmet before
                  (.free flag .separator :: groups.flatMap FlagGroup.demands) e' ↔
                    .noValue flag.value flag.start = e' := by
                intro e'
                simp [Demand.Unmet, eq_comm]
              rw [hword, Except.error.injEq]
              exact (firstFault_cons_of_fault hunmet).symm
          | some v =>
              have hmet : ∀ e', ¬ (Demand.word flag (some v)).Unmet before
                  (.free flag .separator :: groups.flatMap FlagGroup.demands) e' := by
                rintro e' ⟨h, -⟩
                exact absurd h (Option.some_ne_none v)
              have hs' : s.Records (before ++ [.word flag (some v)]) := by
                intro slot previous
                simp [hs slot previous]
              refine Iff.trans ?_ (firstFault_cons_of_not_fault hmet).symm
              exact (claims_setSeparator v.value).bind_eq_error hs' (hrest · _)
      | setting flag setting =>
          cases setting with
          | input f => exact (claims_setInput f).bind_eq_error hs (hrest · _)
          | output f => exact (claims_setOutput f).bind_eq_error hs (hrest · _)
          | both i o =>
              have hassoc : (s.add (.setting flag (.both i o)) >>= fun s' => groups.foldlM add s') =
                  s.setInput flag i >>= fun s' =>
                    s'.setOutput flag o >>= fun s' => groups.foldlM add s' :=
                bind_assoc _ _ _
              rw [hassoc]
              exact (claims_setInput i).bind_eq_error hs fun s' hs' =>
                (claims_setOutput o).bind_eq_error hs' (hrest · _)
          | ragged => exact claims_set_ragged.bind_eq_error hs (hrest · _)
          | headerless => exact claims_set_headerless.bind_eq_error hs (hrest · _)
          | separator => exact absurd rfl hg.2.2

end SlotFill

/-- **Filling the slots fails for the first demand that is not met**, and only then. -/
theorem fillSlots_eq_error_iff {groups : List FlagGroup} (hproper : ∀ g ∈ groups, g.Proper)
    {e : CommandError} :
    fillSlots groups = .error e ↔
      FirstFault Demand.Unmet [] (groups.flatMap FlagGroup.demands) e :=
  SlotFill.foldlM_add_eq_error_iff hproper SlotFill.records_empty

/-! ### When a demand is not met -/

/-- The demand asks for the slot. -/
def Demand.asksFor (slot : Slot) : Demand → Bool
  | word _ _ => false
  | free _ slot' => slot' == slot

/-- A group asks for each slot that it fills, and once. -/
theorem FlagGroup.countP_demands (g : FlagGroup) (slot : Slot) :
    g.demands.countP (Demand.asksFor slot) = if g.slots.contains slot then 1 else 0 := by
  cases g with
  | passed flag value => rfl
  | separator flag value => cases slot <;> rfl
  | setting flag setting => cases setting <;> cases slot <;> rfl

/-- A slot is asked for by as many demands as there are groups that fill it. -/
theorem countP_flatMap_demands (groups : List FlagGroup) (slot : Slot) :
    (groups.flatMap FlagGroup.demands).countP (Demand.asksFor slot) =
      groups.countP (·.slots.contains slot) := by
  induction groups with
  | nil => rfl
  | cons g groups ih =>
      rw [List.flatMap_cons, List.countP_append, ih, g.countP_demands, List.countP_cons,
        Nat.add_comm]

/-- Two elements of a list satisfy `p` when one does that stands behind another. -/
theorem two_le_countP_iff {α : Type} {p : α → Bool} {l : List α} :
    2 ≤ l.countP p ↔ ∃ front a behind, l = front ++ a :: behind ∧ p a = true ∧
      ∃ b ∈ front, p b = true := by
  constructor
  · intro h
    induction l with
    | nil => exact absurd h (by simp)
    | cons b l ih =>
        rw [List.countP_cons] at h
        cases hb : p b with
        | true =>
            have hrest : 0 < l.countP p := by
              rw [if_pos hb] at h
              omega
            obtain ⟨a, ha, hpa⟩ := List.countP_pos_iff.mp hrest
            obtain ⟨front, behind, rfl⟩ := List.append_of_mem ha
            exact ⟨b :: front, a, behind, rfl, hpa, b, List.mem_cons_self, hb⟩
        | false =>
            obtain ⟨front, a, behind, rfl, hpa, b', hb', hpb'⟩ := ih (by simpa [hb] using h)
            exact ⟨b :: front, a, behind, rfl, hpa, b', List.mem_cons_of_mem b hb', hpb'⟩
  · rintro ⟨front, a, behind, rfl, hpa, b, hb, hpb⟩
    have hfront : 0 < front.countP p := List.countP_pos_iff.mpr ⟨b, hb, hpb⟩
    rw [List.countP_append, List.countP_cons, if_pos hpa]
    omega

/-- A slot is asked for behind a flag that has asked for it just where two groups fill it. -/
theorem exists_free_twice_iff {groups : List FlagGroup} {slot : Slot} :
    (∃ front flag behind previous,
        groups.flatMap FlagGroup.demands = front ++ .free flag slot :: behind ∧
          .free previous slot ∈ front) ↔
      2 ≤ groups.countP (·.slots.contains slot) := by
  have hasks : ∀ d : Demand, d.asksFor slot = true ↔ ∃ flag, d = .free flag slot := by
    intro d
    cases d <;> simp [Demand.asksFor]
  rw [← countP_flatMap_demands, two_le_countP_iff]
  constructor
  · rintro ⟨front, flag, behind, previous, h, hmem⟩
    exact ⟨front, _, behind, h, (hasks _).mpr ⟨flag, rfl⟩, _, hmem, (hasks _).mpr ⟨previous, rfl⟩⟩
  · rintro ⟨front, d, behind, h, hd, d', hd', hasks'⟩
    obtain ⟨flag, rfl⟩ := (hasks d).mp hd
    obtain ⟨previous, rfl⟩ := (hasks d').mp hasks'
    exact ⟨front, flag, behind, previous, h, hd'⟩

/-- **When a demand of the flags is not met**: when two groups fill one slot, or when a
separator flag has no word. -/
theorem exists_unmet_iff {groups : List FlagGroup} :
    (∃ e, FirstFault Demand.Unmet [] (groups.flatMap FlagGroup.demands) e) ↔
      (∃ slot, 2 ≤ groups.countP (·.slots.contains slot)) ∨
        ∃ flag, FlagGroup.separator flag none ∈ groups := by
  rw [exists_firstFault_iff]
  constructor
  · rintro ⟨front, d, behind, e, h, hunmet⟩
    cases d with
    | free flag slot =>
        obtain ⟨previous, hmem, -⟩ := hunmet
        exact .inl ⟨slot, exists_free_twice_iff.mp ⟨front, flag, behind, previous, h, hmem⟩⟩
    | word flag value =>
        obtain ⟨rfl, -⟩ := hunmet
        have hmem : Demand.word flag none ∈ groups.flatMap FlagGroup.demands := by simp [h]
        obtain ⟨g, hg, hd⟩ := List.mem_flatMap.mp hmem
        refine .inr ⟨flag, ?_⟩
        cases g with
        | setting flag' setting => simp [FlagGroup.demands] at hd
        | passed flag' value' => simp [FlagGroup.demands] at hd
        | separator flag' value' =>
            obtain ⟨rfl, rfl⟩ : flag = flag' ∧ none = value' := by
              simpa [FlagGroup.demands] using hd
            exact hg
  · rintro (⟨slot, hslot⟩ | ⟨flag, hmem⟩)
    · obtain ⟨front, flag, behind, previous, h, hmem⟩ := exists_free_twice_iff.mpr hslot
      exact ⟨front, _, behind, _, h, previous, hmem, rfl⟩
    · have hmem' : Demand.word flag none ∈ groups.flatMap FlagGroup.demands :=
        List.mem_flatMap.mpr ⟨_, hmem, by simp [FlagGroup.demands]⟩
      obtain ⟨front, behind, h⟩ := List.append_of_mem hmem'
      exact ⟨front, _, behind, _, h, rfl, rfl⟩

/-! ### Faults of the stages -/

/-- The token is a connective with no stage in front of it, or with none behind it at the end
of the pipeline. -/
def StageFault (before : List Token) (t : Token) (behind : List Token)
    (e : CommandError) : Prop :=
  t.isConnective = true ∧ ((∀ u ∈ before.getLast?, u.isConnective = true) ∨ behind = []) ∧
    e = .noStage t.start

/-- A text with a character that is no blank is the text of a step. -/
theorem exists_step_ofText? {s : String} {c : Char} (hc : c ∈ s.toList)
    (hblank : Text.isBlank c = false) : ∃ step, Step.ofText? s = some step := by
  have hne : (Text.trim s).isEmpty = false := by
    simpa [Text.trim] using Text.trimChars_ne_nil hc hblank
  exact ⟨_, by rw [Step.ofText?, hne]; rfl⟩

/-- Neighbouring tokens of a command become a step. -/
theorem exists_isStep {input : String} {pre stage post : List Token}
    (h : readTokens input.toList = .ok (pre ++ stage ++ post)) (hne : stage ≠ []) :
    ∃ s, IsStep input stage s := by
  obtain ⟨a, m, b, ts, hcs, -, hstage, hfits, -, ⟨c, hc, hblank⟩, -⟩ := exists_excerpt h hne
  have hstands : Piece.Stands ⟨m, ts⟩ input.toList stage := ⟨hfits, a, b, hcs, hstage⟩
  obtain ⟨first, hfirst, last, hlast, hslice⟩ := hstands.slice
  obtain ⟨s, hs⟩ : ∃ s, Step.ofText? (.ofList m) = some s :=
    exists_step_ofText? (by simpa using List.mem_of_mem_head? hc) hblank
  exact ⟨s, first, hfirst, last, hlast, by rw [hslice]; exact hs⟩

/-- The tokens of a pipeline that have been read behind the last connective are the stage so
far, which is empty just behind a connective. -/
structure StageSoFar (before stage : List Token) : Prop where
  /-- The stage ends what has been read. -/
  suffix : stage <:+ before
  /-- The stage is empty at the front of the pipeline and behind a connective. -/
  empty_iff : stage = [] ↔ ∀ u ∈ before.getLast?, u.isConnective = true

/-- A token that is no connective goes to the stage so far. -/
theorem StageSoFar.concat {before stage : List Token} {t : Token} (h : StageSoFar before stage)
    (ht : t.isConnective = false) : StageSoFar (before ++ [t]) (stage ++ [t]) where
  suffix := by
    obtain ⟨front, rfl⟩ := h.suffix
    exact ⟨front, by simp⟩
  empty_iff := by simp [ht]

/-- Behind a connective the stage so far is empty. -/
theorem StageSoFar.next (before : List Token) {t : Token} (ht : t.isConnective = true) :
    StageSoFar (before ++ [t]) [] where
  suffix := List.nil_suffix
  empty_iff := by simp [ht]

/-- A stage that has tokens becomes a step. -/
theorem StageSoFar.exists_stageStep {input : String} {pre before stage behind : List Token}
    (h : StageSoFar before stage) (hread : readTokens input.toList = .ok (pre ++ before ++ behind))
    (hne : stage ≠ []) (n : Nat) : ∃ s, stageStep input stage n = .ok s := by
  obtain ⟨front, rfl⟩ := h.suffix
  rw [← List.append_assoc] at hread
  obtain ⟨s, hs⟩ := exists_isStep hread hne
  exact ⟨s, stageStep_eq_ok_iff.mpr hs⟩

/-- **The steps of a pipeline, from some place on**, fail for the first connective at fault. -/
theorem stepsFrom_eq_error_iff {input : String} {pre before stage rest post : List Token}
    {last : Nat} {e : CommandError} (hstage : StageSoFar before stage)
    (hread : readTokens input.toList = .ok (pre ++ before ++ (rest ++ post)))
    (hopen : rest = [] → stage ≠ []) (hlast : ∀ u ∈ rest.getLast?, u.start = last) :
    stepsFrom input stage last rest = .error e ↔ FirstFault StageFault before rest e := by
  induction rest generalizing before stage with
  | nil =>
      obtain ⟨s, hs⟩ := hstage.exists_stageStep hread (hopen rfl) last
      rw [stepsFrom, hs]
      exact iff_of_false ok_ne_error not_firstFault_nil
  | cons t rest ih =>
      have hread' : readTokens input.toList = .ok (pre ++ (before ++ [t]) ++ (rest ++ post)) := by
        simpa using hread
      have hlast' : ∀ u ∈ rest.getLast?, u.start = last := by
        intro u hu
        exact hlast u (by rw [List.getLast?_cons, Option.mem_def.mp hu]; rfl)
      rw [stepsFrom]
      cases ht : t.isConnective with
      | false =>
          have hnone : ∀ e', ¬ StageFault before t rest e' := by
            rintro e' ⟨h, -⟩
            exact absurd (ht.symm.trans h) Bool.false_ne_true
          rw [if_neg Bool.false_ne_true, firstFault_cons_of_not_fault hnone]
          exact ih (hstage.concat ht) hread' (fun _ => by simp) hlast'
      | true =>
          have hfault : ∀ e', StageFault before t rest e' ↔
              (stage = [] ∨ rest = []) ∧ .noStage t.start = e' := by
            intro e'
            rw [StageFault, ht, hstage.empty_iff, eq_comm (a := e')]
            exact and_iff_right rfl
          rw [if_pos rfl]
          by_cases hempty : stage = []
          · -- no stage in front of the connective
            subst hempty
            show (.error (.noStage t.start) : Except CommandError (List Step)) = .error e ↔ _
            rw [Except.error.injEq,
              firstFault_cons_of_fault fun e' => (hfault e').trans (and_iff_right (.inl rfl))]
          · obtain ⟨s, hs⟩ := hstage.exists_stageStep hread hempty t.start
            rw [hs]
            by_cases hend : rest = []
            · -- no stage behind it
              subst hend
              obtain rfl := hlast t rfl
              show (.error (.noStage t.start) : Except CommandError (List Step)) = .error e ↔ _
              rw [Except.error.injEq,
                firstFault_cons_of_fault fun e' => (hfault e').trans (and_iff_right (.inr rfl))]
            · rw [firstFault_cons_of_not_fault fun e' h => ((hfault e').mp h).1.elim hempty hend,
                ← ih (.next before ht) hread' (fun h => absurd h hend) hlast']
              cases stepsFrom input [] last rest <;> simp [bind, Except.bind, pure, Except.pure]

/-- **A pipeline fails for the first connective at fault**, and only then. -/
theorem pipelineSteps_eq_error_iff {input : String} {pre region post : List Token}
    {e : CommandError} (hread : readTokens input.toList = .ok (pre ++ region ++ post)) :
    pipelineSteps input region = .error e ↔ FirstFault StageFault [] region e := by
  rw [pipelineSteps]
  split
  next hnone =>
    obtain rfl := List.getLast?_eq_none_iff.mp hnone
    exact iff_of_false ok_ne_error not_firstFault_nil
  next last hlast =>
    have hne : region ≠ [] := by
      rintro rfl
      exact absurd hlast (by simp)
    have hstart : StageSoFar [] [] := ⟨List.nil_suffix, by simp⟩
    rw [List.append_assoc, ← List.append_nil pre] at hread
    refine stepsFrom_eq_error_iff hstart hread (fun h => absurd h hne) fun u hu => ?_
    rw [Option.mem_def.mp hu] at hlast
    rw [Option.some.inj hlast]

/-! ### When a connective is at fault -/

/-- A connective stands at an end of the pipeline, or two of them stand side by side. -/
def Dangles (region : List Token) : Prop :=
  (∃ t ∈ region.head?, t.isConnective = true) ∨ (∃ t ∈ region.getLast?, t.isConnective = true) ∨
    ∃ front t u behind, region = front ++ t :: u :: behind ∧ t.isConnective = true ∧
      u.isConnective = true

/-- **When a connective is at fault**: when one starts or ends the pipeline, or when two are
neighbours. -/
theorem exists_stageFault_iff {region : List Token} :
    (∃ e, FirstFault StageFault [] region e) ↔ Dangles region := by
  rw [exists_firstFault_iff]
  constructor
  · rintro ⟨front, t, behind, e, rfl, ht, hends | rfl, -⟩
    · rcases List.eq_nil_or_concat front with rfl | ⟨front, u, rfl⟩
      · exact .inl ⟨t, rfl, ht⟩
      · exact .inr (.inr ⟨front, u, t, behind, by simp, hends u (by simp), ht⟩)
    · exact .inr (.inl ⟨t, by simp, ht⟩)
  · rintro (⟨t, hhead, ht⟩ | ⟨t, hlast, ht⟩ | ⟨front, t, u, behind, rfl, ht, hu⟩)
    · obtain ⟨behind, rfl⟩ := List.head?_eq_some_iff.mp hhead
      exact ⟨[], t, behind, _, rfl, ht, .inl (by simp), rfl⟩
    · obtain ⟨front, rfl⟩ := List.getLast?_eq_some_iff.mp hlast
      exact ⟨front, t, [], _, rfl, ht, .inr rfl, rfl⟩
    · exact ⟨front ++ [t], u, behind, _, by simp, hu, .inl (by simpa using ht), rfl⟩

end Pipewright
