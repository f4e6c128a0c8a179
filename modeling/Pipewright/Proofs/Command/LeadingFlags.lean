import Pipewright.Command.Flag

/-!
# The Leading Flags of a Command

A command starts with its flags. This module says what the leading flags are without
saying how they are found: each is a group of one token or two, a word is missing only at
the end of the command, and the first token behind them is no flag. The cutting of a
command into groups finds exactly these.

## Main results

* `flagGroups_eq_iff`: the groups and the region behind them, as found and as described.
-/

namespace Pipewright

namespace FlagGroup

/-- The group reads as a leading flag does: its first token looks like an option and denotes
what the group says, and only a flag that takes a word has one. -/
def Proper : FlagGroup → Prop
  | setting flag s =>
    flag.isOption = true ∧ Setting.ofFlag? flag.value = some s ∧ s ≠ .separator
  | separator flag _ => flag.isOption = true ∧ Setting.ofFlag? flag.value = some .separator
  | passed flag value =>
    flag.isOption = true ∧ Setting.ofFlag? flag.value = none ∧
      (value ≠ none → flag.value ∈ valuedFlags)

/-- The flag of the group takes a word and there is none. -/
def Lacks : FlagGroup → Prop
  | setting _ _ => False
  | separator _ value => value = none
  | passed flag value => flag.value ∈ valuedFlags ∧ value = none

/-- The group is passed on to the tool. -/
def IsPassed : FlagGroup → Prop
  | passed _ _ => True
  | setting _ _ | separator _ _ => False

/-- Whether a group is proper can be decided. -/
instance : DecidablePred Proper
  | setting flag s => inferInstanceAs
      (Decidable (flag.isOption = true ∧ Setting.ofFlag? flag.value = some s ∧ s ≠ .separator))
  | separator flag _ => inferInstanceAs
      (Decidable (flag.isOption = true ∧ Setting.ofFlag? flag.value = some .separator))
  | passed flag value => inferInstanceAs
      (Decidable (flag.isOption = true ∧ Setting.ofFlag? flag.value = none ∧
        (value ≠ none → flag.value ∈ valuedFlags)))

/-- Whether a group lacks its word can be decided. -/
instance : DecidablePred Lacks
  | setting _ _ => isFalse id
  | separator _ value => inferInstanceAs (Decidable (value = none))
  | passed flag value => inferInstanceAs (Decidable (flag.value ∈ valuedFlags ∧ value = none))

/-- Whether a group is passed on can be decided. -/
instance : DecidablePred IsPassed
  | setting _ _ => isFalse id
  | separator _ _ => isFalse id
  | passed _ _ => isTrue trivial

end FlagGroup

/-- The groups are the leading flags of a command and `region` is what follows them: every
group is proper, one without its word ends the command, and the first token of the region is
no flag. -/
inductive LeadingFlags : List FlagGroup → List Token → Prop
  | nil {region : List Token} :
      (∀ t ∈ region.head?, t.isOption = false) → LeadingFlags [] region
  | cons {g : FlagGroup} {groups : List FlagGroup} {region : List Token} :
      g.Proper → (g.Lacks → groups = [] ∧ region = []) → LeadingFlags groups region →
      LeadingFlags (g :: groups) region

/-- Proper groups that have their words are leading flags in front of a token that is none. -/
theorem LeadingFlags.of_forall {groups : List FlagGroup} {region : List Token}
    (hgroups : ∀ g ∈ groups, g.Proper ∧ ¬ g.Lacks)
    (hregion : ∀ t ∈ region.head?, t.isOption = false) : LeadingFlags groups region := by
  induction groups with
  | nil => exact .nil hregion
  | cons g groups ih =>
      obtain ⟨⟨hproper, hlacks⟩, hgroups⟩ := List.forall_mem_cons.mp hgroups
      exact .cons hproper (fun h => absurd h hlacks) (ih hgroups)

/-- Leading flags are proper. -/
theorem LeadingFlags.proper {groups : List FlagGroup} {region : List Token}
    (h : LeadingFlags groups region) : ∀ g ∈ groups, g.Proper := by
  induction h with
  | nil => simp
  | cons hproper _ _ ih => exact List.forall_mem_cons.mpr ⟨hproper, ih⟩

/-- Leading flags in front of a token have their words. -/
theorem LeadingFlags.not_lacks {groups : List FlagGroup} {region : List Token}
    (h : LeadingFlags groups region) (hne : region ≠ []) : ∀ g ∈ groups, ¬ g.Lacks := by
  induction h with
  | nil => simp
  | cons _ hlacks _ ih =>
      exact List.forall_mem_cons.mpr ⟨fun hg => hne (hlacks hg).2, ih hne⟩

/-- The token behind the leading flags is no flag. -/
theorem LeadingFlags.isOption_head? {groups : List FlagGroup} {region : List Token}
    (h : LeadingFlags groups region) : ∀ t ∈ region.head?, t.isOption = false := by
  induction h with
  | nil hstop => exact hstop
  | cons _ _ _ ih => exact ih

/-- The tokens of several groups, in order. -/
def groupTokens (groups : List FlagGroup) : List Token :=
  groups.flatMap FlagGroup.tokens

/-- The tokens of a group in front of others. -/
theorem groupTokens_cons (g : FlagGroup) (groups : List FlagGroup) :
    groupTokens (g :: groups) = g.tokens ++ groupTokens groups := rfl

/-- **Cutting a command into groups** loses no token, and what it finds are the leading
flags. -/
theorem leadingFlags_of_flagGroups {ts : List Token} {groups : List FlagGroup}
    {region : List Token} (h : flagGroups ts = (groups, region)) :
    ts = groupTokens groups ++ region ∧ LeadingFlags groups region := by
  fun_induction flagGroups ts generalizing groups region with
  | case1 =>
      obtain ⟨rfl, rfl⟩ := Prod.mk.inj h
      exact ⟨rfl, .nil (by simp)⟩
  | case2 t hoption hsep =>
      obtain ⟨rfl, rfl⟩ := Prod.mk.inj h
      exact ⟨rfl, .cons ⟨hoption, hsep⟩ (fun _ => ⟨rfl, rfl⟩) (.nil (by simp))⟩
  | case3 t hoption hsep v behind groups' region' hrest ih =>
      obtain ⟨rfl, rfl⟩ := Prod.mk.inj h
      obtain ⟨hbehind, hflags⟩ := ih hrest
      refine ⟨by rw [hbehind]; rfl, .cons ⟨hoption, hsep⟩ ?_ hflags⟩
      exact fun hlacks => absurd hlacks (Option.some_ne_none v)
  | case4 t behind hoption s hs hset groups' region' hrest ih =>
      obtain ⟨rfl, rfl⟩ := Prod.mk.inj h
      obtain ⟨hbehind, hflags⟩ := ih hrest
      exact ⟨by rw [hbehind]; rfl, .cons ⟨hoption, hset, hs⟩ False.elim hflags⟩
  | case5 t hoption hnone hvalued =>
      obtain ⟨rfl, rfl⟩ := Prod.mk.inj h
      refine ⟨rfl, .cons ⟨hoption, hnone, ?_⟩ (fun _ => ⟨rfl, rfl⟩) (.nil (by simp))⟩
      exact fun hne => absurd rfl hne
  | case6 t hoption hnone hvalued v behind groups' region' hrest ih =>
      obtain ⟨rfl, rfl⟩ := Prod.mk.inj h
      obtain ⟨hbehind, hflags⟩ := ih hrest
      have hmem : t.value ∈ valuedFlags := by simpa using hvalued
      refine ⟨by rw [hbehind]; rfl, .cons ⟨hoption, hnone, fun _ => hmem⟩ ?_ hflags⟩
      exact fun hlacks => absurd hlacks.2 (Option.some_ne_none v)
  | case7 t behind hoption hnone hvalued groups' region' hrest ih =>
      obtain ⟨rfl, rfl⟩ := Prod.mk.inj h
      obtain ⟨hbehind, hflags⟩ := ih hrest
      have hnot : t.value ∉ valuedFlags := by simpa using hvalued
      refine ⟨by rw [hbehind]; rfl, .cons ⟨hoption, hnone, ?_⟩ ?_ hflags⟩
      · exact fun hne => absurd rfl hne
      · exact fun hlacks => absurd hlacks.1 hnot
  | case8 t behind hoption =>
      obtain ⟨rfl, rfl⟩ := Prod.mk.inj h
      refine ⟨rfl, .nil fun u hu => ?_⟩
      obtain rfl := Option.some.inj hu
      simpa using hoption

/-- A flag that sets a slot by itself is a group in front of the other groups. -/
theorem flagGroups_setting {flag : Token} {s : Setting} (hoption : flag.isOption = true)
    (hset : Setting.ofFlag? flag.value = some s) (hs : s ≠ .separator) (rest : List Token) :
    flagGroups (flag :: rest) =
      (.setting flag s :: (flagGroups rest).1, (flagGroups rest).2) := by
  rw [flagGroups.eq_def]
  cases s <;> simp_all

/-- The separator flag and the word behind it are a group in front of the other groups. -/
theorem flagGroups_separator {flag : Token} (hoption : flag.isOption = true)
    (hset : Setting.ofFlag? flag.value = some .separator) (v : Token) (behind : List Token) :
    flagGroups (flag :: v :: behind) =
      (.separator flag (some v) :: (flagGroups behind).1, (flagGroups behind).2) := by
  rw [flagGroups.eq_def]
  simp [hoption, hset]

/-- A flag that is passed on with the word behind it is a group in front of the other
groups. -/
theorem flagGroups_valued {flag : Token} (hoption : flag.isOption = true)
    (hset : Setting.ofFlag? flag.value = none) (hmem : flag.value ∈ valuedFlags) (v : Token)
    (behind : List Token) :
    flagGroups (flag :: v :: behind) =
      (.passed flag (some v) :: (flagGroups behind).1, (flagGroups behind).2) := by
  rw [flagGroups.eq_def]
  simp [hoption, hset, hmem]

/-- A flag that is passed on by itself is a group in front of the other groups. -/
theorem flagGroups_lone {flag : Token} (hoption : flag.isOption = true)
    (hset : Setting.ofFlag? flag.value = none) (hmem : flag.value ∉ valuedFlags)
    (rest : List Token) :
    flagGroups (flag :: rest) =
      (.passed flag none :: (flagGroups rest).1, (flagGroups rest).2) := by
  rw [flagGroups.eq_def]
  simp [hoption, hset, hmem]

/-- The leading flags of a command are found by cutting it into groups. -/
theorem LeadingFlags.flagGroups_eq {groups : List FlagGroup} {region : List Token}
    (h : LeadingFlags groups region) :
    flagGroups (groupTokens groups ++ region) = (groups, region) := by
  induction h with
  | @nil region hstop =>
      cases region with
      | nil => rfl
      | cons t rest =>
          have hoption := hstop t rfl
          change flagGroups (t :: rest) = ([], t :: rest)
          rw [flagGroups.eq_def]
          simp [hoption]
  | @cons g groups region hproper hlacks _ ih =>
      rw [groupTokens_cons, List.append_assoc]
      cases g with
      | setting flag s =>
          obtain ⟨hoption, hset, hs⟩ := hproper
          simp [FlagGroup.tokens, flagGroups_setting hoption hset hs, ih]
      | separator flag value =>
          obtain ⟨hoption, hset⟩ := hproper
          cases value with
          | none =>
              obtain ⟨rfl, rfl⟩ := hlacks rfl
              simp [FlagGroup.tokens, groupTokens, flagGroups, hoption, hset]
          | some v => simp [FlagGroup.tokens, flagGroups_separator hoption hset, ih]
      | passed flag value =>
          obtain ⟨hoption, hset, hvalued⟩ := hproper
          cases value with
          | none =>
              by_cases hmem : flag.value ∈ valuedFlags
              · obtain ⟨rfl, rfl⟩ := hlacks ⟨hmem, rfl⟩
                simp [FlagGroup.tokens, groupTokens, flagGroups, hoption, hset, hmem]
              · simp [FlagGroup.tokens, flagGroups_lone hoption hset hmem, ih]
          | some v =>
              have hmem := hvalued (Option.some_ne_none v)
              simp [FlagGroup.tokens, flagGroups_valued hoption hset hmem, ih]

/-- **The leading flags, found and described**: cutting a command into groups yields the
groups and the region that are its leading flags and what follows them, and no others. -/
theorem flagGroups_eq_iff {ts : List Token} {groups : List FlagGroup} {region : List Token} :
    flagGroups ts = (groups, region) ↔
      ts = groupTokens groups ++ region ∧ LeadingFlags groups region := by
  constructor
  · exact leadingFlags_of_flagGroups
  · rintro ⟨rfl, h⟩
    exact h.flagGroups_eq

end Pipewright
