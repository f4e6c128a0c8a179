import Pipewright.Proofs.Command.Reading

/-!
# Reading a Command Loses Nothing

A command is a list of words, and its reading cuts steps and options out of its text. This
module accounts for the words: those behind the flags are the words of the steps with the
connective between them and the input file, those of the flags that are passed on are the
words of the options, and all other flags set their slots.

## Main results

* `Configuration.Accounts`: what a configuration says about the words of a command.
* `Configuration.exists_accounts_of_ofCommand`: every command that is read is accounted for.
-/

namespace Pipewright

/-- The values of the tokens of a pipeline are those of its stages, with the connective
between them. -/
theorem Stages.map_value {region : List Token} {parts : List (List Token)}
    (h : Stages region parts)
    (hvalue : ∀ t ∈ region, t.isConnective = true → t.value = connective) :
    region.map (·.value) =
      ((parts.map (·.map (·.value))).intersperse [connective]).flatten := by
  induction h with
  | last => simp
  | @cons stage region t parts hfree ht hrest ih =>
      obtain ⟨part, parts, rfl⟩ := List.exists_cons_of_ne_nil hrest.ne_nil
      have htvalue : t.value = connective := hvalue t (by simp) ht
      have hregion := ih fun u hu => hvalue u (by simp [hu])
      rw [List.map_append, List.map_cons, htvalue, hregion]
      rfl

namespace Configuration

/-- The configuration accounts for the words of a command that are behind the tool: for its
leading flags and for the words `region` behind them. -/
structure Accounts (c current : Configuration) (groups : List FlagGroup)
    (region : List Token) : Prop where
  /-- The words behind the flags are those of the steps, with the connective between them,
  and the input file, if there is one. -/
  pipeline : ∃ (words : List (List Token)) (path : Option String),
    List.Forall₂ (fun s us => s.enabled = true ∧ tokensOf s.text = .ok us) c.steps words ∧
    region.map (·.value) =
      ((words.map (·.map (·.value))).intersperse [connective]).flatten ++ path.toList ∧
    c.ReadsFrom current path
  /-- The words of the options are those of the flags that are passed on. -/
  options : ∃ us, tokensOf c.options = .ok us ∧
    us.map (·.value) = (passedTokens groups).map (·.value)
  /-- Every other flag has set the slots that it denotes. -/
  set : ∀ slot, ∀ g ∈ groups, ∀ v ∈ g.denoted? slot, c.slot slot = v
  /-- A slot that no flag denotes has its default. -/
  unset : ∀ slot, (∀ g ∈ groups, g.denoted? slot = none) → c.slot slot = slot.unset

/-- The words of the options of a command that was read. -/
theorem Parsed.exists_optionTokens {input : String} {current c : Configuration}
    {groups : List FlagGroup} {region : List Token} {file : Option Token} {ps os : List Piece}
    (h : Parsed input current c groups region file ps os) :
    ∃ us, tokensOf c.options = .ok us ∧
      us.map (·.value) = (passedTokens groups).map (·.value) := by
  have hread : readTokens (lineOf os) = .ok (spread os) := by
    rcases h.excerpts.line with rfl | hline
    · rfl
    · exact hline.tokens
  refine ⟨spread os, by rw [tokensOf_eq, h.options, hread], ?_⟩
  have hwords := congrArg (List.map (·.value)) h.excerpts.words
  rw [List.map_map, List.map_map] at hwords
  rw [map_value_spread, ← List.map_flatMap]
  exact hwords

/-- The words of the pipeline of a command that was read. -/
theorem Parsed.map_value {input : String} {current c : Configuration}
    {groups : List FlagGroup} {region : List Token} {file : Option Token} {ps os : List Piece}
    (h : Parsed input current c groups region file ps os) :
    region.map (·.value) =
      (((ps.map (·.tokens)).map (·.map (·.value))).intersperse [connective]).flatten := by
  rcases h.stages with ⟨rfl, rfl⟩ | ⟨parts, hparts, hstands⟩
  · rfl
  · obtain ⟨ts, hts, hwords⟩ := h.tokens
    obtain ⟨tool, htool⟩ := exists_tool ts
    have hparts' : parts.map (·.map (·.value)) = (ps.map (·.tokens)).map (·.map (·.value)) := by
      rw [List.map_map, ← List.forall₂_eq_eq_eq, List.forall₂_map_left_iff,
        List.forall₂_map_right_iff]
      refine hstands.imp fun part p hpart => ?_
      obtain ⟨-, pre, post, -, rfl⟩ := hpart
      rw [List.map_map]
      rfl
    rw [← hparts']
    refine hparts.map_value fun t ht => value_of_isConnective hts ?_
    rw [htool, hwords]
    simp [ht]

/-- **Reading a command loses, doubles and reorders nothing.** Every command that is read,
with no token whose source ends in a blank, falls into its leading flags and the words
behind them, and the configuration that is read accounts for both. -/
theorem exists_accounts_of_ofCommand {input : String} {current c : Configuration}
    (h : ofCommand input current = .ok c)
    (hends : EndsInWords input) :
    ∃ ts groups region, tokensOf input = .ok ts ∧ dropTool ts = groupTokens groups ++ region ∧
      LeadingFlags groups region ∧ c.Accounts current groups region := by
  obtain ⟨groups, region, file, ps, os, hparsed⟩ := exists_parsed h hends
  obtain ⟨ts, hts, hwords⟩ := hparsed.tokens
  refine ⟨ts, groups, region ++ file.toList, hts, hwords, hparsed.flags, ?_,
    hparsed.exists_optionTokens, ?_, ?_⟩
  · refine ⟨ps.map (·.tokens), file.map (·.value), ?_, ?_, hparsed.source⟩
    · rw [hparsed.steps, List.forall₂_map_left_iff, List.forall₂_map_right_iff,
        List.forall₂_same]
      intro p hp
      exact ⟨rfl, by rw [tokensOf_eq, Piece.step, String.toList_ofList, (hparsed.fits p hp).tokens]⟩
    · rw [List.map_append, Option.toList_map, hparsed.map_value]
  · intro slot g hg v hv
    obtain ⟨held, hheld, hslot⟩ := hparsed.slots slot
    have hmem : v ∈ groups.filterMap (·.denoted? slot) := List.mem_filterMap.mpr ⟨g, hg, hv⟩
    rw [hheld, Option.mem_toList] at hmem
    rw [hslot, hmem]
    rfl
  · intro slot hnone
    obtain ⟨held, hheld, hslot⟩ := hparsed.slots slot
    rw [List.filterMap_eq_nil_iff.mpr hnone] at hheld
    rw [hslot, Option.toList_eq_nil_iff.mp hheld.symm]
    rfl

/-- The words of a command with quotes, with options on both sides of a flag that sets a
slot, with two stages and with an input file. -/
theorem exists_accounts_of_ofCommand_mixed :
    ∃ ts groups region,
      tokensOf "mlr -n --ofs '; ' --icsv --nidx --ifs '' head -n \\\n5 then cat 'my data.csv'" =
        .ok ts ∧
      dropTool ts = groupTokens groups ++ region ∧ LeadingFlags groups region ∧
      Accounts
        { inputPath := "my data.csv", inputMode := .file, inputFormat := .csv,
          steps := [⟨"head -n \\\n5", true⟩, ⟨"cat", true⟩],
          options := "-n --ofs '; ' --nidx" } {} groups region :=
  exists_accounts_of_ofCommand (by decide +kernel) (by decide +kernel)

end Configuration

end Pipewright
