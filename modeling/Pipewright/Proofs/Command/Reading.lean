import Pipewright.Proofs.Command.Options

/-!
# Reading a Command

A command is read in steps: tokens, leading flags, slots, stages and steps, and the input
file. This module takes the reading apart, so that a command is read when each step of the
reading yields something, and it says what the configuration that is read consists of.

## Main results

* `Configuration.ofCommand_eq_ok_iff`: the steps of the reading.
* `Configuration.slot_withFile_filled`: the slots of the configuration that is read.
* `Configuration.Parsed`, `Configuration.exists_parsed`: what a command is read as.
-/

namespace Pipewright

/-- What stands in front of the words of a command: the tool or nothing. -/
theorem exists_tool (ts : List Token) : ∃ tool, ts = tool ++ dropTool ts := by
  cases ts with
  | nil => exact ⟨[], rfl⟩
  | cons t rest =>
      rw [dropTool]
      split
      · exact ⟨[t], rfl⟩
      · exact ⟨[], rfl⟩

/-- The stages and the input file are all tokens behind the flags. -/
theorem splitInputFile_append (region : List Token) :
    (splitInputFile region).1 ++ (splitInputFile region).2.toList = region := by
  rcases List.eq_nil_or_concat region with rfl | ⟨front, t, rfl⟩
  · rfl
  · rw [List.concat_eq_append, splitInputFile_concat]
    split <;> simp

/-- Each connective of a text is the word `then`. -/
theorem value_of_isConnective {cs : List Char} {ts : List Token} (h : readTokens cs = .ok ts)
    {t : Token} (ht : t ∈ ts) (hconnective : t.isConnective = true) : t.value = connective := by
  obtain ⟨pre, post, rfl⟩ := List.append_of_mem ht
  obtain ⟨p, q, -, hword, -, hread, -⟩ := exists_word h
  obtain ⟨us, hus, hts⟩ := hword.before.readTokens_drop hread
  have hraw : t.raw = connective := by
    rw [Token.isConnective, Token.spells, Bool.and_eq_true, beq_iff_eq] at hconnective
    exact hconnective.2
  have hread' : readTokens connective.toList = .ok [Token.ofWord connective] := by decide
  rw [hraw, hread'] at hus
  obtain rfl := Except.ok.inj hus
  obtain rfl : t = (Token.ofWord connective).shift (Text.byteLength p) := by simpa using hts
  rfl

namespace Configuration

/-- The configuration whose slots, steps and options are read from a command. -/
def filled (current : Configuration) (slots : SlotFill) (steps : List Step)
    (options : String) : Configuration :=
  { inputPath := current.inputPath
    inputMode := current.inputMode
    inputFormat := (slots.inputFormat.map (·.value)).getD .auto
    ragged := slots.ragged.isSome
    headerless := slots.headerless.isSome
    fieldSeparator := orDefaultSeparator ((slots.separator.map (·.value)).getD "")
    outputFormat := (slots.outputFormat.map (·.value)).getD .auto
    steps := steps
    options := options }

/-- The configuration with the input file that a command names, if it names one. -/
def withFile (c : Configuration) : Option Token → Configuration
  | some path => c.setInputFile path.value
  | none => c

variable {input : String} {current c : Configuration}

/-- The reading, one step behind the other. -/
theorem ofCommand_eq (input : String) (current : Configuration) :
    ofCommand input current =
      (tokensOf input).mapError .noTokens >>= fun ts =>
        fillSlots (flagGroups (dropTool ts)).1 >>= fun slots =>
          pipelineSteps input (splitInputFile (flagGroups (dropTool ts)).2).1 >>= fun steps =>
            .ok ((current.filled slots steps
              (optionsText input (flagGroups (dropTool ts)).1)).withFile
                (splitInputFile (flagGroups (dropTool ts)).2).2) := by
  rw [ofCommand]
  refine congrArg _ (funext fun ts => ?_)
  generalize flagGroups (dropTool ts) = flags
  obtain ⟨groups, region⟩ := flags
  dsimp only
  refine congrArg _ (funext fun slots => ?_)
  generalize splitInputFile region = split
  obtain ⟨stages, file⟩ := split
  cases file <;> rfl

/-- **The steps of the reading**: a command is read when it has tokens, the flags fill the
slots and every stage becomes a step. -/
theorem ofCommand_eq_ok_iff :
    ofCommand input current = .ok c ↔
      ∃ ts groups region slots steps, tokensOf input = .ok ts ∧
        flagGroups (dropTool ts) = (groups, region) ∧ fillSlots groups = .ok slots ∧
        pipelineSteps input (splitInputFile region).1 = .ok steps ∧
        c = (current.filled slots steps (optionsText input groups)).withFile
          (splitInputFile region).2 := by
  rw [ofCommand_eq, bind_eq_ok_iff]
  constructor
  · rintro ⟨ts, hts, h⟩
    obtain ⟨slots, hslots, h⟩ := bind_eq_ok_iff.mp h
    obtain ⟨steps, hsteps, h⟩ := bind_eq_ok_iff.mp h
    exact ⟨ts, _, _, slots, steps, mapError_eq_ok_iff.mp hts, rfl, hslots, hsteps,
      (Except.ok.inj h).symm⟩
  · rintro ⟨ts, groups, region, slots, steps, hts, hgroups, hslots, hsteps, rfl⟩
    refine ⟨ts, mapError_eq_ok_iff.mpr hts, ?_⟩
    rw [hgroups]
    exact bind_eq_ok_iff.mpr ⟨slots, hslots, bind_eq_ok_iff.mpr ⟨steps, hsteps, rfl⟩⟩

/-- The slots of the configuration that is read hold what the flags have set, and their
defaults otherwise. -/
theorem slot_withFile_filled (current : Configuration) (slots : SlotFill) (steps : List Step)
    (options : String) (file : Option Token) (slot : Slot) :
    ((current.filled slots steps options).withFile file).slot slot =
      (slots.held slot).getD slot.unset := by
  have hfile : ((current.filled slots steps options).withFile file).slot slot =
      (current.filled slots steps options).slot slot := by
    cases file <;> cases slot <;> rfl
  rw [hfile]
  have hcomma : orDefaultSeparator "" = defaultSeparator := by decide
  cases slot with
  | inputFormat => rfl
  | outputFormat => rfl
  | ragged =>
      cases h : slots.ragged <;> simp [Configuration.slot, filled, SlotFill.held, Slot.unset, h]
  | headerless =>
      cases h : slots.headerless <;>
        simp [Configuration.slot, filled, SlotFill.held, Slot.unset, h]
  | separator =>
      cases h : slots.separator <;>
        simp [Configuration.slot, filled, SlotFill.held, Slot.unset, h, hcomma]

/-- The configuration reads its records from the file that a command names, and if it names
none, from where `current` does. -/
def ReadsFrom (c current : Configuration) : Option String → Prop
  | some path => c.inputMode = .file ∧ c.inputPath = path
  | none => c.inputMode = current.inputMode ∧ c.inputPath = current.inputPath

/-- A command as it was read: its leading flags, the tokens of its pipeline and its input
file, and the pieces `ps` and `os` of its text that the stages and the options are. -/
structure Parsed (input : String) (current c : Configuration) (groups : List FlagGroup)
    (region : List Token) (file : Option Token) (ps os : List Piece) : Prop where
  /-- The tokens behind the tool are those of the flags, of the pipeline and of the file. -/
  tokens : ∃ ts, tokensOf input = .ok ts ∧
    dropTool ts = groupTokens groups ++ (region ++ file.toList)
  /-- The flags are the leading flags. -/
  flags : LeadingFlags groups (region ++ file.toList)
  /-- The file is the word that names the input file. -/
  split : splitInputFile (region ++ file.toList) = (region, file)
  /-- The slots hold what the flags denote, which is one value at most. -/
  slots : ∀ slot, ∃ held : Option slot.Value,
    groups.filterMap (·.denoted? slot) = held.toList ∧ c.slot slot = held.getD slot.unset
  /-- The separator is not empty. -/
  separator : c.separator = c.fieldSeparator
  /-- The stages of the pipeline stand in the text as pieces. -/
  stages : (region = [] ∧ ps = []) ∨ ∃ parts, Stages region parts ∧
    List.Forall₂ (fun part p => p.Stands input.toList part) parts ps
  /-- The steps are these pieces. -/
  steps : c.steps = ps.map Piece.step
  /-- The pieces of the stages have no blanks at their ends. -/
  trimmed : ∀ p ∈ ps, Text.Trimmed p.text
  /-- The pieces of the stages can be read one behind the other. -/
  line : ps = [] ∨ Line ps
  /-- Only the last stage can be open, and only where no file follows it. -/
  finished : file ≠ none → ∀ p ∈ ps, p.Finished
  /-- The options stand in the text as pieces. -/
  excerpts : Excerpts input.toList (optionSpans none groups) (passedTokens groups)
    (region ++ file.toList) os
  /-- The options are these pieces. -/
  options : c.options.toList = lineOf os
  /-- The records come from the file. -/
  source : c.ReadsFrom current (file.map (·.value))

/-- The tokens of the stages fit them. -/
theorem Parsed.fits {groups : List FlagGroup} {region : List Token} {file : Option Token}
    {ps os : List Piece} (h : Parsed input current c groups region file ps os) :
    ∀ p ∈ ps, Fits p.text p.tokens := by
  rcases h.stages with ⟨-, rfl⟩ | ⟨parts, -, hstands⟩
  · simp
  · intro p hp
    obtain ⟨part, -, hpart⟩ := exists_left_of_forall₂ hstands hp
    exact hpart.1

/-- The stages of a pipeline whose steps are read stand in the text as pieces, and the steps
are these pieces. -/
theorem exists_stagePieces {pre region post : List Token} {steps : List Step}
    (hread : readTokens input.toList = .ok (pre ++ region ++ post))
    (hsteps : pipelineSteps input region = .ok steps) (hends : ∀ t ∈ region, t.EndsInWord) :
    ∃ ps : List Piece, ((region = [] ∧ ps = []) ∨ ∃ parts, Stages region parts ∧
        List.Forall₂ (fun part p => p.Stands input.toList part) parts ps) ∧
      steps = ps.map Piece.step ∧ (∀ p ∈ ps, Text.Trimmed p.text) ∧ (ps = [] ∨ Line ps) ∧
      (post ≠ [] → ∀ p ∈ ps, p.Finished) := by
  by_cases hne : region = []
  · subst hne
    obtain rfl := Except.ok.inj hsteps
    exact ⟨[], .inl ⟨rfl, rfl⟩, rfl, by simp, .inl rfl, by simp⟩
  · obtain ⟨parts, hparts⟩ := exists_stages region
    obtain ⟨ps, hstands, hps, htrimmed, hline, hfinished⟩ :=
      hparts.exists_pieces hread ((hparts.pipelineSteps_eq_ok_iff hne).mp hsteps) hends
    exact ⟨ps, .inr ⟨parts, hparts, hstands⟩, hps, htrimmed, .inr hline, hfinished⟩

/-- **What a command is read as.** Every command that is read, with no token that ends in a
blank, has such parts. -/
theorem exists_parsed (h : ofCommand input current = .ok c)
    (hends : EndsInWords input) :
    ∃ groups region file ps os, Parsed input current c groups region file ps os := by
  obtain ⟨ts, groups, behind, slots, steps, hts, hgroups, hslots, hsteps, rfl⟩ :=
    ofCommand_eq_ok_iff.mp h
  obtain ⟨hwords, hflags⟩ := leadingFlags_of_flagGroups hgroups
  obtain ⟨tool, htool⟩ := exists_tool ts
  have hends := hends ts hts
  rcases hsplit : splitInputFile behind with ⟨region, file⟩
  have hbehind := splitInputFile_append behind
  simp only [hsplit] at hbehind hsteps ⊢
  subst hbehind
  rw [htool, hwords] at hends
  -- the options
  have hreadOptions : readTokens input.toList =
      .ok (tool ++ [] ++ groupTokens groups ++ (region ++ file.toList)) := by
    rw [← tokensOf_eq, hts, htool, hwords]
    simp
  obtain ⟨os, hos⟩ := exists_excerpts hreadOptions fun t ht => hends t <|
    List.mem_append_right _ (List.mem_append_left _ (by simpa using ht))
  -- the stages
  have hreadStages : readTokens input.toList =
      .ok (tool ++ groupTokens groups ++ region ++ file.toList) := by
    rw [← tokensOf_eq, hts, htool, hwords]
    simp
  obtain ⟨ps, hstages, hps, htrimmed, hline, hfinished⟩ :=
    exists_stagePieces hreadStages hsteps fun t ht => hends t <|
      List.mem_append_right _ (List.mem_append_right _ (List.mem_append_left _ ht))
  refine ⟨groups, region, file, ps, os, ⟨ts, hts, hwords⟩, hflags, hsplit, fun slot => ?_,
    ?_, hstages, ?_, htrimmed, hline, fun hfile => hfinished (by simpa using hfile), hos, ?_, ?_⟩
  · exact ⟨slots.held slot, (held_of_fillSlots hslots slot).symm, slot_withFile_filled ..⟩
  · cases file <;> exact orDefaultSeparator_orDefaultSeparator _
  · cases file <;> exact hps
  · rw [← hos.optionsText_toList]
    cases file <;> rfl
  · cases file <;> exact ⟨rfl, rfl⟩

end Configuration

end Pipewright
