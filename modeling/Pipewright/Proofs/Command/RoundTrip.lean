import Pipewright.Proofs.Command.Reread

/-!
# From a Configuration to a Command Line and Back

A configuration is shown as a command line that can be typed and read again. This module
says of which configurations, by their texts alone, the command line tells the parts apart,
and what comes back of them: all that the command line shows.

## Main results

* `Configuration.IsRestorable`: the configurations whose command line tells the parts apart.
* `Configuration.ofCommand_commandLine_of_isRestorable`: what comes back of them.
-/

namespace Pipewright

/-- The text can be put on a line as it is: it has no blanks and no backslash at its ends, and
its tokens reach from its start to its end. -/
structure IsClean (text : String) : Prop where
  /-- The text has no blanks at its ends. -/
  trimmed : Text.Trimmed text.toList
  /-- The text ends in no backslash. -/
  backslash : text.toList.getLast? ≠ some '\\'
  /-- The tokens reach from the start of the text to its end. -/
  fits : ∃ ts, Fits text.toList ts

/-- Whether the tokens of a text reach from its start to its end can be decided. -/
instance (cs : List Char) : Decidable (∃ ts, Fits cs ts) :=
  match h : readTokens cs with
  | .ok ts => decidable_of_iff
      (ts.head?.map (·.start) = some 0 ∧ ts.getLast?.map (·.stop) = some (Text.byteLength cs))
      ⟨fun hts => ⟨ts, h, hts.1, hts.2⟩, fun ⟨_, hfits⟩ =>
        Except.ok.inj (hfits.tokens.symm.trans h) ▸ ⟨hfits.start, hfits.stop⟩⟩
  | .error _ => isFalse fun ⟨_, hfits⟩ => absurd (hfits.tokens.symm.trans h) (by simp)

/-- Whether a text is clean can be decided. -/
instance : DecidablePred IsClean := fun text =>
  decidable_of_iff
    (Text.Trimmed text.toList ∧ text.toList.getLast? ≠ some '\\' ∧ ∃ ts, Fits text.toList ts)
    ⟨fun h => ⟨h.1, h.2.1, h.2.2⟩, fun h => ⟨h.trimmed, h.backslash, h.fits⟩⟩

/-- The piece that a text is, with the tokens it has. -/
def Piece.ofText (text : String) : Piece :=
  ⟨text.toList, (tokensOf text).toOption.getD []⟩

/-- The tokens of the piece that a text is. -/
theorem Piece.tokens_ofText {text : String} {ts : List Token} (h : tokensOf text = .ok ts) :
    (Piece.ofText text).tokens = ts := by
  rw [Piece.ofText, h]
  rfl

/-- The step that takes part with the piece of a text is the step with that text. -/
theorem Piece.step_ofText {s : Step} (h : s.enabled = true) :
    (Piece.ofText s.text).step = s := by
  have htext : String.ofList (Piece.ofText s.text).text = s.text := String.ofList_toList
  rw [Piece.step, htext, ← h]

/-- The tokens of a clean text fit it, and nothing in it is open. -/
theorem IsClean.fits_ofText {text : String} (h : IsClean text) :
    Fits (Piece.ofText text).text (Piece.ofText text).tokens ∧ (Piece.ofText text).Finished := by
  obtain ⟨ts, hfits⟩ := h.fits
  rw [Piece.Finished, Piece.tokens_ofText hfits.tokens]
  exact ⟨hfits, .of_getLast_ne hfits.tokens h.backslash⟩

namespace Configuration

/-- **The command line of the configuration tells its parts apart.** The texts of the steps and
of the options are clean; no step holds a connective, and the first starts with no flag; the
options are flags outside the vocabulary, each with the word it takes; the blanks of the
separator and of the input file are common ones; and the end of the last step is told from
an input file. -/
structure IsRestorable (c : Configuration) : Prop where
  /-- A step takes part. -/
  enabled : c.hasEnabledSteps = true
  /-- The steps are clean. -/
  clean : ∀ s ∈ c.enabledSteps, IsClean s.text
  /-- No step holds a connective. -/
  bare : ∀ s ∈ c.enabledSteps, ∀ ts, tokensOf s.text = .ok ts → ∀ t ∈ ts, t.isConnective = false
  /-- The first step starts with no flag. -/
  verb : ∀ s ∈ c.enabledSteps.head?, ∀ ts, tokensOf s.text = .ok ts →
    ∀ t ∈ ts.head?, t.isOption = false
  /-- The options are blank, or clean and flags that are passed on. -/
  options : Text.trim c.options = "" ∨
    IsClean (Text.trim c.options) ∧ ∃ ts, tokensOf (Text.trim c.options) = .ok ts ∧ PassedOn ts
  /-- The blanks of the separator are common ones. -/
  separator : Text.OnlyCommonBlanks c.fieldSeparator
  /-- The input file reads as the name of a file, and the last step does not keep it. -/
  named : ∀ path ∈ c.inputFile?, Text.OnlyCommonBlanks path ∧ IsFileName path ∧
    ∀ s ∈ c.enabledSteps.getLast?, ∀ ts, tokensOf s.text = .ok ts → keepsLastWord ts = false
  /-- Without an input file, the last word of the last step is not taken for one. -/
  unnamed : c.inputFile? = none → ∀ s ∈ c.enabledSteps.getLast?, ∀ ts, tokensOf s.text = .ok ts →
    ¬ GivesFile (c.enabledSteps.length = 1) ts

variable {c : Configuration}

/-- The options of such a configuration as the piece of their text. -/
theorem IsRestorable.options_ofText (h : c.IsRestorable) :
    ∀ p ∈ c.trimmedOptions?.map Piece.ofText,
      Fits p.text p.tokens ∧ p.Finished ∧ PassedOn p.tokens := by
  intro p hp
  obtain ⟨options, hshown, rfl⟩ := Option.map_eq_some_iff.mp hp
  obtain ⟨rfl, hne⟩ := trimmedOptions?_eq_some_iff.mp hshown
  obtain ⟨hclean, ts, hts, hpassed⟩ := h.options.resolve_left hne
  refine ⟨hclean.fits_ofText.1, hclean.fits_ofText.2, ?_⟩
  rwa [Piece.tokens_ofText hts]

/-- The steps of such a configuration have the tokens of the pieces of their texts. -/
theorem IsRestorable.tokensOf_text (h : c.IsRestorable) {s : Step} (hs : s ∈ c.enabledSteps) :
    tokensOf s.text = .ok (Piece.ofText s.text).tokens :=
  (h.clean s hs).fits_ofText.1.tokens

/-- Nothing in the steps of such a configuration is open. -/
theorem IsRestorable.finished_ofText (h : c.IsRestorable) :
    ∀ p ∈ c.enabledSteps.map fun s => Piece.ofText s.text, p.Finished :=
  List.forall_mem_map.mpr fun s hs => (h.clean s hs).fits_ofText.2

/-- The steps that take part are the pieces of their texts. -/
theorem enabledSteps_eq_map_step (c : Configuration) :
    c.enabledSteps = (c.enabledSteps.map fun s => Piece.ofText s.text).map Piece.step := by
  have hstep : ∀ s ∈ c.enabledSteps, (Piece.step ∘ fun s => Piece.ofText s.text) s = id s :=
    fun s hs => Piece.step_ofText (List.mem_filter.mp hs).2
  rw [List.map_map, List.map_congr_left hstep, List.map_id]

/-- The parts of such a configuration as pieces that can be told apart. -/
theorem IsRestorable.readable (h : c.IsRestorable) :
    c.Readable (c.trimmedOptions?.map Piece.ofText)
      (c.enabledSteps.map fun s => Piece.ofText s.text) where
  enabled := h.enabled
  options := by
    cases c.trimmedOptions? <;> rfl
  optionsFit p hp := (h.options_ofText p hp).1
  optionsFinished p hp := (h.options_ofText p hp).2.1
  passedOn p hp := (h.options_ofText p hp).2.2
  steps := c.enabledSteps_eq_map_step
  trimmed := List.forall_mem_map.mpr fun s hs => (h.clean s hs).trimmed
  fits := List.forall_mem_map.mpr fun s hs => (h.clean s hs).fits_ofText.1
  line := by
    refine .of_finished ?_ h.finished_ofText
    rw [ne_eq, List.map_eq_nil_iff]
    exact enabledSteps_ne_nil h.enabled
  bare := List.forall_mem_map.mpr fun s hs => h.bare s hs _ (h.tokensOf_text hs)
  verb := by
    intro p hp
    rw [List.head?_map] at hp
    obtain ⟨s, hs, rfl⟩ := Option.map_eq_some_iff.mp hp
    exact h.verb s hs _ (h.tokensOf_text (List.mem_of_head? hs))
  separator := h.separator
  named := by
    intro path hpath
    obtain ⟨hblanks, hname, hkeeps⟩ := h.named path hpath
    refine ⟨hblanks, hname, h.finished_ofText, fun p hp => ?_⟩
    rw [List.getLast?_map] at hp
    obtain ⟨s, hs, rfl⟩ := Option.map_eq_some_iff.mp hp
    exact hkeeps s hs _ (h.tokensOf_text (List.mem_of_getLast? hs))
  unnamed := by
    intro hnone p hp
    rw [List.getLast?_map] at hp
    obtain ⟨s, hs, rfl⟩ := Option.map_eq_some_iff.mp hp
    rw [List.length_map]
    exact h.unnamed hnone s hs _ (h.tokensOf_text (List.mem_of_getLast? hs))

/-- **What comes back of a configuration.** Reading the command line of a restorable
configuration yields what it shows: the formats, the switches of separated formats, the
separator of comma-separated values, the steps that take part and the options; the input is
the file that it names, and that of `current` if it names none. -/
theorem ofCommand_commandLine_of_isRestorable (h : c.IsRestorable)
    (current : Configuration) : ofCommand c.commandLine current = .ok (c.reread current) :=
  h.readable.ofCommand_commandLine current

/-- What comes back of a configuration with quotes around its separator and its input file, with
options, and with a step that is switched off. -/
theorem ofCommand_commandLine_quoted :
    ofCommand (commandLine
        { inputPath := "/tmp/my data.csv", inputMode := .file, inputFormat := .csv,
          ragged := true, fieldSeparator := ";", outputFormat := .json,
          options := " -n --ofs '; ' ",
          steps := [⟨"filter '$SKU == \"X\"'", true⟩, ⟨"cat", false⟩, ⟨"head -n 5", true⟩] })
        { inputPath := "other.csv" } =
      .ok
        { inputPath := "/tmp/my data.csv", inputMode := .file, inputFormat := .csv,
          ragged := true, fieldSeparator := ";", outputFormat := .json,
          options := "-n --ofs '; '",
          steps := [⟨"filter '$SKU == \"X\"'", true⟩, ⟨"head -n 5", true⟩] } :=
  have hrestorable : IsRestorable
      { inputPath := "/tmp/my data.csv", inputMode := .file, inputFormat := .csv,
        ragged := true, fieldSeparator := ";", outputFormat := .json,
        options := " -n --ofs '; ' ",
        steps := [⟨"filter '$SKU == \"X\"'", true⟩, ⟨"cat", false⟩, ⟨"head -n 5", true⟩] } :=
    ⟨by decide, by decide +kernel, by decide +kernel, by decide +kernel,
      .inr ⟨by decide +kernel, _, rfl,
        [.passed ⟨"-n", "-n", 0, 2, false⟩ none,
          .passed ⟨"--ofs", "--ofs", 3, 8, false⟩ (some ⟨"'; '", "; ", 9, 13, true⟩)],
        by decide +kernel, by decide +kernel⟩,
      by decide +kernel, by decide +kernel, by decide +kernel⟩
  (ofCommand_commandLine_of_isRestorable hrestorable _).trans (by decide +kernel)

end Configuration

end Pipewright
