import Pipewright.Proofs.Command.Reread

/-!
# From a Command to a Configuration and Back

A command may be typed in many ways. Once it has been read, the command line of the
configuration is a fixed form of it: reading that form yields the configuration again, up to
what no command line shows, and so the form stays as it is.

## Main results

* `Configuration.Parsed.exists_readable`: what was read can be told apart again.
* `Configuration.ofCommand_commandLine_of_ofCommand`: reading the command line of what was
  read yields it again.
-/

namespace Pipewright

namespace Configuration

/-- The configuration without what its command line does not show: the switches of formats
without a separator, and the separator of formats other than comma-separated values. -/
def settled (c : Configuration) : Configuration :=
  { c with
    ragged := c.inputFormat.hasSeparator && c.ragged
    headerless := c.inputFormat.hasSeparator && c.headerless
    fieldSeparator := if c.inputFormat = .csv then c.fieldSeparator else defaultSeparator }

/-- What a command line does not show does not change it. -/
theorem commandLine_settled (c : Configuration) : c.settled.commandLine = c.commandLine := by
  have hseparator : c.inputFormat = .csv → c.settled.separator = c.separator := by
    intro hcsv
    rw [separator, separator, settled, if_pos hcsv]
  have hflags : c.settled.formatFlags = c.formatFlags := by
    have hformat : c.settled.inputFormat = c.inputFormat := rfl
    have hragged : (c.inputFormat.hasSeparator && c.settled.ragged) =
        (c.inputFormat.hasSeparator && c.ragged) := by
      simp [settled]
    have hheaderless : (c.inputFormat.hasSeparator && c.settled.headerless) =
        (c.inputFormat.hasSeparator && c.headerless) := by
      simp [settled]
    rw [formatFlags, formatFlags, hformat, hragged, hheaderless]
    by_cases hcsv : c.inputFormat = .csv
    · rw [hseparator hcsv]
      rfl
    · simp only [hcsv, false_and, if_false]
      rfl
  have hwords : c.settled.commandWords = c.commandWords := by
    rw [commandWords, commandWords, hflags]
    rfl
  rw [commandLine, commandLine, hwords]
  rfl

section

variable {input : String} {current c : Configuration} {groups : List FlagGroup}
  {region : List Token} {file : Option Token} {ps os : List Piece}

/-- The input file of a configuration that was read is the one that the command names. -/
theorem Parsed.inputFile?_eq (h : Parsed input current c groups region file ps os)
    (hcurrent : current.inputFile? = none) : c.inputFile? = file.map (·.value) := by
  have hsource := h.source
  cases file with
  | none =>
      obtain ⟨hmode, hpath⟩ := hsource
      rw [inputFile?, hmode, hpath, ← inputFile?]
      exact hcurrent
  | some t =>
      obtain ⟨hmode, hpath⟩ := hsource
      have hname := isFileName_of_resemblesFile (resemblesFile_of_splitInputFile h.split).1
      rw [inputFile?, hmode, hpath]
      simp [hname.isBlankText_eq_false]

/-- The options of a configuration that was read from a command with a step are flags that are
passed on, and they stand as one piece. -/
theorem Parsed.passedOn (h : Parsed input current c groups region file ps os)
    (hne : region ++ file.toList ≠ []) : PassedOn (spread os) := by
  have hwords : (spread os).map Token.unplaced = (passedTokens groups).map Token.unplaced := by
    rw [map_unplaced_spread, h.excerpts.words]
  obtain ⟨groups', hgroups, hplaces⟩ := exists_groups hwords
  refine ⟨groups', hgroups, fun g' hg' => ?_⟩
  obtain ⟨g, hg, hplace⟩ := exists_left_of_forall₂ hplaces hg'
  obtain ⟨hmem, hpass⟩ := List.mem_filter.mp hg
  obtain ⟨hproper', hlacks', hpass', -⟩ := FlagGroup.alike hplace
  rw [hproper', hlacks', hpass']
  exact ⟨of_decide_eq_true hpass, h.flags.proper g hmem, h.flags.not_lacks hne g hmem⟩

/-- The options of a configuration that was read have no blanks at their ends. -/
theorem Parsed.trim_options (h : Parsed input current c groups region file ps os) :
    Text.trim c.options = c.options := by
  refine Text.Trimmed.trim_eq ?_
  rw [h.options]
  exact trimmed_lineOf (fun p hp => (h.excerpts.fits p hp).ne_nil) h.excerpts.trimmed

/-- The options of a configuration that was read from a command with a step, as one piece if
there are any. -/
theorem Parsed.exists_options (h : Parsed input current c groups region file ps os)
    (hne : region ++ file.toList ≠ []) :
    ∃ o : Option Piece, o.map (·.text) = c.trimmedOptions?.map String.toList ∧
      ∀ p ∈ o, Fits p.text p.tokens ∧ p.Finished ∧ PassedOn p.tokens := by
  by_cases hos : os = []
  · have hempty : c.options = "" := by
      rw [← String.toList_inj, h.options, hos]
      rfl
    have hnone : c.trimmedOptions? = none := by
      rw [trimmedOptions?, h.trim_options, hempty]
      rfl
    exact ⟨none, by rw [hnone]; rfl, by simp⟩
  · have hline := h.excerpts.line.resolve_left hos
    have hfits : Fits (lineOf os) (spread os) := fits_lineOf hline h.excerpts.fits
    have hfinished : Spells (lineOf os) (spread os) := spells_lineOf (h.excerpts.finished hne)
    have hsome : c.trimmedOptions? = some c.options := by
      refine trimmedOptions?_eq_some_iff.mpr ⟨h.trim_options, fun hempty => hfits.ne_nil ?_⟩
      rw [← h.options, hempty]
      rfl
    refine ⟨some ⟨lineOf os, spread os⟩, ?_, ?_⟩
    · rw [hsome, Option.map_some, Option.map_some, h.options]
    · rintro p hp
      obtain rfl := Option.some.inj hp
      exact ⟨hfits, hfinished, h.passedOn hne⟩

/-- All steps of a configuration that was read take part. -/
theorem Parsed.enabledSteps_eq (h : Parsed input current c groups region file ps os) :
    c.enabledSteps = c.steps := by
  rw [enabledSteps, h.steps, List.filter_eq_self]
  intro s hs
  obtain ⟨p, -, rfl⟩ := List.mem_map.mp hs
  rfl

/-- A configuration that was read with a step has a step that takes part. -/
theorem Parsed.hasEnabledSteps (h : Parsed input current c groups region file ps os)
    (hsteps : c.steps ≠ []) : c.hasEnabledSteps = true := by
  obtain ⟨s, steps, hs⟩ := List.exists_cons_of_ne_nil hsteps
  have hmem : s ∈ c.enabledSteps := by
    rw [h.enabledSteps_eq, hs]
    exact List.mem_cons_self
  obtain ⟨hmem, hon⟩ := List.mem_filter.mp hmem
  exact List.any_eq_true.mpr ⟨s, hmem, hon⟩

/-- **What was read can be told apart again**: the command line of a configuration that was
read from a command with a step. -/
theorem Parsed.exists_readable (h : Parsed input current c groups region file ps os)
    (hcurrent : current.inputFile? = none) (hsteps : c.steps ≠ [])
    (hseparator : Text.OnlyCommonBlanks c.fieldSeparator)
    (hpath : ∀ path ∈ c.inputFile?, Text.OnlyCommonBlanks path) :
    ∃ o, c.Readable o ps := by
  have hps : ps ≠ [] := by
    rintro rfl
    exact hsteps h.steps
  obtain ⟨parts, hparts, hstands⟩ := h.stages.resolve_left fun hnil => hps hnil.2
  have hregion := hparts.region_ne_nil hstands
  have hfile := h.inputFile?_eq hcurrent
  obtain ⟨o, htext, hoptions⟩ :=
    h.exists_options (List.append_ne_nil_of_left_ne_nil hregion file.toList)
  refine ⟨o, { enabled := h.hasEnabledSteps hsteps
               options := htext
               optionsFit := fun p hp => (hoptions p hp).1
               optionsFinished := fun p hp => (hoptions p hp).2.1
               passedOn := fun p hp => (hoptions p hp).2.2
               steps := h.enabledSteps_eq.trans h.steps
               trimmed := h.trimmed
               fits := h.fits
               line := h.line.resolve_left hps
               bare := hparts.isConnective_of_stands hstands
               verb := ?verb
               separator := hseparator
               named := ?named
               unnamed := ?unnamed }⟩
  case verb =>
    refine (hparts.isOption_head?_iff hstands).mp fun t ht => h.flags.isOption_head? t ?_
    rwa [List.head?_append_of_ne_nil _ hregion]
  case named =>
    intro path hshown
    cases file with
    | none =>
        rw [hfile] at hshown
        exact absurd hshown (Option.not_mem_none path)
    | some t =>
        obtain ⟨hresembles, hkeeps⟩ := resemblesFile_of_splitInputFile h.split
        rw [hfile] at hshown
        obtain rfl : t.value = path := Option.some.inj hshown
        refine ⟨hpath _ (hfile ▸ rfl), isFileName_of_resemblesFile hresembles,
          h.finished (Option.some_ne_none t), fun p hp => ?_⟩
        exact (hparts.keepsLastWord_iff hstands hp).mp hkeeps
  case unnamed =>
    intro hnone p hp
    cases file with
    | none =>
        refine (hparts.splitInputFile_iff hstands hp).mp ?_
        simpa using h.split
    | some t => exact absurd (hfile.symm.trans hnone) (Option.some_ne_none _)

end

/-- What a configuration that was read is read as again is the configuration itself, without
what its command line does not show. -/
theorem Parsed.reread_eq {input : String} {current c : Configuration} {groups : List FlagGroup}
    {region : List Token} {file : Option Token} {ps os : List Piece}
    (h : Parsed input current c groups region file ps os) : c.reread c = c.settled := by
  have hpath : c.inputFile?.getD c.inputPath = c.inputPath := by
    cases hfile : c.inputFile? with
    | none => rfl
    | some path => exact eq_inputPath_of_inputFile? hfile
  have hmode : (if c.inputFile?.isSome then .file else c.inputMode) = c.inputMode := by
    cases hm : c.inputMode with
    | text => simp [inputFile?, hm]
    | file => simp
  rw [reread, settled, hpath, hmode, h.enabledSteps_eq, h.trim_options, h.separator]

/-- **The command line is a fixed form of a command.** Reading the command line of a
configuration that was read from a command with a step, with no token that ends in a blank,
yields the configuration again, without what no command line shows; and its command line is
the same. -/
theorem ofCommand_commandLine_of_ofCommand {input : String} {current c : Configuration}
    (hcurrent : current.inputFile? = none) (h : ofCommand input current = .ok c)
    (hsteps : c.steps ≠ []) (hends : EndsInWords input)
    (hseparator : Text.OnlyCommonBlanks c.fieldSeparator)
    (hpath : ∀ path ∈ c.inputFile?, Text.OnlyCommonBlanks path) :
    ofCommand c.commandLine c = .ok c.settled ∧ c.settled.commandLine = c.commandLine := by
  obtain ⟨groups, region, file, ps, os, hparsed⟩ := exists_parsed h hends
  obtain ⟨o, hreadable⟩ := hparsed.exists_readable hcurrent hsteps hseparator hpath
  rw [hreadable.ofCommand_commandLine c, hparsed.reread_eq]
  exact ⟨rfl, commandLine_settled c⟩

/-- The fixed form of a command with a shorthand flag, with options on both sides of the flag
for the separator, with a switch that is not shown for its format and with a step that spans
a joined line. -/
theorem ofCommand_commandLine_shorthand :
    ∃ c, ofCommand
        "mlr -n --j2c --ragged --ifs ';' --nidx head -n \\\n5  then  cat '/tmp/my data.csv'" {} =
          .ok c ∧
      c.commandLine = "mlr --ijson --ocsv -n --nidx head -n \\\n5 then cat '/tmp/my data.csv'" ∧
      ofCommand c.commandLine c = .ok c.settled ∧ c.settled.commandLine = c.commandLine :=
  have hread : ofCommand
      "mlr -n --j2c --ragged --ifs ';' --nidx head -n \\\n5  then  cat '/tmp/my data.csv'" {} =
        .ok
          { inputPath := "/tmp/my data.csv", inputMode := .file, inputFormat := .json,
            ragged := true, outputFormat := .csv, fieldSeparator := ";", options := "-n --nidx",
            steps := [⟨"head -n \\\n5", true⟩, ⟨"cat", true⟩] } := by decide +kernel
  ⟨_, hread, by decide +kernel, ofCommand_commandLine_of_ofCommand rfl hread (by decide)
    (by decide +kernel) (by decide +kernel) (by decide +kernel)⟩

end Configuration

end Pipewright
