import Pipewright.Proofs.Command.FormatFlags
import Pipewright.Proofs.Command.Reading

/-!
# Reading a Command Line Back

The command line of a configuration is a line of pieces, and the tokens of each piece stand
in it where the piece does. This module says when the parts of a configuration can be told
apart again in its command line, and shows that then the reading finds them: the flags, the
options, the stages and the input file.

## Main results

* `Configuration.Readable`: the parts can be told apart again.
* `Configuration.Readable.ofCommand_commandLine`: what the command line is read as.
-/

namespace Pipewright

/-! ### Pieces in a text -/

/-- The pieces stand in the text one behind the other, and `ts` are their tokens there. -/
def LineStands (ps : List Piece) (cs : List Char) (ts : List Token) : Prop :=
  ∃ pre post, cs = pre ++ lineOf ps ++ post ∧
    ts = (spread ps).map (Token.shift (Text.byteLength pre))

/-- Pieces that stand one behind the other can be parted. -/
theorem LineStands.append {a b : List Piece} {cs : List Char} {ts : List Token}
    (h : LineStands (a ++ b) cs ts) :
    ∃ us vs, ts = us ++ vs ∧ LineStands a cs us ∧ LineStands b cs vs := by
  obtain ⟨pre, post, hcs, rfl⟩ := h
  by_cases ha : a = []
  · subst ha
    exact ⟨[], _, rfl, ⟨cs, [], by simp [lineOf], rfl⟩, pre, post, hcs, rfl⟩
  by_cases hb : b = []
  · subst hb
    rw [List.append_nil] at hcs ⊢
    exact ⟨_, [], (List.append_nil _).symm, ⟨pre, post, hcs, rfl⟩, cs, [], by simp [lineOf], rfl⟩
  rw [lineOf_append ha hb] at hcs
  refine ⟨_, _, ?_, ⟨pre, [' '] ++ lineOf b ++ post, by rw [hcs]; simp, rfl⟩,
    pre ++ lineOf a ++ [' '], post, by rw [hcs]; simp, rfl⟩
  rw [spread_append ha, List.map_append, List.map_map]
  simp [Function.comp_def]

/-- A piece that stands in a text by itself. -/
theorem LineStands.stands {p : Piece} {cs : List Char} {ts : List Token}
    (h : LineStands [p] cs ts) (hfits : Fits p.text p.tokens) : p.Stands cs ts := by
  obtain ⟨pre, post, hcs, rfl⟩ := h
  exact ⟨hfits, pre, post, by simpa using hcs, by simp [spread]⟩

/-- The words of a line are those of its pieces. -/
theorem map_unplaced_spread (ps : List Piece) :
    (spread ps).map Token.unplaced = (ps.flatMap (·.tokens)).map Token.unplaced := by
  induction ps with
  | nil => rfl
  | cons p ps ih =>
      rw [spread, List.map_append, map_unplaced_shift, ih, List.flatMap_cons, List.map_append]

/-- The words of pieces that stand in a text are those of the pieces. -/
theorem LineStands.map_unplaced {ps : List Piece} {cs : List Char} {ts : List Token}
    (h : LineStands ps cs ts) :
    ts.map Token.unplaced = (ps.flatMap (·.tokens)).map Token.unplaced := by
  obtain ⟨pre, post, -, rfl⟩ := h
  rw [map_unplaced_shift, map_unplaced_spread]

/-- The tokens are those of flags that are passed on, each with the word it takes. -/
def PassedOn (ts : List Token) : Prop :=
  ∃ groups, groupTokens groups = ts ∧
    ∀ g ∈ groups, g.IsPassed ∧ g.Proper ∧ ¬ g.Lacks

namespace Configuration

/-- **The parts of the command line can be told apart again.** The options, if there are any,
are the piece `o` and the stages the pieces `ps`: the options are flags that are passed on,
the first stage starts with no flag, no stage holds a connective, and the last stage keeps
its last word, but not the input file behind it. -/
structure Readable (c : Configuration) (o : Option Piece) (ps : List Piece) : Prop where
  /-- There is a command line. -/
  enabled : c.hasEnabledSteps = true
  /-- The options are the piece. -/
  options : o.map (·.text) = c.trimmedOptions?.map String.toList
  /-- The tokens of the options fit them. -/
  optionsFit : ∀ p ∈ o, Fits p.text p.tokens
  /-- Nothing in the options is open. -/
  optionsFinished : ∀ p ∈ o, p.Finished
  /-- The options are flags that are passed on. -/
  passedOn : ∀ p ∈ o, PassedOn p.tokens
  /-- The steps are the pieces. -/
  steps : c.enabledSteps = ps.map Piece.step
  /-- The steps have no blanks at their ends. -/
  trimmed : ∀ p ∈ ps, Text.Trimmed p.text
  /-- The tokens of each step fit it. -/
  fits : ∀ p ∈ ps, Fits p.text p.tokens
  /-- The steps can be read one behind the other. -/
  line : Line ps
  /-- No step holds a connective. -/
  bare : ∀ p ∈ ps, ∀ t ∈ p.tokens, t.isConnective = false
  /-- The first step starts with no flag. -/
  verb : ∀ p ∈ ps.head?, ∀ t ∈ p.tokens.head?, t.isOption = false
  /-- The blanks of the separator are common ones. -/
  separator : Text.OnlyCommonBlanks c.fieldSeparator
  /-- The input file looks like one, and the last step leaves it. -/
  named : ∀ path ∈ c.inputFile?, Text.OnlyCommonBlanks path ∧
    IsFileName path ∧ (∀ p ∈ ps, p.Finished) ∧
    ∀ p ∈ ps.getLast?, keepsLastWord p.tokens = false
  /-- Without an input file, the last step keeps its last word. -/
  unnamed : c.inputFile? = none → ∀ p ∈ ps.getLast?, ¬ GivesFile (ps.length = 1) p.tokens

/-- The configuration that a command line is read as: what it shows of `c`, and the input of
`current` where it names no input file. -/
def reread (c current : Configuration) : Configuration :=
  { inputPath := c.inputFile?.getD current.inputPath
    inputMode := if c.inputFile?.isSome then .file else current.inputMode
    inputFormat := c.inputFormat
    ragged := c.inputFormat.hasSeparator && c.ragged
    headerless := c.inputFormat.hasSeparator && c.headerless
    fieldSeparator := if c.inputFormat = .csv then c.separator else defaultSeparator
    outputFormat := c.outputFormat
    steps := c.enabledSteps
    options := Text.trim c.options }

/-- The slots of the configuration that a command line is read as are those that it shows. -/
theorem slot_reread (c current : Configuration) (slot : Slot) :
    (c.reread current).slot slot = (c.shown? slot).getD slot.unset := by
  cases slot with
  | inputFormat => cases h : c.inputFormat <;> simp [slot, reread, shown?, Slot.unset, h]
  | outputFormat => cases h : c.outputFormat <;> simp [slot, reread, shown?, Slot.unset, h]
  | ragged =>
      cases h : c.inputFormat.hasSeparator && c.ragged <;>
        simp [slot, reread, shown?, Slot.unset, h]
  | headerless =>
      cases h : c.inputFormat.hasSeparator && c.headerless <;>
        simp [slot, reread, shown?, Slot.unset, h]
  | separator =>
      by_cases hcsv : c.inputFormat = .csv <;> by_cases hcomma : c.separator = defaultSeparator <;>
        simp [slot, reread, shown?, Slot.unset, hcsv, hcomma]

/-- Configurations with the same slots, the same input, the same steps and the same options
are the same. -/
theorem eq_of_slot {a b : Configuration} (hslot : ∀ slot, a.slot slot = b.slot slot)
    (hpath : a.inputPath = b.inputPath) (hmode : a.inputMode = b.inputMode)
    (hsteps : a.steps = b.steps) (hoptions : a.options = b.options) : a = b := by
  have hinput : a.inputFormat = b.inputFormat := hslot .inputFormat
  have houtput : a.outputFormat = b.outputFormat := hslot .outputFormat
  have hragged : a.ragged = b.ragged := hslot .ragged
  have hheaderless : a.headerless = b.headerless := hslot .headerless
  have hseparator : a.fieldSeparator = b.fieldSeparator := hslot .separator
  cases a
  cases b
  simp_all

variable {c current : Configuration} {o : Option Piece} {ps : List Piece}

/-- The command line as a line of pieces. -/
theorem Readable.commandLine_toList (h : c.Readable o ps) :
    c.commandLine.toList = lineOf (c.linePieces o.toList ps) := by
  refine Configuration.commandLine_toList h.enabled ?_ ?_
  · rw [← Option.toList_map, h.options, Option.toList_map]
  · rw [h.steps, List.map_map, List.map_map]
    refine List.map_congr_left fun p hp => ?_
    have htrim : Text.trim (.ofList p.text) = .ofList p.text :=
      Text.Trimmed.trim_eq (by rw [String.toList_ofList]; exact h.trimmed p hp)
    simp [Piece.step, htrim]

/-- The options without the blanks around them are the piece of the options. -/
theorem Readable.lineOf_options (h : c.Readable o ps) :
    lineOf o.toList = (Text.trim c.options).toList := by
  cases o with
  | none =>
      have hnone : c.trimmedOptions? = none := Option.map_eq_none_iff.mp h.options.symm
      rw [trim_options_eq_empty hnone]
      rfl
  | some p =>
      obtain ⟨options, hsome, htext⟩ := Option.map_eq_some_iff.mp h.options.symm
      obtain ⟨rfl, -⟩ := trimmedOptions?_eq_some_iff.mp hsome
      simpa using htext.symm

/-- The command line has the tokens of its pieces. -/
theorem Readable.readTokens_commandLine (h : c.Readable o ps) :
    readTokens c.commandLine.toList = .ok (spread (c.linePieces o.toList ps)) := by
  rw [h.commandLine_toList]
  refine (line_linePieces h.separator (fun path hpath => (h.named path hpath).1) ?_ h.line ?_).tokens
  · exact fun p hp => h.optionsFinished p (Option.mem_toList.mp hp)
  · intro hfile
    obtain ⟨path, hpath⟩ := Option.ne_none_iff_exists'.mp hfile
    exact (h.named path hpath).2.2.1

/-- The tokens behind the tool fall into those of the flags, of the options, of the stages and
of the input file. -/
theorem Readable.exists_tokens (h : c.Readable o ps) :
    ∃ ts flags options region file, tokensOf c.commandLine = .ok ts ∧
      dropTool ts = flags ++ options ++ (region ++ file) ∧
      LineStands c.flagPieces c.commandLine.toList flags ∧
      LineStands o.toList c.commandLine.toList options ∧
      LineStands (ps.intersperse (Piece.ofWord connective)) c.commandLine.toList region ∧
      LineStands (c.inputFile?.map Piece.ofWord).toList c.commandLine.toList file := by
  have hall : LineStands (c.linePieces o.toList ps) c.commandLine.toList
      (spread (c.linePieces o.toList ps)) := by
    have hzero : Token.shift 0 = id := funext fun t => Token.shift_zero t
    exact ⟨[], [], by simp [h.commandLine_toList], by simp [hzero]⟩
  obtain ⟨front, file, hfront, hstands, hfile⟩ := hall.append
  obtain ⟨front, region, rfl, hstands, hregion⟩ := hstands.append
  obtain ⟨front, options, rfl, hstands, hoptions⟩ := hstands.append
  have hcons : LineStands ([Piece.ofWord toolWord] ++ c.flagPieces) c.commandLine.toList front :=
    hstands
  obtain ⟨tool, flags, rfl, htool, hflags⟩ := hcons.append
  refine ⟨_, flags, options, region, file, h.readTokens_commandLine, ?_, hflags, hoptions, hregion,
    hfile⟩
  obtain ⟨pre, post, -, rfl⟩ := htool
  have hnames : ((Token.ofWord toolWord).shift (Text.byteLength pre)).namesTool = true :=
    (show (Token.ofWord toolWord).namesTool = true by decide)
  have htokens : (spread [Piece.ofWord toolWord]).map (Token.shift (Text.byteLength pre)) =
      [(Token.ofWord toolWord).shift (Text.byteLength pre)] := rfl
  rw [hfront, htokens, List.append_assoc, List.append_assoc, List.append_assoc,
    List.singleton_append, dropTool, if_pos hnames, List.append_assoc]

/-- The leading flags of the command line: the flags that the configuration shows, which set
the slots that they are shown for, and behind them those of the options. -/
theorem Readable.exists_flagGroups (h : c.Readable o ps) {flags options : List Token}
    {cs : List Char} (hflags : LineStands c.flagPieces cs flags)
    (hoptions : LineStands o.toList cs options) :
    ∃ shown passed, groupTokens shown = flags ∧ groupTokens passed = options ∧
      (∀ g ∈ shown, g.Proper ∧ ¬ g.Lacks ∧ ¬ g.IsPassed) ∧
      (∀ g ∈ passed, g.Proper ∧ ¬ g.Lacks ∧ g.IsPassed) ∧
      ∀ slot, shown.filterMap (·.denoted? slot) = (c.shown? slot).toList := by
  have hflagWords : flags.map Token.unplaced = (groupTokens c.formatGroups).map Token.unplaced := by
    rw [hflags.map_unplaced, groupTokens_formatGroups]
  obtain ⟨shown, hshownTokens, hshown⟩ := exists_groups hflagWords
  obtain ⟨groups, hoptionWords, hpassedOn⟩ : ∃ groups,
      options.map Token.unplaced = (groupTokens groups).map Token.unplaced ∧
        ∀ g ∈ groups, g.IsPassed ∧ g.Proper ∧ ¬ g.Lacks := by
    cases o with
    | none => exact ⟨[], hoptions.map_unplaced, by simp⟩
    | some p =>
        obtain ⟨groups, hgroups, hpassedOn⟩ := h.passedOn p rfl
        refine ⟨groups, ?_, hpassedOn⟩
        rw [hoptions.map_unplaced, hgroups]
        simp
  obtain ⟨passed, hpassedTokens, hpassed⟩ := exists_groups hoptionWords
  refine ⟨shown, passed, hshownTokens, hpassedTokens, fun g' hg' => ?_, fun g' hg' => ?_,
    fun slot => ?_⟩
  · obtain ⟨g, hg, hplace⟩ := exists_left_of_forall₂ hshown hg'
    obtain ⟨hproper, hlacks, hpass, -⟩ := FlagGroup.alike hplace
    rw [hproper, hlacks, hpass]
    exact formatGroups_proper hg
  · obtain ⟨g, hg, hplace⟩ := exists_left_of_forall₂ hpassed hg'
    obtain ⟨hproper, hlacks, hpass, -⟩ := FlagGroup.alike hplace
    obtain ⟨hyes, hproper', hlacks'⟩ := hpassedOn g hg
    rw [hproper, hlacks, hpass]
    exact ⟨hproper', hlacks', hyes⟩
  · rw [← filterMap_formatGroups]
    generalize c.formatGroups = groups at hshown
    clear hshownTokens
    induction hshown with
    | nil => rfl
    | @cons g g' groups groups' hplace _ ih =>
        have hdenoted := (FlagGroup.alike hplace).2.2.2 slot
        simp only [List.filterMap_cons, hdenoted, ih]

/-- The stages and the input file of the command line, if there is one. -/
theorem Readable.splitInputFile_eq (h : c.Readable o ps) {cs : List Char} {region file : List Token}
    {parts : List (List Token)} (hparts : Stages region parts)
    (hstands : List.Forall₂ (fun part p => Piece.Stands p cs part) parts ps)
    (hfile : LineStands (c.inputFile?.map Piece.ofWord).toList cs file) :
    ∃ path, splitInputFile (region ++ file) = (region, path) ∧
      path.map (·.value) = c.inputFile? := by
  obtain ⟨p, hp⟩ : ∃ p, p ∈ ps.getLast? :=
    ⟨_, List.getLast?_eq_some_getLast h.line.ne_nil⟩
  cases hpath : c.inputFile? with
  | none =>
      rw [hpath] at hfile
      obtain ⟨pre, post, -, rfl⟩ := hfile
      have hnone := (hparts.splitInputFile_iff hstands hp).mpr (h.unnamed hpath p hp)
      exact ⟨none, by simpa [spread] using hnone, rfl⟩
  | some path =>
      rw [hpath] at hfile
      obtain ⟨pre, post, -, rfl⟩ := hfile
      obtain ⟨-, hname, -, hkeeps⟩ := h.named path hpath
      have hkept := (hparts.keepsLastWord_iff hstands hp).mpr (hkeeps p hp)
      refine ⟨some ((Token.ofWord path).shift (Text.byteLength pre)), ?_, rfl⟩
      have hresembles' : resemblesFile ((Token.ofWord path).shift (Text.byteLength pre)) = true :=
        hname.resemblesFile_ofWord
      have htokens : (spread ((some path).map Piece.ofWord).toList).map
          (Token.shift (Text.byteLength pre)) =
            [(Token.ofWord path).shift (Text.byteLength pre)] := rfl
      rw [htokens, splitInputFile_concat, hresembles', hkept]
      rfl

/-- The flags of the command line fill the slots with what the configuration shows. -/
theorem exists_fillSlots_of_shown {groups : List FlagGroup}
    (hproper : ∀ g ∈ groups, g.Proper ∧ ¬ g.Lacks)
    (hdenoted : ∀ slot, groups.filterMap (·.denoted? slot) = (c.shown? slot).toList) :
    ∃ slots, fillSlots groups = .ok slots ∧ ∀ slot, slots.held slot = c.shown? slot := by
  obtain ⟨slots, hfill⟩ := exists_fillSlots
    (fun g hg => (hproper g hg).1.not_lacksSeparator (hproper g hg).2)
    fun slot => by rw [hdenoted]; cases c.shown? slot <;> simp
  refine ⟨slots, hfill, fun slot => ?_⟩
  have hheld := held_of_fillSlots hfill slot
  rw [hdenoted] at hheld
  simpa using congrArg List.head? hheld

/-- The stages of the command line stand in it as the pieces of the steps. -/
theorem Readable.exists_stages (h : c.Readable o ps) {region : List Token}
    (hregion : LineStands (ps.intersperse (Piece.ofWord connective)) c.commandLine.toList
      region) :
    ∃ parts, Stages region parts ∧
      List.Forall₂ (fun part p => Piece.Stands p c.commandLine.toList part) parts ps := by
  obtain ⟨pre, post, hcs, rfl⟩ := hregion
  exact stages_spread h.line.ne_nil h.fits h.bare hcs

/-- The text that is cut out for the options is that of the options. -/
theorem Readable.optionsText_eq (h : c.Readable o ps) {shown passed : List FlagGroup}
    (hshown : ∀ g ∈ shown, ¬ g.IsPassed) (hpassed : ∀ g ∈ passed, g.IsPassed)
    (hoptions : LineStands o.toList c.commandLine.toList (groupTokens passed)) :
    optionsText c.commandLine (shown ++ passed) = Text.trim c.options := by
  rw [← String.toList_inj, ← h.lineOf_options]
  refine optionsText_of_passed hshown hpassed ?_ ?_
  · rintro rfl
    obtain ⟨pre, post, -, htokens⟩ := hoptions
    exact htokens
  · rintro p rfl
    exact LineStands.stands hoptions (h.optionsFit p rfl)

/-- The configuration with the slots, the steps, the options and the input file that the
command line shows is what it is read as. -/
theorem withFile_filled_eq_reread (current : Configuration) {slots : SlotFill} {path : Option Token}
    (hheld : ∀ slot, slots.held slot = c.shown? slot)
    (hpath : path.map (·.value) = c.inputFile?) :
    (current.filled slots c.enabledSteps (Text.trim c.options)).withFile path =
      c.reread current := by
  refine eq_of_slot (fun slot => ?_) ?_ ?_ ?_ ?_
  · rw [slot_reread, slot_withFile_filled, hheld]
  · rw [reread, ← hpath]
    cases path <;> rfl
  · rw [reread, ← hpath]
    cases path <;> rfl
  · cases path <;> rfl
  · cases path <;> rfl

/-- **Reading a command line back** yields what it shows of the configuration. -/
theorem Readable.ofCommand_commandLine (h : c.Readable o ps) (current : Configuration) :
    ofCommand c.commandLine current = .ok (c.reread current) := by
  obtain ⟨ts, flags, options, region, file, hts, hwords, hflags, hoptions, hregion, hfile⟩ :=
    h.exists_tokens
  -- the flags
  obtain ⟨shown, passed, rfl, rfl, hshown, hpassed, hdenoted⟩ :=
    h.exists_flagGroups hflags hoptions
  have hproper : ∀ g ∈ shown ++ passed, g.Proper ∧ ¬ g.Lacks := by
    intro g hg
    rcases List.mem_append.mp hg with hg | hg
    · exact ⟨(hshown g hg).1, (hshown g hg).2.1⟩
    · exact ⟨(hpassed g hg).1, (hpassed g hg).2.1⟩
  have hslots : ∀ slot, (shown ++ passed).filterMap (·.denoted? slot) = (c.shown? slot).toList := by
    intro slot
    have hnothing : passed.filterMap (·.denoted? slot) = [] :=
      List.filterMap_eq_nil_iff.mpr fun g hg => (hpassed g hg).2.2.denoted?_eq_none slot
    rw [List.filterMap_append, hnothing, hdenoted, List.append_nil]
  obtain ⟨slots, hfill, hheld⟩ := exists_fillSlots_of_shown hproper hslots
  -- the stages and the input file
  obtain ⟨parts, hparts, hstands⟩ := h.exists_stages hregion
  obtain ⟨path, hsplit, hpath⟩ := h.splitInputFile_eq hparts hstands hfile
  have hne := hparts.region_ne_nil hstands
  have hsteps : pipelineSteps c.commandLine region = .ok (ps.map Piece.step) := by
    rw [hparts.pipelineSteps_eq_ok_iff hne]
    exact forall₂_isStep hstands h.trimmed
  -- the reading
  have hverb : ∀ t ∈ (region ++ file).head?, t.isOption = false := by
    rw [List.head?_append_of_ne_nil _ hne]
    exact (hparts.isOption_head?_iff hstands).mpr h.verb
  have hgroups : flagGroups (dropTool ts) = (shown ++ passed, region ++ file) := by
    rw [hwords, ← (LeadingFlags.of_forall hproper hverb).flagGroups_eq]
    simp [groupTokens]
  have htext := h.optionsText_eq (fun g hg => (hshown g hg).2.2) (fun g hg => (hpassed g hg).2.2)
    hoptions
  refine ofCommand_eq_ok_iff.mpr ⟨ts, _, _, slots, ps.map Piece.step, hts, hgroups, hfill, ?_, ?_⟩
  · rw [hsplit]
    exact hsteps
  · rw [hsplit, htext, ← h.steps, withFile_filled_eq_reread current hheld hpath]

end Configuration

end Pipewright
