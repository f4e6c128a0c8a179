import Mathlib.Data.List.Basic
import Pipewright.Command.Line
import Pipewright.Proofs.Token.Word

/-!
# The Layout of a Command Line

The command line of a configuration is a line of pieces: the tool, the flags with their
values, the options, the stages with the connective between them, and the input file. The
options and the stages stand as typed, all other pieces are words, quoted where they need
it. What is known of the pieces is then known of the line.

## Main results

* `Configuration.commandLine_toList`: the command line is the line of its pieces.
* `Configuration.line_linePieces`: the pieces make a line when nothing is left open in
  the options and the stages, the last stage apart when no input file follows it.
-/

namespace Pipewright

/-! ### The words of the flags -/

/-- The flags without a value that a command line can hold for the formats and switches of a
configuration. -/
def formatWords : List String :=
  InputFormat.all.filterMap InputFormat.flag? ++ [raggedWord, headerlessWord] ++
    OutputFormat.all.filterMap OutputFormat.flag?

/-- The flags need no quotes. -/
theorem quote_formatWords : ∀ word ∈ separatorWord :: formatWords, Words.quote word = word := by
  decide +kernel

/-- The flags hold no blanks. -/
theorem onlyCommonBlanks_formatWords :
    ∀ word ∈ separatorWord :: formatWords, Text.OnlyCommonBlanks word := by
  decide +kernel

namespace Configuration

variable {c : Configuration}

/-- A flag of the configuration is the one for the separator, with the separator, or one of
the flags without a value. -/
theorem mem_formatFlags {f : String × Option String} (h : f ∈ c.formatFlags) :
    f = (separatorWord, some c.separator) ∨ ∃ word ∈ formatWords, f = (word, none) := by
  simp only [formatFlags, List.mem_append] at h
  rcases h with (((h | h) | h) | h) | h
  · obtain ⟨word, hword, rfl⟩ := List.mem_map.mp h
    refine .inr ⟨word, ?_, rfl⟩
    cases hformat : c.inputFormat <;> simp_all [InputFormat.flag?] <;> decide
  · split at h
    · exact .inr ⟨raggedWord, by decide, List.mem_singleton.mp h⟩
    · exact absurd h List.not_mem_nil
  · split at h
    · exact .inr ⟨headerlessWord, by decide, List.mem_singleton.mp h⟩
    · exact absurd h List.not_mem_nil
  · split at h
    · exact .inl (List.mem_singleton.mp h)
    · exact absurd h List.not_mem_nil
  · obtain ⟨word, hword, rfl⟩ := List.mem_map.mp h
    refine .inr ⟨word, ?_, rfl⟩
    cases hformat : c.outputFormat <;> simp_all [OutputFormat.flag?] <;> decide

/-- The word of a flag is among the flags. -/
theorem fst_mem_formatWords {f : String × Option String} (h : f ∈ c.formatFlags) :
    f.1 ∈ separatorWord :: formatWords := by
  rcases mem_formatFlags h with rfl | ⟨word, hword, rfl⟩
  · exact List.mem_cons_self
  · exact List.mem_cons_of_mem _ hword

/-- The separator as the tool sees it has common blanks when the separator as given has. -/
theorem onlyCommonBlanks_separator (h : Text.OnlyCommonBlanks c.fieldSeparator) :
    Text.OnlyCommonBlanks c.separator := by
  rw [separator, orDefaultSeparator]
  split
  · decide
  · exact h

/-- The input file, if there is one, is the one at the input path. -/
theorem eq_inputPath_of_inputFile? {path : String} (h : path ∈ c.inputFile?) :
    path = c.inputPath := by
  rw [inputFile?] at h
  split at h
  · exact absurd h (Option.not_mem_none path)
  · split at h
    · exact absurd h (Option.not_mem_none path)
    · exact (Option.some.inj h).symm

/-- A configuration with an enabled step has enabled steps. -/
theorem enabledSteps_ne_nil (h : c.hasEnabledSteps = true) : c.enabledSteps ≠ [] := by
  obtain ⟨s, hs, hon⟩ := List.any_eq_true.mp h
  exact List.ne_nil_of_mem (List.mem_filter.mpr ⟨hs, hon⟩)

/-- The options that a command line shows are the given ones without the blanks around them,
and they are not empty. -/
theorem trimmedOptions?_eq_some_iff {options : String} :
    c.trimmedOptions? = some options ↔ Text.trim c.options = options ∧ options ≠ "" := by
  rw [trimmedOptions?]
  constructor
  · intro h
    split at h
    · exact absurd h (by simp)
    next hne =>
      obtain rfl := Option.some.inj h
      exact ⟨rfl, fun hempty => hne (by rw [hempty]; rfl)⟩
  · rintro ⟨rfl, hne⟩
    rw [if_neg fun hempty => hne (String.isEmpty_iff.mp hempty)]

/-- Options that a command line does not show are blank. -/
theorem trim_options_eq_empty (h : c.trimmedOptions? = none) : Text.trim c.options = "" := by
  rw [trimmedOptions?] at h
  split at h
  next hempty => exact String.isEmpty_iff.mp hempty
  next => exact absurd h (by simp)

/-! ### The pieces -/

/-- The pieces of the flags and their values. -/
def flagPieces (c : Configuration) : List Piece :=
  c.formatFlags.flatMap fun f => Piece.ofWord f.1 :: (f.2.map Piece.ofWord).toList

/-- The pieces of the command line of a configuration, with those of its options and of its
stages. -/
def linePieces (c : Configuration) (options stages : List Piece) : List Piece :=
  Piece.ofWord toolWord :: c.flagPieces ++ options ++
    stages.intersperse (Piece.ofWord connective) ++ (c.inputFile?.map Piece.ofWord).toList

/-- The pieces of the flags stand in the line as its words. -/
theorem map_text_flagPieces (c : Configuration) :
    c.flagPieces.map (·.text) =
      (c.formatFlags.flatMap fun f => f.1 :: (f.2.map Words.quote).toList).map
        String.toList := by
  rw [flagPieces, List.map_flatMap, List.map_flatMap]
  refine List.flatMap_congr fun f hf => ?_
  have hquote := quote_formatWords f.1 (fst_mem_formatWords hf)
  cases hv : f.2 <;> simp [Piece.ofWord, hquote]

/-- **The command line is the line of its pieces.** -/
theorem commandLine_toList {options stages : List Piece} (h : c.hasEnabledSteps = true)
    (hoptions : options.map (·.text) = c.trimmedOptions?.toList.map String.toList)
    (hstages : stages.map (·.text) =
      (c.enabledSteps.map fun s => Text.trim s.text).map String.toList) :
    c.commandLine.toList = lineOf (c.linePieces options stages) := by
  have htool : (Piece.ofWord toolWord).text = toolWord.toList := by decide
  have hconnective : (Piece.ofWord connective).text = connective.toList := by decide
  have hspace : " ".toList = [' '] := by decide
  have hpath : (c.inputFile?.map Piece.ofWord).toList.map (·.text) =
      (c.inputFile?.map Words.quote).toList.map String.toList := by
    cases c.inputFile? <;> rfl
  rw [commandLine, if_pos h, String.toList_intercalate, hspace, lineOf]
  congr 1
  simp only [commandWords, linePieces, List.map_append, List.map_cons, map_intersperse,
    map_text_flagPieces, hoptions, hstages, hpath, htool, hconnective]

/-- The pieces of the flags are finished. -/
theorem flagPieces_finished (hseparator : Text.OnlyCommonBlanks c.fieldSeparator) :
    ∀ p ∈ c.flagPieces, p.Finished := by
  intro p hp
  obtain ⟨f, hf, hp⟩ := List.mem_flatMap.mp hp
  rcases List.mem_cons.mp hp with rfl | hp
  · exact spells_quote (onlyCommonBlanks_formatWords f.1 (fst_mem_formatWords hf))
  · rcases mem_formatFlags hf with rfl | ⟨word, -, rfl⟩
    · obtain rfl := List.mem_singleton.mp hp
      exact spells_quote (onlyCommonBlanks_separator hseparator)
    · exact absurd hp List.not_mem_nil

/-- **The pieces make a line.** Where an input file follows the stages, the last stage must
be finished as well. -/
theorem line_linePieces {options stages : List Piece}
    (hseparator : Text.OnlyCommonBlanks c.fieldSeparator)
    (hpath : ∀ path ∈ c.inputFile?, Text.OnlyCommonBlanks path)
    (hoptions : ∀ p ∈ options, p.Finished) (hstages : Line stages)
    (hfile : c.inputFile? ≠ none → ∀ p ∈ stages, p.Finished) :
    Line (c.linePieces options stages) := by
  have htool : (Piece.ofWord toolWord).Finished := spells_quote (by decide)
  have hconnective : (Piece.ofWord connective).Finished := spells_quote (by decide)
  have hfront : ∀ p ∈ Piece.ofWord toolWord :: c.flagPieces ++ options, p.Finished := by
    intro p hp
    rcases List.mem_append.mp hp with hp | hp
    · rcases List.mem_cons.mp hp with rfl | hp
      · exact htool
      · exact flagPieces_finished hseparator p hp
    · exact hoptions p hp
  rw [linePieces, List.append_assoc]
  refine Line.append hfront ?_
  cases hc : c.inputFile? with
  | none => simpa using hstages.intersperse hconnective
  | some path =>
      have hpathPiece : (Piece.ofWord path).Finished := spells_quote (hpath path hc)
      refine Line.append ?_ (.last hpathPiece.tokens)
      intro p hp
      rcases mem_intersperse hp with rfl | hp
      · exact hconnective
      · exact hfile (by simp [hc]) p hp

end Configuration

end Pipewright
