import Pipewright.Command.Arguments
import Pipewright.Proofs.Command.Layout
import Pipewright.Proofs.Outcome
import Pipewright.Proofs.Token.Splitting

/-!
# The Command Line and the Arguments of an Execution

A configuration is shown as a command line and executed as a list of arguments. The two
come about in different ways: the line is put together as text, with separator and path
quoted, and the arguments are split off the options and each step on their own. This
module shows that the words of the line are the arguments, so that what is shown is what
is executed.

## Main results

* `Configuration.values_linePieces`: the values of the tokens of a command line, by its
  pieces.
* `Configuration.tokens_commandLine_of_arguments`: the values of the tokens of the command
  line are the tool, the arguments and the input file.
-/

namespace Pipewright

/-- The text reads the same as part of a command line and for execution: it holds no `#`,
its blanks are spaces, tabs and line feeds, and no backslash ends it. -/
structure IsPortable (text : String) : Prop where
  /-- Nothing starts a comment. -/
  comment : '#' ∉ text.toList
  /-- The blanks are those of the splitting. -/
  blanks : Text.OnlyCommonBlanks text
  /-- No backslash waits for what follows the text. -/
  backslash : text.toList.getLast? ≠ some '\\'

/-- Whether a text is portable can be decided. -/
instance : DecidablePred IsPortable := fun text =>
  decidable_of_iff
    ('#' ∉ text.toList ∧ Text.OnlyCommonBlanks text ∧ text.toList.getLast? ≠ some '\\')
    ⟨fun h => ⟨h.1, h.2.1, h.2.2⟩, fun h => ⟨h.comment, h.blanks, h.backslash⟩⟩

/-- A portable text that can be split makes a finished piece, and the words are the values
of its tokens. -/
theorem IsPortable.exists_piece {text : String} (h : IsPortable text) {words : List String}
    (hwords : Words.split? text = some words) :
    ∃ p : Piece, p.Finished ∧ p.text = text.toList ∧ p.tokens.map (·.value) = words := by
  rw [split?_eq_tokensOf h.comment h.blanks] at hwords
  obtain ⟨ts, hts, rfl⟩ := Option.map_eq_some_iff.mp hwords
  have hread : readTokens text.toList = .ok ts := by
    rw [← tokensOf_eq]
    cases htokens : tokensOf text with
    | error e => simp [htokens, Except.toOption] at hts
    | ok us => simpa [htokens, Except.toOption] using hts
  exact ⟨⟨text.toList, ts⟩, .of_getLast_ne hread h.backslash, rfl, rfl⟩

/-- Portable texts that can be split make finished pieces. -/
theorem exists_pieces {part : SplitPart} {texts : List String} {wordss : List (List String)}
    (hwords : texts.mapM part.words = .ok wordss) (h : ∀ text ∈ texts, IsPortable text) :
    ∃ ps : List Piece, (∀ p ∈ ps, p.Finished) ∧ ps.map (·.text) = texts.map String.toList ∧
      ps.map (fun p => p.tokens.map (·.value)) = wordss := by
  rw [mapM_eq_ok_iff] at hwords
  induction hwords with
  | nil => exact ⟨[], by simp⟩
  | @cons text words texts wordss hsplit _ ih =>
      obtain ⟨ps, hps, htexts, hvalues⟩ := ih fun t ht => h t (List.mem_cons_of_mem text ht)
      have hsplit' : Words.split? text = some words := by
        rw [SplitPart.words] at hsplit
        split at hsplit <;> simp_all
      obtain ⟨p, hp, htext, hvalue⟩ := (h text List.mem_cons_self).exists_piece hsplit'
      refine ⟨p :: ps, ?_, by simp [htext, htexts], by simp [hvalue, hvalues]⟩
      intro q hq
      rcases List.mem_cons.mp hq with rfl | hq
      · exact hp
      · exact hps q hq

namespace Configuration

/-- The values of the tokens of the flags are the flags and their values. -/
theorem values_flagPieces (c : Configuration) :
    (c.flagPieces.flatMap fun p => p.tokens.map (·.value)) =
      c.formatFlags.flatMap fun f => f.1 :: f.2.toList := by
  rw [flagPieces, List.flatMap_assoc]
  refine List.flatMap_congr fun f _ => ?_
  cases f.2 <;> rfl

/-- The values of the tokens in a pipeline are those of its stages, with the connective
between them. -/
theorem values_intersperse (stages : List Piece) :
    ((stages.intersperse (Piece.ofWord connective)).flatMap fun p => p.tokens.map (·.value)) =
      ((stages.map fun p => p.tokens.map (·.value)).intersperse [connective]).flatten := by
  rw [List.flatMap_def, map_intersperse]
  rfl

/-- The values of the tokens of a command line are the tool, the flags with their values, the
words of the options and of the stages, and the input file. -/
theorem values_linePieces (c : Configuration) (options stages : List Piece) :
    (spread (c.linePieces options stages)).map (·.value) =
      toolWord :: ((c.formatFlags.flatMap fun f => f.1 :: f.2.toList) ++
        (options.map fun p => p.tokens.map (·.value)).flatten ++
        ((stages.map fun p => p.tokens.map (·.value)).intersperse [connective]).flatten ++
        c.inputFile?.toList) := by
  have htool : ((Piece.ofWord toolWord).tokens.map (·.value)) = [toolWord] := rfl
  have hfile : ((c.inputFile?.map Piece.ofWord).toList.flatMap fun p =>
      p.tokens.map (·.value)) = c.inputFile?.toList := by
    cases c.inputFile? <;> rfl
  rw [map_value_spread, linePieces, List.flatMap_append, List.flatMap_append,
    List.flatMap_append, List.flatMap_cons, htool, values_flagPieces, values_intersperse, hfile]
  simp [List.flatMap_def]

/-- **What is shown is what is executed.** Whenever the arguments of a configuration with
an enabled step exist, its command line has tokens, and their values are the tool, the
arguments and the input file: on options and steps that read the same both ways, the steps
without blanks at their ends, and a separator and a path whose blanks are common ones. -/
theorem tokens_commandLine_of_arguments {c : Configuration} {args : List String}
    (henabled : c.hasEnabledSteps = true)
    (hsteps : ∀ s ∈ c.enabledSteps, Text.Trimmed s.text.toList ∧ IsPortable s.text)
    (hoptions : IsPortable (Text.trim c.options))
    (hseparator : Text.OnlyCommonBlanks c.fieldSeparator)
    (hpath : Text.OnlyCommonBlanks c.inputPath) (hargs : c.arguments = .ok args) :
    ∃ ts, tokensOf c.commandLine = .ok ts ∧
      ts.map (·.value) = toolWord :: args ++ c.inputFile?.toList := by
  rw [arguments, bind_eq_ok_iff] at hargs
  obtain ⟨optionWords, hoptionWords, hargs⟩ := hargs
  obtain ⟨stepWords, hstepWords, hargs⟩ := bind_eq_ok_iff.mp hargs
  obtain rfl := Except.ok.inj hargs
  -- the options and the steps as finished pieces
  have hportableOptions : ∀ text ∈ c.trimmedOptions?.toList, IsPortable text := by
    intro text htext
    obtain ⟨rfl, -⟩ := trimmedOptions?_eq_some_iff.mp (Option.mem_toList.mp htext)
    exact hoptions
  have hportableSteps : ∀ text ∈ c.enabledSteps.map (·.text), IsPortable text := by
    intro text htext
    obtain ⟨s, hs, rfl⟩ := List.mem_map.mp htext
    exact (hsteps s hs).2
  have hstepTexts : (c.enabledSteps.map (·.text)).mapM (SplitPart.words .step) = .ok stepWords := by
    rw [List.mapM_map]
    exact hstepWords
  obtain ⟨options, hoptionsFinished, hoptionTexts, rfl⟩ :=
    exists_pieces hoptionWords hportableOptions
  obtain ⟨stages, hstagesFinished, hstageTexts, rfl⟩ := exists_pieces hstepTexts hportableSteps
  -- the command line as a line of pieces
  have htrimmed : (c.enabledSteps.map fun s => Text.trim s.text) = c.enabledSteps.map (·.text) :=
    List.map_congr_left fun s hs => (hsteps s hs).1.trim_eq
  have hne : stages ≠ [] := by
    rintro rfl
    rw [List.map_nil, List.map_map, eq_comm, List.map_eq_nil_iff] at hstageTexts
    exact enabledSteps_ne_nil henabled hstageTexts
  have hline : Line (c.linePieces options stages) := by
    refine line_linePieces hseparator ?_ hoptionsFinished (.of_finished hne hstagesFinished)
      fun _ => hstagesFinished
    exact fun path hfile => eq_inputPath_of_inputFile? hfile ▸ hpath
  refine ⟨spread (c.linePieces options stages), ?_, ?_⟩
  · rw [tokensOf_eq, commandLine_toList henabled hoptionTexts (by rw [hstageTexts, htrimmed]),
      hline.tokens]
  · rw [values_linePieces]
    rfl

/-- The words of a command line with quotes in the options, in a step, around the separator
and around the path, and with a step that is switched off. -/
theorem tokens_commandLine_quoted :
    ∃ ts, tokensOf (commandLine
        { inputPath := "/tmp/my data.csv", inputMode := .file, inputFormat := .csv,
          fieldSeparator := ";", outputFormat := .json, options := " --ofs '; ' ",
          steps := [⟨"filter '$SKU == \"X\"'", true⟩, ⟨"cat", false⟩, ⟨"head -n 5", true⟩] }) =
        .ok ts ∧
      ts.map (·.value) =
        toolWord :: ["--icsv", "--ifs", ";", "--ojson", "--ofs", "; ", "filter",
          "$SKU == \"X\"", "then", "head", "-n", "5"] ++ ["/tmp/my data.csv"] :=
  tokens_commandLine_of_arguments (by decide) (by decide +kernel) (by decide +kernel)
    (by decide +kernel) (by decide +kernel) (by decide +kernel)

end Configuration

end Pipewright
