import Mathlib.Data.List.Basic
import Pipewright.Command.Typed
import Pipewright.Proofs.Token.Word

/-!
# The Words of a Typed Command Line

A command line that is given as several words is put together from them, each quoted where
a command interpreter would need it, and read again. Quoting and reading do not have the
same blanks: the reading ends a token at every blank, while the quoting looks only for
spaces, tabs and line feeds. A word with another blank and nothing that calls for quotes, a
no-break space for one, comes apart, and a word of such blanks alone is lost.

This module says which words are heard for every word that was typed, and which words come
through whole.

## Main definitions

* `Words.stretches`: what the blanks of a text leave of it.
* `Words.heard`: the words that are read where one was typed.
* `Words.IsWhole`: the word is read as it was typed.

## Main results

* `exists_piece_quote`: a word, quoted where it needs it, reads as the words heard.
* `tokensOf_lineOfArguments`: a line of several words always has tokens, which are the
  words heard; they are the words themselves exactly when every word is whole.
-/

namespace Pipewright

namespace Words

/-- The stretches of a text between its blanks. -/
def stretches (cs : List Char) : List String :=
  ((cs.splitOnP Text.isBlank).filter (· ≠ [])).map String.ofList

/-- The words that are read where `word` was typed: the word itself if it is put between
quotes, else the stretches between its blanks. -/
def heard (word : String) : List String :=
  if needsQuotes word then [word] else stretches word.toList

/-- The word is read as it was typed: it is put between quotes, or it holds no blank. -/
def IsWhole (word : String) : Prop :=
  needsQuotes word = true ∨ ∀ c ∈ word.toList, Text.isBlank c = false

/-- Nothing is nothing between blanks. -/
@[simp] theorem stretches_nil : stretches [] = [] := rfl

/-- A text without blanks is one stretch. -/
theorem stretches_of_not_isBlank {cs : List Char} (hne : cs ≠ [])
    (h : ∀ c ∈ cs, Text.isBlank c = false) : stretches cs = [String.ofList cs] := by
  simp [stretches, List.splitOnP_eq_singleton h, hne]

/-- A blank ends a stretch. -/
theorem stretches_append_cons {front : List Char} {c : Char}
    (hfront : ∀ a ∈ front, Text.isBlank a = false) (hc : Text.isBlank c = true)
    (cs : List Char) : stretches (front ++ c :: cs) = stretches front ++ stretches cs := by
  rw [stretches, stretches, stretches, List.splitOnP_append_cons_of_forall_mem hfront c hc,
    List.splitOnP_eq_singleton hfront, ← List.singleton_append, List.filter_append,
    List.map_append]

/-- A whole word is the only one heard. -/
theorem IsWhole.heard_eq {word : String} (h : IsWhole word) : heard word = [word] := by
  rw [heard]
  split
  · rfl
  next hquotes =>
    have hne : word.toList ≠ [] := by
      intro hempty
      obtain rfl := String.toList_eq_nil_iff.mp hempty
      exact hquotes rfl
    rw [stretches_of_not_isBlank hne (h.resolve_left hquotes), String.ofList_toList]

/-- No piece between the blanks of a text holds a blank. -/
theorem not_isBlank_of_mem_splitOnP {cs piece : List Char}
    (h : piece ∈ cs.splitOnP Text.isBlank) : ∀ c ∈ piece, Text.isBlank c = false := by
  induction cs generalizing piece with
  | nil =>
      rw [List.splitOnP_nil, List.mem_singleton] at h
      simp [h]
  | cons a cs ih =>
      rw [List.splitOnP_cons_eq_if_modifyHead] at h
      split at h
      · rcases List.mem_cons.mp h with rfl | h
        · simp
        · exact ih h
      next hblank =>
        have hne : cs.splitOnP Text.isBlank ≠ [] := List.splitOnP_ne_nil _ _
        obtain ⟨first, others, hcut⟩ := List.exists_cons_of_ne_nil hne
        rw [hcut] at h ih
        rcases List.mem_cons.mp h with rfl | h
        · rintro c (_ | ⟨_, hc⟩)
          · simpa using hblank
          · exact ih List.mem_cons_self c hc
        · exact ih (List.mem_cons_of_mem first h)

/-- Every word that is heard is whole. -/
theorem isWhole_of_mem_heard {word piece : String} (h : piece ∈ heard word) :
    IsWhole piece := by
  rw [heard] at h
  split at h
  next hquotes =>
    obtain rfl := List.mem_singleton.mp h
    exact .inl hquotes
  next =>
    obtain ⟨cs, hcs, rfl⟩ := List.mem_map.mp h
    refine .inr fun c hc => ?_
    rw [String.toList_ofList] at hc
    exact not_isBlank_of_mem_splitOnP (List.mem_filter.mp hcs).1 c hc

/-- **The words heard are the words typed** exactly when all of them are whole. -/
theorem flatMap_heard_eq_iff (words : List String) :
    words.flatMap heard = words ↔ ∀ word ∈ words, IsWhole word := by
  constructor
  · intro h word hword
    rw [← h] at hword
    obtain ⟨typed, -, hheard⟩ := List.mem_flatMap.mp hword
    exact isWhole_of_mem_heard hheard
  · intro h
    calc
      words.flatMap heard = words.flatMap fun word => [word] :=
        List.flatMap_congr fun word hword => (h word hword).heard_eq
      _ = words := List.flatMap_singleton' words

end Words

/-! ### The reading of a word -/

/-- Ordinary characters read as one token, or as none when there are none of them. -/
theorem exists_spells_of_isOrdinary {cs : List Char} (h : ∀ c ∈ cs, IsOrdinary c) :
    ∃ ts, Spells cs ts ∧ ts.map (·.value) = Words.stretches cs := by
  by_cases hempty : cs = []
  · subst hempty
    exact ⟨[], .nil, rfl⟩
  · have hne : String.ofList cs ≠ "" := by
      simpa [← String.toList_inj] using hempty
    have hspells := @spells_ordinary (String.ofList cs) hne (by simpa using h)
    rw [String.toList_ofList] at hspells
    exact ⟨_, hspells, by
      rw [Words.stretches_of_not_isBlank hempty fun c hc => (h c hc).blank]
      rfl⟩

/-- **Text without quotes and backslashes reads as its stretches.** The induction is on the
text behind a stretch `front` that no blank has ended. -/
theorem exists_spells_stretches {front cs : List Char} (hfront : ∀ c ∈ front, IsOrdinary c)
    (h : ∀ c ∈ cs, Text.isBlank c = false → IsOrdinary c) :
    ∃ ts, Spells (front ++ cs) ts ∧ ts.map (·.value) = Words.stretches (front ++ cs) := by
  induction cs generalizing front with
  | nil => simpa using exists_spells_of_isOrdinary hfront
  | cons c cs ih =>
      have htail : ∀ a ∈ cs, Text.isBlank a = false → IsOrdinary a := fun a ha =>
        h a (List.mem_cons_of_mem c ha)
      cases hblank : Text.isBlank c with
      | true =>
          obtain ⟨ts, hts, hvalues⟩ := exists_spells_of_isOrdinary hfront
          obtain ⟨us, hus, hrest⟩ := ih (List.forall_mem_nil IsOrdinary) htail
          rw [List.nil_append] at hus hrest
          refine ⟨_, by simpa using hts.append_blank hblank hus, ?_⟩
          rw [Words.stretches_append_cons (fun a ha => (hfront a ha).blank) hblank, ← hvalues,
            ← hrest]
          simp [Function.comp_def]
      | false =>
          have hgrown : ∀ a ∈ front ++ [c], IsOrdinary a := by
            intro a ha
            rcases List.mem_append.mp ha with ha | ha
            · exact hfront a ha
            · obtain rfl := List.mem_singleton.mp ha
              exact h a List.mem_cons_self hblank
          simpa using ih hgrown htail

/-- **A word, quoted where it needs it, reads as the words heard.** -/
theorem exists_piece_quote (word : String) :
    ∃ p : Piece, p.Finished ∧ p.text = (Words.quote word).toList ∧
      p.tokens.map (·.value) = Words.heard word := by
  by_cases h : Words.needsQuotes word = true
  · exact ⟨⟨_, _⟩, spells_quoted h, rfl, by rw [Words.heard, if_pos h]; rfl⟩
  · have hself : Words.quote word = word := by rw [Words.quote, if_neg h]
    have hplain : Words.needsQuotes word = false := by simpa using h
    obtain ⟨ts, hts, hvalues⟩ := exists_spells_stretches (List.forall_mem_nil IsOrdinary)
      fun c (hc : c ∈ word.toList) hblank => isOrdinary_of_mem hplain hc hblank
    rw [List.nil_append] at hts hvalues
    exact ⟨⟨word.toList, ts⟩, hts, by rw [hself], by rw [hvalues, Words.heard, if_neg h]⟩

/-- Words, each quoted where it needs it, are finished pieces. -/
theorem exists_pieces_quote (words : List String) :
    ∃ ps : List Piece, (∀ p ∈ ps, p.Finished) ∧
      ps.map (·.text) = words.map (fun word => (Words.quote word).toList) ∧
      (ps.flatMap fun p => p.tokens.map (·.value)) = words.flatMap Words.heard := by
  induction words with
  | nil => exact ⟨[], by simp⟩
  | cons word words ih =>
      obtain ⟨p, hp, htext, hvalues⟩ := exists_piece_quote word
      obtain ⟨ps, hps, htexts, hheard⟩ := ih
      refine ⟨p :: ps, ?_, by simp [htext, htexts], by simp [hvalues, hheard]⟩
      exact List.forall_mem_cons.mpr ⟨hp, hps⟩

/-- **Several typed words are read as the words heard.** The line they make always has
tokens, and the values are the words heard for each word in turn; they are the given words,
in order and number, exactly when every word holds something to quote or no blank. -/
theorem tokensOf_lineOfArguments {words : List String} (h : 2 ≤ words.length) :
    ∃ ts, tokensOf (lineOfArguments words) = .ok ts ∧
      ts.map (·.value) = words.flatMap Words.heard ∧
      (ts.map (·.value) = words ↔ ∀ word ∈ words, Words.IsWhole word) := by
  obtain ⟨ps, hps, htexts, hvalues⟩ := exists_pieces_quote words
  have hne : ps ≠ [] := by
    rintro rfl
    rw [List.map_nil, eq_comm, List.map_eq_nil_iff] at htexts
    simp [htexts] at h
  have hline : (lineOfArguments words).toList = lineOf ps := by
    have hspace : " ".toList = [' '] := by decide
    have hjoin : lineOfArguments words = Words.join words := by
      rw [lineOfArguments]
      rintro line rfl
      simp at h
    rw [hjoin, Words.join, String.toList_intercalate, hspace, lineOf, htexts, List.map_map]
    rfl
  refine ⟨spread ps, ?_, ?_, ?_⟩
  · rw [tokensOf_eq, hline, (Line.of_finished hne hps).tokens]
  · rw [map_value_spread, hvalues]
  · rw [map_value_spread, hvalues, Words.flatMap_heard_eq_iff]

/-- An empty word and one with a quote in it come through, a word with a no-break space comes
apart. -/
theorem tokensOf_lineOfArguments_noBreak :
    2 ≤ ["mlr", "nest", "--evar", "", "a\u00a0b", "it's"].length ∧
    ∃ ts, tokensOf (lineOfArguments ["mlr", "nest", "--evar", "", "a\u00a0b", "it's"]) = .ok ts ∧
      ts.map (·.value) = ["mlr", "nest", "--evar", "", "a", "b", "it's"] := by
  have hlength : 2 ≤ ["mlr", "nest", "--evar", "", "a\u00a0b", "it's"].length := by decide
  obtain ⟨ts, hts, hvalues, -⟩ := tokensOf_lineOfArguments hlength
  have hheard : ["mlr", "nest", "--evar", "", "a\u00a0b", "it's"].flatMap Words.heard =
      ["mlr", "nest", "--evar", "", "a", "b", "it's"] := by decide +kernel
  exact ⟨hlength, ts, hts, hvalues.trans hheard⟩

/-- A file name with a no-break space in it comes apart: the line has tokens, but not the
words that were typed. -/
theorem lineOfArguments_divides_fileName :
    ¬ ∃ ts, tokensOf (lineOfArguments ["mlr", "--icsv", "cat", "my\u00a0data.csv"]) = .ok ts ∧
      ts.map (·.value) = ["mlr", "--icsv", "cat", "my\u00a0data.csv"] := by
  have hread : (tokensOf (lineOfArguments ["mlr", "--icsv", "cat", "my\u00a0data.csv"])).map
      (List.map (·.value)) = .ok ["mlr", "--icsv", "cat", "my", "data.csv"] := by
    decide +kernel
  rintro ⟨ts, hts, hvalues⟩
  rw [hts, Except.map, hvalues] at hread
  exact absurd hread (by decide)

end Pipewright
