import Pipewright.Proofs.Token.Word
import Pipewright.Words.Split

/-!
# Tokens and Words for Execution

Two machines read the words of a text: the one that reads the tokens of a command line
and the one that splits a step or the options for execution. They differ in what they
take for a blank and in comments. On a text without `#` whose blanks are spaces, tabs and
line feeds they agree: one fails when the other does, and the words are the values of the
tokens.

The two run in lockstep. `Draft.Matches` pairs the states of the two machines, `Agrees`
adds the finished words, and one character keeps the pairing.

## Main results

* `Agrees.step`, `agrees_run`: one step, and a run, of both machines.
* `split?_eq_tokensOf`: the words of a text are the values of its tokens.
* `split?_eq_some_iff_tokensOf`: the same as an equivalence, on success of either machine.
-/

namespace Pipewright

open Words

/-- The draft of the one machine stands where the other machine does, which has `word`
under construction. Between quotes there is always something of a word. -/
inductive Draft.Matches : Option Draft → String → Stand → Prop
  | between : Matches none "" .between
  | joined {start : Nat} {raw : String} {quoted : Bool} :
      Matches (some ⟨start, raw, "", quoted, false, .plain⟩) "" .between
  | leadingEscape {start : Nat} {raw : String} {quoted : Bool} :
      Matches (some ⟨start, raw, "", quoted, false, .escaped⟩) "" .leadingEscape
  | plain {start : Nat} {raw word : String} {quoted : Bool} :
      Matches (some ⟨start, raw, word, quoted, true, .plain⟩) word .plain
  | escape {start : Nat} {raw word : String} {quoted : Bool} :
      Matches (some ⟨start, raw, word, quoted, true, .escaped⟩) word .escape
  | single {start opener : Nat} {raw word : String} {quoted : Bool} :
      Matches (some ⟨start, raw, word, quoted, true, .single opener⟩) word .single
  | double {start opener : Nat} {raw word : String} {quoted : Bool} :
      Matches (some ⟨start, raw, word, quoted, true, .double opener⟩) word .double
  | doubleEscape {start opener : Nat} {raw word : String} {quoted : Bool} :
      Matches (some ⟨start, raw, word, quoted, true, .doubleEscaped opener⟩) word .doubleEscape

/-- The two machines agree: they have the same finished words and stand at the same place. -/
structure Agrees (s : Scanner) (p : Splitter) : Prop where
  /-- The finished words are the values of the finished tokens. -/
  words : p.words = s.tokens.map (·.value)
  /-- The words under construction match. -/
  matching : Draft.Matches s.draft p.word p.stand

/-- In front of a text the two machines agree. -/
theorem agrees_init : Agrees Scanner.init Splitter.init :=
  ⟨by simp [Scanner.init, Splitter.init], .between⟩

/-- The characters that a backslash escapes between double quotes are the same. -/
theorem isDoubleEscapable_eq (c : Char) :
    Splitter.isDoubleEscapable c = Draft.isDoubleEscapable c := by
  rw [Splitter.isDoubleEscapable, Draft.isDoubleEscapable]
  ac_rfl

/-- Neither machine treats the character in a way of its own: it starts no comment, and it is
a blank to both or to none. -/
structure IsCommon (c : Char) : Prop where
  /-- The character starts no comment. -/
  comment : c ≠ '#'
  /-- The character is a blank to both machines or to none. -/
  gap : Splitter.isGap c = Text.isBlank c

/-- The blanks of the splitting are blanks. -/
theorem isCommon_of {c : Char} (hcomment : c ≠ '#')
    (hblank : Text.isBlank c = true → c = ' ' ∨ c = '\t' ∨ c = '\n') : IsCommon c := by
  refine ⟨hcomment, ?_⟩
  cases hc : Text.isBlank c with
  | true =>
      rcases hblank hc with rfl | rfl | rfl <;> decide
  | false =>
      rw [Bool.eq_false_iff]
      intro hgap
      simp only [Splitter.isGap, Bool.or_eq_true, beq_iff_eq] at hgap
      rcases hgap with (rfl | rfl) | rfl <;> exact absurd hc (by decide)

/-- Outside quotes a character opens a quote, escapes, ends a word or goes into it. -/
theorem outside_cases (c : Char) :
    c = '\'' ∨ c = '"' ∨ c = '\\' ∨ Text.isBlank c = true ∨ IsOrdinary c := by
  by_cases hsingle : c = '\''
  · exact .inl hsingle
  by_cases hdouble : c = '"'
  · exact .inr (.inl hdouble)
  by_cases hbackslash : c = '\\'
  · exact .inr (.inr (.inl hbackslash))
  by_cases hblank : Text.isBlank c = true
  · exact .inr (.inr (.inr (.inl hblank)))
  exact .inr (.inr (.inr (.inr ⟨by simpa using hblank, hsingle, hdouble, hbackslash⟩)))

/-- A blank is neither a quote nor a backslash. -/
theorem ne_of_isBlank {c : Char} (h : Text.isBlank c = true) :
    c ≠ '\'' ∧ c ≠ '"' ∧ c ≠ '\\' := by
  refine ⟨?_, ?_, ?_⟩ <;> rintro rfl <;> exact absurd h (by decide)

/-- **One step keeps the agreement.** -/
theorem Agrees.step {s : Scanner} {p : Splitter} {c : Char} (h : Agrees s p)
    (hc : IsCommon c) : Agrees (s.step c) (p.step c) := by
  obtain ⟨offset, tokens, draft⟩ := s
  obtain ⟨words, word, stand⟩ := p
  obtain ⟨hwords, hmatch⟩ := h
  simp only at hwords hmatch
  have hgap := hc.gap
  cases hmatch with
  | between =>
      rcases outside_cases c with rfl | rfl | rfl | hblank | hord
      · exact ⟨hwords, .single⟩
      · exact ⟨hwords, .double⟩
      · exact ⟨hwords, .leadingEscape⟩
      · obtain ⟨hsingle, hdouble, hbackslash⟩ := ne_of_isBlank hblank
        simp only [Scanner.step, Splitter.step, hblank, hgap, hsingle, hdouble, hbackslash,
          if_true, beq_iff_eq, if_false]
        exact ⟨hwords, .between⟩
      · simp only [hord.step_between, Splitter.step, hord.single, hord.double, hord.backslash,
          hgap, hord.blank, hc.comment, beq_iff_eq, if_false, Bool.false_eq_true]
        exact ⟨hwords, .plain⟩
  | joined =>
      rcases outside_cases c with rfl | rfl | rfl | hblank | hord
      · exact ⟨hwords, .single⟩
      · exact ⟨hwords, .double⟩
      · exact ⟨hwords, .leadingEscape⟩
      · obtain ⟨hsingle, hdouble, hbackslash⟩ := ne_of_isBlank hblank
        simp only [Scanner.step, Splitter.step, hblank, hgap, hsingle, hdouble, hbackslash,
          if_true, beq_iff_eq, if_false, beq_self_eq_true, Bool.and_self]
        exact ⟨hwords, .between⟩
      · simp only [hord.step, Splitter.step, hord.single, hord.double, hord.backslash,
          hgap, hord.blank, hc.comment, beq_iff_eq, if_false, Bool.false_eq_true]
        exact ⟨hwords, .plain⟩
  | plain =>
      rcases outside_cases c with rfl | rfl | rfl | hblank | hord
      · exact ⟨hwords, .single⟩
      · exact ⟨hwords, .double⟩
      · exact ⟨hwords, .escape⟩
      · obtain ⟨hsingle, hdouble, hbackslash⟩ := ne_of_isBlank hblank
        simp only [Scanner.step, Splitter.step, hblank, hgap, hsingle, hdouble, hbackslash,
          if_true, beq_iff_eq, if_false, beq_self_eq_true, Bool.and_self]
        exact ⟨by simp [hwords, Splitter.close, Scanner.close, Draft.close?], .between⟩
      · simp only [hord.step, Splitter.step, hord.single, hord.double, hord.backslash,
          hgap, hord.blank, beq_iff_eq, if_false, Bool.false_eq_true]
        exact ⟨hwords, .plain⟩
  | leadingEscape =>
      by_cases hline : c = '\n'
      · subst hline
        exact ⟨hwords, .joined⟩
      · simp only [Scanner.step, Splitter.step, Draft.feed, hline, beq_iff_eq, if_false]
        exact ⟨hwords, .plain⟩
  | escape =>
      by_cases hline : c = '\n'
      · subst hline
        exact ⟨hwords, .plain⟩
      · simp only [Scanner.step, Splitter.step, Draft.feed, hline, beq_iff_eq, if_false]
        exact ⟨hwords, .plain⟩
  | single =>
      by_cases hquote : c = '\''
      · subst hquote
        exact ⟨hwords, .plain⟩
      · simp only [Scanner.step, Splitter.step, Draft.feed, hquote, beq_iff_eq, if_false]
        exact ⟨hwords, .single⟩
  | double =>
      by_cases hquote : c = '"'
      · subst hquote
        exact ⟨hwords, .plain⟩
      by_cases hbackslash : c = '\\'
      · subst hbackslash
        exact ⟨hwords, .doubleEscape⟩
      · simp only [Scanner.step, Splitter.step, Draft.feed, hquote, hbackslash, beq_iff_eq,
          if_false]
        exact ⟨hwords, .double⟩
  | doubleEscape =>
      by_cases hline : c = '\n'
      · subst hline
        exact ⟨hwords, .double⟩
      by_cases hescapable : Draft.isDoubleEscapable c = true
      · simp only [Scanner.step, Splitter.step, Draft.feed, isDoubleEscapable_eq, hline,
          hescapable, beq_iff_eq, if_false, if_true]
        exact ⟨hwords, .double⟩
      · simp only [Scanner.step, Splitter.step, Draft.feed, isDoubleEscapable_eq, hline,
          hescapable, beq_iff_eq, if_false]
        exact ⟨hwords, .double⟩

/-- **A run keeps the agreement.** -/
theorem agrees_run {s : Scanner} {p : Splitter} {cs : List Char} (h : Agrees s p)
    (hcs : ∀ c ∈ cs, IsCommon c) : Agrees (s.run cs) (cs.foldl Splitter.step p) := by
  induction cs generalizing s p with
  | nil => exact h
  | cons c cs ih =>
      exact ih (h.step (hcs c List.mem_cons_self)) fun a ha => hcs a (List.mem_cons_of_mem c ha)

/-- Machines that agree come to the same end. -/
theorem Agrees.finish {s : Scanner} {p : Splitter} (h : Agrees s p) :
    p.finish = s.finish.toOption.map (List.map (·.value)) := by
  obtain ⟨offset, tokens, draft⟩ := s
  obtain ⟨words, word, stand⟩ := p
  obtain ⟨hwords, hmatch⟩ := h
  simp only at hwords hmatch
  subst hwords
  cases hmatch <;>
    simp [Splitter.finish, Splitter.close, Splitter.keep, Scanner.finish, Scanner.close,
      Draft.close?, Draft.keep, Except.toOption]

/-- **The words of a text are the values of its tokens**, and there are none when the text
has no tokens: on texts without `#` whose blanks are spaces, tabs and line feeds. -/
theorem split?_eq_tokensOf {text : String} (hcomment : '#' ∉ text.toList)
    (hblanks : Text.OnlyCommonBlanks text) :
    split? text = (tokensOf text).toOption.map (List.map (·.value)) := by
  have hcommon : ∀ c ∈ text.toList, IsCommon c := fun c hc =>
    isCommon_of (fun h => hcomment (h ▸ hc)) (hblanks c hc)
  exact (agrees_run agrees_init hcommon).finish

/-- **The two machines agree on every text without `#` whose blanks are spaces, tabs and line
feeds**: the text splits into words exactly when it has tokens, and the words are then the
values of the tokens, in order. -/
theorem split?_eq_some_iff_tokensOf {text : String} (hcomment : '#' ∉ text.toList)
    (hblanks : Text.OnlyCommonBlanks text) :
    ((∃ words, split? text = some words) ↔ ∃ ts, tokensOf text = .ok ts) ∧
      ∀ words ts, split? text = some words → tokensOf text = .ok ts →
        words = ts.map (·.value) := by
  rw [split?_eq_tokensOf hcomment hblanks]
  cases tokensOf text with
  | error e => simp [Except.toOption]
  | ok us =>
      refine ⟨⟨fun _ => ⟨us, rfl⟩, fun _ => ⟨_, rfl⟩⟩, ?_⟩
      rintro words ts hwords hts
      obtain rfl := Except.ok.inj hts
      exact (Option.some.inj hwords).symm

/-- Lines joined inside a word and in front of one, both kinds of quotes, an empty word, a
backslash that double quotes keep and one that ends the text. -/
theorem split?_eq_some_iff_tokensOf_joined :
    '#' ∉ "so\\\nrt \\\n -f '' \"a\\n\"'b c'\t\\".toList ∧
    Text.OnlyCommonBlanks "so\\\nrt \\\n -f '' \"a\\n\"'b c'\t\\" ∧
    ((∃ words, split? "so\\\nrt \\\n -f '' \"a\\n\"'b c'\t\\" = some words) ↔
      ∃ ts, tokensOf "so\\\nrt \\\n -f '' \"a\\n\"'b c'\t\\" = .ok ts) ∧
    split? "so\\\nrt \\\n -f '' \"a\\n\"'b c'\t\\" =
      some ["sort", "-f", "", "a\\nb c", "\\"] :=
  have hcomment : '#' ∉ "so\\\nrt \\\n -f '' \"a\\n\"'b c'\t\\".toList := by decide +kernel
  have hblanks : Text.OnlyCommonBlanks "so\\\nrt \\\n -f '' \"a\\n\"'b c'\t\\" := by
    decide +kernel
  ⟨hcomment, hblanks, (split?_eq_some_iff_tokensOf hcomment hblanks).1, by decide +kernel⟩

end Pipewright
