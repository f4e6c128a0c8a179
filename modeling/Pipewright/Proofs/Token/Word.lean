import Pipewright.Proofs.Token.Scan
import Pipewright.Words.Quote

/-!
# Words and Lines of Words

A word that is quoted where it needs it reads as one token with that word as its value.
The tool, the flags and the connective are such words, and they need no quotes. A line of
finished pieces with one blank between neighbours reads as the tokens of the pieces, each
piece as far on as the line in front of it is long.

## Main results

* `spells_quote`: a quoted word reads as itself, if its blanks are spaces, tabs and line
  feeds.
* `Line.tokens`: the tokens of a line of pieces.
-/

namespace Pipewright

/-- All blanks of the text are spaces, tabs or line feeds. -/
def Text.OnlyCommonBlanks (s : String) : Prop :=
  ∀ c ∈ s.toList, isBlank c = true → c = ' ' ∨ c = '\t' ∨ c = '\n'

/-- Whether all blanks are common ones can be decided. -/
instance : DecidablePred Text.OnlyCommonBlanks := fun s =>
  List.decidableBAll (fun c => Text.isBlank c = true → c = ' ' ∨ c = '\t' ∨ c = '\n') s.toList

/-- The token that a word reads as, quoted where it needs it, at the front of a text. -/
def Token.ofWord (word : String) : Token :=
  ⟨Words.quote word, word, 0, Text.byteLength (Words.quote word).toList,
    Words.needsQuotes word⟩

/-! ### Words that stand for themselves -/

/-- The character has no meaning of its own to the reading of tokens. -/
structure IsOrdinary (c : Char) : Prop where
  /-- It ends no token. -/
  blank : Text.isBlank c = false
  /-- It opens no single quote. -/
  single : c ≠ '\''
  /-- It opens no double quote. -/
  double : c ≠ '"'
  /-- It escapes nothing. -/
  backslash : c ≠ '\\'

/-- A character and more characters behind a text. -/
theorem push_append_ofList (s : String) (c : Char) (cs : List Char) :
    s.push c ++ String.ofList cs = s ++ String.ofList (c :: cs) := by
  rw [← String.toList_inj, String.toList_append, String.toList_push, String.toList_append,
    String.toList_ofList, String.toList_ofList, List.append_assoc, List.singleton_append]

/-- Outside quotes an ordinary character goes into the raw text and into the value. -/
theorem IsOrdinary.step {c : Char} (h : IsOrdinary c) (offset start : Nat)
    (tokens : Array Token) (raw value : String) (quoted meaningful : Bool) :
    Scanner.step ⟨offset, tokens, some ⟨start, raw, value, quoted, meaningful, .plain⟩⟩ c =
      ⟨offset + c.utf8Size, tokens,
        some ⟨start, raw.push c, value.push c, quoted, true, .plain⟩⟩ := by
  simp [Scanner.step, Draft.feed, Draft.keep, h.blank, h.single, h.double, h.backslash]

/-- Between tokens an ordinary character starts a token. -/
theorem IsOrdinary.step_between {c : Char} (h : IsOrdinary c) (offset : Nat)
    (tokens : Array Token) :
    Scanner.step ⟨offset, tokens, none⟩ c =
      ⟨offset + c.utf8Size, tokens,
        some ⟨offset, "".push c, "".push c, false, true, .plain⟩⟩ := by
  simp [Scanner.step, Draft.feed, Draft.keep, Draft.empty, h.blank, h.single, h.double,
    h.backslash]

/-- Inside a token the machine takes ordinary characters as they are. -/
theorem run_ordinary {cs : List Char} (h : ∀ c ∈ cs, IsOrdinary c) (offset start : Nat)
    (tokens : Array Token) (raw value : String) (quoted : Bool) :
    Scanner.run ⟨offset, tokens, some ⟨start, raw, value, quoted, true, .plain⟩⟩ cs =
      ⟨offset + Text.byteLength cs, tokens,
        some ⟨start, raw ++ .ofList cs, value ++ .ofList cs, quoted, true, .plain⟩⟩ := by
  induction cs generalizing offset raw value with
  | nil => simp [Scanner.run]
  | cons c cs ih =>
      have hc := h c List.mem_cons_self
      have htail : ∀ a ∈ cs, IsOrdinary a := fun a ha => h a (List.mem_cons_of_mem c ha)
      rw [Scanner.run_cons, hc.step, ih htail, push_append_ofList,
        push_append_ofList, Text.byteLength_cons, Nat.add_assoc]

/-- A word of ordinary characters reads as itself. -/
theorem spells_ordinary {word : String} (hne : word ≠ "")
    (h : ∀ c ∈ word.toList, IsOrdinary c) :
    Spells word.toList [⟨word, word, 0, Text.byteLength word.toList, false⟩] := by
  have hrun : Scanner.init.run word.toList =
      ⟨Text.byteLength word.toList, #[], some ⟨0, word, word, false, true, .plain⟩⟩ := by
    obtain ⟨c, cs, hcs⟩ := List.exists_cons_of_ne_nil (mt String.toList_eq_nil_iff.mp hne)
    rw [hcs] at h
    have hc := h c List.mem_cons_self
    have htail : ∀ a ∈ cs, IsOrdinary a := fun a ha => h a (List.mem_cons_of_mem c ha)
    have hword : "".push c ++ .ofList cs = word := by
      rw [push_append_ofList, ← hcs, String.ofList_toList, String.empty_append]
    rw [hcs, Scanner.run_cons, Scanner.init, hc.step_between, run_ordinary htail, hword,
      Nat.zero_add, Text.byteLength_cons]
  refine ⟨?_, ?_⟩
  · rw [hrun]
    intro d hd
    obtain rfl := Option.some.inj hd
    rfl
  · rw [readTokens, hrun]
    rfl

/-! ### Quoted words -/

/-- Between single quotes the machine takes every character but the single quote. -/
theorem step_single {c : Char} (hc : c ≠ '\'') (offset start opener : Nat)
    (tokens : Array Token) (raw value : String) :
    Scanner.step ⟨offset, tokens, some ⟨start, raw, value, true, true, .single opener⟩⟩ c =
      ⟨offset + c.utf8Size, tokens,
        some ⟨start, raw.push c, value.push c, true, true, .single opener⟩⟩ := by
  simp [Scanner.step, Draft.feed, Draft.keep, hc]

/-- A single quote is written by leaving the quotes, escaping it and opening them again. -/
theorem run_escapedQuote (offset start opener : Nat) (tokens : Array Token)
    (raw value : String) :
    Scanner.run ⟨offset, tokens, some ⟨start, raw, value, true, true, .single opener⟩⟩
        ['\'', '\\', '\'', '\''] =
      ⟨offset + 4, tokens, some ⟨start, (((raw.push '\'').push '\\').push '\'').push '\'',
        value.push '\'', true, true, .single (offset + 3)⟩⟩ := by
  have hquote : Text.isBlank '\'' = false := by decide
  have hbackslash : Text.isBlank '\\' = false := by decide
  have hq : Char.utf8Size '\'' = 1 := by decide
  have hb : Char.utf8Size '\\' = 1 := by decide
  simp [Scanner.run, Scanner.step, Draft.feed, Draft.keep, hquote, hbackslash, hq, hb]

/-- **The inside of a quoted word.** Between single quotes the machine takes every character
of a word, with a detour for each single quote. -/
theorem run_quoteChars (cs : List Char) (offset start opener : Nat) (tokens : Array Token)
    (raw value : String) :
    ∃ opener', Scanner.run
        ⟨offset, tokens, some ⟨start, raw, value, true, true, .single opener⟩⟩
        (cs.flatMap Words.quoteChar) =
      ⟨offset + Text.byteLength (cs.flatMap Words.quoteChar), tokens,
        some ⟨start, raw ++ .ofList (cs.flatMap Words.quoteChar), value ++ .ofList cs, true,
          true, .single opener'⟩⟩ := by
  induction cs generalizing offset opener raw value with
  | nil => exact ⟨opener, by simp [Scanner.run]⟩
  | cons c cs ih =>
      rw [List.flatMap_cons, Scanner.run_append]
      by_cases hc : c = '\''
      · subst hc
        have hself : Words.quoteChar '\'' = ['\'', '\\', '\'', '\''] := rfl
        obtain ⟨opener', hrun⟩ := ih (offset + 4) (offset + 3)
          ((((raw.push '\'').push '\\').push '\'').push '\'') (value.push '\'')
        refine ⟨opener', ?_⟩
        have hlength : Text.byteLength ['\'', '\\', '\'', '\''] = 4 := by decide
        rw [hself, run_escapedQuote, hrun, Text.byteLength_append, hlength, Nat.add_assoc]
        simp only [push_append_ofList, List.cons_append, List.nil_append]
      · have hself : Words.quoteChar c = [c] := by simp [Words.quoteChar, hc]
        obtain ⟨opener', hrun⟩ := ih (offset + c.utf8Size) opener (raw.push c) (value.push c)
        refine ⟨opener', ?_⟩
        rw [hself, Scanner.run_cons, Scanner.run_nil, step_single hc, hrun]
        simp only [push_append_ofList, List.singleton_append, Text.byteLength_cons,
          Nat.add_assoc]

/-- A word that needs quotes reads as itself between them. -/
theorem spells_quoted {word : String} (h : Words.needsQuotes word = true) :
    Spells (Words.quote word).toList [Token.ofWord word] := by
  have htext : (Words.quote word).toList =
      '\'' :: (word.toList.flatMap Words.quoteChar ++ ['\'']) := by
    simp [Words.quote, h]
  have hrun : Scanner.init.run (Words.quote word).toList =
      ⟨Text.byteLength (Words.quote word).toList, #[],
        some ⟨0, Words.quote word, word, true, true, .plain⟩⟩ := by
    have hopen : Scanner.init.step '\'' =
        ⟨1, #[], some ⟨0, "'", "", true, true, .single 0⟩⟩ := by decide
    obtain ⟨opener, hinside⟩ := run_quoteChars word.toList 1 0 0 #[] "'" ""
    have hraw : ("'" ++ String.ofList (word.toList.flatMap Words.quoteChar)).push '\'' =
        Words.quote word := by
      rw [← String.toList_inj, htext, String.toList_push, String.toList_append,
        String.toList_ofList]
      simp
    have hclose : Char.utf8Size '\'' = 1 := by decide
    rw [htext, Scanner.run_cons, hopen, Scanner.run_append, hinside, Scanner.run_cons,
      Scanner.run_nil]
    simp only [Scanner.step, Draft.feed, hraw]
    simp [hclose, String.ofList_toList, Nat.add_assoc]
  refine ⟨?_, ?_⟩
  · rw [hrun]
    intro d hd
    obtain rfl := Option.some.inj hd
    rfl
  · rw [readTokens, hrun, Token.ofWord, h]
    rfl

/-- The characters of a word that needs no quotes are ordinary, blanks apart. -/
theorem isOrdinary_of_mem {word : String} (h : Words.needsQuotes word = false) {c : Char}
    (hc : c ∈ word.toList) (hblank : Text.isBlank c = false) : IsOrdinary c := by
  have hspecial : Words.isSpecial c = false := by
    have hany : word.toList.any Words.isSpecial = false := by
      simp only [Words.needsQuotes, Bool.or_eq_false_iff] at h
      exact h.2
    simpa using List.any_eq_false.mp hany c hc
  have hne : ∀ d : Char, Words.isSpecial d = true → c ≠ d := by
    rintro d hd rfl
    simp [hspecial] at hd
  exact ⟨hblank, hne _ (by decide), hne _ (by decide), hne _ (by decide)⟩

/-- A word that needs no quotes holds ordinary characters only, if its blanks are spaces,
tabs and line feeds. -/
theorem isOrdinary_of_not_needsQuotes {word : String} (h : Words.needsQuotes word = false)
    (hblanks : Text.OnlyCommonBlanks word) : ∀ c ∈ word.toList, IsOrdinary c := by
  intro c hc
  refine isOrdinary_of_mem h hc ?_
  cases hblank : Text.isBlank c with
  | false => rfl
  | true =>
      have hcommon : Words.isSpecial c = true := by
        rcases hblanks c hc hblank with rfl | rfl | rfl <;> decide
      have hquotes : Words.needsQuotes word = true := by
        rw [Words.needsQuotes, List.any_eq_true.mpr ⟨c, hc, hcommon⟩, Bool.or_true]
      rw [h] at hquotes
      exact absurd hquotes (by decide)

/-- **A quoted word reads as itself**, if its blanks are spaces, tabs and line feeds: the
quoting takes other blanks for ordinary characters. -/
theorem spells_quote {word : String} (hblanks : Text.OnlyCommonBlanks word) :
    Spells (Words.quote word).toList [Token.ofWord word] := by
  by_cases h : Words.needsQuotes word = true
  · exact spells_quoted h
  · have hplain : Words.needsQuotes word = false := by simpa using h
    have hself : Words.quote word = word := by simp [Words.quote, hplain]
    have hne : word ≠ "" := by
      rintro rfl
      exact h rfl
    have hspells := spells_ordinary hne (isOrdinary_of_not_needsQuotes hplain hblanks)
    rw [Token.ofWord, hself, hplain]
    exact hspells

/-! ### Separators between the elements of a list -/

/-- A separated list under a function. -/
theorem map_intersperse {α β : Type} (f : α → β) (sep : α) :
    ∀ l : List α, (l.intersperse sep).map f = (l.map f).intersperse (f sep)
  | [] => rfl
  | [_] => rfl
  | a :: b :: l => by
      rw [List.intersperse_cons_cons, List.map_cons, List.map_cons, map_intersperse f sep (b :: l)]
      rfl

/-- A separated list holds the separator and the elements. -/
theorem mem_intersperse {α : Type} {sep x : α} :
    ∀ {l : List α}, x ∈ l.intersperse sep → x = sep ∨ x ∈ l
  | [], h => .inr h
  | [_], h => .inr h
  | a :: b :: l, h => by
      rw [List.intersperse_cons_cons, List.mem_cons, List.mem_cons] at h
      rcases h with rfl | rfl | h
      · exact .inr List.mem_cons_self
      · exact .inl rfl
      · exact (mem_intersperse h).imp id (List.mem_cons_of_mem a)

/-! ### Lines of pieces -/

/-- A piece of a line, with the tokens it has of its own. -/
structure Piece where
  /-- The text of the piece. -/
  text : List Char
  /-- The tokens of the piece. -/
  tokens : List Token

/-- The piece that a word makes, quoted where it needs it. -/
def Piece.ofWord (word : String) : Piece :=
  ⟨(Words.quote word).toList, [Token.ofWord word]⟩

/-- The piece has its tokens, and nothing in it is open. -/
def Piece.Finished (p : Piece) : Prop :=
  Spells p.text p.tokens

/-- The pieces as one text, with a blank between neighbours. -/
def lineOf (pieces : List Piece) : List Char :=
  [' '].intercalate (pieces.map (·.text))

/-- The tokens of the pieces in a line: those of each piece, as far on as the line in front
of the piece is long. -/
def spread : List Piece → List Token
  | [] => []
  | p :: ps => p.tokens ++ (spread ps).map (Token.shift (Text.byteLength (p.text ++ [' '])))

/-- A line of one piece. -/
@[simp] theorem lineOf_singleton (p : Piece) : lineOf [p] = p.text := by
  simp [lineOf, List.intercalate]

/-- A piece in front of others. -/
theorem lineOf_cons {pieces : List Piece} (hne : pieces ≠ []) (p : Piece) :
    lineOf (p :: pieces) = p.text ++ [' '] ++ lineOf pieces := by
  obtain ⟨q, qs, rfl⟩ := List.exists_cons_of_ne_nil hne
  simp [lineOf, List.intercalate]

/-- Two lines, one behind the other. -/
theorem lineOf_append {a b : List Piece} (ha : a ≠ []) (hb : b ≠ []) :
    lineOf (a ++ b) = lineOf a ++ [' '] ++ lineOf b := by
  induction a with
  | nil => exact absurd rfl ha
  | cons p ps ih =>
      rcases List.eq_nil_or_concat ps with rfl | ⟨_, _, rfl⟩
      · rw [List.singleton_append, lineOf_cons hb, lineOf_singleton]
      · rw [List.cons_append, lineOf_cons (by simp), ih (by simp), lineOf_cons (by simp)]
        simp

/-- The tokens of two lines, one behind the other. -/
theorem spread_append {a : List Piece} (ha : a ≠ []) (b : List Piece) :
    spread (a ++ b) =
      spread a ++ (spread b).map (Token.shift (Text.byteLength (lineOf a ++ [' ']))) := by
  induction a with
  | nil => exact absurd rfl ha
  | cons p ps ih =>
      rcases List.eq_nil_or_concat ps with rfl | ⟨_, _, rfl⟩
      · simp [spread]
      · have hline := ih (by simp)
        rw [List.cons_append, spread, hline, lineOf_cons (by simp), spread]
        simp [Function.comp_def, Nat.add_assoc]

/-- The values of the tokens of a line are those of its pieces, wherever they stand. -/
theorem map_value_spread (pieces : List Piece) :
    (spread pieces).map (·.value) = pieces.flatMap fun p => p.tokens.map (·.value) := by
  induction pieces with
  | nil => rfl
  | cons p ps ih =>
      rw [spread, List.map_append, List.map_map, List.flatMap_cons, ← ih]
      rfl

/-- The pieces make a line: only the last of them may be unfinished. -/
inductive Line : List Piece → Prop
  | last {p : Piece} : readTokens p.text = .ok p.tokens → Line [p]
  | cons {p : Piece} {ps : List Piece} : p.Finished → Line ps → Line (p :: ps)

/-- A line holds at least one piece. -/
theorem Line.ne_nil {pieces : List Piece} (h : Line pieces) : pieces ≠ [] := by
  cases h <;> exact List.cons_ne_nil _ _

/-- Finished pieces in front of a line. -/
theorem Line.append {front pieces : List Piece} (hfront : ∀ p ∈ front, p.Finished)
    (h : Line pieces) : Line (front ++ pieces) := by
  induction front with
  | nil => exact h
  | cons p ps ih =>
      exact .cons (hfront p List.mem_cons_self)
        (ih fun q hq => hfront q (List.mem_cons_of_mem p hq))

/-- Finished pieces make a line. -/
theorem Line.of_finished {pieces : List Piece} (hne : pieces ≠ [])
    (h : ∀ p ∈ pieces, p.Finished) : Line pieces := by
  rcases List.eq_nil_or_concat pieces with rfl | ⟨front, p, rfl⟩
  · exact absurd rfl hne
  · rw [List.concat_eq_append] at h ⊢
    refine Line.append (fun q hq => h q (List.mem_append_left _ hq)) (.last ?_)
    exact (h p (List.mem_append_right _ List.mem_cons_self)).tokens

/-- A finished piece between every two pieces of a line. -/
theorem Line.intersperse {pieces : List Piece} (h : Line pieces) {sep : Piece}
    (hsep : sep.Finished) : Line (pieces.intersperse sep) := by
  induction h with
  | last hread => exact .last hread
  | @cons p ps hp hline ih =>
      obtain ⟨q, qs, rfl⟩ := List.exists_cons_of_ne_nil hline.ne_nil
      exact .cons hp (.cons hsep ih)

/-- **The tokens of a line** are those of its pieces, each piece in its place. -/
theorem Line.tokens {pieces : List Piece} (h : Line pieces) :
    readTokens (lineOf pieces) = .ok (spread pieces) := by
  induction h with
  | last hread => simpa [spread] using hread
  | @cons p ps hp hline ih =>
      have hp' : Spells p.text p.tokens := hp
      rw [lineOf_cons hline.ne_nil, hp'.tokens_append_blank (by decide) ih, spread]

end Pipewright
