import Mathlib.Tactic.SplitIfs
import Pipewright.Proofs.Text.Span
import Pipewright.Token

/-!
# Reading a Text Piece by Piece

The machine that reads tokens takes one character at a time, so what it does behind a
blank depends on nothing in front of it but the byte offset. This module states that
independence and draws the consequence on which every law about command lines rests: the
tokens of `a`, a blank and `b` are those of `a` and those of `b`, the latter further on.

A piece must be finished for that: a backslash at its end would take the blank for
itself. `Spells` is the reading of a finished piece.

## Main results

* `Scanner.run_after`, `Scanner.finish_after`: a run behind finished tokens is the run of
  its own, further on.
* `Scanner.step_eq`, `Scanner.finish_eq`: a step and the end of a text in terms of the draft,
  between two tokens as well as inside one.
* `readTokens_append_blank`: what a text reads as behind a finished piece and a blank, be
  it tokens or an error.
* `Spells.append_blank`: two finished pieces make one.
* `Spells.of_getLast_ne`: a piece with tokens is finished unless a backslash ends it.
* `tokensOf_append_blank`: what a text reads as behind a text and a blank, said of texts.
-/

namespace Pipewright

/-! ### Tokens further on in a text -/

namespace Token

/-- The token, found `n` bytes further on. -/
def shift (n : Nat) (t : Token) : Token :=
  { t with start := n + t.start, stop := n + t.stop }

variable (n : Nat) (t : Token)

@[simp] theorem shift_raw : (t.shift n).raw = t.raw := rfl

@[simp] theorem shift_value : (t.shift n).value = t.value := rfl

@[simp] theorem shift_quoted : (t.shift n).quoted = t.quoted := rfl

@[simp] theorem shift_start : (t.shift n).start = n + t.start := rfl

@[simp] theorem shift_stop : (t.shift n).stop = n + t.stop := rfl

@[simp] theorem shift_isOption : (t.shift n).isOption = t.isOption := rfl

@[simp] theorem shift_isConnective : (t.shift n).isConnective = t.isConnective := rfl

/-- Moving twice adds up. -/
@[simp] theorem shift_shift (m : Nat) : (t.shift n).shift m = t.shift (m + n) := by
  simp [shift, Nat.add_assoc]

/-- Moving by nothing. -/
@[simp] theorem shift_zero : t.shift 0 = t := by
  simp [shift]

end Token

/-- The error, found `n` bytes further on. -/
def TokenError.shift (n : Nat) : TokenError → TokenError
  | openQuote quote position => .openQuote quote (n + position)

/-- The mode, with its quote opened `n` bytes further on. -/
def Mode.shift (n : Nat) : Mode → Mode
  | plain => .plain
  | escaped => .escaped
  | single opener => .single (n + opener)
  | double opener => .double (n + opener)
  | doubleEscaped opener => .doubleEscaped (n + opener)

/-- A mode is plain wherever it stands. -/
theorem Mode.shift_beq_plain (n : Nat) (m : Mode) : (m.shift n == .plain) = (m == .plain) := by
  cases m <;> rfl

/-- The draft, found `n` bytes further on. -/
def Draft.shift (n : Nat) (d : Draft) : Draft :=
  { d with start := n + d.start, mode := d.mode.shift n }

/-- A draft takes a character the same way wherever it stands. -/
theorem Draft.shift_feed (n : Nat) (d : Draft) (offset : Nat) (c : Char) :
    (d.shift n).feed (n + offset) c = (d.feed offset c).shift n := by
  obtain ⟨start, raw, value, quoted, meaningful, mode⟩ := d
  cases mode <;> simp only [shift, Mode.shift, feed, keep] <;> split_ifs <;> rfl

/-! ### Runs behind finished tokens -/

namespace Scanner

/-- The state `s`, with the tokens `pre` and `n` bytes in front of it. -/
def after (n : Nat) (pre : List Token) (s : Scanner) : Scanner :=
  ⟨n + s.offset, pre.toArray ++ s.tokens.map (Token.shift n), s.draft.map (Draft.shift n)⟩

/-- The state between two tokens is the state in front of a text, further on. -/
theorem after_init (n : Nat) (pre : List Token) :
    init.after n pre = ⟨n, pre.toArray, none⟩ := by
  simp [after, init]

/-- Finishing a draft does not look at what stands in front. -/
theorem close_after (n : Nat) (pre : List Token) (s : Scanner) (d : Draft) :
    (s.after n pre).close (d.shift n) = pre.toArray ++ (s.close d).map (Token.shift n) := by
  rw [close, close, Draft.close?, Draft.close?]
  by_cases h : d.meaningful <;> simp [after, Draft.shift, Token.shift, h]

/-- A step does not look at what stands in front. -/
theorem step_after (n : Nat) (pre : List Token) (s : Scanner) (c : Char) :
    (s.after n pre).step c = (s.step c).after n pre := by
  obtain ⟨offset, tokens, draft⟩ := s
  cases draft with
  | none =>
      by_cases hb : Text.isBlank c
      · simp [step, after, hb, Nat.add_assoc]
      · have hfeed := Draft.shift_feed n (Draft.empty offset) offset c
        simp only [step, after, hb, Option.map_none, Nat.add_assoc, Bool.false_eq_true, if_false,
          Option.map_some]
        rw [← hfeed]
        rfl
  | some d =>
      have hclose := close_after n pre ⟨offset, tokens, some d⟩ d
      have hmode : ((d.shift n).mode == .plain) = (d.mode == .plain) :=
        Mode.shift_beq_plain n d.mode
      by_cases hb : d.mode == .plain && Text.isBlank c
      · simp only [step, after, Option.map_some, hmode, hb, if_true, Option.map_none,
          Nat.add_assoc, Scanner.mk.injEq, true_and, and_true]
        exact hclose
      · simp only [step, after, Option.map_some, hmode, hb, Nat.add_assoc, Draft.shift_feed,
          Bool.false_eq_true, if_false]

/-- A run over nothing. -/
@[simp] theorem run_nil (s : Scanner) : s.run [] = s := rfl

/-- A run takes the characters one by one. -/
theorem run_cons (s : Scanner) (c : Char) (cs : List Char) :
    s.run (c :: cs) = (s.step c).run cs := rfl

/-- A run over two pieces is a run over the first and then over the second. -/
theorem run_append (s : Scanner) (a b : List Char) : s.run (a ++ b) = (s.run a).run b :=
  List.foldl_append

/-- **A run behind finished tokens** is the run of its own, further on. -/
theorem run_after (n : Nat) (pre : List Token) (s : Scanner) (cs : List Char) :
    (s.after n pre).run cs = (s.run cs).after n pre := by
  induction cs generalizing s with
  | nil => rfl
  | cons c cs ih =>
      rw [run_cons, run_cons, step_after]
      exact ih (s.step c)

/-- **The end of a text behind finished tokens**: the tokens in front, and then the tokens
or the error of the text, further on. -/
theorem finish_after (n : Nat) (pre : List Token) (s : Scanner) :
    (s.after n pre).finish =
      (s.finish.map fun ts => pre ++ ts.map (Token.shift n)).mapError (TokenError.shift n) := by
  obtain ⟨offset, tokens, draft⟩ := s
  cases draft with
  | none => simp [finish, after, Except.map, Except.mapError]
  | some d =>
      obtain ⟨start, raw, value, quoted, meaningful, mode⟩ := d
      cases mode with
      | plain =>
          have h := close_after n pre ⟨offset, tokens, none⟩
            ⟨start, raw, value, quoted, meaningful, .plain⟩
          have h' := congrArg Array.toList h
          simpa [finish, after, Draft.shift, Mode.shift, close, Except.map, Except.mapError]
            using h'
      | escaped =>
          have h := close_after n pre ⟨offset, tokens, none⟩
            (Draft.keep ⟨start, raw, value, quoted, meaningful, .escaped⟩ '\\')
          have h' := congrArg Array.toList h
          simpa [finish, after, Draft.shift, Mode.shift, close, Draft.keep, Except.map,
            Except.mapError] using h'
      | single opener => rfl
      | double opener => rfl
      | doubleEscaped opener => rfl

/-- A step moves on by the bytes of its character. -/
theorem step_offset (s : Scanner) (c : Char) : (s.step c).offset = s.offset + c.utf8Size := by
  rw [step]
  split <;> split <;> rfl

/-- A run moves on by the bytes of its text. -/
theorem run_offset (s : Scanner) (cs : List Char) :
    (s.run cs).offset = s.offset + Text.byteLength cs := by
  induction cs generalizing s with
  | nil => rfl
  | cons c cs ih =>
      rw [run_cons, ih, step_offset, Text.byteLength_cons, Nat.add_assoc]

/-- From the front of a text on, the offset counts the bytes that were read. -/
theorem offset_run_init (cs : List Char) : (init.run cs).offset = Text.byteLength cs := by
  rw [run_offset]
  exact Nat.zero_add _

/-- Every quote and every escape in what was read is finished. -/
def Settled (s : Scanner) : Prop :=
  ∀ d ∈ s.draft, d.mode = .plain

/-- The draft of a state; between two tokens, one that has nothing yet. -/
def word (s : Scanner) : Draft :=
  s.draft.getD (Draft.empty s.offset)

/-- Nothing is open when the draft is plain. -/
theorem settled_iff {s : Scanner} : s.Settled ↔ s.word.mode = .plain := by
  obtain ⟨offset, tokens, draft⟩ := s
  cases draft <;> simp [Settled, word, Draft.empty]

/-- A step finishes the draft or adds the character to it. -/
theorem step_eq (s : Scanner) (c : Char) :
    s.step c =
      if s.word.mode == .plain && Text.isBlank c then ⟨s.offset + c.utf8Size, s.close s.word, none⟩
      else ⟨s.offset + c.utf8Size, s.tokens, some (s.word.feed s.offset c)⟩ := by
  obtain ⟨offset, tokens, draft⟩ := s
  cases draft with
  | none => simp [step, word, Draft.empty, close, Draft.close?]
  | some d => simp [step, word]

/-- A blank outside quotes puts the machine between two tokens. -/
theorem word_step_blank {s : Scanner} {c : Char} (hmode : s.word.mode = .plain)
    (hc : Text.isBlank c = true) : (s.step c).word = Draft.empty (s.offset + c.utf8Size) := by
  rw [step_eq, hmode, hc]
  rfl

/-- Any other character goes into the draft. -/
theorem word_step {s : Scanner} {c : Char} (h : s.word.mode = .plain → Text.isBlank c = false) :
    (s.step c).word = s.word.feed s.offset c := by
  rw [step_eq, if_neg (by simpa using h)]
  rfl

/-- The end of a text finishes the draft. -/
theorem finish_eq (s : Scanner) :
    s.finish =
      match s.word.mode with
      | .plain => .ok (s.close s.word).toList
      | .escaped => .ok (s.close (s.word.keep '\\')).toList
      | .single opener => .error (.openQuote '\'' opener)
      | .double opener | .doubleEscaped opener => .error (.openQuote '"' opener) := by
  obtain ⟨offset, tokens, draft⟩ := s
  cases draft with
  | none => simp [finish, word, Draft.empty, close, Draft.close?]
  | some d => rfl

/-- Whether something is open does not depend on where the text stands. -/
theorem settled_after {s : Scanner} {n : Nat} {pre : List Token} :
    (s.after n pre).Settled ↔ s.Settled := by
  obtain ⟨offset, tokens, draft⟩ := s
  cases draft with
  | none => simp [Settled, after]
  | some d =>
      have hmode := Mode.shift_beq_plain n d.mode
      rw [Bool.eq_iff_iff, beq_iff_eq, beq_iff_eq] at hmode
      simpa [Settled, after, Draft.shift] using hmode

/-- A blank behind a finished piece puts the machine between two tokens. -/
theorem Settled.step_blank {s : Scanner} {ts : List Token} {c : Char} (h : s.Settled)
    (hts : s.finish = .ok ts) (hc : Text.isBlank c = true) :
    s.step c = ⟨s.offset + c.utf8Size, ts.toArray, none⟩ := by
  obtain ⟨offset, tokens, draft⟩ := s
  cases draft with
  | none =>
      simp only [finish, Except.ok.injEq] at hts
      subst hts
      simp [step, hc]
  | some d =>
      have hmode : d.mode = .plain := h d rfl
      simp only [finish, hmode, Except.ok.injEq] at hts
      subst hts
      simp [step, hmode, hc]

end Scanner

/-! ### The reading of a piece -/

/-- The tokens of a list of characters. -/
def readTokens (cs : List Char) : Except TokenError (List Token) :=
  (Scanner.init.run cs).finish

/-- The tokens of a text are those of its characters. -/
theorem tokensOf_eq (input : String) : tokensOf input = readTokens input.toList := rfl

/-- The piece `cs` reads as the tokens `ts`, and every quote and every escape in it is
finished. -/
structure Spells (cs : List Char) (ts : List Token) : Prop where
  /-- No quote is open and no backslash waits for its character. -/
  settled : (Scanner.init.run cs).Settled
  /-- The tokens of the piece. -/
  tokens : readTokens cs = .ok ts

/-- The empty piece has no tokens. -/
theorem Spells.nil : Spells [] [] :=
  ⟨fun d hd => by simp [Scanner.run, Scanner.init] at hd, rfl⟩

/-- Behind a finished piece and a blank the machine starts anew. -/
theorem Spells.run_blank {a : List Char} {ts : List Token} {w : Char} (h : Spells a ts)
    (hw : Text.isBlank w = true) :
    Scanner.init.run (a ++ [w]) = Scanner.init.after (Text.byteLength (a ++ [w])) ts := by
  rw [Scanner.run_append, Scanner.after_init]
  show (Scanner.init.run a).step w = _
  rw [h.settled.step_blank h.tokens hw, Scanner.offset_run_init, Text.byteLength_append]
  rfl

/-- **Reading behind a finished piece.** Behind a finished piece and a blank a text has the
tokens or the error that it has of its own, further on. -/
theorem readTokens_append_blank {a : List Char} {ts : List Token} {w : Char} (h : Spells a ts)
    (hw : Text.isBlank w = true) (b : List Char) :
    readTokens (a ++ [w] ++ b) =
      ((readTokens b).map fun us =>
        ts ++ us.map (Token.shift (Text.byteLength (a ++ [w])))).mapError
          (TokenError.shift (Text.byteLength (a ++ [w]))) := by
  rw [readTokens, Scanner.run_append, h.run_blank hw, Scanner.run_after, Scanner.finish_after]
  rfl

/-- The tokens behind a finished piece and a blank. -/
theorem Spells.tokens_append_blank {a b : List Char} {ts us : List Token} {w : Char}
    (h : Spells a ts) (hw : Text.isBlank w = true) (hb : readTokens b = .ok us) :
    readTokens (a ++ [w] ++ b) =
      .ok (ts ++ us.map (Token.shift (Text.byteLength (a ++ [w])))) := by
  rw [readTokens_append_blank h hw, hb]
  rfl

/-- **Two finished pieces** with a blank between them make one. -/
theorem Spells.append_blank {a b : List Char} {ts us : List Token} {w : Char}
    (h : Spells a ts) (hw : Text.isBlank w = true) (hb : Spells b us) :
    Spells (a ++ [w] ++ b) (ts ++ us.map (Token.shift (Text.byteLength (a ++ [w])))) := by
  refine ⟨?_, h.tokens_append_blank hw hb.tokens⟩
  rw [Scanner.run_append, h.run_blank hw, Scanner.run_after]
  exact Scanner.settled_after.mpr hb.settled

/-! ### Pieces that no backslash ends -/

/-- Only a backslash makes a draft wait for an escaped character. -/
theorem Draft.feed_mode_ne_escaped {d : Draft} {offset : Nat} {c : Char} (hc : c ≠ '\\') :
    (d.feed offset c).mode ≠ .escaped := by
  obtain ⟨start, raw, value, quoted, meaningful, mode⟩ := d
  cases mode <;> simp only [feed, keep] <;> split_ifs <;> simp_all

/-- **A piece with tokens is finished** unless a backslash ends it. -/
theorem Spells.of_getLast_ne {cs : List Char} {ts : List Token} (h : readTokens cs = .ok ts)
    (hlast : cs.getLast? ≠ some '\\') : Spells cs ts := by
  refine ⟨?_, h⟩
  rcases List.eq_nil_or_concat cs with rfl | ⟨init, c, rfl⟩
  · exact Spells.nil.settled
  have hc : c ≠ '\\' := by
    rintro rfl
    simp at hlast
  rw [readTokens, List.concat_eq_append, Scanner.run_append] at h
  rw [List.concat_eq_append, Scanner.run_append]
  generalize Scanner.init.run init = s at h
  change (s.step c).finish = .ok ts at h
  show (s.step c).Settled
  intro d hd
  have hesc : d.mode ≠ .escaped := by
    rw [Scanner.step] at hd
    split at hd <;> split at hd <;> simp only [reduceCtorEq, Option.mem_def,
      Option.some.injEq] at hd
    · simp_all
    · exact hd ▸ Draft.feed_mode_ne_escaped hc
    · exact hd ▸ Draft.feed_mode_ne_escaped hc
  rw [Scanner.finish, Option.mem_def.mp hd] at h
  cases hm : d.mode <;> simp_all

/-! ### Texts behind each other -/

/-- **The tokens of two texts with a blank between them.** If a text has tokens and no backslash
ends it, then what stands behind it and a blank has tokens there just when it has tokens of its
own. They follow those in front, moved on by the bytes in front of them, and so does the error
if there are none. -/
theorem tokensOf_append_blank {a : String} {ts : List Token} {w : Char}
    (ha : tokensOf a = .ok ts) (hlast : a.toList.getLast? ≠ some '\\')
    (hw : Text.isBlank w = true) (b : String) :
    ((∃ vs, tokensOf (a.push w ++ b) = .ok vs) ↔ ∃ us, tokensOf b = .ok us) ∧
      (∀ us, tokensOf b = .ok us →
        tokensOf (a.push w ++ b) =
          .ok (ts ++ us.map (Token.shift (Text.byteLength (a.push w).toList)))) ∧
      ∀ e, tokensOf b = .error e →
        tokensOf (a.push w ++ b) = .error (e.shift (Text.byteLength (a.push w).toList)) := by
  have hfront : (a.push w).toList = a.toList ++ [w] :=
    String.toList_push w
  have hread : tokensOf (a.push w ++ b) =
      ((tokensOf b).map fun us =>
        ts ++ us.map (Token.shift (Text.byteLength (a.push w).toList))).mapError
          (TokenError.shift (Text.byteLength (a.push w).toList)) := by
    rw [tokensOf_eq, String.toList_append, hfront]
    exact readTokens_append_blank (Spells.of_getLast_ne ha hlast) hw b.toList
  rw [hread]
  cases tokensOf b with
  | ok us => simp [Except.map, Except.mapError]
  | error e => simp [Except.map, Except.mapError]

/-- Joined lines end the text in front, a blank of two bytes follows, and behind it stand a
quoted word and an open quote. -/
theorem tokensOf_append_blank_joined :
    tokensOf "é\\\n\u00a0'x y'" =
        .ok [⟨"é\\\n", "é", 0, 4, true⟩, ⟨"'x y'", "x y", 6, 11, true⟩] ∧
      tokensOf "é\\\n\u00a0z 'x" = .error (.openQuote '\'' 8) :=
  have ha : tokensOf "é\\\n" = .ok [⟨"é\\\n", "é", 0, 4, true⟩] := by decide +kernel
  have h := tokensOf_append_blank (w := '\u00a0') ha (by decide) (by decide)
  ⟨(h "'x y'").2.1 [⟨"'x y'", "x y", 0, 5, true⟩] (by decide +kernel),
    (h "z 'x").2.2 (.openQuote '\'' 2) (by decide +kernel)⟩

end Pipewright
