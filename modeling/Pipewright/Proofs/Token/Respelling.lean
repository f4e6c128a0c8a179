import Mathlib.Data.List.Forall2
import Pipewright.Proofs.Token.Excerpt
import Pipewright.Proofs.Token.Word

/-!
# Tokens Spelled Again

The source text of a token is kept so that a command can be written down again the way it was
typed. That is worth something only if the source texts still read as the same tokens once they
are taken out of their line: one by one, and in a line of their own with a space between
neighbours. No source text may take such a space for itself or run into the next one, though it
may end in an escaped blank, in joined lines or in a backslash that escapes nothing, and though it
may start with joined lines.

Each source text reads as its token, at the front (`readTokens_raw`). All but the last leave
nothing open, so that they make a line of finished pieces, and the tokens of a line are those of
its pieces (`Line.tokens`).

## Main definitions

* `Token.SameWord`: two tokens that differ in their places only.
* `Token.alone`: the token in a text of its own.

## Main results

* `readTokens_raw`: the source text of a token reads as the token.
* `forall₂_spread`: the tokens of the source texts in a line.
* `tokensOf_respelled`: both for every text with tokens.
-/

namespace Pipewright

/-- The tokens have the same source text, value and quoted mark, wherever they stand. -/
structure Token.SameWord (t u : Token) : Prop where
  /-- The source texts. -/
  raw : t.raw = u.raw
  /-- The values. -/
  value : t.value = u.value
  /-- The quoted marks. -/
  quoted : t.quoted = u.quoted

/-- The token, in a text that is its source text. -/
def Token.alone (t : Token) : Token :=
  { t with start := 0, stop := Text.byteLength t.raw.toList }

/-- **The source text of a token** reads as the token, and it leaves nothing open unless the
token is the last of its text. -/
theorem readTokens_raw {cs : List Char} {pre post : List Token} {t : Token}
    (h : readTokens cs = .ok (pre ++ t :: post)) :
    readTokens t.raw.toList = .ok [t.alone] ∧ (post ≠ [] → Spells t.raw.toList [t.alone]) := by
  obtain ⟨p, q, -, hword, hstop, hread, hsettled⟩ := exists_word h
  have halone : readTokens t.raw.toList = .ok [t.alone] := by
    obtain ⟨us, hus, hsplit⟩ := hword.before.readTokens_drop hread
    obtain ⟨u, rfl, hu⟩ := List.map_eq_singleton_iff.mp (List.append_cancel_left hsplit).symm
    have hstart := hword.start_eq
    rw [Text.byteLength_append] at hstop
    obtain ⟨raw, value, start, stop, quoted⟩ := u
    subst hu
    simp only [Token.shift_start, Token.shift_stop, Token.shift_raw] at hstart hstop
    obtain rfl : start = 0 := by omega
    obtain rfl : stop = Text.byteLength raw.toList := by omega
    exact hus
  refine ⟨halone, fun hpost => ⟨?_, halone⟩⟩
  have hopen := hsettled hpost
  rw [Scanner.run_append, hword.before, Scanner.run_after] at hopen
  exact Scanner.settled_after.mp hopen

/-- The source text of a token, as a piece of a line. -/
def Token.piece (t : Token) : Piece :=
  ⟨t.raw.toList, [t.alone]⟩

/-- The source texts of the tokens of a text make a line. -/
theorem line_pieces {cs : List Char} {ts : List Token} (h : readTokens cs = .ok ts)
    (hne : ts ≠ []) : Line (ts.map Token.piece) := by
  rcases List.eq_nil_or_concat ts with rfl | ⟨front, last, rfl⟩
  · exact absurd rfl hne
  rw [List.concat_eq_append] at h ⊢
  rw [List.map_append, List.map_singleton]
  refine Line.append (fun p hp => ?_) (.last (readTokens_raw h).1)
  obtain ⟨t, ht, rfl⟩ := List.mem_map.mp hp
  obtain ⟨pre, post, rfl⟩ := List.append_of_mem ht
  rw [List.append_assoc, List.cons_append] at h
  exact (readTokens_raw h).2 (by simp)

/-- **The tokens of a line of source texts** differ from the tokens that the texts come from in
their places only. -/
theorem forall₂_spread (ts : List Token) :
    List.Forall₂ Token.SameWord (spread (ts.map Token.piece)) ts := by
  induction ts with
  | nil => exact .nil
  | cons t ts ih =>
      refine .cons ⟨rfl, rfl, rfl⟩ (List.forall₂_map_left_iff.mpr (ih.imp fun u v huv => ?_))
      exact ⟨huv.raw, huv.value, huv.quoted⟩

/-- **Tokens spelled again are the same tokens**: the source texts of the tokens of a text, joined
by single spaces, have tokens with the same source texts, values and quoted marks, one for each,
and every source text has just its token. -/
theorem tokensOf_respelled {input : String} {ts : List Token} (h : tokensOf input = .ok ts) :
    (∃ us, tokensOf (" ".intercalate (ts.map (·.raw))) = .ok us ∧
      List.Forall₂ Token.SameWord us ts) ∧
    ∀ t ∈ ts, tokensOf t.raw = .ok [t.alone] := by
  refine ⟨?_, fun t ht => ?_⟩
  · rcases eq_or_ne ts [] with rfl | hne
    · exact ⟨[], rfl, .nil⟩
    have hline : (" ".intercalate (ts.map (·.raw))).toList = lineOf (ts.map Token.piece) := by
      rw [String.toList_intercalate, lineOf, List.map_map, List.map_map]
      rfl
    refine ⟨spread (ts.map Token.piece), ?_, forall₂_spread ts⟩
    rw [tokensOf_eq, hline]
    exact (line_pieces h hne).tokens
  · obtain ⟨pre, post, rfl⟩ := List.append_of_mem ht
    exact (readTokens_raw h).1

/-- An escaped blank at the end of a token, joined lines at the end of one and in front of one, an
empty word, and a backslash that ends the text. -/
theorem tokensOf_respelled_joined :
    ∃ ts, tokensOf "a\\ \t\\\n--x\\\n '' \\" = .ok ts ∧
      ts.map (·.raw) = ["a\\ ", "\\\n--x\\\n", "''", "\\"] ∧
      (∃ us, tokensOf (" ".intercalate (ts.map (·.raw))) = .ok us ∧
        List.Forall₂ Token.SameWord us ts) ∧
      ∀ t ∈ ts, tokensOf t.raw = .ok [t.alone] :=
  have h : tokensOf "a\\ \t\\\n--x\\\n '' \\" =
      .ok [⟨"a\\ ", "a ", 0, 3, true⟩, ⟨"\\\n--x\\\n", "--x", 4, 11, true⟩,
        ⟨"''", "", 12, 14, true⟩, ⟨"\\", "\\", 15, 16, true⟩] := by
    decide +kernel
  ⟨_, h, rfl, tokensOf_respelled h⟩

end Pipewright
