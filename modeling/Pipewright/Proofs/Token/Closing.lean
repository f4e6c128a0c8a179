import Mathlib.Algebra.Ring.Parity
import Pipewright.Proofs.Token.JoinedLines

/-!
# Closing the Quote

A text has no tokens just when it ends inside quotes. This module says which quote the error is
about: the one that opens outside quotes and that nothing closes up to the end of the text, so
that every beginning of the text fails with it as soon as it is long enough to hold it. It also
says that this is the only thing wrong with the text: the missing quote, put at the end, gives the
text its tokens. Between double quotes a backslash may stand at the end that takes the quote
for itself; another backslash goes in front of the quote then.

Whether a backslash between double quotes waits for its character is a matter of parity: it does
behind an odd number of backslashes.

## Main definitions

* `endBackslashes`: the number of backslashes at the end of a text.
* `NeverClosed`: what it is for a quote of a text not to be closed.

## Main results

* `Scanner.opener?_of_append`, `Scanner.settled_of_opener?`: how long a quote is open, and what
  stands in front of it.
* `Scanner.even_or_odd_endBackslashes`: when a backslash between double quotes waits.
* `tokensOf_eq_error_iff`: a text fails with a quote just when that quote is never closed.
-/

namespace Pipewright

/-! ### The quote that a run is inside -/

namespace Scanner

variable {a b : List Char} {quote : Char} {position : Nat}

/-- **A quote that is open at the end of a text** is open from the place on where it stands. -/
theorem opener?_of_append (h : (quote, position) ∈ (init.run (a ++ b)).word.mode.opener?)
    (hposition : position < Text.byteLength a) :
    (quote, position) ∈ (init.run a).word.mode.opener? := by
  induction b using List.reverseRecOn with
  | nil => simpa using h
  | append_singleton b c ih =>
      rw [← List.append_assoc, run_append] at h
      rcases opener?_step h with hold | ⟨-, hnew⟩
      · exact ih hold
      · have hoffset := (Prod.mk.inj hnew).2
        rw [offset_run_init, Text.byteLength_append] at hoffset
        omega

/-- **In front of the quote** that is open at the end of a text nothing is open. -/
theorem settled_of_opener?
    (h : (quote, Text.byteLength a) ∈ (init.run (a ++ quote :: b)).word.mode.opener?) :
    (init.run a).Settled := by
  rw [List.append_cons] at h
  have hpos := quote.utf8Size_pos
  have hopen := opener?_of_append h (by
    rw [Text.byteLength_append, Text.byteLength_cons]
    omega)
  rw [run_append] at hopen
  rcases opener?_step hopen with hold | ⟨hplain, -⟩
  · obtain ⟨front, behind, hfront, hposition⟩ := exists_opener hold
    rw [hfront, Text.byteLength_append, Text.byteLength_cons] at hposition
    omega
  · exact settled_iff.mpr hplain

end Scanner

/-! ### The missing quote -/

/-- The number of backslashes at the end of the text. -/
def endBackslashes (cs : List Char) : Nat :=
  (cs.reverse.takeWhile (· == '\\')).length

/-- Another backslash counts. -/
theorem endBackslashes_concat_self (cs : List Char) :
    endBackslashes (cs ++ ['\\']) = endBackslashes cs + 1 := by
  simp [endBackslashes]

/-- Behind any other character the count starts anew. -/
theorem endBackslashes_concat_of_ne {c : Char} (hc : c ≠ '\\') (cs : List Char) :
    endBackslashes (cs ++ [c]) = 0 := by
  simp [endBackslashes, hc]

/-- The mode behind one more character. -/
theorem Scanner.mode_concat (cs : List Char) (c : Char) :
    (init.run (cs ++ [c])).word.mode.bare = (init.run cs).word.mode.bare.next c := by
  rw [run_append, run_cons, run_nil, mode_step]

/-- **A backslash between double quotes** waits for its character behind an odd number of
backslashes. -/
theorem Scanner.even_or_odd_endBackslashes (cs : List Char) :
    ((init.run cs).word.mode.bare = .double 0 → Even (endBackslashes cs)) ∧
      ((init.run cs).word.mode.bare = .doubleEscaped 0 → Odd (endBackslashes cs)) := by
  induction cs using List.reverseRecOn with
  | nil => exact ⟨nofun, nofun⟩
  | append_singleton cs c ih =>
      rw [mode_concat]
      generalize (init.run cs).word.mode.bare = m at ih
      obtain ⟨heven, hodd⟩ := ih
      by_cases hc : c = '\\'
      · subst hc
        rw [endBackslashes_concat_self]
        cases m with
        | plain | escaped | single => simp [Mode.next]
        | double opener =>
            refine ⟨by simp [Mode.next], fun hnext => (heven ?_).add_one⟩
            simpa [Mode.next] using hnext
        | doubleEscaped opener =>
            refine ⟨fun hnext => (hodd ?_).add_one, by simp [Mode.next]⟩
            simpa [Mode.next] using hnext
      · -- nothing but a backslash makes the mode wait
        rw [endBackslashes_concat_of_ne hc]
        cases m with
        | escaped | doubleEscaped => simp [Mode.next]
        | plain | single | double =>
            simp only [Mode.next]
            split_ifs <;> simp_all

/-- Where a run that ends inside quotes stands: which quotes they are, and whether a backslash
waits, can be read off the text. -/
theorem Scanner.mode_cases {cs : List Char} {quote : Char} {position : Nat}
    (h : (quote, position) ∈ (init.run cs).word.mode.opener?) :
    (quote = '\'' ∧ (init.run cs).word.mode.bare = .single 0) ∨
      (quote = '"' ∧ Even (endBackslashes cs) ∧ (init.run cs).word.mode.bare = .double 0) ∨
      (quote = '"' ∧ Odd (endBackslashes cs) ∧
        (init.run cs).word.mode.bare = .doubleEscaped 0) := by
  obtain ⟨heven, hodd⟩ := even_or_odd_endBackslashes cs
  generalize (init.run cs).word.mode = m at h heven hodd
  cases m with
  | plain | escaped => exact absurd h (Option.not_mem_none _)
  | single opener => exact .inl ⟨(Prod.mk.inj (Option.some.inj h)).1.symm, rfl⟩
  | double opener =>
      exact .inr (.inl ⟨(Prod.mk.inj (Option.some.inj h)).1.symm, heven rfl, rfl⟩)
  | doubleEscaped opener =>
      exact .inr (.inr ⟨(Prod.mk.inj (Option.some.inj h)).1.symm, hodd rfl, rfl⟩)

/-- A text has tokens just when the mode that it leads to is outside quotes. -/
theorem exists_tokensOf_iff {input : String} {m : Mode}
    (h : (Scanner.init.run input.toList).word.mode.bare = m) :
    (∃ ts, tokensOf input = .ok ts) ↔ m.opener? = none := by
  rw [← h, Mode.opener?_bare, ← exists_readTokens_iff]
  rfl

/-- The mode of a text with one more character. -/
theorem mode_push (input : String) (c : Char) :
    (Scanner.init.run (input.push c).toList).word.mode.bare =
      (Scanner.init.run input.toList).word.mode.bare.next c := by
  rw [String.toList_push, Scanner.mode_concat]

section Missing

variable {input : String} {quote : Char} {position : Nat}

/-- **The missing quote at the end of a text** closes it, unless a backslash waits there. -/
theorem exists_tokensOf_push
    (h : (quote, position) ∈ (Scanner.init.run input.toList).word.mode.opener?)
    (hfree : ¬ (quote = '"' ∧ Odd (endBackslashes input.toList))) :
    ∃ ts, tokensOf (input.push quote) = .ok ts := by
  rw [exists_tokensOf_iff (mode_push input quote)]
  rcases Scanner.mode_cases h with ⟨rfl, hmode⟩ | ⟨rfl, -, hmode⟩ | ⟨hquote, hodd, -⟩
  · rw [hmode]
    rfl
  · rw [hmode]
    rfl
  · exact absurd ⟨hquote, hodd⟩ hfree

/-- Where a backslash waits, the missing quote does not close the text, and behind one more
backslash it does. -/
theorem not_exists_tokensOf_push
    (h : (quote, position) ∈ (Scanner.init.run input.toList).word.mode.opener?)
    (hdouble : quote = '"') (hodd : Odd (endBackslashes input.toList)) :
    (¬ ∃ ts, tokensOf (input.push quote) = .ok ts) ∧
      ∃ ts, tokensOf ((input.push '\\').push quote) = .ok ts := by
  rw [exists_tokensOf_iff (mode_push input quote),
    exists_tokensOf_iff (mode_push (input.push '\\') quote), mode_push]
  rcases Scanner.mode_cases h with ⟨hsingle, -⟩ | ⟨-, heven, -⟩ | ⟨-, -, hmode⟩
  · exact absurd (hsingle.symm.trans hdouble) (by decide)
  · exact absurd heven (Nat.not_even_iff_odd.mpr hodd)
  · rw [hmode, hdouble]
    exact ⟨nofun, rfl⟩

end Missing

/-! ### Texts that fail -/

/-- What a quote that is never closed is, and what it takes to close it. -/
structure NeverClosed (input : String) (quote : Char) (position : Nat) : Prop where
  /-- The quote is a single or a double one. -/
  isQuote : quote = '\'' ∨ quote = '"'
  /-- Its place is within the text. -/
  lt_byteLength : position < Text.byteLength input.toList
  /-- Its place is between two characters. -/
  isBoundary : Text.isBoundary position input.toList = true
  /-- The quote stands there. -/
  stands : (Text.dropBytes position input.toList).head? = some quote
  /-- The text in front of it has tokens. -/
  front : ∃ ts, tokensOf (.ofList (Text.takeBytes position input.toList)) = .ok ts
  /-- Every longer beginning of the text, up to the whole, fails with the quote. -/
  behind : ∀ n, position < n → n ≤ Text.byteLength input.toList →
    Text.isBoundary n input.toList = true →
      tokensOf (.ofList (Text.takeBytes n input.toList)) = .error (.openQuote quote position)
  /-- The quote at the end of the text gives it tokens, unless it is a double quote behind an odd
  number of backslashes. -/
  closed : ¬ (quote = '"' ∧ Odd (endBackslashes input.toList)) →
    ∃ ts, tokensOf (input.push quote) = .ok ts
  /-- In that case it does not, but it does behind one more backslash. -/
  closed_escaped : quote = '"' → Odd (endBackslashes input.toList) →
    (¬ ∃ ts, tokensOf (input.push quote) = .ok ts) ∧
      ∃ ts, tokensOf ((input.push '\\').push quote) = .ok ts

/-- **A text fails with a quote just when that quote is never closed**: it opens where the error
says, all is well in front of it, every longer beginning of the text fails with it, and the text
has tokens once it is closed. -/
theorem tokensOf_eq_error_iff {input : String} {quote : Char} {position : Nat} :
    tokensOf input = .error (.openQuote quote position) ↔ NeverClosed input quote position := by
  constructor
  · intro h
    have hopen := readTokens_eq_error_iff.mp h
    obtain ⟨front, behind, hinput, rfl⟩ := Scanner.exists_opener hopen
    have hpos := quote.utf8Size_pos
    refine ⟨?_, ?_, ?_, ?_, ?_, ?_, exists_tokensOf_push hopen, not_exists_tokensOf_push hopen⟩
    · exact (Scanner.mode_cases hopen).imp And.left (Or.elim · And.left And.left)
    · rw [hinput, Text.byteLength_append, Text.byteLength_cons]
      omega
    · exact Text.isBoundary_iff.mpr ⟨front, quote :: behind, hinput, rfl⟩
    · rw [hinput, Text.dropBytes_append]
      rfl
    · rw [hinput, Text.takeBytes_append, tokensOf_eq, String.toList_ofList]
      exact (Scanner.settled_of_opener? (hinput ▸ hopen)).exists_readTokens
    · intro n hn _ hboundary
      obtain ⟨a, b, hsplit, rfl⟩ := Text.isBoundary_iff.mp hboundary
      rw [hsplit, Text.takeBytes_append, tokensOf_eq, String.toList_ofList]
      exact readTokens_eq_error_iff.mpr (Scanner.opener?_of_append (hsplit ▸ hopen) hn)
  · intro h
    -- the longest beginning of the text is the text
    have hwhole := h.behind (Text.byteLength input.toList) h.lt_byteLength le_rfl
      (Text.isBoundary_iff.mpr ⟨input.toList, [], (List.append_nil _).symm, rfl⟩)
    have htake := Text.takeBytes_append input.toList []
    rw [List.append_nil] at htake
    rwa [htake, String.ofList_toList] at hwhole

/-- Behind a closed quote, an escaped one and a letter of two bytes, the last quote of the text is
open, and a backslash waits in it. -/
example : tokensOf "put '\"' \\'é\"a\\\"b\\" = .error (.openQuote '"' 12) := by
  decide +kernel

end Pipewright
