import Mathlib.Data.List.Induction
import Pipewright.Proofs.Token.Scan

/-!
# The Quote That Is Never Closed

A text that ends inside quotes has no tokens, and the error names the quote and the place
where it opens. The machine carries that place along; this module shows that the quote does
stand there.

## Main results

* `Scanner.exists_opener`: the quote that a run is inside stands where it is said to open.
* `readTokens_eq_error_iff`: the error of a text is about the quote that its run ends in.
* `exists_quote_of_readTokens`: the quote of an error stands where the error says.
-/

namespace Pipewright

/-- The quote that the machine is inside, with the place where it opens. -/
def Mode.opener? : Mode → Option (Char × Nat)
  | plain => none
  | escaped => none
  | single opener => some ('\'', opener)
  | double opener => some ('"', opener)
  | doubleEscaped opener => some ('"', opener)

/-- Behind a character the machine is inside the quote that it was inside, or inside the one
that the character opens; it opens one outside quotes only. -/
theorem Draft.opener?_feed {d : Draft} {offset : Nat} {c : Char} {x : Char × Nat}
    (h : x ∈ (d.feed offset c).mode.opener?) :
    x ∈ d.mode.opener? ∨ d.mode = .plain ∧ x = (c, offset) := by
  obtain ⟨start, raw, value, quoted, meaningful, mode⟩ := d
  cases mode with
  | plain =>
      simp only [feed, keep] at h
      split_ifs at h with hsingle hdouble
      · exact .inr ⟨rfl, beq_iff_eq.mp hsingle ▸ (Option.some.inj h).symm⟩
      · exact .inr ⟨rfl, beq_iff_eq.mp hdouble ▸ (Option.some.inj h).symm⟩
      · exact absurd h (Option.not_mem_none x)
      · exact absurd h (Option.not_mem_none x)
  | escaped =>
      simp only [feed, keep] at h
      split_ifs at h <;> exact absurd h (Option.not_mem_none x)
  | single opener =>
      simp only [feed, keep] at h
      split_ifs at h
      · exact absurd h (Option.not_mem_none x)
      · exact .inl h
  | double opener =>
      simp only [feed, keep] at h
      split_ifs at h
      · exact absurd h (Option.not_mem_none x)
      · exact .inl h
      · exact .inl h
  | doubleEscaped opener =>
      simp only [feed, keep] at h
      split_ifs at h <;> exact .inl h

namespace Scanner

/-- Behind a character the machine is inside the quote that it was inside, or inside the one
that the character opens; it opens one outside quotes only. -/
theorem opener?_step {s : Scanner} {c : Char} {x : Char × Nat}
    (h : x ∈ (s.step c).word.mode.opener?) :
    x ∈ s.word.mode.opener? ∨ s.word.mode = .plain ∧ x = (c, s.offset) := by
  by_cases hclose : s.word.mode = .plain ∧ Text.isBlank c = true
  · rw [word_step_blank hclose.1 hclose.2] at h
    exact absurd h (Option.not_mem_none x)
  · rw [word_step (by simpa using hclose)] at h
    exact Draft.opener?_feed h

/-- **The quote that a run is inside** stands in the text where it is said to open. -/
theorem exists_opener {cs : List Char} {quote : Char} {position : Nat}
    (h : (quote, position) ∈ (init.run cs).word.mode.opener?) :
    ∃ front behind, cs = front ++ quote :: behind ∧ position = Text.byteLength front := by
  induction cs using List.reverseRecOn with
  | nil => exact absurd h (Option.not_mem_none _)
  | append_singleton cs c ih =>
      rw [run_append] at h
      rcases opener?_step h with hold | ⟨-, hnew⟩
      · obtain ⟨front, behind, rfl, hposition⟩ := ih hold
        exact ⟨front, behind ++ [c], by simp, hposition⟩
      · obtain ⟨rfl, rfl⟩ := Prod.mk.inj hnew
        exact ⟨cs, [], rfl, offset_run_init cs⟩

end Scanner

/-- **The error of a text** is about the quote that its run ends in. -/
theorem readTokens_eq_error_iff {cs : List Char} {quote : Char} {position : Nat} :
    readTokens cs = .error (.openQuote quote position) ↔
      (quote, position) ∈ (Scanner.init.run cs).word.mode.opener? := by
  rw [readTokens, Scanner.finish_eq]
  cases (Scanner.init.run cs).word.mode <;> simp [Mode.opener?]

/-- **The quote of an error** stands in the text where the error says. -/
theorem exists_quote_of_readTokens {cs : List Char} {quote : Char} {position : Nat}
    (h : readTokens cs = .error (.openQuote quote position)) :
    ∃ front behind, cs = front ++ quote :: behind ∧ position = Text.byteLength front :=
  Scanner.exists_opener (readTokens_eq_error_iff.mp h)

end Pipewright
