import Mathlib.Data.List.Infix
import Pipewright.Editor.Command
import Pipewright.Proofs.Text.Span

/-!
# Escapes in Pasted Text

A line about the pasted text cannot hold a line feed, which would end it, and it would lose tabs at
its ends. Both have escapes of two characters, which are expanded when the line is read. What comes
of it holds no escapes any more, because none is put together from what stands around another; so
the escapes can be written again, and what is written has the same expansion.

## Main definitions

* `writeEscapes`: the text with escapes in place of its line feeds and tabs.
* `StartsEscape`, `HoldsEscape`: the two characters of an escape in a text.
* `replacePair`: the replacement of all pairs of a kind.

## Main results

* `expandEscapesIn_eq_replacePair`: the escapes of one kind may be expanded before the others.
* `not_holdsEscape_expandEscapesIn`: no escapes are left.
* `expandEscapesIn_writeEscapesIn`, `writeEscapesIn_expandEscapesIn`: expanding and writing.
-/

namespace Pipewright

open Text (Trimmed isBlank)

/-- The escape of a character that has one, or the character itself. -/
def writeEscape (c : Char) : List Char :=
  if c = '\n' then ['\\', 'n'] else if c = '\t' then ['\\', 't'] else [c]

/-- The characters with escapes in place of line feeds and tabs. -/
def writeEscapesIn (cs : List Char) : List Char :=
  cs.flatMap writeEscape

/-- The text with escapes in place of line feeds and tabs. -/
def writeEscapes (s : String) : String :=
  .ofList (writeEscapesIn s.toList)

/-- An escape starts with the character `c` in front of `cs`. -/
def StartsEscape (c : Char) (cs : List Char) : Prop :=
  c = '\\' ∧ (cs.head? = some 'n' ∨ cs.head? = some 't')

/-- The text holds the two characters of an escape. -/
def HoldsEscape (cs : List Char) : Prop :=
  ['\\', 'n'] <:+: cs ∨ ['\\', 't'] <:+: cs

/-- The escapes of a text are at its front or behind its first character. -/
theorem holdsEscape_cons {c : Char} {cs : List Char} :
    HoldsEscape (c :: cs) ↔ StartsEscape c cs ∨ HoldsEscape cs := by
  have hfront (d : Char) : [d] <+: cs ↔ cs.head? = some d := by
    cases cs <;> simp [eq_comm]
  simp only [HoldsEscape, StartsEscape, List.infix_cons_iff, List.cons_prefix_cons, hfront,
    eq_comm (b := c)]
  tauto

/-! ### Expanding -/

/-- **Induction over a text with escapes**, as they are found from its front. -/
theorem escapes_induction {motive : List Char → Prop} (nil : motive [])
    (lineFeed : ∀ cs, motive cs → motive ('\\' :: 'n' :: cs))
    (tab : ∀ cs, motive cs → motive ('\\' :: 't' :: cs))
    (plain : ∀ c cs, ¬ StartsEscape c cs → motive cs → motive (c :: cs)) (cs : List Char) :
    motive cs := by
  induction cs using expandEscapesIn.induct with
  | case1 cs ih => exact lineFeed cs ih
  | case2 cs ih => exact tab cs ih
  | case3 c cs hn ht ih =>
      refine plain c cs ?_ ih
      rintro ⟨hc, hhead | hhead⟩
      · obtain ⟨rest, hrest⟩ := List.head?_eq_some_iff.mp hhead
        exact hn rest hc hrest
      · obtain ⟨rest, hrest⟩ := List.head?_eq_some_iff.mp hhead
        exact ht rest hc hrest
  | case4 => exact nil

/-- A character that starts no escape is kept. -/
theorem expandEscapesIn_cons {c : Char} {cs : List Char} (h : ¬ StartsEscape c cs) :
    expandEscapesIn (c :: cs) = c :: expandEscapesIn cs := by
  rw [expandEscapesIn]
  · exact fun rest hc hrest => h ⟨hc, .inl (hrest ▸ rfl)⟩
  · exact fun rest hc hrest => h ⟨hc, .inr (hrest ▸ rfl)⟩

/-- What is expanded starts with the character of an escape, or with what the text starts with. -/
theorem head?_expandEscapesIn (cs : List Char) : (expandEscapesIn cs).head? = some '\n' ∨
    (expandEscapesIn cs).head? = some '\t' ∨ (expandEscapesIn cs).head? = cs.head? := by
  induction cs using escapes_induction with
  | nil => exact .inr (.inr rfl)
  | lineFeed => exact .inl rfl
  | tab => exact .inr (.inl rfl)
  | plain c cs hplain =>
      rw [expandEscapesIn_cons hplain]
      exact .inr (.inr rfl)

/-- **No escapes are left** when those of a text are expanded. -/
theorem not_holdsEscape_expandEscapesIn (cs : List Char) : ¬ HoldsEscape (expandEscapesIn cs) := by
  induction cs using escapes_induction with
  | nil => simp [expandEscapesIn, HoldsEscape]
  | lineFeed cs ih => simpa [expandEscapesIn, holdsEscape_cons, StartsEscape] using ih
  | tab cs ih => simpa [expandEscapesIn, holdsEscape_cons, StartsEscape] using ih
  | plain c cs hplain ih =>
      rw [expandEscapesIn_cons hplain, holdsEscape_cons, not_or]
      refine ⟨fun ⟨hc, hhead⟩ => ?_, ih⟩
      rcases head?_expandEscapesIn cs with hfirst | hfirst | hfirst
      · simp [hfirst] at hhead
      · simp [hfirst] at hhead
      · exact hplain ⟨hc, hfirst ▸ hhead⟩

/-! ### Writing -/

/-- A character that is no blank is written as it is. -/
theorem writeEscape_of_not_isBlank {c : Char} (h : isBlank c = false) : writeEscape c = [c] := by
  rw [writeEscape, if_neg, if_neg]
  · rintro rfl
    exact absurd h (by decide)
  · rintro rfl
    exact absurd h (by decide)

/-- Escapes that are expanded and written again are as good as never expanded. -/
theorem writeEscapesIn_expandEscapesIn (cs : List Char) :
    writeEscapesIn (expandEscapesIn cs) = writeEscapesIn cs := by
  induction cs using escapes_induction with
  | nil => rfl
  | lineFeed cs ih => simpa [expandEscapesIn, writeEscapesIn, writeEscape] using ih
  | tab cs ih => simpa [expandEscapesIn, writeEscapesIn, writeEscape] using ih
  | plain c cs hplain ih =>
      rw [expandEscapesIn_cons hplain, writeEscapesIn, List.flatMap_cons, writeEscapesIn,
        List.flatMap_cons]
      exact congrArg _ ih

/-- What is written starts with a backslash, or with what the text starts with. -/
theorem head?_writeEscapesIn (cs : List Char) :
    (writeEscapesIn cs).head? = some '\\' ∨ (writeEscapesIn cs).head? = cs.head? := by
  cases cs with
  | nil => exact .inr rfl
  | cons c cs =>
      rw [writeEscapesIn, List.flatMap_cons, writeEscape]
      split_ifs
      · exact .inl rfl
      · exact .inl rfl
      · exact .inr rfl

/-- **Escapes that are written are expanded again**, and nothing else is taken for one. -/
theorem expandEscapesIn_writeEscapesIn {cs : List Char} (h : ¬ HoldsEscape cs) :
    expandEscapesIn (writeEscapesIn cs) = cs := by
  induction cs with
  | nil => rfl
  | cons c cs ih =>
      rw [holdsEscape_cons, not_or] at h
      have hrest := ih h.2
      rw [writeEscapesIn, List.flatMap_cons, ← writeEscapesIn, writeEscape]
      split_ifs with hlineFeed htab
      · rw [hlineFeed]
        exact congrArg _ hrest
      · rw [htab]
        exact congrArg _ hrest
      · have hplain : ¬ StartsEscape c (writeEscapesIn cs) := by
          rintro ⟨hc, hhead⟩
          rcases head?_writeEscapesIn cs with hfirst | hfirst
          · simp [hfirst] at hhead
          · exact h.1 ⟨hc, hfirst ▸ hhead⟩
        rw [List.singleton_append, expandEscapesIn_cons hplain, hrest]

/-- A text without escapes is expanded from what is written for it. -/
theorem expandEscapes_writeEscapes {s : String} (h : ¬ HoldsEscape s.toList) :
    expandEscapes (writeEscapes s) = s := by
  rw [expandEscapes, writeEscapes, String.toList_ofList, expandEscapesIn_writeEscapesIn h,
    String.ofList_toList]

/-- Writing escapes leaves no blanks at the ends of a text that has none there. -/
theorem trimmed_writeEscapesIn {cs : List Char} (h : Trimmed cs) : Trimmed (writeEscapesIn cs) where
  head c hc := by
    rcases head?_writeEscapesIn cs with hfirst | hfirst
    · obtain rfl := Option.some.inj (hfirst.symm.trans hc)
      decide
    · exact h.head c (hfirst ▸ hc)
  last c hc := by
    cases cs using List.reverseRecOn with
    | nil => exact absurd hc nofun
    | append_singleton front d =>
        have hd : isBlank d = false := h.last d (by simp)
        rw [writeEscapesIn, List.flatMap_append, List.flatMap_singleton,
          writeEscape_of_not_isBlank hd, List.getLast?_concat, Option.mem_some_iff] at hc
        exact hc ▸ hd

/-! ### One replacement after the other -/

/-- The characters with `c` in place of every `a` that is followed by `b`, and of this `b`. -/
def replacePair (a b c : Char) : List Char → List Char
  | [] => []
  | [x] => [x]
  | x :: y :: cs =>
    if x = a ∧ y = b then c :: replacePair a b c cs else x :: replacePair a b c (y :: cs)

/-- A character that starts no pair is kept. -/
theorem replacePair_cons {a b c x : Char} {cs : List Char} (h : ¬ (x = a ∧ cs.head? = some b)) :
    replacePair a b c (x :: cs) = x :: replacePair a b c cs := by
  cases cs with
  | nil => rfl
  | cons y cs => rw [replacePair, if_neg (by simpa using h)]

/-- What is left starts with the replacement, or with what the text starts with. -/
theorem head?_replacePair (a b c : Char) (cs : List Char) :
    (replacePair a b c cs).head? = some c ∨ (replacePair a b c cs).head? = cs.head? := by
  rcases cs with _ | ⟨x, _ | ⟨y, cs⟩⟩
  · exact .inr rfl
  · exact .inr rfl
  · rw [replacePair]
    split
    · exact .inl rfl
    · exact .inr rfl

/-- **Expanding is two replacements**, first of one escape and then of the other. -/
theorem expandEscapesIn_eq_replacePair (cs : List Char) :
    expandEscapesIn cs = replacePair '\\' 't' '\t' (replacePair '\\' 'n' '\n' cs) := by
  induction cs using escapes_induction with
  | nil => rfl
  | lineFeed cs ih =>
      rw [expandEscapesIn, replacePair, if_pos ⟨rfl, rfl⟩, replacePair_cons (by simp), ih]
  | tab cs ih =>
      have hkept : replacePair '\\' 'n' '\n' ('\\' :: 't' :: cs) =
          '\\' :: 't' :: replacePair '\\' 'n' '\n' cs := by
        rw [replacePair_cons (by simp), replacePair_cons (by simp)]
      rw [expandEscapesIn, hkept, replacePair, if_pos ⟨rfl, rfl⟩, ih]
  | plain c cs hplain ih =>
      rw [expandEscapesIn_cons hplain, ih,
        replacePair_cons fun hpair => hplain ⟨hpair.1, .inl hpair.2⟩, replacePair_cons]
      rintro ⟨hc, hhead⟩
      rcases head?_replacePair '\\' 'n' '\n' cs with hfirst | hfirst
      · simp [hfirst] at hhead
      · exact hplain ⟨hc, .inr (hfirst ▸ hhead)⟩

end Pipewright
