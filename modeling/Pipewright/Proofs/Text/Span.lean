import Mathlib.Data.List.Infix
import Mathlib.Data.List.TakeWhile
import Pipewright.Text.Alphanumeric
import Pipewright.Text.Blank
import Pipewright.Text.Measure

/-!
# Spans of a Text

A text that is cut at the byte offsets of two of its pieces yields the piece between
them, and trimming leaves a text alone that neither starts nor ends with a blank. These
are the two facts by which a stage of a pipeline is found again in its command line.

## Main results

* `slice_append`: the span of the middle piece of three is that piece.
* `isBoundary_iff`: the boundaries of a text are the ends of the pieces that it starts with.
* `Trimmed.trimChars_eq`: a text without blanks at its ends is its own trimmed form.
* `trimmed_trimChars`: the trimmed form of a text has no blanks at its ends.
* `trimEndChars_append`: what is trimmed stands behind the last character that is no blank.
-/

namespace Pipewright.Text

/-! ### Byte lengths and slices -/

/-- The empty text has no bytes. -/
@[simp] theorem byteLength_nil : byteLength [] = 0 := rfl

/-- A character counts with the bytes of its UTF-8 form. -/
@[simp] theorem byteLength_cons (c : Char) (cs : List Char) :
    byteLength (c :: cs) = c.utf8Size + byteLength cs := rfl

/-- The bytes of two pieces add up. -/
@[simp] theorem byteLength_append (a b : List Char) :
    byteLength (a ++ b) = byteLength a + byteLength b := by
  induction a with
  | nil => simp
  | cons c cs ih =>
      rw [List.cons_append, byteLength_cons, byteLength_cons, ih, Nat.add_assoc]

/-- Dropping at the end of the first piece leaves the second. -/
theorem dropBytes_append (a b : List Char) : dropBytes (byteLength a) (a ++ b) = b := by
  induction a with
  | nil => simp [dropBytes]
  | cons c cs ih =>
      have hpos := c.utf8Size_pos
      rw [List.cons_append, byteLength_cons, dropBytes.eq_3 _ _ _ (by omega),
        Nat.add_sub_cancel_left, ih]

/-- Taking up to the end of the first piece leaves that piece. -/
theorem takeBytes_append (a b : List Char) : takeBytes (byteLength a) (a ++ b) = a := by
  induction a with
  | nil => simp [takeBytes]
  | cons c cs ih =>
      have hpos := c.utf8Size_pos
      rw [List.cons_append, byteLength_cons, takeBytes.eq_3 _ _ _ (by omega),
        Nat.add_sub_cancel_left, ih]

/-- A byte offset cuts a text in one way only. -/
theorem append_inj_of_byteLength {a b c d : List Char} (h : a ++ b = c ++ d)
    (hlength : byteLength a = byteLength c) : a = c ∧ b = d := by
  obtain rfl : a = c := by
    rw [← takeBytes_append a b, h, hlength, takeBytes_append]
  exact ⟨rfl, List.append_cancel_left h⟩

/-- Of two cuts through a text the one further on leaves more in front of it. -/
theorem exists_append_of_byteLength_le {a b c d : List Char} (h : a ++ b = c ++ d)
    (hlength : byteLength a ≤ byteLength c) : ∃ y, c = a ++ y ∧ b = y ++ d := by
  rcases List.append_eq_append_iff.mp h with hfront | ⟨y, rfl, rfl⟩
  · exact hfront
  · have hnone : y = [] := by
      rcases y with _ | ⟨e, y⟩
      · rfl
      · have hpos := e.utf8Size_pos
        rw [byteLength_append, byteLength_cons] at hlength
        omega
    exact ⟨[], by simp [hnone], by simp [hnone]⟩

/-- **The span of a piece.** Cutting at the byte offsets where the middle of three pieces
starts and stops yields that piece. -/
theorem slice_append (a b c : List Char) :
    slice (byteLength a) (byteLength a + byteLength b) (a ++ b ++ c) = b := by
  rw [slice, List.append_assoc, dropBytes_append, Nat.add_sub_cancel_left, takeBytes_append]

/-- The span of a piece that is known by its offsets. -/
theorem slice_eq {start stop : Nat} {a b c cs : List Char} (hcs : cs = a ++ b ++ c)
    (hstart : start = byteLength a) (hstop : stop = byteLength a + byteLength b) :
    slice start stop cs = b := by
  rw [hcs, hstart, hstop, slice_append]

/-- The end of a piece of a text is a boundary of the text. -/
theorem isBoundary_append (a b : List Char) : isBoundary (byteLength a) (a ++ b) = true := by
  induction a with
  | nil => simp [isBoundary]
  | cons c a ih =>
      have hpos := c.utf8Size_pos
      rw [List.cons_append, byteLength_cons, isBoundary.eq_3 _ _ _ (by omega),
        if_neg (by omega), Nat.add_sub_cancel_left, ih]

/-- **The boundaries of a text** are the ends of the pieces that it starts with. -/
theorem isBoundary_iff {n : Nat} {cs : List Char} :
    isBoundary n cs = true ↔ ∃ a b, cs = a ++ b ∧ n = byteLength a := by
  refine ⟨fun h => ?_, fun ⟨a, b, hcs, hn⟩ => hcs ▸ hn ▸ isBoundary_append a b⟩
  induction cs generalizing n with
  | nil =>
      cases n with
      | zero => exact ⟨[], [], rfl, rfl⟩
      | succ n => exact absurd h (by simp [isBoundary])
  | cons c cs ih =>
      rcases Nat.eq_zero_or_pos n with rfl | hn
      · exact ⟨[], c :: cs, rfl, rfl⟩
      rw [isBoundary.eq_3 _ _ _ (by omega)] at h
      split at h
      · exact absurd h (by decide)
      · obtain ⟨a, b, rfl, hlength⟩ := ih h
        exact ⟨c :: a, b, rfl, by rw [byteLength_cons]; omega⟩

/-! ### Texts without blanks at their ends -/

/-- The text neither starts nor ends with a blank. -/
structure Trimmed (cs : List Char) : Prop where
  /-- The first character is no blank. -/
  head : ∀ c ∈ cs.head?, isBlank c = false
  /-- The last character is no blank. -/
  last : ∀ c ∈ cs.getLast?, isBlank c = false

/-- Whether a text has blanks at its ends can be decided. -/
instance (cs : List Char) : Decidable (Trimmed cs) :=
  -- named, so that only the characters at the ends are looked at
  have := Option.decidableForallMem (p := fun c => isBlank c = false) cs.head?
  have := Option.decidableForallMem (p := fun c => isBlank c = false) cs.getLast?
  decidable_of_iff ((∀ c ∈ cs.head?, isBlank c = false) ∧ ∀ c ∈ cs.getLast?, isBlank c = false)
    ⟨fun h => ⟨h.1, h.2⟩, fun h => ⟨h.head, h.last⟩⟩

/-- Nothing is dropped in front of a list whose first element fails the test. -/
theorem dropWhile_eq_self {α : Type} {p : α → Bool} {l : List α}
    (h : ∀ a ∈ l.head?, p a = false) : l.dropWhile p = l := by
  cases l with
  | nil => rfl
  | cons a as => rw [List.dropWhile_cons_of_neg (by simp [h a rfl])]

/-- A text without blanks at its ends is its own trimmed form. -/
theorem Trimmed.trimChars_eq {cs : List Char} (h : Trimmed cs) : trimChars cs = cs := by
  have hhead : cs.dropWhile isBlank = cs := dropWhile_eq_self h.head
  have hlast : cs.reverse.dropWhile isBlank = cs.reverse :=
    dropWhile_eq_self (by rw [List.head?_reverse]; exact h.last)
  rw [trimChars, trimEndChars, dropWhileEnd, hhead, hlast, List.reverse_reverse]

/-- A string without blanks at its ends is its own trimmed form. -/
theorem Trimmed.trim_eq {s : String} (h : Trimmed s.toList) : trim s = s := by
  rw [trim, h.trimChars_eq, String.ofList_toList]

/-- What is left when elements are dropped in front starts with one that is kept. -/
theorem eq_false_of_mem_head?_dropWhile {α : Type} {p : α → Bool} {l : List α} :
    ∀ a ∈ (l.dropWhile p).head?, p a = false := by
  intro a ha
  have hkept := List.head?_dropWhile_not p l
  rw [Option.mem_def.mp ha] at hkept
  exact hkept

/-- A trimmed text has no blanks at its ends. -/
theorem trimmed_trimChars (cs : List Char) : Trimmed (trimChars cs) where
  head c hc := by
    obtain ⟨blanks, hblanks⟩ := List.dropWhile_suffix isBlank (l := (cs.dropWhile isBlank).reverse)
    have hfront : cs.dropWhile isBlank = trimChars cs ++ blanks.reverse := by
      rw [trimChars, trimEndChars, dropWhileEnd, ← List.reverse_append, hblanks,
        List.reverse_reverse]
    refine eq_false_of_mem_head?_dropWhile (l := cs) c ?_
    rw [hfront, List.head?_append, Option.mem_def.mp hc]
    rfl
  last c hc := by
    rw [trimChars, trimEndChars, dropWhileEnd, List.getLast?_reverse] at hc
    exact eq_false_of_mem_head?_dropWhile c hc

/-- The trimmed form of a text is a piece of it. -/
theorem trimChars_isInfix (cs : List Char) : trimChars cs <:+: cs := by
  have hfront : cs.dropWhile isBlank <:+: cs := (List.dropWhile_suffix isBlank).isInfix
  have hback : trimChars cs <+: cs.dropWhile isBlank := by
    have hreversed : (trimChars cs).reverse <:+ (cs.dropWhile isBlank).reverse := by
      rw [trimChars, trimEndChars, dropWhileEnd, List.reverse_reverse]
      exact List.dropWhile_suffix isBlank
    exact List.reverse_suffix.mp hreversed
  exact hback.isInfix.trans hfront

/-- Trimming twice is trimming once. -/
@[simp] theorem trim_trim (s : String) : trim (trim s) = trim s := by
  refine Trimmed.trim_eq ?_
  rw [trim, String.toList_ofList]
  exact trimmed_trimChars s.toList

/-- A text that starts with no blank is trimmed at its end only. -/
theorem trimChars_eq_trimEndChars {cs : List Char} (h : ∀ c ∈ cs.head?, isBlank c = false) :
    trimChars cs = trimEndChars cs := by
  rw [trimChars, dropWhile_eq_self h]

/-- What is trimmed at the end of a text are blanks. -/
theorem exists_trimEndChars_append (cs : List Char) :
    ∃ blanks, cs = trimEndChars cs ++ blanks ∧ ∀ c ∈ blanks, isBlank c = true := by
  refine ⟨(cs.reverse.takeWhile isBlank).reverse, ?_, fun c hc => ?_⟩
  · rw [trimEndChars, dropWhileEnd, ← List.reverse_append, List.takeWhile_append_dropWhile,
      List.reverse_reverse]
  · exact List.mem_takeWhile_imp (List.mem_reverse.mp hc)

section Kept

variable {cs : List Char} {c : Char}

/-- A character that is no blank stays when the blanks in front are dropped. -/
theorem mem_dropWhile_isBlank (hc : c ∈ cs) (hblank : isBlank c = false) :
    c ∈ cs.dropWhile isBlank := by
  rw [← List.takeWhile_append_dropWhile (p := isBlank) (l := cs), List.mem_append] at hc
  refine hc.resolve_left fun htake => ?_
  have := List.mem_takeWhile_imp htake
  rw [hblank] at this
  exact Bool.false_ne_true this

/-- A character that is no blank stays when the blanks at the end are dropped. -/
theorem mem_trimEndChars (hc : c ∈ cs) (hblank : isBlank c = false) : c ∈ trimEndChars cs := by
  rw [trimEndChars, dropWhileEnd, List.mem_reverse]
  exact mem_dropWhile_isBlank (List.mem_reverse.mpr hc) hblank

/-- A text with a character that is no blank is not blank. -/
theorem trimChars_ne_nil (hc : c ∈ cs) (hblank : isBlank c = false) : trimChars cs ≠ [] :=
  List.ne_nil_of_mem (mem_trimEndChars (mem_dropWhile_isBlank hc hblank) hblank)

/-- Nothing in front of a character that is no blank is dropped at the end. -/
theorem trimEndChars_append (hc : c ∈ cs) (hblank : isBlank c = false) (front : List Char) :
    trimEndChars (front ++ cs) = front ++ trimEndChars cs := by
  have hkept := List.ne_nil_of_mem (mem_dropWhile_isBlank (List.mem_reverse.mpr hc) hblank)
  rw [trimEndChars, trimEndChars, dropWhileEnd, dropWhileEnd, List.reverse_append,
    List.dropWhile_append, if_neg (by simpa using hkept), List.reverse_append,
    List.reverse_reverse]

end Kept

/-- Two texts without blanks at their ends have none at the ends of a text that starts with
the one and ends with the other. -/
theorem Trimmed.append {a c : List Char} (ha : Trimmed a) (hane : a ≠ []) (b : List Char)
    (hc : Trimmed c) (hcne : c ≠ []) : Trimmed (a ++ b ++ c) := by
  obtain ⟨d, a, rfl⟩ := List.exists_cons_of_ne_nil hane
  refine ⟨ha.head, fun e he => hc.last e ?_⟩
  rw [List.getLast?_append, List.getLast?_eq_some_getLast hcne] at he
  rw [List.getLast?_eq_some_getLast hcne]
  exact he

/-! ### Letters and digits -/

/-- The code points of the blanks. -/
def blankCodes : List Nat :=
  List.range' 0x9 5 ++ [0x20, 0x85, 0xA0, 0x1680] ++ List.range' 0x2000 11 ++
    [0x2028, 0x2029, 0x202F, 0x205F, 0x3000]

/-- The blanks are the characters with these code points. -/
theorem isBlank_iff_mem {c : Char} : isBlank c = true ↔ c.toNat ∈ blankCodes := by
  simp [isBlank, blankCodes, List.mem_range'_1]
  omega

/-- A letter or a digit is no blank. -/
theorem isBlank_of_isAlphanumeric {c : Char} (h : isAlphanumeric c = true) :
    isBlank c = false := by
  have hcodes : ∀ n ∈ blankCodes, isAlphanumeric (Char.ofNat n) = false := by decide +kernel
  cases hblank : isBlank c with
  | false => rfl
  | true =>
      have hc := hcodes c.toNat (isBlank_iff_mem.mp hblank)
      rw [Char.ofNat_toNat, h] at hc
      exact absurd hc (by decide)

end Pipewright.Text
