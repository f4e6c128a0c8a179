import Pipewright.Head
import Pipewright.Proofs.Text.Cut

/-!
# The Longest Head of a Text

A preview of pasted text runs on the beginning of the text, which is bounded in lines and in
bytes. Nothing within the bounds may be left out, or a record would be missing from the preview
without a word. This module counts the lines of a text without cutting it into lines and says that
`textHead` is the longest beginning of the text within both bounds. There is one such beginning
only, so that bounding a text twice changes nothing.

The first lines of a text are found by following the text character by character: a line feed
takes one line off the count that is left, and nothing follows when none is left
(`firstLines_lineFeed`, `firstLines_of_ne`).

## Main definitions

* `Text.lineCount`: the number of lines of a text.
* `IsLongestHead`: the longest beginning of a text within both bounds.

## Main results

* `firstLines_isPrefix`, `lineCount_firstLines_le`, `isPrefix_firstLines`: the first lines of a
  text are its longest beginning with no more lines.
* `IsLongestHead.unique`: a text has one longest head.
* `longest_textHead`: the head of a text is its longest head, once and for all.
-/

namespace Pipewright

open Text (byteLength)

/-! ### The number of lines -/

/-- The number of lines of the text: one for every line feed, and one more if something follows
the last of them. -/
def Text.lineCount (cs : List Char) : Nat :=
  cs.count '\n' + if cs = [] ∨ cs.getLast? = some '\n' then 0 else 1

open Text (lineCount)

/-- The empty text has no lines. -/
@[simp] theorem lineCount_nil : lineCount [] = 0 := rfl

/-- A text has lines. -/
theorem lineCount_pos {cs : List Char} (h : cs ≠ []) : 0 < lineCount cs := by
  rw [lineCount]
  split
  next hend =>
    have hmem : '\n' ∈ cs := List.mem_of_getLast? (hend.resolve_left h)
    have hcount := List.count_pos_iff.mpr hmem
    omega
  next => omega

/-- A line feed ends a line. -/
theorem lineCount_lineFeed (cs : List Char) : lineCount ('\n' :: cs) = lineCount cs + 1 := by
  rcases eq_or_ne cs [] with rfl | hne
  · rfl
  · simp only [lineCount, List.count_cons_self, List.getLast?_cons_of_ne_nil hne, hne,
      reduceCtorEq, false_or]
    omega

/-- Any other character belongs to the first line of what follows, or is a line of its own. -/
theorem lineCount_of_ne {c : Char} (hc : c ≠ '\n') (cs : List Char) :
    lineCount (c :: cs) = max 1 (lineCount cs) := by
  rcases eq_or_ne cs [] with rfl | hne
  · simp [lineCount, hc]
  · have hpos := lineCount_pos hne
    have hsame : lineCount (c :: cs) = lineCount cs := by
      simp only [lineCount, List.count_cons_of_ne hc, List.getLast?_cons_of_ne_nil hne, hne,
        reduceCtorEq, false_or]
    omega

/-- A beginning of a text has no more lines than the text. -/
theorem lineCount_le_of_isPrefix {a cs : List Char} (h : a <+: cs) :
    lineCount a ≤ lineCount cs := by
  induction a generalizing cs with
  | nil => exact Nat.zero_le _
  | cons c a ih =>
      obtain ⟨b, rfl⟩ := h
      have hrest := ih (List.prefix_append a b)
      rw [List.cons_append]
      by_cases hc : c = '\n'
      · rw [hc, lineCount_lineFeed, lineCount_lineFeed]
        omega
      · rw [lineCount_of_ne hc, lineCount_of_ne hc]
        omega

/-! ### The first lines -/

/-- There is nothing in no lines. -/
@[simp] theorem firstLines_zero (cs : List Char) : firstLines 0 cs = [] := by
  simp [firstLines]

/-- The empty text has no lines to take. -/
@[simp] theorem firstLines_nil (n : Nat) : firstLines n [] = [] := by
  simp [firstLines, Text.linePieces, Text.piecesBehind]

/-- Behind a line feed there is one line less to take. -/
theorem firstLines_lineFeed (n : Nat) (cs : List Char) :
    firstLines (n + 1) ('\n' :: cs) = '\n' :: firstLines n cs := by
  simp [firstLines, Text.linePieces, Text.piecesBehind]

/-- Behind any other character the line goes on. -/
theorem firstLines_of_ne {c : Char} (hc : c ≠ '\n') (n : Nat) (cs : List Char) :
    firstLines (n + 1) (c :: cs) = c :: firstLines (n + 1) cs := by
  simp only [firstLines, Text.linePieces, Text.piecesBehind, beq_iff_eq, hc, if_false]
  cases Text.piecesBehind (· == '\n') cs <;> simp

/-- The first lines are a beginning of the text. -/
theorem firstLines_isPrefix (n : Nat) (cs : List Char) : firstLines n cs <+: cs := by
  induction cs generalizing n with
  | nil => simp
  | cons c cs ih =>
      cases n with
      | zero => simp
      | succ n =>
          by_cases hc : c = '\n'
          · rw [hc, firstLines_lineFeed]
            exact (List.prefix_cons_inj _).mpr (ih n)
          · rw [firstLines_of_ne hc]
            exact (List.prefix_cons_inj _).mpr (ih (n + 1))

/-- There are no more of them than are asked for. -/
theorem lineCount_firstLines_le (n : Nat) (cs : List Char) : lineCount (firstLines n cs) ≤ n := by
  induction cs generalizing n with
  | nil => simp
  | cons c cs ih =>
      cases n with
      | zero => simp
      | succ n =>
          by_cases hc : c = '\n'
          · have hrest := ih n
            rw [hc, firstLines_lineFeed, lineCount_lineFeed]
            omega
          · have hrest := ih (n + 1)
            rw [firstLines_of_ne hc, lineCount_of_ne hc]
            omega

/-- **No longer beginning of the text** has as few lines. -/
theorem isPrefix_firstLines {n : Nat} {a cs : List Char} (ha : a <+: cs)
    (hlines : lineCount a ≤ n) : a <+: firstLines n cs := by
  induction a generalizing n cs with
  | nil => exact List.nil_prefix
  | cons c a ih =>
      obtain ⟨b, rfl⟩ := ha
      have hpos := lineCount_pos (List.cons_ne_nil c a)
      obtain ⟨n, rfl⟩ : ∃ m, n = m + 1 := ⟨n - 1, by omega⟩
      rw [List.cons_append]
      by_cases hc : c = '\n'
      · rw [hc, lineCount_lineFeed] at hlines
        rw [hc, firstLines_lineFeed]
        exact (List.prefix_cons_inj _).mpr (ih (List.prefix_append a b) (by omega))
      · rw [lineCount_of_ne hc] at hlines
        rw [firstLines_of_ne hc]
        exact (List.prefix_cons_inj _).mpr (ih (List.prefix_append a b) (by omega))

/-! ### The head of a text -/

/-- The text `head` is the longest beginning of `text` with at most `maxLines` lines and at most
`maxBytes` bytes. -/
structure IsLongestHead (maxLines maxBytes : Nat) (text head : String) : Prop where
  /-- It is a beginning of the text. -/
  isPrefix : head.toList <+: text.toList
  /-- It keeps within the number of lines. -/
  lines : lineCount head.toList ≤ maxLines
  /-- It keeps within the number of bytes. -/
  bytes : byteLength head.toList ≤ maxBytes
  /-- Every longer beginning of the text has too many lines or too many bytes. -/
  longest : ∀ longer : List Char, longer <+: text.toList →
    head.toList.length < longer.length →
      maxLines < lineCount longer ∨ maxBytes < byteLength longer

/-- **A text has one longest head.** -/
theorem IsLongestHead.unique {maxLines maxBytes : Nat} {text head head' : String}
    (h : IsLongestHead maxLines maxBytes text head)
    (h' : IsLongestHead maxLines maxBytes text head') : head = head' := by
  have hle {a b : String} (ha : IsLongestHead maxLines maxBytes text a)
      (hb : IsLongestHead maxLines maxBytes text b) : b.toList.length ≤ a.toList.length := by
    by_contra hlt
    rcases ha.longest _ hb.isPrefix (by omega) with hlines | hbytes
    · exact absurd hb.lines (by omega)
    · exact absurd hb.bytes (by omega)
  have hbegins := List.prefix_of_prefix_length_le h.isPrefix h'.isPrefix (hle h' h)
  exact String.toList_inj.mp (hbegins.eq_of_length_le (hle h h'))

/-- A text within both bounds is its own longest head. -/
theorem isLongestHead_self {maxLines maxBytes : Nat} {text : String}
    (hlines : lineCount text.toList ≤ maxLines) (hbytes : byteLength text.toList ≤ maxBytes) :
    IsLongestHead maxLines maxBytes text text where
  isPrefix := List.prefix_rfl
  lines := hlines
  bytes := hbytes
  longest longer hlonger hlt := absurd hlonger.length_le (by omega)

/-- The head of a text is its longest head. -/
theorem isLongestHead_textHead (text : String) (maxLines maxBytes : Nat) :
    IsLongestHead maxLines maxBytes text (textHead text maxLines maxBytes) := by
  have hhead : (textHead text maxLines maxBytes).toList =
      Text.takeWithin maxBytes (firstLines maxLines text.toList) := String.toList_ofList
  have hcut := Text.takeWithin_isPrefix maxBytes (firstLines maxLines text.toList)
  refine ⟨?_, ?_, ?_, fun longer hlonger hlt => ?_⟩
  · exact hhead ▸ hcut.trans (firstLines_isPrefix maxLines text.toList)
  · exact hhead ▸ (lineCount_le_of_isPrefix hcut).trans (lineCount_firstLines_le _ _)
  · exact hhead ▸ Text.byteLength_takeWithin_le maxBytes (firstLines maxLines text.toList)
  · by_contra hwithin
    rw [not_or, Nat.not_lt, Nat.not_lt] at hwithin
    have hfirst := isPrefix_firstLines hlonger hwithin.1
    have hfits := (Text.isPrefix_takeWithin hfirst hwithin.2).length_le
    rw [hhead] at hlt
    omega

/-- **The head of a text is its longest head**: it is the longest beginning of the text within both
bounds. Bounding it again changes nothing, and the search for the cut always ends at a boundary,
which is the end of the head if the first lines have too many bytes. -/
theorem longest_textHead (text : String) (maxLines maxBytes : Nat) :
    IsLongestHead maxLines maxBytes text (textHead text maxLines maxBytes) ∧
      textHead (textHead text maxLines maxBytes) maxLines maxBytes =
        textHead text maxLines maxBytes ∧
      ∃ cut ≤ maxBytes, Text.boundaryUpTo? maxBytes (firstLines maxLines text.toList) = some cut ∧
        (maxBytes < byteLength (firstLines maxLines text.toList) →
          byteLength (textHead text maxLines maxBytes).toList = cut) := by
  have hlongest := isLongestHead_textHead text maxLines maxBytes
  refine ⟨hlongest, ?_, ?_⟩
  · exact (isLongestHead_textHead _ _ _).unique (isLongestHead_self hlongest.lines hlongest.bytes)
  · obtain ⟨cut, hfound, hle, -⟩ :=
      Text.exists_boundaryUpTo? maxBytes (firstLines maxLines text.toList)
    refine ⟨cut, hle, hfound, fun hlong => ?_⟩
    obtain ⟨-, -, hcut⟩ := Text.exists_takeWithin_eq hlong
    rw [textHead, String.toList_ofList]
    exact (Option.some.inj (hfound.symm.trans hcut)).symm

end Pipewright
