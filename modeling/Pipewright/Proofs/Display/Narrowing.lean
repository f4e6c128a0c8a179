import Mathlib.Algebra.Order.BigOperators.Group.List
import Mathlib.Algebra.Order.Ring.Nat
import Mathlib.Logic.Relation
import Mathlib.Order.Bounds.Basic
import Pipewright.Display.Table
import Pipewright.Proofs.Display.Escapes

/-!
# The Widths of Columns

The columns of a table are as wide as their widest cell and are then narrowed in passes, one
character a pass. A pass looks at the width of the line, which is kept beside the columns and not
summed up anew, and takes its character from the last of the widest columns.

A pass keeps the number of columns and the kept width right, and leaves every column as wide as it
was or at least four characters wide. What one pass keeps all passes keep, and so do the narrowed
widths, which are what the passes come to.

## Main definitions

* `widthAt`: the width of a column.
* `Pass`: one pass.

## Main results

* `isGreatest_naturalWidths`: a column is as wide as its widest cell.
* `passes_shrink`, `not_pass_shrink`, `wellFounded_pass`: the passes come to the narrowed widths and
  end there, and they always come to an end.
* `lineWidth_shrink_le`: how wide a line is at the end.
-/

namespace Pipewright.Display

/-- The width of column `j`. -/
def widthAt (widths : List Nat) (j : Nat) : Nat :=
  widths[j]?.getD 0

@[simp] theorem widthAt_cons_zero (w : Nat) (ws : List Nat) : widthAt (w :: ws) 0 = w := rfl

@[simp] theorem widthAt_cons_succ (w : Nat) (ws : List Nat) (j : Nat) :
    widthAt (w :: ws) (j + 1) = widthAt ws j := rfl

/-! ### The width of a line -/

theorem lineWidth_eq (widths : List Nat) :
    lineWidth widths = widths.sum + 2 * (widths.length - 1) := by
  rw [lineWidth, List.sum_eq_foldr]

theorem lineWidth_cons_cons (w v : Nat) (ws : List Nat) :
    lineWidth (w :: v :: ws) = w + 2 + lineWidth (v :: ws) := by
  simp only [lineWidth_eq, List.sum_cons, List.length_cons]
  omega

/-- A line with columns of at most `w` characters. -/
theorem lineWidth_le {widths : List Nat} {w : Nat} (h : ∀ v ∈ widths, v ≤ w) :
    lineWidth widths ≤ w * widths.length + 2 * (widths.length - 1) := by
  have hsum := List.sum_le_card_nsmul widths w h
  rw [nsmul_eq_mul, Nat.cast_id, Nat.mul_comm] at hsum
  rw [lineWidth_eq]
  exact Nat.add_le_add_right hsum _

/-! ### The widest cell -/

/-- The greatest of a value and the values of a function on a list. -/
theorem isGreatest_foldl_max {α : Type} (f : α → Nat) (n : Nat) (l : List α) :
    IsGreatest {m | m = n ∨ ∃ a ∈ l, m = f a} (l.foldl (fun w a => max w (f a)) n) := by
  induction l generalizing n with
  | nil => exact ⟨.inl rfl, by simp [upperBounds]⟩
  | cons a l ih =>
      obtain ⟨hmem, hbound⟩ := ih (max n (f a))
      refine ⟨?_, ?_⟩
      · rcases hmem with hmax | ⟨b, hb, hfb⟩
        · rcases max_choice n (f a) with hn | ha
          · exact .inl (hmax.trans hn)
          · exact .inr ⟨a, List.mem_cons_self, hmax.trans ha⟩
        · exact .inr ⟨b, List.mem_cons_of_mem a hb, hfb⟩
      · have hfirst := hbound (.inl rfl)
        rintro m (rfl | ⟨b, hb, rfl⟩)
        · exact (le_max_left m (f a)).trans hfirst
        · rcases List.mem_cons.mp hb with rfl | hb
          · exact (le_max_right n (f b)).trans hfirst
          · exact hbound (.inr ⟨b, hb, rfl⟩)

theorem length_naturalWidths (headers : List String) (rows : List (List String)) :
    (naturalWidths headers rows).length = headers.length := by
  simp [naturalWidths]

/-- **A column is as wide as its widest cell**, the header among them. -/
theorem isGreatest_naturalWidths {headers : List String} (rows : List (List String)) {j : Nat}
    (hj : j < headers.length) :
    IsGreatest {n | ∃ cells ∈ headers :: rows, n = visibleLength (cellAt cells j)}
      (widthAt (naturalWidths headers rows) j) := by
  have hgreatest := isGreatest_foldl_max (fun row => visibleLength (cellAt row j))
    (visibleLength (cellAt headers j)) rows
  have hwidth : widthAt (naturalWidths headers rows) j =
      rows.foldl (fun w row => max w (visibleLength (cellAt row j)))
        (visibleLength (cellAt headers j)) := by
    simp [widthAt, naturalWidths, cellAt, hj]
  rw [hwidth]
  simpa only [List.mem_cons, exists_eq_or_imp] using hgreatest

/-! ### One pass -/

/-- One pass over columns with the width of the line beside them: if the line is too wide, and the
widest columns are wider than four, the last of them gives up a character. -/
inductive Pass (room : Nat) : List Nat × Nat → List Nat × Nat → Prop where
  /-- The column between `pre` and `post` is the last of the widest. -/
  | narrow {pre post : List Nat} {w total : Nat} (exceeds : room < total) (wide : 4 < w)
      (widest : ∀ v ∈ pre, v ≤ w) (last : ∀ v ∈ post, v < w) :
      Pass room (pre ++ w :: post, total) (pre ++ (w - 1) :: post, total - 1)

/-- A column of width `v` that had width `w`: it is as it was, or narrower and at least four
characters wide. -/
def Narrowed (w v : Nat) : Prop :=
  v = w ∨ 4 ≤ v ∧ v ≤ w

variable {room : Nat} {s t : List Nat × Nat}

/-- When one column is narrowed, the others are as they were. -/
theorem narrowed_widthAt_append {w v : Nat} (h : Narrowed w v) (pre post : List Nat) (j : Nat) :
    Narrowed (widthAt (pre ++ w :: post) j) (widthAt (pre ++ v :: post) j) := by
  induction pre generalizing j with
  | nil =>
      cases j with
      | zero => exact h
      | succ j => exact .inl rfl
  | cons u pre ih =>
      cases j with
      | zero => exact .inl rfl
      | succ j => exact ih j

/-- A pass takes a character from one column and leaves the others alone. -/
theorem Pass.narrowed (h : Pass room s t) :
    t.1.length = s.1.length ∧ ∀ j, Narrowed (widthAt s.1 j) (widthAt t.1 j) := by
  obtain ⟨exceeds, wide, widest, last⟩ := h
  refine ⟨by simp, narrowed_widthAt_append (.inr ⟨?_, ?_⟩) _ _⟩
  · exact Nat.le_sub_one_of_lt wide
  · exact Nat.sub_le _ 1

/-- A pass keeps the width of the line right. -/
theorem Pass.total (h : Pass room s t) (hs : s.2 = lineWidth s.1) : t.2 = lineWidth t.1 := by
  obtain ⟨exceeds, wide, widest, last⟩ := h
  simp only [lineWidth_eq, List.sum_append, List.sum_cons, List.length_append,
    List.length_cons] at hs ⊢
  omega

/-- Every pass makes the columns narrower, so that **the passes come to an end**. -/
theorem wellFounded_pass (room : Nat) : WellFounded fun t s => Pass room s t := by
  refine Subrelation.wf (fun {t s} h => ?_) (measure fun s : List Nat × Nat => s.1.sum).wf
  show t.1.sum < s.1.sum
  obtain ⟨exceeds, wide, widest, last⟩ := h
  simp only [List.sum_append, List.sum_cons]
  omega

/-! ### All passes -/

theorem Narrowed.trans {u v w : Nat} (h : Narrowed w v) (h' : Narrowed v u) : Narrowed w u := by
  unfold Narrowed at *
  omega

/-- So do any number of passes. -/
theorem narrowed_of_passes (h : Relation.ReflTransGen (Pass room) s t) :
    t.1.length = s.1.length ∧ ∀ j, Narrowed (widthAt s.1 j) (widthAt t.1 j) := by
  induction h with
  | refl => exact ⟨rfl, fun j => .inl rfl⟩
  | tail _ hpass ih =>
      obtain ⟨hlength, hnarrowed⟩ := hpass.narrowed
      exact ⟨hlength.trans ih.1, fun j => (ih.2 j).trans (hnarrowed j)⟩

/-- Where the widest columns stand, and what narrowing the last of them leaves. -/
theorem exists_narrowLast_eq {w : Nat} {widths : List Nat} (hmem : w ∈ widths)
    (hmax : ∀ v ∈ widths, v ≤ w) :
    ∃ pre post, widths = pre ++ w :: post ∧ (∀ v ∈ pre, v ≤ w) ∧ (∀ v ∈ post, v < w) ∧
      narrowLast w widths = pre ++ (w - 1) :: post := by
  induction widths with
  | nil => exact absurd hmem List.not_mem_nil
  | cons v vs ih =>
      by_cases hlater : w ∈ vs
      · obtain ⟨pre, post, rfl, hpre, hpost, hnarrow⟩ :=
          ih hlater fun u hu => hmax u (List.mem_cons_of_mem v hu)
        refine ⟨v :: pre, post, rfl, ?_, hpost, ?_⟩
        · intro u hu
          rcases List.mem_cons.mp hu with rfl | hu
          · exact hmax u List.mem_cons_self
          · exact hpre u hu
        · rw [narrowLast, if_pos (List.contains_iff_mem.mpr hlater), hnarrow]
          rfl
      · obtain rfl : w = v := (List.mem_cons.mp hmem).resolve_right hlater
        refine ⟨[], vs, rfl, by simp, fun u hu => ?_, ?_⟩
        · have hle := hmax u (List.mem_cons_of_mem w hu)
          exact Nat.lt_of_le_of_ne hle fun heq => hlater (heq ▸ hu)
        · rw [narrowLast, if_neg (fun hc => hlater (List.contains_iff_mem.mp hc)),
            if_pos (beq_self_eq_true w)]
          rfl

/-- Narrowing the widest column is a pass. -/
theorem pass_narrowLast {widths : List Nat} {w : Nat} (hmax : widths.max? = some w)
    (hover : room < lineWidth widths) (hwide : 4 < w) :
    Pass room (widths, lineWidth widths)
      (narrowLast w widths, lineWidth (narrowLast w widths)) := by
  obtain ⟨hmem, hle⟩ := List.max?_eq_some_iff.mp hmax
  obtain ⟨pre, post, hwidths, hpre, hpost, hnarrow⟩ := exists_narrowLast_eq hmem hle
  have hpass : Pass room (pre ++ w :: post, lineWidth widths)
      (pre ++ (w - 1) :: post, lineWidth widths - 1) :=
    .narrow hover hwide hpre hpost
  rw [← hwidths, ← hnarrow] at hpass
  have htotal : lineWidth widths - 1 = lineWidth (narrowLast w widths) := hpass.total rfl
  rwa [htotal] at hpass

/-- **The passes come to the narrowed widths.** -/
theorem passes_shrink (room : Nat) (widths : List Nat) :
    Relation.ReflTransGen (Pass room) (widths, lineWidth widths)
      (shrink room widths, lineWidth (shrink room widths)) := by
  fun_induction shrink room widths with
  | case1 widths hnone => exact .refl
  | case2 widths w hmax hwide ih => exact .head (pass_narrowLast hmax hwide.1 hwide.2) ih
  | case3 widths w hmax hstop => exact .refl

/-- At the end the line fits, or no column is wider than four. -/
theorem shrink_fits (room : Nat) (widths : List Nat) :
    lineWidth (shrink room widths) ≤ room ∨ ∀ w ∈ shrink room widths, w ≤ 4 := by
  fun_induction shrink room widths with
  | case1 widths hnone =>
      rw [List.max?_eq_none_iff.mp hnone]
      exact .inr (by simp)
  | case2 widths w hmax hwide ih => exact ih
  | case3 widths w hmax hstop =>
      rcases not_and_or.mp hstop with hfits | hslim
      · exact .inl (Nat.le_of_not_lt hfits)
      · exact .inr fun v hv =>
          ((List.max?_eq_some_iff.mp hmax).2 v hv).trans (Nat.le_of_not_lt hslim)

/-- **The passes end there.** -/
theorem not_pass_shrink (room : Nat) (widths : List Nat) (t : List Nat × Nat) :
    ¬ Pass room (shrink room widths, lineWidth (shrink room widths)) t := by
  intro h
  generalize hs : (shrink room widths, lineWidth (shrink room widths)) = s at h
  obtain ⟨exceeds, wide, widest, last⟩ := h
  obtain ⟨hwidths, htotal⟩ := Prod.mk.inj hs
  rcases shrink_fits room widths with hfits | hslim
  · exact Nat.not_lt.mpr (htotal ▸ hfits) exceeds
  · exact Nat.not_lt.mpr (hslim _ (hwidths ▸ List.mem_append_right _ List.mem_cons_self)) wide

theorem length_shrink (room : Nat) (widths : List Nat) :
    (shrink room widths).length = widths.length :=
  (narrowed_of_passes (passes_shrink room widths)).1

/-- Every column is as it was, or narrower and at least four characters wide. -/
theorem narrowed_widthAt_shrink (room : Nat) (widths : List Nat) (j : Nat) :
    Narrowed (widthAt widths j) (widthAt (shrink room widths) j) :=
  (narrowed_of_passes (passes_shrink room widths)).2 j

/-- Columns that fit are left alone. -/
theorem shrink_eq_self {widths : List Nat} (h : lineWidth widths ≤ room) :
    shrink room widths = widths := by
  rw [shrink]
  split
  · rfl
  · exact dif_neg fun hwide => Nat.not_lt.mpr h hwide.1

/-- **A line is no wider** than the terminal at the end, or than columns of four characters make
it. -/
theorem lineWidth_shrink_le (room : Nat) {widths : List Nat} (hne : widths ≠ []) :
    lineWidth (shrink room widths) ≤ max room (6 * widths.length - 2) := by
  rcases shrink_fits room widths with hfits | hslim
  · exact hfits.trans (le_max_left _ _)
  · have hpos := List.length_pos_of_ne_nil hne
    have hle := lineWidth_le hslim
    rw [length_shrink] at hle
    omega

end Pipewright.Display
