import Pipewright.Proofs.Display.Narrowing
import Pipewright.Proofs.Text.Span

/-!
# Cells in Their Columns

A line of a table is made of pieces that are as wide as their columns, with two blanks between each
two of them. So column `j` starts at the same offset in every such line, whatever the pieces are,
and the piece is found again there. The blanks at the end of a line may be cut, which leaves a
beginning of it.

## Main definitions

* `columnStart`: the offset at which a column starts.
* `fitted`: what a column shows of a cell.
* `HasRoom`: a width that is enough for the cell or for an ellipsis in its place.
* `InColumns`, `ShowsCells`: a line with given texts in its columns; a line that shows given cells,
  but for blanks at its end.

## Main results

* `inColumns_intercalate`: pieces as wide as their columns are found at the offsets.
* `showsCells_rowText`: a row shows its cells.
* `shows_tableLines`: what the lines of a table show as.
-/

namespace Pipewright

/-! ### Characters of texts that are put together -/

/-- A character of two texts is one of theirs. -/
theorem not_mem_append {a : Char} {s t : String} (hs : a ∉ s.toList) (ht : a ∉ t.toList) :
    a ∉ (s ++ t).toList := by
  rw [String.toList_append]
  exact fun hmem => (List.mem_append.mp hmem).elim hs ht

/-- A character of joined texts is one of theirs or of what stands between them. -/
theorem not_mem_intercalate {a : Char} {sep : String} {parts : List String}
    (hsep : a ∉ sep.toList) (hparts : ∀ part ∈ parts, a ∉ part.toList) :
    a ∉ (sep.intercalate parts).toList := by
  induction parts with
  | nil => simp
  | cons part rest ih =>
      have hfirst := hparts part List.mem_cons_self
      have hrest := ih fun p hp => hparts p (List.mem_cons_of_mem part hp)
      cases rest with
      | nil => simpa using hfirst
      | cons next rest =>
          rw [String.intercalate_cons_cons]
          exact not_mem_append (not_mem_append hfirst hsep) hrest

/-- A trimmed text has no other characters than the text. -/
theorem Text.not_mem_trim {a : Char} {s : String} (h : a ∉ s.toList) :
    a ∉ (Text.trim s).toList := by
  rw [Text.trim, String.toList_ofList]
  exact fun ha => h ((Text.trimChars_isInfix s.toList).subset ha)

/-- A text without the blanks at its end has no other characters than the text. -/
theorem Text.not_mem_trimEnd {a : Char} {s : String} (h : a ∉ s.toList) :
    a ∉ (Text.trimEnd s).toList := by
  obtain ⟨blanks, hcut, -⟩ := Text.exists_trimEndChars_append s.toList
  rw [Text.trimEnd, String.toList_ofList]
  exact fun ha => h (hcut ▸ List.mem_append_left blanks ha)

namespace Display

/-! ### Pieces at their offsets -/

/-- The offset at which column `j` starts: behind the columns in front of it, with two blanks
behind each. -/
def columnStart (widths : List Nat) (j : Nat) : Nat :=
  (widths.take j).sum + 2 * j

@[simp] theorem columnStart_zero (widths : List Nat) : columnStart widths 0 = 0 := rfl

@[simp] theorem columnStart_cons_succ (w : Nat) (ws : List Nat) (j : Nat) :
    columnStart (w :: ws) (j + 1) = w + 2 + columnStart ws j := by
  simp only [columnStart, List.take_succ_cons, List.sum_cons]
  omega

/-- The line has the text `texts j` in column `j`, two blanks behind each column but the last, and
nothing else. -/
structure InColumns (widths : List Nat) (texts : Nat → List Char) (line : List Char) : Prop where
  /-- The columns and the blanks between them make up the line. -/
  length_eq : line.length = lineWidth widths
  /-- Each column holds its text. -/
  column : ∀ j < widths.length,
    (line.drop (columnStart widths j)).take (widthAt widths j) = texts j
  /-- Two blanks follow it. -/
  gap : ∀ j, j + 1 < widths.length →
    (line.drop (columnStart widths j + widthAt widths j)).take 2 = [' ', ' ']

/-- Behind the first column and two blanks a line goes on with the others. -/
theorem InColumns.cons {w : Nat} {ws : List Nat} {texts : Nat → List Char} {line : List Char}
    (h : InColumns ws (fun j => texts (j + 1)) line) (hne : ws ≠ [])
    (hw : (texts 0).length = w) :
    InColumns (w :: ws) texts (texts 0 ++ ([' ', ' '] ++ line)) := by
  obtain ⟨v, vs, rfl⟩ := List.exists_cons_of_ne_nil hne
  have hfront : (texts 0 ++ [' ', ' ']).length = w + 2 := by simp [hw]
  have hdrop (n : Nat) : (texts 0 ++ ([' ', ' '] ++ line)).drop (w + 2 + n) = line.drop n := by
    rw [← List.append_assoc, ← hfront, List.drop_length_add_append]
  constructor
  · rw [lineWidth_cons_cons, ← h.length_eq, ← List.append_assoc, List.length_append, hfront]
  · intro j hj
    cases j with
    | zero =>
        rw [columnStart_zero, widthAt_cons_zero, List.drop_zero, ← hw, List.take_left]
    | succ j =>
        rw [columnStart_cons_succ, hdrop, widthAt_cons_succ]
        exact h.column j (Nat.lt_of_succ_lt_succ hj)
  · intro j hj
    cases j with
    | zero =>
        rw [columnStart_zero, widthAt_cons_zero, Nat.zero_add, ← hw, List.drop_left]
        rfl
    | succ j =>
        rw [columnStart_cons_succ, widthAt_cons_succ, Nat.add_assoc, hdrop]
        exact h.gap j (Nat.lt_of_succ_lt_succ hj)

/-- **Pieces as wide as their columns** are found again at the offsets of the columns. -/
theorem inColumns_intercalate {widths : List Nat} {texts : Nat → List Char}
    (hwidth : ∀ j < widths.length, (texts j).length = widthAt widths j) :
    InColumns widths texts
      ([' ', ' '].intercalate ((List.range widths.length).map texts)) := by
  induction widths generalizing texts with
  | nil => exact ⟨rfl, by simp, by simp⟩
  | cons w ws ih =>
      have hfirst : (texts 0).length = w := hwidth 0 (by simp)
      have hrest : InColumns ws (fun j => texts (j + 1))
          ([' ', ' '].intercalate ((List.range ws.length).map fun j => texts (j + 1))) :=
        ih fun j hj => hwidth (j + 1) (Nat.succ_lt_succ hj)
      rw [List.length_cons, List.range_succ_eq_map, List.map_cons, List.map_map]
      cases ws with
      | nil =>
          refine ⟨by simp [lineWidth, hfirst], ?_, by simp⟩
          intro j hj
          obtain rfl : j = 0 := by simpa using hj
          simp [← hfirst]
      | cons v vs =>
          rw [List.intercalate_cons_of_ne_nil (by simp), List.append_assoc]
          exact hrest.cons (List.cons_ne_nil v vs) hfirst

/-! ### Cells -/

/-- What a column of the given width shows of a cell: all of it and blanks behind it or, if it is
longer, its beginning and an ellipsis. -/
def fitted (cell : String) (width : Nat) : List Char :=
  if cell.length ≤ width then cell.toList ++ List.replicate (width - cell.length) ' '
  else cell.toList.take (width - 1) ++ ['…']

/-- A text without escape characters takes up room for each of its characters. -/
theorem visibleLength_of_not_mem {cell : String} (h : '\x1b' ∉ cell.toList) :
    visibleLength cell = cell.length :=
  (shows_self h).visibleLength_eq

/-- The width leaves room for the cell, or for an ellipsis in its place. -/
def HasRoom (cell : String) (width : Nat) : Prop :=
  cell.length ≤ width ∨ 0 < width

theorem length_fitted {cell : String} {width : Nat} (h : HasRoom cell width) :
    (fitted cell width).length = width := by
  rw [fitted]
  split
  next hle =>
    rw [List.length_append, List.length_replicate, String.length_toList]
    omega
  next hlt =>
    rw [List.length_append, List.length_take, String.length_toList, List.length_singleton]
    unfold HasRoom at h
    omega

/-- A column shows what fits of a cell. -/
theorem toList_cellText {cell : String} (hcell : '\x1b' ∉ cell.toList) {width : Nat}
    (h : HasRoom cell width) : (cellText cell width).toList = fitted cell width := by
  have hstrip : stripEscapes cell = cell := (shows_self hcell).stripEscapes_eq
  simp only [cellText, visibleLength_of_not_mem hcell, hstrip, fitted]
  split
  next hle => rw [String.toList_append, String.toList_ofList]
  next hlt =>
    have hpos : width ≠ 0 := by
      unfold HasRoom at h
      omega
    rw [truncate, if_neg hpos, if_neg hlt, String.toList_push, String.toList_ofList]

/-- A text that is cut has no other characters than the text and an ellipsis. -/
theorem not_mem_truncate {a : Char} {s : String} (ha : a ∉ s.toList) (hdots : a ≠ '…')
    (room : Nat) : a ∉ (truncate s room).toList := by
  rw [truncate]
  split
  · simp
  · split
    · exact ha
    · rw [String.toList_push, String.toList_ofList]
      intro hmem
      rcases List.mem_append.mp hmem with hmem | hmem
      · exact ha (List.mem_of_mem_take hmem)
      · exact hdots (List.mem_singleton.mp hmem)

/-- A cell has no other characters than its text, blanks and an ellipsis. -/
theorem not_mem_cellText {a : Char} {cell : String} (hcell : '\x1b' ∉ cell.toList)
    (ha : a ∉ cell.toList) (hblank : a ≠ ' ') (hdots : a ≠ '…') (width : Nat) :
    a ∉ (cellText cell width).toList := by
  have hstrip : stripEscapes cell = cell := (shows_self hcell).stripEscapes_eq
  simp only [cellText, hstrip]
  split
  · refine not_mem_append ha ?_
    rw [String.toList_ofList]
    exact fun hmem => hblank (List.eq_of_mem_replicate hmem)
  · exact not_mem_truncate ha hdots width

/-! ### Lines -/

/-- The line shows the given cells in its columns, but for blanks that are cut at its end. Missing
cells are empty, and cells beyond the columns are not shown. -/
def ShowsCells (widths : List Nat) (cells : List String) (line : List Char) : Prop :=
  ∃ blanks, (∀ c ∈ blanks, Text.isBlank c = true) ∧
    InColumns widths (fun j => fitted (cellAt cells j) (widthAt widths j)) (line ++ blanks)

/-- The pieces of a row of cells. -/
theorem zipWith_cellText {cells : List String} {widths : List Nat}
    (hlength : cells.length = widths.length) :
    List.zipWith cellText cells widths =
      (List.range widths.length).map fun j => cellText (cellAt cells j) (widthAt widths j) := by
  refine List.ext_getElem (by simp [hlength]) fun j hj _ => ?_
  have hcells : j < cells.length := by
    rw [List.length_zipWith] at hj
    omega
  have hwidths : j < widths.length := hlength ▸ hcells
  simp [cellAt, widthAt, hcells, hwidths]

/-- **A row shows its cells** when the columns have room for them. -/
theorem showsCells_rowText {cells : List String} {widths : List Nat}
    (hlength : cells.length = widths.length)
    (hcells : ∀ cell ∈ cells, '\x1b' ∉ cell.toList)
    (hroom : ∀ j < widths.length, HasRoom (cellAt cells j) (widthAt widths j)) :
    ShowsCells widths cells (rowText cells widths).toList := by
  obtain ⟨blanks, hcut, hblanks⟩ :=
    Text.exists_trimEndChars_append ("  ".intercalate (List.zipWith cellText cells widths)).toList
  refine ⟨blanks, hblanks, ?_⟩
  rw [rowText, Text.trimEnd, String.toList_ofList, ← hcut, String.toList_intercalate,
    zipWith_cellText hlength, List.map_map]
  have hgap : "  ".toList = [' ', ' '] := by decide
  have hpieces : (List.range widths.length).map (String.toList ∘ fun j =>
        cellText (cellAt cells j) (widthAt widths j)) =
      (List.range widths.length).map fun j => fitted (cellAt cells j) (widthAt widths j) := by
    refine List.map_congr_left fun j hj => ?_
    have hj := List.mem_range.mp hj
    have hmem : cellAt cells j ∈ cells := by
      rw [cellAt, List.getElem?_eq_getElem (hlength ▸ hj)]
      exact List.getElem_mem _
    exact toList_cellText (hcells _ hmem) (hroom j hj)
  rw [hgap, hpieces]
  exact inColumns_intercalate fun j hj => length_fitted (hroom j hj)

/-- **The rule** fills its columns. -/
theorem inColumns_ruleText (widths : List Nat) :
    InColumns widths (fun j => List.replicate (widthAt widths j) '-') (ruleText widths).toList := by
  have hgap : "  ".toList = [' ', ' '] := by decide
  have hpieces : (widths.map fun w => String.ofList (List.replicate w '-')).map String.toList =
      (List.range widths.length).map fun j => List.replicate (widthAt widths j) '-' := by
    refine List.ext_getElem (by simp) fun j hj _ => ?_
    have hj : j < widths.length := by simpa using hj
    simp [widthAt, hj]
  rw [ruleText, String.toList_intercalate, hgap, hpieces]
  exact inColumns_intercalate fun j _ => List.length_replicate

/-! ### The characters of a table -/

variable {a : Char}

/-- The rule has no other characters than hyphens and blanks. -/
theorem not_mem_ruleText (hblank : a ≠ ' ') (hhyphen : a ≠ '-') (widths : List Nat) :
    a ∉ (ruleText widths).toList := by
  refine not_mem_intercalate ?_ fun piece hpiece => ?_
  · rw [show "  ".toList = [' ', ' '] by decide]
    simp [hblank]
  · obtain ⟨w, -, rfl⟩ := List.mem_map.mp hpiece
    rw [String.toList_ofList]
    exact fun hmem => hhyphen (List.eq_of_mem_replicate hmem)

/-- A row has no other characters than its cells, blanks and ellipses. -/
theorem not_mem_rowText {cells : List String} (hcells : ∀ cell ∈ cells, '\x1b' ∉ cell.toList)
    (ha : ∀ cell ∈ cells, a ∉ cell.toList) (hblank : a ≠ ' ') (hdots : a ≠ '…')
    (widths : List Nat) : a ∉ (rowText cells widths).toList := by
  refine Text.not_mem_trimEnd (not_mem_intercalate ?_ fun piece hpiece => ?_)
  · rw [show "  ".toList = [' ', ' '] by decide]
    simp [hblank]
  · rw [← List.map_uncurry_zip_eq_zipWith] at hpiece
    obtain ⟨⟨cell, width⟩, hmem, rfl⟩ := List.mem_map.mp hpiece
    have hcell := (List.of_mem_zip hmem).1
    rw [Function.uncurry_apply_pair]
    exact not_mem_cellText (hcells cell hcell) (ha cell hcell) hblank hdots width

/-- The cells of a row that a table shows: missing ones are empty, and those beyond the head are
dropped. -/
def shownCells (headers row : List String) : List String :=
  headers.mapIdx fun j _ => cellAt row j

theorem length_shownCells (headers row : List String) :
    (shownCells headers row).length = headers.length :=
  List.length_mapIdx

theorem cellAt_shownCells {headers : List String} (row : List String) {j : Nat}
    (hj : j < headers.length) : cellAt (shownCells headers row) j = cellAt row j := by
  simp [shownCells, cellAt, hj]

theorem not_mem_cellAt {row : List String} (h : ∀ cell ∈ row, a ∉ cell.toList) (j : Nat) :
    a ∉ (cellAt row j).toList := by
  rw [cellAt]
  cases hrow : row[j]? with
  | none => simp
  | some text => exact h text (List.mem_of_getElem? hrow)

theorem not_mem_shownCells {row : List String} (h : ∀ cell ∈ row, a ∉ cell.toList)
    (headers : List String) : ∀ cell ∈ shownCells headers row, a ∉ cell.toList := by
  intro cell hcell
  obtain ⟨j, -, rfl⟩ := List.mem_mapIdx.mp hcell
  exact not_mem_cellAt h j

/-- The style without its colours. -/
def Style.uncolored (style : Style) : Style :=
  { style with color := false }

theorem Style.width_uncolored (style : Style) : style.uncolored.width = style.width :=
  rfl

theorem paint_uncolored (role : Role) (text : String) (style : Style) :
    paint role text style.uncolored = text := by
  simp [paint, Style.uncolored]

/-- **The lines of a table** show as they are without colours. -/
theorem shows_tableLines {headers : List String} {rows : List (List String)}
    (hcells : ∀ cells ∈ headers :: rows, ∀ cell ∈ cells, '\x1b' ∉ cell.toList)
    (widths : List Nat) (style : Style) :
    List.Forall₂ Shows (tableLines headers rows widths style)
      (tableLines headers rows widths style.uncolored) := by
  have hrow {cells : List String} (h : ∀ cell ∈ cells, '\x1b' ∉ cell.toList) :
      '\x1b' ∉ (rowText cells widths).toList :=
    not_mem_rowText h h (by decide) (by decide) widths
  have hrule : '\x1b' ∉ (ruleText widths).toList :=
    not_mem_ruleText (by decide) (by decide) widths
  simp only [tableLines, paint_uncolored]
  refine .cons (shows_paint (hrow (hcells headers List.mem_cons_self)) _ _)
    (.cons (shows_paint hrule _ _) (List.forall₂_same.mpr fun line hline => ?_))
  obtain ⟨row, hmem, rfl⟩ := List.mem_map.mp hline
  exact shows_self (hrow (not_mem_shownCells (hcells row (List.mem_cons_of_mem _ hmem)) headers))

end Display

end Pipewright
