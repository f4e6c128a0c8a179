import Pipewright.Proofs.Display.Columns

/-!
# Tables Fit and Stay Aligned

A table has a line for its head, a rule and a line for each row. What a reader sees of them, with
the colours taken away, is told by the widths of the columns alone: each column starts at one offset
in all lines, and what stands there is the cell, padded or cut. The widths are those of the widest
cells when these fit, and otherwise what the passes of the narrowing leave of them, so that no line
is wider than the terminal unless the columns are at their narrowest.

## Main definitions

* `visibleLines`: the lines of a text without their escape sequences.
* `IsLaidOut`: how the lines of a table look.

## Main results

* `hasRoom_shrink`: narrowed columns have room for every cell or for an ellipsis in its place.
* `isLaidOut_table`: so look the lines of every table.
-/

namespace Pipewright.Display

/-- The lines of a text without their escape sequences. -/
def visibleLines (text : String) : List (List Char) :=
  (text.toList.splitOn '\n').map (stripFrom false)

/-- How the lines of a table look that has the given head and rows and columns of the given widths,
in a terminal that shows `room` characters in a line. -/
structure IsLaidOut (headers : List String) (rows : List (List String)) (room : Nat)
    (widths : List Nat) (head rule : List Char) (body : List (List Char)) : Prop where
  /-- There is a column for each header, -/
  columns : widths.length = headers.length
  /-- and a line for each row. -/
  count : body.length = rows.length
  /-- No line is wider than the terminal, or than columns of four characters make it. -/
  bounded : ∀ line ∈ head :: rule :: body, line.length ≤ max room (6 * headers.length - 2)
  /-- The first line shows the headers in their columns, -/
  head : ShowsCells widths headers head
  /-- the second one fills the columns with hyphens, -/
  rule : InColumns widths (fun j => List.replicate (widthAt widths j) '-') rule
  /-- and each other one shows the cells of its row. -/
  body : List.Forall₂ (ShowsCells widths) rows body
  /-- The natural width of a column is that of its widest cell, the header among them. -/
  natural : ∀ j < headers.length,
    IsGreatest {n | ∃ cells ∈ headers :: rows, n = (cellAt cells j).length}
      (widthAt (naturalWidths headers rows) j)
  /-- No cell is cut when a line with columns of their natural widths fits. -/
  uncut : lineWidth (naturalWidths headers rows) ≤ room →
    ∀ cells ∈ headers :: rows, ∀ j < headers.length,
      (cellAt cells j).length ≤ widthAt widths j
  /-- The passes take the natural widths to those of the columns, -/
  passes : Relation.ReflTransGen (Pass room)
    (naturalWidths headers rows, lineWidth (naturalWidths headers rows))
    (widths, lineWidth widths)
  /-- where there is none left to do, -/
  ended : ∀ t, ¬ Pass room (widths, lineWidth widths) t
  /-- and no passes go on without end. -/
  finite : WellFounded fun t s => Pass room s t

variable {headers : List String} {rows : List (List String)}

/-- Only what stands in the columns counts for the texts in them. -/
theorem InColumns.congr {widths : List Nat} {texts texts' : Nat → List Char} {line : List Char}
    (h : InColumns widths texts line) (htexts : ∀ j < widths.length, texts j = texts' j) :
    InColumns widths texts' line where
  length_eq := h.length_eq
  column j hj := htexts j hj ▸ h.column j hj
  gap := h.gap

/-- A line that shows the cells of a row that are shown shows the row. -/
theorem ShowsCells.of_shownCells {widths : List Nat} {row : List String} {line : List Char}
    (hwidths : widths.length = headers.length)
    (h : ShowsCells widths (shownCells headers row) line) : ShowsCells widths row line := by
  obtain ⟨blanks, hblanks, hline⟩ := h
  refine ⟨blanks, hblanks, hline.congr fun j hj => ?_⟩
  rw [cellAt_shownCells row (hwidths ▸ hj)]

/-- A line that shows cells is no wider than its columns. -/
theorem ShowsCells.length_le {widths : List Nat} {cells : List String} {line : List Char}
    (h : ShowsCells widths cells line) : line.length ≤ lineWidth widths := by
  obtain ⟨blanks, -, hline⟩ := h
  rw [← hline.length_eq, List.length_append]
  exact Nat.le_add_right _ _

/-- Narrowing drops no column. -/
theorem length_shrink_naturalWidths (headers : List String) (rows : List (List String))
    (room : Nat) : (shrink room (naturalWidths headers rows)).length = headers.length :=
  (length_shrink _ _).trans (length_naturalWidths headers rows)

/-! ### Cells without escape characters -/

section EscapeFree

variable (hcells : ∀ cells ∈ headers :: rows, ∀ cell ∈ cells, '\x1b' ∉ cell.toList)
include hcells

/-- The natural width of a column is the number of characters of its longest cell. -/
theorem isGreatest_length_cellAt {j : Nat} (hj : j < headers.length) :
    IsGreatest {n | ∃ cells ∈ headers :: rows, n = (cellAt cells j).length}
      (widthAt (naturalWidths headers rows) j) := by
  have hlength : {n | ∃ cells ∈ headers :: rows, n = visibleLength (cellAt cells j)} =
      {n | ∃ cells ∈ headers :: rows, n = (cellAt cells j).length} := by
    refine Set.ext fun n => exists_congr fun cells => and_congr_right fun hmem => ?_
    rw [visibleLength_of_not_mem (not_mem_cellAt (hcells cells hmem) j)]
  exact hlength ▸ isGreatest_naturalWidths rows hj

/-- A cell is no wider than the natural width of its column. -/
theorem length_le_naturalWidths {cells : List String} (hmem : cells ∈ headers :: rows) {j : Nat}
    (hj : j < headers.length) :
    (cellAt cells j).length ≤ widthAt (naturalWidths headers rows) j :=
  (isGreatest_length_cellAt hcells hj).2 ⟨cells, hmem, rfl⟩

/-- **Narrowed columns have room** for every cell, or for an ellipsis in its place: a column that is
narrower than it was has four characters at least. -/
theorem hasRoom_shrink (room : Nat) {cells : List String} (hmem : cells ∈ headers :: rows)
    {j : Nat} (hj : j < headers.length) :
    HasRoom (cellAt cells j) (widthAt (shrink room (naturalWidths headers rows)) j) := by
  rcases narrowed_widthAt_shrink room (naturalWidths headers rows) j with hsame | ⟨hfour, -⟩
  · exact .inl (hsame ▸ length_le_naturalWidths hcells hmem hj)
  · exact .inr (Nat.lt_of_lt_of_le (by decide) hfour)

/-- The head of a table shows the headers. -/
theorem showsCells_head (room : Nat) :
    ShowsCells (shrink room (naturalWidths headers rows)) headers
      (rowText headers (shrink room (naturalWidths headers rows))).toList := by
  have hlength := length_shrink_naturalWidths headers rows room
  refine showsCells_rowText hlength.symm (hcells headers List.mem_cons_self) fun j hj => ?_
  exact hasRoom_shrink hcells room List.mem_cons_self (hlength ▸ hj)

/-- The line of a row shows its cells. -/
theorem showsCells_row (room : Nat) {row : List String} (hrow : row ∈ rows) :
    ShowsCells (shrink room (naturalWidths headers rows)) row
      (rowText (shownCells headers row) (shrink room (naturalWidths headers rows))).toList := by
  have hlength := length_shrink_naturalWidths headers rows room
  have hmem : row ∈ headers :: rows := List.mem_cons_of_mem _ hrow
  refine .of_shownCells hlength (showsCells_rowText ?_ ?_ fun j hj => ?_)
  · rw [length_shownCells, hlength]
  · exact not_mem_shownCells (hcells row hmem) headers
  · rw [cellAt_shownCells row (hlength ▸ hj)]
    exact hasRoom_shrink hcells room hmem (hlength ▸ hj)

end EscapeFree

/-! ### Lines -/

/-- A painted text has no line feed that the text has not. -/
theorem lineFeed_not_mem_paint {text : String} (h : '\n' ∉ text.toList) (role : Role)
    (style : Style) : '\n' ∉ (paint role text style).toList := by
  cases hcolor : style.color with
  | true =>
      have hcode : '\n' ∉ role.code.toList := by cases role <;> decide
      simp [toList_paint role text hcolor, resetChars, h, hcode]
  | false => simpa [paint, hcolor] using h

/-- No line of a table is broken. -/
theorem lineFeed_not_mem_tableLines
    (hcells : ∀ cells ∈ headers :: rows, ∀ cell ∈ cells, '\x1b' ∉ cell.toList)
    (hlines : ∀ cells ∈ headers :: rows, ∀ cell ∈ cells, '\n' ∉ cell.toList)
    (widths : List Nat) (style : Style) :
    ∀ line ∈ tableLines headers rows widths style, '\n' ∉ line.toList := by
  have hrow {cells : List String} (h : ∀ cell ∈ cells, '\x1b' ∉ cell.toList)
      (h' : ∀ cell ∈ cells, '\n' ∉ cell.toList) : '\n' ∉ (rowText cells widths).toList :=
    not_mem_rowText h h' (by decide) (by decide) widths
  intro line hline
  rcases List.mem_cons.mp hline with rfl | hline
  · have hheaders : headers ∈ headers :: rows := List.mem_cons_self
    exact lineFeed_not_mem_paint (hrow (hcells _ hheaders) (hlines _ hheaders)) _ _
  · rcases List.mem_cons.mp hline with rfl | hline
    · exact lineFeed_not_mem_paint (not_mem_ruleText (by decide) (by decide) widths) _ _
    · obtain ⟨row, hmem, rfl⟩ := List.mem_map.mp hline
      have hmem : row ∈ headers :: rows := List.mem_cons_of_mem _ hmem
      exact hrow (not_mem_shownCells (hcells row hmem) headers)
        (not_mem_shownCells (hlines row hmem) headers)

/-- The lines of a table, as they are seen. -/
theorem visibleLines_table (hne : headers ≠ [])
    (hcells : ∀ cells ∈ headers :: rows, ∀ cell ∈ cells, '\x1b' ∉ cell.toList)
    (hlines : ∀ cells ∈ headers :: rows, ∀ cell ∈ cells, '\n' ∉ cell.toList) (style : Style) :
    visibleLines (table headers rows style) =
      (tableLines headers rows (shrink style.width (naturalWidths headers rows))
        style.uncolored).map String.toList := by
  generalize hwidths : shrink style.width (naturalWidths headers rows) = widths
  have hbreak : "\n".toList = ['\n'] := by decide
  have hunbroken : ∀ line ∈ (tableLines headers rows widths style).map String.toList,
      '\n' ∉ line := by
    intro line hline
    obtain ⟨text, htext, rfl⟩ := List.mem_map.mp hline
    exact lineFeed_not_mem_tableLines hcells hlines widths style text htext
  rw [visibleLines, table, if_neg (by simpa using hne), hwidths, String.toList_intercalate, hbreak,
    List.splitOn_intercalate '\n' hunbroken (by simp [tableLines]), List.map_map]
  exact map_stripFrom_of_shows (shows_tableLines hcells widths style)

/-- **Tables fit and stay aligned**, whatever their cells are, so long as they hold neither escape
characters nor line feeds. -/
theorem isLaidOut_table (hne : headers ≠ [])
    (hcells : ∀ cells ∈ headers :: rows, ∀ cell ∈ cells,
      '\x1b' ∉ cell.toList ∧ '\n' ∉ cell.toList) (style : Style) :
    (visibleLines (table headers rows style)).length = rows.length + 2 ∧
      ∃ head rule body, visibleLines (table headers rows style) = head :: rule :: body ∧
        IsLaidOut headers rows style.width
          (shrink style.width (naturalWidths headers rows)) head rule body := by
  have hescape : ∀ cells ∈ headers :: rows, ∀ cell ∈ cells, '\x1b' ∉ cell.toList :=
    fun cells hmem cell hcell => (hcells cells hmem cell hcell).1
  have hvisible := visibleLines_table hne hescape
    (fun cells hmem cell hcell => (hcells cells hmem cell hcell).2) style
  simp only [tableLines, paint_uncolored, List.map_cons, List.map_map] at hvisible
  have hnatural : naturalWidths headers rows ≠ [] := by simpa [naturalWidths] using hne
  have hwidth := lineWidth_shrink_le style.width hnatural
  rw [length_naturalWidths] at hwidth
  have hhead := showsCells_head hescape style.width
  have hrow (row : List String) (hmem : row ∈ rows) := showsCells_row hescape style.width hmem
  refine ⟨by simp [hvisible], _, _, _, hvisible, ?_⟩
  constructor
  · exact length_shrink_naturalWidths headers rows _
  · exact List.length_map _
  · intro line hline
    refine le_trans ?_ hwidth
    rcases List.mem_cons.mp hline with rfl | hline
    · exact hhead.length_le
    · rcases List.mem_cons.mp hline with rfl | hline
      · exact (inColumns_ruleText _).length_eq.le
      · obtain ⟨row, hmem, rfl⟩ := List.mem_map.mp hline
        exact (hrow row hmem).length_le
  · exact hhead
  · exact inColumns_ruleText _
  · exact List.forall₂_map_right_iff.mpr (List.forall₂_same.mpr hrow)
  · exact fun j hj => isGreatest_length_cellAt hescape hj
  · intro hfits cells hmem j hj
    rw [shrink_eq_self hfits]
    exact length_le_naturalWidths hescape hmem hj
  · exact passes_shrink _ _
  · exact not_pass_shrink _ _
  · exact wellFounded_pass _

/-- The second column gives up two characters, the second row has no cell for it, and the third row
has one cell too many. -/
theorem isLaidOut_table_narrow :
    visibleLines (table ["#", "VERB"] [["1", "sort -f a"], ["2"], ["3", "cat", "x"]]
        ⟨true, false, 10⟩) =
      ["#  VERB", "-  -------", "1  sort -…", "2", "3  cat"].map String.toList ∧
    ∃ head rule body, visibleLines (table ["#", "VERB"] [["1", "sort -f a"], ["2"],
        ["3", "cat", "x"]] ⟨true, false, 10⟩) = head :: rule :: body ∧
      IsLaidOut ["#", "VERB"] [["1", "sort -f a"], ["2"], ["3", "cat", "x"]] 10
        (shrink 10 (naturalWidths ["#", "VERB"] [["1", "sort -f a"], ["2"], ["3", "cat", "x"]]))
        head rule body :=
  ⟨by decide +kernel, (isLaidOut_table (by decide) (by decide +kernel) _).2⟩

end Pipewright.Display
