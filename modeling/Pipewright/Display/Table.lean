import Pipewright.Display.Style

/-!
# Tables

A table has a head, a rule and a line for each row. Columns are as wide as their widest cell;
when a line does not fit into the terminal, the widest column gives up a character until the
line fits or no column is wider than four.

## Main definitions

* `naturalWidths`, `shrink`: the widths of the columns.
* `cellText`, `rowText`: a cell and a row of given widths.
* `table`: the whole table.
-/

namespace Pipewright.Display

/-- The cell of a row in column `j`; missing cells are empty. -/
def cellAt (row : List String) (j : Nat) : String :=
  row[j]?.getD ""

/-- The width that each column needs. -/
def naturalWidths (headers : List String) (rows : List (List String)) : List Nat :=
  headers.mapIdx fun j h =>
    rows.foldl (fun w row => max w (visibleLength (cellAt row j))) (visibleLength h)

/-- The width of a line with columns of the given widths, two blanks between each two. -/
def lineWidth (widths : List Nat) : Nat :=
  widths.foldr (· + ·) 0 + 2 * (widths.length - 1)

/-- The widths with the last of those equal to `w` made smaller by one. -/
def narrowLast (w : Nat) : List Nat → List Nat
  | [] => []
  | v :: vs =>
    if vs.contains w then v :: narrowLast w vs
    else if v == w then (v - 1) :: vs
    else v :: vs

/-- Narrowing a width that occurs makes the sum smaller. -/
theorem sum_narrowLast_lt {w : Nat} {widths : List Nat} (pos : 0 < w) (h : w ∈ widths) :
    (narrowLast w widths).foldr (· + ·) 0 < widths.foldr (· + ·) 0 := by
  induction widths with
  | nil => simp at h
  | cons v vs ih =>
    simp only [narrowLast]
    split
    · next hc =>
      have := ih (List.contains_iff_mem.1 hc)
      simp only [List.foldr_cons]
      omega
    · next hc =>
      have hv : v = w := by
        rcases List.mem_cons.1 h with e | m
        · exact e.symm
        · exact absurd (List.contains_iff_mem.2 m) hc
      simp only [hv, beq_self_eq_true, if_true, List.foldr_cons]
      omega

/-- The widths with the widest columns narrowed until a line has at most `room` characters or
no column is wider than four. -/
def shrink (room : Nat) (widths : List Nat) : List Nat :=
  match _found : widths.max? with
  | none => widths
  | some w =>
    if _wide : room < lineWidth widths ∧ 4 < w then shrink room (narrowLast w widths) else widths
termination_by widths.foldr (· + ·) 0
decreasing_by exact sum_narrowLast_lt (by omega) (List.max?_mem _found)

/-- The cell padded to the given width, or cut to it. -/
def cellText (cell : String) (width : Nat) : String :=
  let w := visibleLength cell
  if w ≤ width then cell ++ .ofList (List.replicate (width - w) ' ')
  else truncate (stripEscapes cell) width

/-- The cells of a row, padded or cut, without blanks at the end. -/
def rowText (cells : List String) (widths : List Nat) : String :=
  Text.trimEnd ("  ".intercalate (List.zipWith cellText cells widths))

/-- The rule under the head. -/
def ruleText (widths : List Nat) : String :=
  "  ".intercalate (widths.map fun w => .ofList (List.replicate w '-'))

/-- The lines of a table whose columns have the given widths. -/
def tableLines (headers : List String) (rows : List (List String)) (widths : List Nat)
    (style : Style) : List String :=
  paint .accent (rowText headers widths) style ::
    paint .dim (ruleText widths) style ::
    rows.map fun row => rowText (headers.mapIdx fun j _ => cellAt row j) widths

/-- The table with the given head and rows. Cells beyond the head are dropped. -/
def table (headers : List String) (rows : List (List String)) (style : Style) : String :=
  if headers.isEmpty then ""
  else
    "\n".intercalate
      (tableLines headers rows (shrink style.width (naturalWidths headers rows)) style)

end Pipewright.Display
