/-!
# Lines of a text

A text is cut behind every line feed; what follows the last one is a line too, unless it is
empty. A line as it is shown has neither its line feed nor a carriage return in front of it.

## Main definitions

* `linePieces`: the lines with their ends, which add up to the text.
* `lines`: the lines without their ends.
* `bytePieces`: the same cut for octets.
-/

namespace Pipewright.Text

/-- The list cut behind every element that satisfies `p`. -/
def piecesBehind {α : Type} (p : α → Bool) : List α → List (List α)
  | [] => []
  | a :: as =>
    if p a then [a] :: piecesBehind p as
    else
      match piecesBehind p as with
      | [] => [[a]]
      | piece :: rest => (a :: piece) :: rest

/-- The lines of a text with their ends. -/
def linePieces (cs : List Char) : List (List Char) :=
  piecesBehind (· == '\n') cs

/-- The lines of octets with their ends. -/
def bytePieces (bs : List UInt8) : List (List UInt8) :=
  piecesBehind (· == 0x0A) bs

/-- The list without `last` at its end, if it ends in it. -/
def dropLast? {α : Type} [BEq α] (last : α) (l : List α) : Option (List α) :=
  if l.getLast? == some last then some l.dropLast else none

/-- The piece without a line feed, or a carriage return and a line feed, at its end. -/
def withoutLineEnd {α : Type} [BEq α] (lineFeed carriageReturn : α) (piece : List α) : List α :=
  match dropLast? lineFeed piece with
  | none => piece
  | some l => (dropLast? carriageReturn l).getD l

/-- The lines of a text without their ends. -/
def lines (s : String) : List String :=
  (linePieces s.toList).map fun piece => .ofList (withoutLineEnd '\n' '\r' piece)

end Pipewright.Text
