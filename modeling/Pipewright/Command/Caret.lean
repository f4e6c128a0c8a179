import Pipewright.Text.Measure

/-!
# Pointing at a place in a command line

An error about a command line is shown as the line with a caret under the failing place.

## Main definitions

* `caretColumn`: the number of characters in front of a byte offset.
* `withCaret`: the text with the caret.
-/

namespace Pipewright

/-- The number of characters in front of byte offset `position`; an offset behind the end
counts as the end, and one inside a character counts bytes. -/
def caretColumn (input : List Char) (position : Nat) : Nat :=
  let offset := min position (Text.byteLength input)
  if Text.isBoundary offset input then (Text.takeBytes offset input).length else position

/-- The text with a caret under byte offset `position`. -/
def withCaret (input : String) (position : Nat) : String :=
  input ++ "\n" ++ .ofList (List.replicate (caretColumn input.toList position) ' ') ++ "^"

end Pipewright
