import Pipewright.Files.Tree
import Pipewright.Text.Line
import Pipewright.Text.Measure

/-!
# The head of the input

A preview runs on the head of the input only, which is its sample. Pasted text is bounded by a
number of lines and a number of bytes; of a file only the first lines are read, each ended by a
line feed.

## Main definitions

* `textHead`: the beginning of a pasted text.
* `bytesHead`, `fileHead`: the first lines of a file.
-/

namespace Pipewright

/-- The characters of the first `maxLines` lines. -/
def firstLines (maxLines : Nat) (cs : List Char) : List Char :=
  ((Text.linePieces cs).take maxLines).flatten

/-- The beginning of the text with at most `maxLines` lines and at most `maxBytes` bytes. -/
def textHead (text : String) (maxLines maxBytes : Nat) : String :=
  .ofList (Text.takeWithin maxBytes (firstLines maxLines text.toList))

/-- A line of a file as text, with a line feed for its end. Octets that are no text are
replaced. -/
def headLine (piece : List UInt8) : String :=
  (Text.decodeLossy (Text.withoutLineEnd 0x0A 0x0D piece)).push '\n'

/-- The first `maxLines` lines of the octets. -/
def bytesHead (bytes : List UInt8) (maxLines : Nat) : String :=
  String.join (((Text.bytePieces bytes).take maxLines).map headLine)

/-- The first `maxLines` lines of the file at `path`. A directory can be opened, but nothing
can be read from it. -/
def fileHead (t : Files.Tree) (path : String) (maxLines : Nat) : Except Files.Cause String := do
  match ← t.lookAt path with
  | .file bytes => return bytesHead bytes maxLines
  | .directory => if maxLines = 0 then return "" else throw .isADirectory

end Pipewright
