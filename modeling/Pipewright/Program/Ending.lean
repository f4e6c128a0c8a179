import Pipewright.Display.Banner
import Pipewright.Files.Tree
import Pipewright.Json.Envelope
import Pipewright.Program.Failure

/-!
# What a command leaves behind

A command leaves behind files, output and messages, and perhaps a failure.

## Main definitions

* `Ending`: what a command leaves behind.
* `Ending.ofFailure`, `Ending.printing`: the common endings.
* `shownError`: an error that is shown before the command fails with it.
-/

namespace Pipewright.Program

/-- What a command leaves behind. -/
structure Ending where
  /-- The files. -/
  files : Files.Tree
  /-- The output. -/
  output : String := ""
  /-- The messages. -/
  messages : String := ""
  /-- The failure, if the command fails. -/
  failure? : Option Failure := none

namespace Ending

/-- The command fails and prints nothing. -/
def ofFailure (files : Files.Tree) (failure : Failure) : Ending :=
  { files, failure? := some failure }

/-- The command prints the output and does not fail. -/
def printing (files : Files.Tree) (output : String) : Ending :=
  { files, output }

end Ending

/-- The text as a line. -/
def line (text : String) : String :=
  text.push '\n'

/-- The value as lines, the members of objects in the order of their names. -/
def jsonLines (value : Json) : String :=
  line value.sorted.pretty

/-- The symbol and the text, with a blank between them. -/
def marked (symbol : Display.Symbol) (text : String) (style : Display.Style) : String :=
  symbol.shown style ++ " " ++ text

/-- The symbol and the painted text, as a line. -/
def notice (symbol : Display.Symbol) (role : Display.Role) (text : String)
    (style : Display.Style) : String :=
  line (marked symbol (Display.paint role text style) style)

/-- An error in a box, as lines. -/
def errorBox (title message : String) (style : Display.Style) : String :=
  line (Display.banner (marked .error title style)
    (some (Display.paint .error message style)) style)

/-- An error that is shown, as JSON in the output or in a box among the messages, before the
command fails with it. -/
def shownError (files : Files.Tree) (style : Display.Style) (json : Bool)
    (title message : String) : Ending :=
  if json then
    { files, output := jsonLines (Envelope.error message), failure? := some ⟨message, []⟩ }
  else
    { files, messages := errorBox title message style, failure? := some ⟨message, []⟩ }

end Pipewright.Program
