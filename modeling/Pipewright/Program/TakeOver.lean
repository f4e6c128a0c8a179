import Pipewright.Command.Caret
import Pipewright.Command.Typed
import Pipewright.Program.Overview

/-!
# Taking over a command line

A command line is parsed onto the saved configuration and shown, and saved if that is asked for.
A line that is refused is shown with a caret under the place, and nothing is saved.

## Main definitions

* `takeOverLine`: the command that takes over a command line.
-/

namespace Pipewright.Program

/-- The answer to a refused line for programs. -/
def refusalAnswer (e : CommandError) : Json :=
  .object [("status", .string "error"), ("error", .string e.message),
    ("kind", .string e.kind.name), ("position", .number e.position)]

/-- The answer to a refused line for people. -/
def refusalLines (input : String) (e : CommandError) (style : Display.Style) : String :=
  errorBox "Parse Error" e.message style ++ line (withCaret input e.position) ++
    line (Display.paint .dim "the saved configuration was not changed" style)

/-- The ending of a refused line. -/
def refuseLine (c : Context) (input : String) (e : CommandError) (json : Bool) : Ending :=
  { files := c.files
    output := if json then jsonLines (refusalAnswer e) else ""
    messages := if json then "" else refusalLines input e c.style
    failure? := some ⟨"cannot parse command: " ++ e.message, []⟩ }

/-- The view of a configuration that was taken over. -/
def takenOverView (c : Context) (configuration : Configuration) (save json : Bool) : String :=
  if json then configurationAnswer configuration [("saved", .bool save)]
  else
    configurationLines configuration c.style ++
      if save then notice .save .success "saved" c.style else ""

/-- The command that takes over the command line that the words stand for. -/
def takeOverLine (c : Context) (words : List String) (save json : Bool) : Ending :=
  let input := lineOfArguments words
  match c.load with
  | .error failure => .ofFailure c.files failure
  | .ok (current, _) =>
    match Configuration.ofCommand input current with
    | .error e => refuseLine c input e json
    | .ok configuration =>
      if save then
        match c.save configuration with
        | (.error failure, files) => .ofFailure files failure
        | (.ok (), files) => .printing files (takenOverView c configuration save json)
      else .printing c.files (takenOverView c configuration save json)

end Pipewright.Program
