import Pipewright.Display.Summary
import Pipewright.Document.Written
import Pipewright.Program.Context

/-!
# Showing the saved pipeline

## Main definitions

* `showPipeline`: the command that shows the saved pipeline.
-/

namespace Pipewright.Program

/-- The view of a configuration for people, as lines. -/
def configurationLines (configuration : Configuration) (style : Display.Style) : String :=
  line (Display.renderConfiguration configuration style)

/-- The view of a configuration for programs with further members, as lines. -/
def configurationAnswer (configuration : Configuration) (more : List (String × Json)) : String :=
  match configurationJson configuration with
  | .object members => jsonLines (Envelope.ok (.object (members ++ more)))
  | other => jsonLines (Envelope.ok other)

/-- What is said of a saved pipeline that is not there. -/
def nothingSaved (c : Context) : String :=
  notice .info .dim ("nothing saved yet at " ++ c.stateFile) c.style

/-- The command that shows the saved pipeline. -/
def showPipeline (c : Context) (json : Bool) : Ending :=
  match c.load with
  | .error failure => .ofFailure c.files failure
  | .ok (configuration, saved) =>
    .printing c.files <|
      if json then
        configurationAnswer configuration [("saved", .bool saved), ("path", .string c.stateFile)]
      else
        configurationLines configuration c.style ++ if saved then "" else nothingSaved c

end Pipewright.Program
