import Pipewright.Command.Line
import Pipewright.Document.Field
import Pipewright.Json

/-!
# The document of a configuration

## Main definitions

* `Step.document`, `Configuration.document`: the JSON values of a step and a configuration.
* `configurationJson`: the view of a configuration for programs.
-/

namespace Pipewright

/-- The document of a step. -/
def Step.document (s : Step) : Json :=
  .object [(Document.StepField.text.name, .string s.text),
    (Document.StepField.enabled.name, .bool s.enabled)]

/-- The JSON value of what a field holds. -/
def Document.Field.document : (f : Document.Field) → f.Value → Json
  | .ragged, v => .bool v
  | .headerless, v => .bool v
  | .steps, v => .array (v.map Step.document)
  | .inputPath, v => .string v
  | .inputMode, v => .string v
  | .inputFormat, v => .string v
  | .fieldSeparator, v => .string v
  | .outputFormat, v => .string v
  | .options, v => .string v

/-- The document of a configuration. -/
def Configuration.document (c : Configuration) : Json :=
  .object (Document.Field.all.map fun f => (f.name, f.document (c.field f)))

/-- The view of a configuration for programs. -/
def configurationJson (c : Configuration) : Json :=
  .object [("command", .string (c.commandLine)), ("configuration", c.document)]

end Pipewright
