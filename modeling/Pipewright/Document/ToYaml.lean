import Pipewright.Document.Field
import Pipewright.Yaml.Written

/-!
# Writing the document of a configuration in YAML

## Main definitions

* `Step.yaml`, `Configuration.yaml`: the text of a step and of a configuration.
-/

namespace Pipewright.Document

/-- The line with a truth value. -/
def yamlTruth (b : Bool) : String :=
  toString b ++ "\n"

/-- The text of a step, as an item of a list. -/
def stepYaml (s : Step) : String :=
  "- " ++ StepField.text.name ++ ": " ++ Yaml.writeText (2 * Yaml.indentStep) s.text ++ "  " ++
    StepField.enabled.name ++ ": " ++ yamlTruth s.enabled

/-- The text of a list of steps behind its name. -/
def stepsYaml (steps : List Step) : String :=
  if steps.isEmpty then " []\n" else "\n" ++ String.join (steps.map stepYaml)

/-- What follows the colon of a field. -/
def Field.yaml : (f : Field) → f.Value → String
  | .ragged, v => " " ++ yamlTruth v
  | .headerless, v => " " ++ yamlTruth v
  | .steps, v => stepsYaml v
  | .inputPath, v => " " ++ Yaml.writeText Yaml.indentStep v
  | .inputMode, v => " " ++ Yaml.writeText Yaml.indentStep v
  | .inputFormat, v => " " ++ Yaml.writeText Yaml.indentStep v
  | .fieldSeparator, v => " " ++ Yaml.writeText Yaml.indentStep v
  | .outputFormat, v => " " ++ Yaml.writeText Yaml.indentStep v
  | .options, v => " " ++ Yaml.writeText Yaml.indentStep v

end Pipewright.Document

namespace Pipewright

/-- The document of a configuration in YAML. -/
def Configuration.yaml (c : Configuration) : String :=
  String.join (Document.Field.all.map fun f => f.name ++ ":" ++ f.yaml (c.field f))

end Pipewright
