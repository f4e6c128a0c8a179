import Pipewright.Document.Field
import Pipewright.Yaml.Node

/-!
# Reading the document of a configuration from YAML

A configuration is a mapping whose members are its fields, in any order. Missing fields keep
their defaults and unknown ones are skipped. The text of a step has to be there.

## Main definitions

* `ofYamlText?`: the configuration that a text describes.
-/

namespace Pipewright.Document

open Yaml (Linked NodeReader)

/-- One more member of a step. -/
def readYamlStepMember? (d : Linked) (name : String) (draft : StepDraft) :
    NodeReader StepDraft := fun ps =>
  match StepField.ofName? name with
  | some .text =>
    if draft.text.isSome then none
    else (Yaml.readText? d ps).map fun r => ({ draft with text := some r.1 }, r.2)
  | some .enabled =>
    if draft.enabled.isSome then none
    else (Yaml.readBool? d ps).map fun r => ({ draft with enabled := some r.1 }, r.2)
  | none => some (draft, Yaml.skipNode 0 ps)

/-- A step. -/
def readYamlStep? (d : Linked) : NodeReader Step := fun ps => do
  let (draft, rest) ← Yaml.readMapping? d (readYamlStepMember? d) {} ps
  return (draft.step (← draft.text), rest)

/-- A list of steps. -/
def readYamlSteps? (d : Linked) : NodeReader (List Step) :=
  Yaml.readSequence? d
    (fun steps ps => (readYamlStep? d ps).map fun r => (steps ++ [r.1], r.2)) []

/-- The value of a field. -/
def readYamlValue? (d : Linked) : (f : Field) → NodeReader f.Value
  | .ragged => Yaml.readBool? d
  | .headerless => Yaml.readBool? d
  | .steps => readYamlSteps? d
  | .inputPath => Yaml.readText? d
  | .inputMode => Yaml.readText? d
  | .inputFormat => Yaml.readText? d
  | .fieldSeparator => Yaml.readText? d
  | .outputFormat => Yaml.readText? d
  | .options => Yaml.readText? d

/-- One more member of a configuration. -/
def readYamlMember? (d : Linked) (name : String) (draft : Draft) : NodeReader Draft := fun ps =>
  match Field.ofName? name with
  | some f =>
    if draft.filled.contains f then none
    else (readYamlValue? d f ps).map fun r => (draft.put f r.1, r.2)
  | none => some (draft, Yaml.skipNode 0 ps)

/-- The configuration that a YAML text describes, not yet repaired. -/
def ofYamlText? (input : String) : Option Configuration := do
  let d ← Yaml.ofText? input
  let (draft, _) ← Yaml.readMapping? d (readYamlMember? d) {} d.parts
  return draft.configuration

end Pipewright.Document
