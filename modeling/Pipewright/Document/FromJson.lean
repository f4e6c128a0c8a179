import Pipewright.Document.Field
import Pipewright.Json.Container

/-!
# Reading the document of a configuration

A configuration is read from an object whose members are its fields, in any order, or from a
list of their values, in the order of the fields. Missing fields keep their defaults and unknown
ones are skipped. A step is read in the same way, but its text has to be there.

## Main definitions

* `readStep`, `readConfiguration`: the readers.
* `ofJsonText`: the configuration that a text describes.
-/

namespace Pipewright.Document

open Json (Reader Outcome)

/-! ### Steps -/

/-- One more member of a step. -/
def readStepMember (name : String) (d : StepDraft) : Reader StepDraft := fun cs =>
  match StepField.ofName? name with
  | some .text =>
    if d.text.isSome then Json.failInside (.duplicateField StepField.text.name) cs
    else
      Json.mapValue (fun v => { d with text := some v }) (Json.readMemberValue Json.readText cs)
  | some .enabled =>
    if d.enabled.isSome then Json.failInside (.duplicateField StepField.enabled.name) cs
    else
      Json.mapValue (fun v => { d with enabled := some v })
        (Json.readMemberValue Json.readBool cs)
  | none => Json.skipMember d cs

/-- The members of a step. -/
def readStepMembers : Reader Step := fun cs =>
  match Json.readMembers readStepMember cs.length true {} cs with
  | .error f => .error f
  | .ok (d, rest) =>
    match d.text with
    | some text => .ok (d.step text, rest)
    | none => Json.failInside (.missingField StepField.text.name) rest

/-- The text and the switch of a step in a list. -/
def readStepItems : Reader Step := fun cs =>
  match Json.nextItem? true cs with
  | .error f => .error f
  | .ok (false, rest) => Json.failInside (.tooShort 0 (stepKind ++ " with 2 elements")) rest
  | .ok (true, rest) =>
    match Json.readText rest with
    | .error f => .error f
    | .ok (text, rest) =>
      match Json.nextItem? false rest with
      | .error f => .error f
      | .ok (false, rest) => .ok (⟨text, true⟩, rest)
      | .ok (true, rest) => Json.mapValue (⟨text, ·⟩) (Json.readBool rest)

/-- A step. -/
def readStep : Reader Step :=
  Json.readContainer stepKind (some readStepItems) (some readStepMembers)

/-- One more step of a list. -/
def readAnotherStep (steps : List Step) : Reader (List Step) := fun cs =>
  Json.mapValue (fun s => steps ++ [s]) (readStep cs)

/-- A list of steps. -/
def readSteps : Reader (List Step) :=
  Json.readContainer "a sequence"
    (some fun cs => Json.readItems readAnotherStep cs.length true [] cs) none

/-! ### Configurations -/

/-- The value of a field. -/
def readValue : (f : Field) → Reader f.Value
  | .ragged => Json.readBool
  | .headerless => Json.readBool
  | .steps => readSteps
  | .inputPath => Json.readText
  | .inputMode => Json.readText
  | .inputFormat => Json.readText
  | .fieldSeparator => Json.readText
  | .outputFormat => Json.readText
  | .options => Json.readText

/-- One more member of a configuration. -/
def readMember (name : String) (d : Draft) : Reader Draft := fun cs =>
  match Field.ofName? name with
  | some f =>
    if d.filled.contains f then Json.failInside (.duplicateField f.name) cs
    else Json.mapValue (d.put f) (Json.readMemberValue (readValue f) cs)
  | none => Json.skipMember d cs

/-- The members of a configuration. -/
def readConfigurationMembers : Reader Configuration := fun cs =>
  Json.mapValue Draft.configuration (Json.readMembers readMember cs.length true {} cs)

/-- The values of the given fields in a list, as far as it goes; `first` says that no item came
before. -/
def readValues (c : Configuration) (first : Bool) : List Field → Reader Configuration
  | [], cs => .ok (c, cs)
  | f :: fs, cs =>
    match Json.nextItem? first cs with
    | .error e => .error e
    | .ok (false, rest) => readValues c first fs rest
    | .ok (true, rest) =>
      match readValue f rest with
      | .error e => .error e
      | .ok (v, rest) => readValues (c.setField f v) false fs rest

/-- A configuration. -/
def readConfiguration : Reader Configuration :=
  Json.readContainer configurationKind (some (readValues {} true Field.all))
    (some readConfigurationMembers)

/-- The configuration that a JSON text describes, not yet repaired. -/
def ofJsonText (input : String) : Except Json.ReadError Configuration :=
  Json.readWhole readConfiguration input

end Pipewright.Document
