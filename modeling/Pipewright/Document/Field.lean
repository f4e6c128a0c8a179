import Pipewright.Configuration

/-!
# The fields of a document

A configuration is kept in a document with a field for each of its parts. Formats and the input
mode are texts in it, read leniently, so that every text is a good value.

## Main definitions

* `Field`, `StepField`: the fields of a configuration and of a step.
* `Field.Value`: what a field holds.
* `Configuration.field`, `Configuration.setField`: the access to a field.
* `Draft`, `StepDraft`: a configuration and a step while their fields are read.
-/

namespace Pipewright.Document

/-- A field of a configuration. -/
inductive Field where
  /-- The input file. -/
  | inputPath
  /-- Where the records come from. -/
  | inputMode
  /-- The format of the input. -/
  | inputFormat
  /-- The ragged switch. -/
  | ragged
  /-- The headerless switch. -/
  | headerless
  /-- The field separator of the input. -/
  | fieldSeparator
  /-- The format of the output. -/
  | outputFormat
  /-- The stages. -/
  | steps
  /-- The options. -/
  | options
  deriving DecidableEq, Repr

namespace Field

/-- All fields, in the order in which they are written. -/
def all : List Field :=
  [inputPath, inputMode, inputFormat, ragged, headerless, fieldSeparator, outputFormat, steps,
    options]

/-- The name of the field. -/
def name : Field → String
  | inputPath => "inputPath"
  | inputMode => "inputMode"
  | inputFormat => "inputFormat"
  | ragged => "ragged"
  | headerless => "headerless"
  | fieldSeparator => "fieldSeparator"
  | outputFormat => "outputFormat"
  | steps => "verbs"
  | options => "options"

/-- The field with the given name. -/
def ofName? (name : String) : Option Field :=
  all.find? (·.name == name)

/-- What the field holds. -/
abbrev Value : Field → Type
  | ragged | headerless => Bool
  | steps => List Step
  | inputPath | inputMode | inputFormat | fieldSeparator | outputFormat | options => String

end Field

/-- A field of a step. -/
inductive StepField where
  /-- The text. -/
  | text
  /-- The switch. -/
  | enabled
  deriving DecidableEq, Repr

namespace StepField

/-- The name of the field. -/
def name : StepField → String
  | text => "value"
  | enabled => "enabled"

/-- The field with the given name; the text has a second name. -/
def ofName? (name : String) : Option StepField :=
  if name == "value" || name == "text" then some text
  else if name == "enabled" then some enabled
  else none

end StepField

/-- The kind of a configuration in messages. -/
def configurationKind : String := "struct Configuration"

/-- The kind of a step in messages. -/
def stepKind : String := "struct VerbStep"

/-- A configuration while its fields are read. -/
structure Draft where
  /-- The configuration, with defaults for what has not been read. -/
  configuration : Configuration := {}
  /-- The fields that have been read. -/
  filled : List Field := []
  deriving DecidableEq, Repr

/-- A step while its fields are read. -/
structure StepDraft where
  /-- The text. -/
  text : Option String := none
  /-- The switch. -/
  enabled : Option Bool := none
  deriving DecidableEq, Repr

/-- The step with the given text; a switch that is not given is on. -/
def StepDraft.step (d : StepDraft) (text : String) : Step :=
  ⟨text, d.enabled.getD true⟩

end Pipewright.Document

namespace Pipewright.Configuration

open Document (Field)

/-- What the field holds for a configuration. -/
def field (c : Configuration) : (f : Field) → f.Value
  | .inputPath => c.inputPath
  | .inputMode => c.inputMode.name
  | .inputFormat => c.inputFormat.spelling
  | .ragged => c.ragged
  | .headerless => c.headerless
  | .fieldSeparator => c.fieldSeparator
  | .outputFormat => c.outputFormat.spelling
  | .steps => c.steps
  | .options => c.options

/-- The configuration with the value of a field. -/
def setField (c : Configuration) : (f : Field) → f.Value → Configuration
  | .inputPath, v => { c with inputPath := v }
  | .inputMode, v => { c with inputMode := .ofText v }
  | .inputFormat, v => { c with inputFormat := .ofText v }
  | .ragged, v => { c with ragged := v }
  | .headerless, v => { c with headerless := v }
  | .fieldSeparator, v => { c with fieldSeparator := v }
  | .outputFormat, v => { c with outputFormat := .ofText v }
  | .steps, v => { c with steps := v }
  | .options, v => { c with options := v }

end Pipewright.Configuration

namespace Pipewright.Document

/-- The draft with one more field. -/
def Draft.put (d : Draft) (f : Field) (v : f.Value) : Draft :=
  ⟨d.configuration.setField f v, f :: d.filled⟩

end Pipewright.Document
