import Pipewright.Format

/-!
# Configurations

A configuration says which command to run: where the records come from, the formats, the
steps of the pipeline and further options. It is a plain value, and every edit yields a new
one. An empty field separator is read as a comma wherever it is used.

## Main definitions

* `Step`: one stage of a pipeline, kept as typed.
* `Configuration`: the state of a pipeline.
* `Configuration.repaired`: the repair of a configuration that was written by hand.
-/

namespace Pipewright

/-- The separator that the tool assumes for comma-separated values. -/
def defaultSeparator : String := ","

/-- One stage of a pipeline, kept as typed, quotes included. A step that is switched off stays
in the list and reaches no command line. -/
structure Step where
  /-- The verb with its arguments, as typed. -/
  text : String
  /-- The step takes part. -/
  enabled : Bool := true
  deriving DecidableEq, Repr

/-- The enabled step with the given text, trimmed; a blank text makes none. -/
def Step.ofText? (text : String) : Option Step :=
  let trimmed := Text.trim text
  if trimmed.isEmpty then none else some ⟨trimmed, true⟩

/-- The full state of a pipeline. -/
structure Configuration where
  /-- The input file. -/
  inputPath : String := ""
  /-- Where the records come from. -/
  inputMode : InputMode := .text
  /-- The format of the input. -/
  inputFormat : InputFormat := .auto
  /-- Lines may be shorter or longer than the header. -/
  ragged : Bool := false
  /-- The first line holds data. -/
  headerless : Bool := false
  /-- The field separator of the input. -/
  fieldSeparator : String := defaultSeparator
  /-- The format of the output. -/
  outputFormat : OutputFormat := .auto
  /-- The stages, in order. -/
  steps : List Step := []
  /-- Further options of the tool, as typed. -/
  options : String := ""
  deriving DecidableEq, Repr

/-- The separator itself, or a comma in place of an empty one. -/
def orDefaultSeparator (separator : String) : String :=
  if separator.isEmpty then defaultSeparator else separator

namespace Configuration

/-- The separator as the tool will see it. -/
def separator (c : Configuration) : String :=
  orDefaultSeparator c.fieldSeparator

/-- The steps that take part. -/
def enabledSteps (c : Configuration) : List Step :=
  c.steps.filter (·.enabled)

/-- At least one step takes part. -/
def hasEnabledSteps (c : Configuration) : Bool :=
  c.steps.any (·.enabled)

/-- The input file, when the records come from a file and a path is set. -/
def inputFile? (c : Configuration) : Option String :=
  match c.inputMode with
  | .text => none
  | .file => if Text.isBlankText c.inputPath then none else some c.inputPath

/-- The configuration with an empty separator replaced, the texts of the steps trimmed and the
blank steps dropped. -/
def repaired (c : Configuration) : Configuration :=
  { c with
    fieldSeparator := orDefaultSeparator c.fieldSeparator
    steps := c.steps.filterMap fun s =>
      (Step.ofText? s.text).map ({ · with enabled := s.enabled }) }

/-- The configuration reading the file at `path`. -/
def setInputFile (c : Configuration) (path : String) : Configuration :=
  { c with inputMode := .file, inputPath := path }

/-- The configuration with the given separator; an empty one means a comma. -/
def setSeparator (c : Configuration) (separator : String) : Configuration :=
  { c with fieldSeparator := orDefaultSeparator separator }

/-- The configuration with the given options, trimmed. -/
def setOptions (c : Configuration) (options : String) : Configuration :=
  { c with options := Text.trim options }

end Configuration

end Pipewright
