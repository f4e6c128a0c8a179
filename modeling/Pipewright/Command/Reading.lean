import Pipewright.Command.Error
import Pipewright.Command.InputFile
import Pipewright.Configuration
import Pipewright.Text.Measure

/-!
# From a command line to a configuration

A command line consists of an optional tool name, leading flags, the stages of a pipeline
joined by a connective, and an optional input file. Flags of the vocabulary fill their slots;
all other leading flags become the options, as typed. Every stage becomes a step, as typed.

## Main definitions

* `SlotFill`, `fillSlots`: the slots after the leading flags.
* `optionSpans`: where the options stand in the text.
* `pipelineSteps`: the steps of a pipeline.
* `Configuration.ofCommand`: the configuration that a command line describes.
-/

namespace Pipewright

/-- The display name of the tool, which starts every command line. -/
def toolWord : String := "mlr"

/-- The part of a word behind its last separator of directories. -/
def baseName (word : String) : String :=
  .ofList (word.toList.reverse.takeWhile fun c => c != '/' && c != '\\').reverse

/-- The token names the tool, perhaps with directories in front. -/
def Token.namesTool (t : Token) : Bool :=
  let base := baseName t.value
  base == toolWord || Text.sameFolded base "mlr.exe"

/-- The value in a slot, with the flag that put it there. -/
structure Occupant (α : Type) where
  /-- The value. -/
  value : α
  /-- The flag as given. -/
  flag : String
  deriving DecidableEq, Repr

/-- The slots that flags have set so far. -/
structure SlotFill where
  /-- The input format. -/
  inputFormat : Option (Occupant InputFormat) := none
  /-- The output format. -/
  outputFormat : Option (Occupant OutputFormat) := none
  /-- The ragged switch. -/
  ragged : Option (Occupant Unit) := none
  /-- The headerless switch. -/
  headerless : Option (Occupant Unit) := none
  /-- The field separator. -/
  separator : Option (Occupant String) := none
  deriving DecidableEq, Repr

/-- The slot with the value of `flag` in it, unless the slot is taken. -/
def occupy {α : Type} (slot : Slot) (held : Option (Occupant α)) (flag : Token) (value : α) :
    Except CommandError (Option (Occupant α)) :=
  match held with
  | some previous => .error (.slotTaken flag.value previous.flag slot flag.start)
  | none => .ok (some ⟨value, flag.value⟩)

namespace SlotFill

/-- The slots after a flag that sets the input format. -/
def setInput (s : SlotFill) (flag : Token) (f : InputFormat) : Except CommandError SlotFill := do
  return { s with inputFormat := ← occupy .inputFormat s.inputFormat flag f }

/-- The slots after a flag that sets the output format. -/
def setOutput (s : SlotFill) (flag : Token) (f : OutputFormat) : Except CommandError SlotFill := do
  return { s with outputFormat := ← occupy .outputFormat s.outputFormat flag f }

/-- The slots after a flag that sets the separator. -/
def setSeparator (s : SlotFill) (flag : Token) (v : String) : Except CommandError SlotFill := do
  return { s with separator := ← occupy .separator s.separator flag v }

/-- The slots after a flag that denotes `setting`. -/
def set (s : SlotFill) (flag : Token) : Setting → Except CommandError SlotFill
  | .input f => s.setInput flag f
  | .output f => s.setOutput flag f
  | .both i o => do (← s.setInput flag i).setOutput flag o
  | .ragged => do return { s with ragged := ← occupy .ragged s.ragged flag () }
  | .headerless => do return { s with headerless := ← occupy .headerless s.headerless flag () }
  | .separator => .error (.noValue flag.value flag.start)

/-- The slots after one more group of flags. -/
def add (s : SlotFill) : FlagGroup → Except CommandError SlotFill
  | .setting flag setting => s.set flag setting
  | .separator flag none => .error (.noValue flag.value flag.start)
  | .separator flag (some v) => s.setSeparator flag v.value
  | .passed _ _ => .ok s

end SlotFill

/-- The slots after the given groups of flags. -/
def fillSlots (groups : List FlagGroup) : Except CommandError SlotFill :=
  groups.foldlM SlotFill.add {}

/-- The spans of the flags that are passed on; flags that follow one another make one span.
`current` is the span that the next such flag extends. -/
def optionSpans (current : Option (Nat × Nat)) : List FlagGroup → List (Nat × Nat)
  | [] => current.toList
  | .passed flag value :: rest =>
    let start := (current.map (·.1)).getD flag.start
    optionSpans (some (start, (value.getD flag).stop)) rest
  | .setting _ _ :: rest => current.toList ++ optionSpans none rest
  | .separator _ _ :: rest => current.toList ++ optionSpans none rest

/-- The options of a command: the text of each span, with its inner spacing. -/
def optionsText (input : String) (groups : List FlagGroup) : String :=
  " ".intercalate
    ((optionSpans none groups).map fun r => .ofList (Text.slice r.1 r.2 input.toList))

/-- The step that a stage becomes; `connectiveAt` is the place to blame when it is empty. -/
def stageStep (input : String) (stage : List Token) (connectiveAt : Nat) :
    Except CommandError Step :=
  match stage.head?, stage.getLast? with
  | some first, some last =>
    match Step.ofText? (.ofList (Text.slice first.start last.stop input.toList)) with
    | some step => .ok step
    | none => .error (.noStage connectiveAt)
  | _, _ => .error (.noStage connectiveAt)

/-- The steps of the stages in `region`, where `stage` is the stage so far and `last` the start
of the last token. -/
def stepsFrom (input : String) (stage : List Token) (last : Nat) :
    List Token → Except CommandError (List Step)
  | [] => do return [← stageStep input stage last]
  | t :: rest =>
    if t.isConnective then do
      let step ← stageStep input stage t.start
      let steps ← stepsFrom input [] last rest
      return step :: steps
    else stepsFrom input (stage ++ [t]) last rest

/-- The steps of a pipeline; no tokens make no steps. -/
def pipelineSteps (input : String) (region : List Token) : Except CommandError (List Step) :=
  match region.getLast? with
  | none => .ok []
  | some last => stepsFrom input [] last.start region

/-- The tokens behind the tool name, if there is one. -/
def dropTool : List Token → List Token
  | [] => []
  | t :: rest => if t.namesTool then rest else t :: rest

/-- The configuration that a command line describes. The input mode and the input path of
`current` hold when the command names no input file. -/
def Configuration.ofCommand (input : String) (current : Configuration) :
    Except CommandError Configuration := do
  let tokens ← (tokensOf input).mapError .noTokens
  let (groups, region) := flagGroups (dropTool tokens)
  let slots ← fillSlots groups
  let (stages, file) := splitInputFile region
  let steps ← pipelineSteps input stages
  let config : Configuration :=
    { inputPath := current.inputPath
      inputMode := current.inputMode
      inputFormat := (slots.inputFormat.map (·.value)).getD .auto
      ragged := slots.ragged.isSome
      headerless := slots.headerless.isSome
      fieldSeparator := orDefaultSeparator ((slots.separator.map (·.value)).getD "")
      outputFormat := (slots.outputFormat.map (·.value)).getD .auto
      steps := steps
      options := optionsText input groups }
  match file with
  | some path => return config.setInputFile path.value
  | none => return config

end Pipewright
