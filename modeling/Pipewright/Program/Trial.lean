import Pipewright.Program.Context

/-!
# One preview from the command line

The saved configuration is changed by a command line and by the choice of the input, and
previewed at once. The input is the named file, the given text, the saved input file or the
standard input, whichever comes first. A successful preview is saved.

## Main definitions

* `previewBench`: what is previewed.
* `previewOnce`: the state after the preview, and the files.
* `previewPipeline`: the command that previews.
-/

namespace Pipewright.Program

open Preview (Settings State)

/-- The time that the tool may take in a preview. -/
def previewLimit : Duration :=
  .ofSeconds 30

/-- The bounds of a preview when another number of lines may be asked for. -/
def previewBounds (lines? : Option UInt64) : Settings :=
  match lines? with
  | some n => { lineLimit := n.toNat }
  | none => {}

/-- What is previewed: the configuration with the input that the command names. -/
def previewBench (c : Context) (task : PreviewTask) (configuration : Configuration) :
    Except Failure Bench :=
  match task.input?, task.text? with
  | some path, _ => .ok ⟨configuration.setInputFile path, ""⟩
  | none, some text => .ok ⟨{ configuration with inputMode := .text }, text⟩
  | none, none =>
    if configuration.inputFile?.isSome then .ok ⟨configuration, ""⟩
    else
      match c.inputText with
      | .ok text => .ok ⟨configuration, text⟩
      | .error failure => .error failure

/-- The state after a preview, and the files. A success is saved; it does not matter whether
that works. -/
def previewOnce (c : Context) (settings : Settings) (bench : Bench) : State × Files.Tree :=
  if bench.isReady then
    let result := Preview.cycle c.files settings (c.runTool previewLimit) bench
    let files := match result with
      | .ok _ => c.filesAfterSave bench.configuration
      | .error _ => c.files
    (.showing 1 (.ofResult result), files)
  else (.idle 1, c.files)

/-- The number of milliseconds, as a member of an answer. -/
def elapsedMember (c : Context) : String × Json :=
  ("elapsed_ms", .number c.host.elapsed)

/-- The output of the tool without the blanks at its end, as lines. -/
def outputLines (output : String) : String :=
  line (Text.trimEnd output)

/-- The ending of a preview that went well. -/
def successEnding (c : Context) (files : Files.Tree) (state : State) (s : Preview.Success)
    (json : Bool) : Ending :=
  .printing files <|
    if json then
      jsonLines (Envelope.ok (.object [("state", .string state.name),
        ("command", .string s.command), ("format", .string s.format.name),
        ("output", .string s.output), elapsedMember c]))
    else
      line (Display.banner (marked .success s.command c.style)
        (some (s.format.name ++ " • " ++ toString c.host.elapsed ++ " ms")) c.style) ++
      outputLines s.output

/-- The ending of a preview that failed. -/
def failureEnding (c : Context) (files : Files.Tree) (state : State) (message : String)
    (json : Bool) : Ending :=
  { files
    output :=
      if json then
        jsonLines (.object [("status", .string "error"), ("state", .string state.name),
          ("error", .string message), elapsedMember c])
      else ""
    messages :=
      if json then ""
      else
        line (Display.banner (marked .error "Preview Failed" c.style) none c.style) ++
        line (Display.paint .error (Display.indent message "  ") c.style)
    failure? := some ⟨"preview failed: " ++ message, []⟩ }

/-- The ending when there is nothing to preview. -/
def idleEnding (c : Context) (files : Files.Tree) (state : State) (json : Bool) : Ending :=
  .printing files <|
    if json then
      jsonLines (Envelope.ok (.object [("state", .string state.name), ("command", .string ""),
        ("output", .string ""), elapsedMember c]))
    else
      notice .info .dim "nothing to preview: add an enabled verb and some input" c.style

/-- The ending that reports the state after a preview. -/
def previewEnding (c : Context) (files : Files.Tree) (state : State) (json : Bool) : Ending :=
  match state with
  | .showing _ (.success s) => successEnding c files state s json
  | .showing _ (.failure message _) => failureEnding c files state message json
  | .idle _ | .waiting _ | .running _ => idleEnding c files state json

/-- The saved configuration after the command line that comes first. -/
def previewConfiguration (command? : Option String) (saved : Configuration) :
    Except CommandError Configuration :=
  match command? with
  | some line => Configuration.ofCommand line saved
  | none => .ok saved

/-- The command that previews. -/
def previewPipeline (c : Context) (task : PreviewTask) : Ending :=
  match c.load with
  | .error failure => .ofFailure c.files failure
  | .ok (saved, _) =>
    match previewConfiguration task.command? saved with
    | .error e => shownError c.files c.style task.json "Parse Error" e.message
    | .ok configuration =>
      match previewBench c task configuration with
      | .error failure => .ofFailure c.files failure
      | .ok bench =>
        let (state, files) := previewOnce c (previewBounds task.lines?) bench
        previewEnding c files state task.json

end Pipewright.Program
