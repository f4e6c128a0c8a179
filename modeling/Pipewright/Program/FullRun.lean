import Pipewright.Program.Context

/-!
# Running on the whole input

The tool is run on the input file, which is its last argument, or on the whole standard input.
Its output is printed as it is or written to a file. Warnings of the tool are passed on; a tool that ends
badly makes the command fail.

## Main definitions

* `runPipeline`: the command that runs the saved pipeline.
-/

namespace Pipewright.Program

/-- The saved configuration with the input file that the command names. -/
def runConfiguration (c : Context) (task : RunTask) : Except Failure Configuration :=
  match c.load with
  | .error failure => .error failure
  | .ok (saved, _) =>
    match task.input? with
    | some path => .ok (saved.setInputFile path)
    | none => .ok saved

/-- What the tool is given. -/
def runRequest (c : Context) (configuration : Configuration) : Except Failure Preview.Request :=
  match configuration.arguments with
  | .error e => .error ⟨e.message, []⟩
  | .ok arguments =>
    match configuration.inputFile? with
    | some path => .ok ⟨arguments, .file path, configuration.outputFormat⟩
    | none =>
      match c.inputText with
      | .error failure => .error failure
      | .ok text => .ok ⟨arguments, .text text, configuration.outputFormat⟩

/-- What is said of an output that was written to a file. -/
def writtenNotice (c : Context) (path output : String) : String :=
  notice .success .success
    ("wrote " ++ toString output.utf8ByteSize ++ " bytes to " ++ path ++ " in " ++
      toString c.host.elapsed ++ " ms") c.style

/-- The ending after a tool that ended well. -/
def deliver (c : Context) (output? : Option String) (reply : Preview.ToolReply) : Ending :=
  let warnings := if Text.isBlankText reply.messages then "" else reply.messages
  match output? with
  | none => { files := c.files, output := reply.output, messages := warnings }
  | some path =>
    match c.files.writeBytes path (Text.encode reply.output) with
    | .ok files => { files, messages := warnings ++ writtenNotice c path reply.output }
    | .error cause =>
      { files := c.files
        messages := warnings
        failure? := some (.because ("Failed to write output: " ++ path) [cause.message]) }

/-- The command that runs the saved pipeline. -/
def runPipeline (c : Context) (task : RunTask) : Ending :=
  match runConfiguration c task with
  | .error failure => .ofFailure c.files failure
  | .ok configuration =>
    if !configuration.hasEnabledSteps then
      shownError c.files c.style false "Run Error" "the pipeline has no enabled verbs"
    else
      match runRequest c configuration with
      | .error failure => .ofFailure c.files failure
      | .ok request =>
        match c.runTool (.ofSeconds task.timeout.toNat) request with
        | .error e =>
          .ofFailure c.files (.because ("Failed to run '" ++ c.tool ++ "'") e.chain)
        | .ok reply =>
          if reply.status = some 0 then deliver c task.output? reply
          else
            shownError c.files c.style false "Run Failed"
              (Preview.toolReport reply.status reply.messages)

end Pipewright.Program
