import Pipewright.Program.Context

/-!
# Moving the saved pipeline

The saved pipeline is written to a file of its own, or replaced by one that is read from a file.

## Main definitions

* `exportState`, `importState`: the two commands.
-/

namespace Pipewright.Program

/-- The command that writes the saved pipeline to the file at `path`; nothing saved means the
default configuration. -/
def exportState (c : Context) (path : String) : Ending :=
  match c.load with
  | .error failure => .ofFailure c.files failure
  | .ok (configuration, _) =>
    match StateFile.write c.files path configuration with
    | (.error e, files) =>
      .ofFailure files (.because ("Failed to export state to " ++ path) e.chain)
    | (.ok (), files) =>
      .printing files (notice .save .success ("exported to " ++ path) c.style)

/-- What is said of an imported configuration. -/
def importedLines (configuration : Configuration) (path : String) (style : Display.Style) :
    String :=
  let command := configuration.commandLine
  notice .success .success ("imported " ++ path) style ++
    if command.isEmpty then "" else line command

/-- The command that saves the pipeline in the file at `path`. -/
def importState (c : Context) (path : String) : Ending :=
  match StateFile.read c.files path with
  | .error e => .ofFailure c.files (.because ("Failed to import state from " ++ path) e.chain)
  | .ok configuration =>
    match c.save configuration with
    | (.error failure, files) => .ofFailure files failure
    | (.ok (), files) => .printing files (importedLines configuration path c.style)

end Pipewright.Program
