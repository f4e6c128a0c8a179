import Pipewright.Program

/-!
# What a run may open

Before the program runs, it is known which files it may open: the state file, the files that its
words name, and those that the configurations name which it goes through.

## Main definitions

* `Task.readsInput`: the task may read the standard input.
* `Environment.names`: the variables that count.
* `Invocation.reach`: the paths that may be opened.
-/

namespace Pipewright.Program

/-- The task may read the standard input. -/
def Task.readsInput : Task → Bool
  | .preview task => task.input?.isNone && task.text?.isNone
  | .run task => task.input?.isNone
  | .watch _ => true
  | .show _ | .parse .. | .exportState _ | .importState _ => false

/-- The variables that count. -/
def Environment.names : List String :=
  [stateVariable, toolVariable, logDirectoryVariable, "HOME", "PATH", "COLUMNS", "NO_COLOR",
    "NO_EMOJI"]

/-- The paths that the words of a task name. -/
def Task.paths : Task → List String
  | .preview task => task.input?.toList
  | .run task => task.input?.toList ++ task.output?.toList
  | .exportState path | .importState path => [path, StateFile.temporary path]
  | .show _ | .parse .. | .watch _ => []

/-- The paths that a configuration names: its input file, and whatever its arguments are. -/
def configurationPaths (configuration : Configuration) : List String :=
  configuration.inputPath ::
    match configuration.arguments with
    | .ok arguments => arguments
    | .error _ => []

/-- The configurations that the lines lead to. -/
def reachedByLines (bench : Bench) : List String → List Configuration
  | [] => []
  | text :: rest =>
    let bench' := (bench.feed text).2
    bench'.configuration :: reachedByLines bench' rest

/-- The configurations that a task goes through, from the saved one. -/
def Task.configurations (saved : Configuration) (input : List UInt8) : Task → List Configuration
  | .preview task => saved :: (previewConfiguration task.command? saved).toOption.toList
  | .watch _ => saved :: reachedByLines ⟨saved, ""⟩ ((inputLines input).map Text.decodeLossy)
  | .run _ => [saved]
  | .show _ | .parse .. | .exportState _ | .importState _ => []

/-- The paths that the context and the words name. -/
def Invocation.namedPaths (c : Context) (invocation : Invocation) : List String :=
  [c.stateFile, StateFile.temporary c.stateFile, c.tool] ++
    invocation.common.logDirectory?.toList ++
    (c.host.environment.filled? logDirectoryVariable).toList ++ invocation.task.paths

/-- The paths that may be opened, when the files that the context and the words name are known. -/
def Invocation.reach (c : Context) (invocation : Invocation) : List String :=
  let saved := match c.load with
    | .ok (configuration, _) => configuration
    | .error _ => {}
  invocation.namedPaths c ++
    (invocation.task.configurations saved c.host.input).flatMap configurationPaths

end Pipewright.Program
