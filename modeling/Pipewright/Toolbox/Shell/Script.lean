import Pipewright.Toolbox.Shell.Token

/-!
# Scripts

A script is a list of pipelines, each of which runs always or depending on how the one before it
ended. A pipeline is a list of commands, each of which reads what the one before it prints.

## Main definitions

* `Command`, `Script`: commands and scripts.
* `Script.ofTokens?`: the script that is made of the given tokens.
-/

namespace Pipewright.Toolbox.Shell

/-- Where the octets of a stream go. -/
inductive Redirection where
  /-- To a file. -/
  | file (stream : Nat) (name : List WordPiece)
  /-- Where the octets of another stream go. -/
  | stream (stream : Nat) (name : List WordPiece)
  deriving DecidableEq, Repr

/-- A command with its redirections. -/
structure Command where
  /-- The words. -/
  words : List (List WordPiece) := []
  /-- The redirections, in order. -/
  redirections : List Redirection := []
  deriving DecidableEq, Repr

/-- When a pipeline runs. -/
inductive Condition where
  /-- Always. -/
  | always
  /-- When the one before it ends well. -/
  | afterSuccess
  /-- When the one before it ends badly. -/
  | afterFailure
  deriving DecidableEq, Repr

/-- Pipelines, each with the condition under which it runs. -/
abbrev Script := List (Condition × List Command)

/-- The command has neither words nor redirections. -/
def Command.isEmpty (c : Command) : Bool :=
  c.words.isEmpty && c.redirections.isEmpty

/-- What has been put together of a script. -/
structure Assembly where
  /-- The pipelines, in order. -/
  script : Script := []
  /-- The condition of the pipeline that is put together. -/
  condition : Condition := .always
  /-- The commands of that pipeline, in order. -/
  pipeline : List Command := []
  /-- The command that is put together. -/
  command : Command := {}
  /-- The redirection that waits for its word. -/
  waiting : Option (List WordPiece → Redirection) := none

namespace Assembly

/-- The assembly with its pipeline ended; nothing where a command is missing. Only a pipeline
that runs always may be missing altogether. -/
def endPipeline (a : Assembly) (next : Condition) : Option Assembly :=
  if a.waiting.isSome then none
  else if a.command.isEmpty then
    if a.pipeline.isEmpty && a.condition = .always && next = .always then some a else none
  else
    some { script := a.script ++ [(a.condition, a.pipeline ++ [a.command])], condition := next }

/-- The assembly with one more token. -/
def add (a : Assembly) : Token → Option Assembly
  | .word pieces =>
    match a.waiting with
    | some redirect =>
      some { a with
        command := { a.command with redirections := a.command.redirections ++ [redirect pieces] }
        waiting := none }
    | none => some { a with command := { a.command with words := a.command.words ++ [pieces] } }
  | .separator => a.endPipeline .always
  | .andThen => a.endPipeline .afterSuccess
  | .orElse => a.endPipeline .afterFailure
  | .pipe =>
    if a.waiting.isSome || a.command.isEmpty then none
    else some { a with pipeline := a.pipeline ++ [a.command], command := {} }
  | .toFile stream =>
    if a.waiting.isSome then none else some { a with waiting := some (.file stream) }
  | .toStream stream =>
    if a.waiting.isSome then none else some { a with waiting := some (.stream stream) }

end Assembly

/-- The script that is made of the given tokens, if they make one. -/
def Script.ofTokens? (tokens : List Token) : Option Script := do
  let a ← tokens.foldlM Assembly.add {}
  let a ← a.endPipeline .always
  return a.script

end Pipewright.Toolbox.Shell
