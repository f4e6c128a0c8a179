import Pipewright.Bench
import Pipewright.Command.Caret
import Pipewright.Command.Reading
import Pipewright.Configuration.Edit
import Pipewright.Editor.Command

/-!
# Applying edits

A command changes the bench or asks for something else; a command that fails leaves the
bench as it is. Text commands switch to pasted text.

## Main definitions

* `FollowUp`: what a command asks for.
* `EditError`: why a command fails, with `EditError.message`.
* `Bench.perform`: the bench after a command.
* `LineOutcome`, `Bench.feed`: the bench after a line.
-/

namespace Pipewright

/-- What follows a command. -/
inductive FollowUp where
  /-- The bench has changed. -/
  | edited
  /-- The pipeline is shown. -/
  | list
  /-- The commands are shown. -/
  | help
  /-- The dialogue ends. -/
  | quit
  deriving DecidableEq, Repr

/-- Why a command fails. -/
inductive EditError where
  /-- There is no verb at the position. -/
  | noStep (index : UInt64)
  /-- The verb at the position has none before it. -/
  | cannotMoveUp (index : UInt64)
  /-- The verb at the position has none after it. -/
  | cannotMoveDown (index : UInt64)
  /-- The text of the new verb is blank. -/
  | blankStep
  /-- The command line is refused. -/
  | refused (line : String) (error : CommandError)
  /-- A position is too great. -/
  | overflow (error : PositionOverflow)
  deriving DecidableEq, Repr

/-- The number of the verb at a position, as people count. -/
def verbNumber (index : UInt64) : String :=
  "#" ++ toString (index.toNat + 1)

/-- The error in words. -/
def EditError.message : EditError → String
  | noStep index => "no verb " ++ verbNumber index
  | cannotMoveUp index => "verb " ++ verbNumber index ++ " cannot move up"
  | cannotMoveDown index => "verb " ++ verbNumber index ++ " cannot move down"
  | blankStep => "verb text is empty"
  | refused line error => error.message ++ "\n" ++ withCaret line error.position
  | overflow (.behind index) => "no position behind " ++ toString index

/-- The value, or the error where there is none. -/
def orElseFail {ε α : Type} (error : ε) (value : Option α) : Except ε α :=
  match value with
  | some a => .ok a
  | none => .error error

/-- The text with another line. A line that was not ended is ended first. -/
def appendLine (text line : String) : String :=
  let ended := text.isEmpty || text.toList.getLast? == some '\n'
  (if ended then text else text.push '\n') ++ line.push '\n'

/-- The configuration after a command that changes it. -/
def Configuration.edit (c : Configuration) : EditCommand → Except EditError Configuration
  | .stepAdd text => orElseFail .blankStep (c.addStep? text)
  | .stepEdit i text => orElseFail (.noStep i) (c.retextStep? i text)
  | .stepRemove i => orElseFail (.noStep i) (c.removeStep? i)
  | .stepUp i => orElseFail (.cannotMoveUp i) (c.moveStepUp? i)
  | .stepDown i =>
    match c.moveStepDown i with
    | .ok moved => orElseFail (.cannotMoveDown i) moved
    | .error e => .error (.overflow e)
  | .stepToggle i => orElseFail (.noStep i) (c.toggleStep? i)
  | .inputFormat f => .ok { c with inputFormat := f }
  | .outputFormat f => .ok { c with outputFormat := f }
  | .ragged on => .ok { c with ragged := on.getD (!c.ragged) }
  | .headerless on => .ok { c with headerless := on.getD (!c.headerless) }
  | .separator text => .ok (c.setSeparator text)
  | .options text => .ok (c.setOptions text)
  | .file path => .ok (c.setInputFile path)
  | .text _ | .append _ => .ok { c with inputMode := .text }
  | .importCommand line =>
    match Configuration.ofCommand line c with
    | .ok c' => .ok c'
    | .error e => .error (.refused line e)
  | .list | .help | .quit => .ok c

/-- The pasted text after a command. -/
def EditCommand.textAfter (text : String) : EditCommand → String
  | .text content => content
  | .append line => appendLine text line
  | _ => text

/-- What follows a command that does not fail. -/
def EditCommand.followUp : EditCommand → FollowUp
  | .list => .list
  | .help => .help
  | .quit => .quit
  | _ => .edited

/-- What came of a line. -/
inductive LineOutcome where
  /-- The line holds no command. -/
  | idle
  /-- The line is refused. -/
  | refused (error : LineError)
  /-- The command fails. -/
  | failed (command : EditCommand) (error : EditError)
  /-- The command is done. -/
  | done (command : EditCommand) (followUp : FollowUp)
  deriving DecidableEq, Repr

namespace Bench

/-- The bench after a command, and what follows. -/
def perform (w : Bench) (command : EditCommand) : Except EditError (FollowUp × Bench) := do
  let c ← w.configuration.edit command
  return (command.followUp, ⟨c, command.textAfter w.text⟩)

/-- The bench after a line, and what came of the line. -/
def feed (w : Bench) (line : String) : LineOutcome × Bench :=
  match readLine line with
  | .error e => (.refused e, w)
  | .ok none => (.idle, w)
  | .ok (some command) =>
    match w.perform command with
    | .error e => (.failed command e, w)
    | .ok (followUp, w') => (.done command followUp, w')

end Bench

end Pipewright
