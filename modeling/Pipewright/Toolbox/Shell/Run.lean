import Pipewright.Toolbox.Echo
import Pipewright.Toolbox.Filter
import Pipewright.Toolbox.Printf
import Pipewright.Toolbox.Shell.Script
import Pipewright.Toolbox.Sleep

/-!
# Running scripts

The shell runs a script that is given as an argument. Parameters take their values, commands run
one after the other, and the streams of a command go where its redirections say.

## Main definitions

* `Session`: what has come of a script so far.
* `expand`: the words that a command is made of.
* `runScript`, `shell`: the shell.
-/

namespace Pipewright.Toolbox.Shell

/-- How a script ends before its last command. -/
inductive Departure where
  /-- With a status. -/
  | exit (status : Nat)
  /-- By a signal. -/
  | signal
  deriving DecidableEq, Repr

/-- What has come of a script so far. -/
structure Session where
  /-- The octets of the output. -/
  output : List UInt8 := []
  /-- The octets of the messages. -/
  messages : List UInt8 := []
  /-- What is left of the input. -/
  input : List UInt8
  /-- The status of the last command. -/
  status : Nat := 0
  /-- The time that has passed, in nanoseconds. -/
  elapsed : Nat := 0
  /-- The script has ended. -/
  departure? : Option Departure := none

/-- What a script finds. -/
structure Frame where
  /-- The files. -/
  files : Files.Tree
  /-- The variables. -/
  environment : List (String × String)
  /-- The name of the script. -/
  name : String
  /-- The arguments of the script. -/
  arguments : List String

/-- The number of the process, as a script sees it. -/
def processNumber : String := "1000"

/-- The values of a parameter. -/
def values (f : Frame) (status : Nat) : Parameter → List String
  | .argument 0 => [f.name]
  | .argument (n + 1) => (f.arguments[n]?).toList
  | .each | .joined => f.arguments
  | .count => [toString f.arguments.length]
  | .status => [toString status]
  | .process => [processNumber]
  | .variable name => (f.environment.lookup name).toList

/-- Words that are being put together. -/
structure Fields where
  /-- The words, in order. -/
  done : List (List Char) := []
  /-- The word that is not ended. -/
  current? : Option (List Char) := none

namespace Fields

/-- More characters in the word that is not ended. -/
def append (f : Fields) (cs : List Char) : Fields :=
  { f with current? := some (f.current?.getD [] ++ cs) }

/-- The word is ended. -/
def close (f : Fields) : Fields :=
  match f.current? with
  | some cs => { done := f.done ++ [cs] }
  | none => f

/-- More characters, where blanks end words. -/
def split (f : Fields) (cs : List Char) : Fields :=
  cs.foldl (fun f c => if c == ' ' || c == '\t' || c == '\n' then f.close else f.append [c]) f

/-- More values, with the word ended between each two of them. -/
def each (add : Fields → List Char → Fields) (f : Fields) : List String → Fields
  | [] => f
  | [v] => add f v.toList
  | v :: rest => each add (add f v.toList).close rest

/-- One more piece of a word. -/
def addPiece (frame : Frame) (status : Nat) (f : Fields) : WordPiece → Fields
  | .literal cs => f.append cs
  | .parameter p true =>
    match p with
    | .each => f.each append frame.arguments
    | _ => f.append (" ".intercalate (values frame status p)).toList
  | .parameter p false => f.each split (values frame status p)

end Fields

/-- The words that a word of a script stands for. -/
def expandWord (frame : Frame) (status : Nat) (pieces : List WordPiece) : List String :=
  let start : Fields := if pieces.isEmpty then { current? := some [] } else {}
  ((pieces.foldl (Fields.addPiece frame status) start).close.done).map .ofList

/-- The words that a command is made of. -/
def expand (frame : Frame) (status : Nat) (words : List (List WordPiece)) : List String :=
  words.flatMap (expandWord frame status)

/-- Where the octets of a stream go in the end. -/
inductive Sink where
  /-- To the output. -/
  | output
  /-- To the messages. -/
  | messages
  /-- Nowhere. -/
  | nowhere
  deriving DecidableEq, Repr

/-- Where the output and the messages of a command go. -/
abbrev Sinks := Sink × Sink

/-- The sink that the file with the given name is. Other files take octets and do not show
them. -/
def fileSink (s : Sinks) (name : List String) : Sink :=
  if name == ["/dev/stdout"] then s.1
  else if name == ["/dev/stderr"] then s.2
  else .nowhere

/-- The sinks after a redirection. -/
def redirect (frame : Frame) (status : Nat) (s : Sinks) (r : Redirection) : Sinks :=
  let (stream, sink) := match r with
    | .file stream name => (stream, fileSink s (expandWord frame status name))
    | .stream stream name =>
      (stream, if expandWord frame status name == ["2"] then s.2 else s.1)
  if stream = 2 then (s.1, sink) else (sink, s.2)

/-- The session with octets in the given sink. -/
def Session.pour (s : Session) (octets : List UInt8) : Sink → Session
  | .output => { s with output := s.output ++ octets }
  | .messages => { s with messages := s.messages ++ octets }
  | .nowhere => s

/-- The status that stands for a signal. -/
def killedStatus : Nat := 137

/-- The session after a small program. -/
def Session.after (s : Session) (sinks : Sinks) (e : Execution) : Session :=
  let s := (s.pour e.output sinks.1).pour e.messages sinks.2
  { s with
    input := e.rest
    status := e.status.getD killedStatus
    elapsed := s.elapsed + e.elapsed }

/-- The small program with the given name that the shell can run. -/
def program? (name : String) : Option (Call → Execution) :=
  [("echo", plainEcho), ("printf", plainPrintf), ("cat", cat), ("head", head), ("wc", wc),
    ("sleep", sleep), ("true", fun c => succeed c []), (":", fun c => succeed c []),
    ("false", fun c => { status := some 1, rest := c.input })].lookup name

/-- A message of the shell about a command. -/
def shellMessage (frame : Frame) (text : String) : List UInt8 :=
  Text.encode (frame.name ++ ": 1: " ++ text ++ "\n")

/-- Ends the script with the status that is given, or with that of the last command. -/
def exitScript (frame : Frame) (s : Session) (arguments : List String) : Session :=
  match arguments with
  | [] => { s with departure? := some (.exit s.status) }
  | word :: _ =>
    match Text.readNat? word.toList with
    | some status => { s with departure? := some (.exit (status % 256)) }
    | none =>
      { s.pour (shellMessage frame ("exit: Illegal number: " ++ word)) .messages with
        departure? := some (.exit 2) }

/-- Sends a signal. Only the shell itself can be reached. -/
def kill (frame : Frame) (sinks : Sinks) (s : Session) (arguments : List String) : Session :=
  if arguments.getLast? == some processNumber then { s with departure? := some .signal }
  else { s.pour (shellMessage frame "kill: No such process") sinks.2 with status := 1 }

/-- Runs a small program. -/
def runProgram (frame : Frame) (sinks : Sinks) (s : Session) (name : String)
    (arguments : List String) : Session :=
  match program? name with
  | some program => s.after sinks (program ⟨frame.files, arguments, s.input⟩)
  | none => { s.pour (shellMessage frame (name ++ ": not found")) sinks.2 with status := 127 }

/-- Runs a command. -/
def runCommand (frame : Frame) (s : Session) (command : Command) : Session :=
  let sinks := command.redirections.foldl (redirect frame s.status) (.output, .messages)
  match expand frame s.status command.words with
  | [] => { s with status := 0 }
  | "exit" :: arguments => exitScript frame s arguments
  | "kill" :: arguments => kill frame sinks s arguments
  | "exec" :: name :: arguments =>
    let s := runProgram frame sinks s name arguments
    { s with departure? := some (.exit s.status) }
  | name :: arguments => runProgram frame sinks s name arguments

/-- The status that a departure leaves behind. -/
def Departure.status : Departure → Nat
  | exit status => status
  | signal => killedStatus

/-- Runs commands of which each reads what the one before it prints. None of them can end the
script. -/
def runPiped (frame : Frame) (s : Session) : List Command → Session
  | [] => s
  | command :: rest =>
    let e := runCommand frame { input := s.input, status := s.status } command
    let status := (e.departure?.map Departure.status).getD e.status
    let s := { s with
      messages := s.messages ++ e.messages
      status := status
      elapsed := s.elapsed + e.elapsed }
    if rest.isEmpty then { s with output := s.output ++ e.output, input := [] }
    else runPiped frame { s with input := e.output } rest

/-- Runs a pipeline. -/
def runPipeline (frame : Frame) (s : Session) : List Command → Session
  | [command] => runCommand frame s command
  | commands => runPiped frame s commands

/-- The pipeline runs when the last status is the given one. -/
def Condition.holds (status : Nat) : Condition → Bool
  | always => true
  | afterSuccess => status = 0
  | afterFailure => status ≠ 0

/-- Runs a pipeline, unless the script has ended or the condition does not hold. -/
def runConditional (frame : Frame) (s : Session) (entry : Condition × List Command) : Session :=
  if s.departure?.isSome || !entry.1.holds s.status then s
  else runPipeline frame s entry.2

/-- What comes of a session in the end. -/
def Session.execution (s : Session) : Execution :=
  { output := s.output
    messages := s.messages
    status := match s.departure? with
      | some (.exit status) => some status
      | some .signal => none
      | none => some s.status
    elapsed := s.elapsed
    rest := s.input }

/-- A complaint of the shell itself. -/
def refuse (c : Call) (message : String) : Execution :=
  { complain c message with status := some 2 }

/-- Runs a script. -/
def runScript (frame : Frame) (c : Call) (script : String) : Execution :=
  match readTokens script with
  | none => refuse c (frame.name ++ ": 1: Syntax error: Unterminated quoted string")
  | some tokens =>
    match Script.ofTokens? tokens with
    | none => refuse c (frame.name ++ ": 1: Syntax error: unexpected token")
    | some script => (script.foldl (runConditional frame) { input := c.input }).execution

/-- The shell. Its script is the argument behind the switch for commands; the name of the script
and its arguments follow. -/
def shell (environment : List (String × String)) (c : Call) : Execution :=
  match c.arguments with
  | "-c" :: script :: name :: arguments =>
    runScript ⟨c.files, environment, name, arguments⟩ c script
  | ["-c", script] => runScript ⟨c.files, environment, "sh", []⟩ c script
  | ["-c"] => refuse c "sh: 0: -c requires an argument"
  | word :: _ =>
    match word.toList with
    | '-' :: letter :: _ => refuse c ("sh: 0: Illegal option -" ++ String.singleton letter)
    | _ => refuse c ("sh: 0: cannot open " ++ word ++ ": No such file")
  | [] =>
    runScript ⟨c.files, environment, "sh", []⟩ { c with input := [] } (Text.decodeLossy c.input)

end Pipewright.Toolbox.Shell
