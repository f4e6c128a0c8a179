import Pipewright.Duration
import Pipewright.Format
import Pipewright.Text.Blank

/-!
# Running the tool

The tool is run with a list of arguments and its records, and answers with its output, its
messages and its exit status. It may also be impossible to run it at all.

## Main definitions

* `Records`, `Request`: what the tool is given.
* `ToolReply`: what it answers.
* `RunError`: why it could not be run.
* `Answer`, `Reaction`: what comes of a request, and when.
-/

namespace Pipewright.Preview

/-- What the tool reads its records from. -/
inductive Records where
  /-- The text on its standard input. -/
  | text (content : String)
  /-- The file that is its last argument. -/
  | file (path : String)
  deriving DecidableEq, Repr

/-- What the tool is given. -/
structure Request where
  /-- The arguments. -/
  arguments : List String
  /-- The records. -/
  records : Records
  /-- The output format that the arguments select. -/
  format : OutputFormat
  deriving DecidableEq, Repr

/-- What the tool answers. -/
structure ToolReply where
  /-- The output. -/
  output : String := ""
  /-- The messages. -/
  messages : String := ""
  /-- The exit status, or nothing if a signal ended the tool. -/
  status : Option Int := some 0
  deriving DecidableEq, Repr

/-- The tool ended well and had nothing to say. -/
def ToolReply.endedWell (o : ToolReply) : Bool :=
  o.status == some 0 && Text.isBlankText o.messages

/-- Why the tool could not be run. -/
inductive RunError where
  /-- There is no such program. -/
  | notFound (program : String)
  /-- The program cannot be started, for a reason in the system's own words. -/
  | unstartable (program reason : String)
  /-- The program takes too long. -/
  | overdue (program : String) (limit : Duration)
  /-- The program cannot be talked to, for a reason in the system's own words. -/
  | broken (program reason : String)
  deriving DecidableEq, Repr

namespace RunError

/-- The error in words. -/
def message : RunError → String
  | notFound program => "tool '" ++ program ++ "' not found (is it installed and on PATH?)"
  | unstartable program _ => "failed to start '" ++ program ++ "'"
  | overdue program limit => "'" ++ program ++ "' did not finish within " ++ limit.shown
  | broken program _ => "i/o error while talking to '" ++ program ++ "'"

/-- The error with the reasons behind it. -/
def chain (e : RunError) : List String :=
  e.message ::
    match e with
    | notFound _ | overdue .. => []
    | unstartable _ reason | broken _ reason => [reason]

end RunError

/-- What comes of a request. -/
inductive Answer where
  /-- The tool answers, or cannot be run. -/
  | reply (result : Except RunError ToolReply)
  /-- The run breaks down, with a message if there is one. -/
  | breakdown (message : Option String)

/-- What comes of a request, and how many milliseconds later. -/
structure Reaction where
  /-- The number of milliseconds that pass. -/
  delay : Nat
  /-- The answer. -/
  answer : Answer

end Pipewright.Preview
