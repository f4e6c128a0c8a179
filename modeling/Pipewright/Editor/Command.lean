import Pipewright.Format
import Pipewright.Text.Numeral

/-!
# The edit language

A pipeline is edited line by line. A line is a keyword and what belongs to it; keywords count
in any case of letters, and verbs are numbered from one. Blank lines and comments are no
commands.

## Main definitions

* `EditCommand`: the commands.
* `LineError`: why a line is refused, with `LineError.message`.
* `readLine`: the command of a line.
-/

namespace Pipewright

/-- A command of the edit language. Positions count from zero. -/
inductive EditCommand where
  /-- Append a step. -/
  | stepAdd (text : String)
  /-- Replace the text of a step. -/
  | stepEdit (index : UInt64) (text : String)
  /-- Remove a step. -/
  | stepRemove (index : UInt64)
  /-- Move a step in front of the one before it. -/
  | stepUp (index : UInt64)
  /-- Move a step behind the one after it. -/
  | stepDown (index : UInt64)
  /-- Switch a step on or off. -/
  | stepToggle (index : UInt64)
  /-- Set the input format. -/
  | inputFormat (format : InputFormat)
  /-- Set the output format. -/
  | outputFormat (format : OutputFormat)
  /-- Set the ragged switch, or turn it over. -/
  | ragged (on : Option Bool)
  /-- Set the headerless switch, or turn it over. -/
  | headerless (on : Option Bool)
  /-- Set the field separator. -/
  | separator (text : String)
  /-- Set the options. -/
  | options (text : String)
  /-- Read the records from a file. -/
  | file (path : String)
  /-- Replace the pasted text. -/
  | text (content : String)
  /-- Append a line to the pasted text. -/
  | append (line : String)
  /-- Take over a command line. -/
  | importCommand (line : String)
  /-- Show the pipeline. -/
  | list
  /-- Show the commands. -/
  | help
  /-- End the dialogue. -/
  | quit
  deriving DecidableEq, Repr

/-- Why a line is refused. -/
inductive LineError where
  /-- The number of a verb is expected. -/
  | notAVerbNumber (word : String)
  /-- The state of a switch is expected. -/
  | notASwitch (word : String)
  /-- The text of the new verb is missing. -/
  | missingVerb
  /-- The number or the new text of the verb is missing. -/
  | missingVerbText
  /-- There is no such action on verbs. -/
  | unknownAction (word : String)
  /-- There is no such input format. -/
  | unknownInputFormat (word : String)
  /-- There is no such output format. -/
  | unknownOutputFormat (word : String)
  /-- The separator is missing. -/
  | missingSeparator
  /-- The path is missing. -/
  | missingPath
  /-- The command line is missing. -/
  | missingCommand
  /-- There is no such command. -/
  | unknownCommand (word : String)
  deriving DecidableEq, Repr

/-- The error in words. -/
def LineError.message : LineError → String
  | notAVerbNumber word => "expected a verb number (1, 2, ...), got '" ++ word ++ "'"
  | notASwitch word => "expected on/off, got '" ++ word ++ "'"
  | missingVerb => "verb add needs the verb text"
  | missingVerbText => "verb edit needs a number and the new text"
  | unknownAction word => "unknown verb action '" ++ word ++ "'"
  | unknownInputFormat word =>
    "unknown input format '" ++ word ++ "' (one of: " ++
      ", ".intercalate (InputFormat.all.map (·.name)) ++ ")"
  | unknownOutputFormat word =>
    "unknown output format '" ++ word ++ "' (one of: " ++
      ", ".intercalate (OutputFormat.all.map (·.name)) ++ ")"
  | missingSeparator => "ifs needs a separator"
  | missingPath => "file needs a path"
  | missingCommand => "import needs a command line"
  | unknownCommand word => "unknown command '" ++ word ++ "' (try 'help')"

/-- The position that the number of a verb denotes. -/
def readPosition (word : String) : Except LineError UInt64 :=
  match Text.readUInt64? word with
  | some n => if n = 0 then .error (.notAVerbNumber word) else .ok (n - 1)
  | none => .error (.notAVerbNumber word)

/-- The state of a switch that a word denotes; no word turns the switch over. -/
def readSwitch (word : String) : Except LineError (Option Bool) :=
  let folded := Text.lower word
  if folded.isEmpty then .ok none
  else if ["on", "true", "yes", "1"].contains folded then .ok (some true)
  else if ["off", "false", "no", "0"].contains folded then .ok (some false)
  else .error (.notASwitch folded)

/-- The characters with line feeds and tabs in place of their escapes. -/
def expandEscapesIn : List Char → List Char
  | '\\' :: 'n' :: cs => '\n' :: expandEscapesIn cs
  | '\\' :: 't' :: cs => '\t' :: expandEscapesIn cs
  | c :: cs => c :: expandEscapesIn cs
  | [] => []

/-- The text with line feeds and tabs in place of their escapes. -/
def expandEscapes (s : String) : String :=
  .ofList (expandEscapesIn s.toList)

/-- The text, unless it is empty. -/
def required (missing : LineError) (text : String) : Except LineError String :=
  if text.isEmpty then .error missing else .ok text

/-- The command of a line about verbs; `rest` follows the keyword. -/
def readVerbCommand (rest : String) : Except LineError EditCommand := do
  let (action, rest) := Text.cutWord rest
  let folded := Text.lower action
  if folded == "add" then return .stepAdd (← required .missingVerb rest)
  else if folded == "edit" then
    let (number, text) := Text.cutWord rest
    let text ← required .missingVerbText text
    return .stepEdit (← readPosition number) text
  else if folded == "rm" || folded == "remove" then return .stepRemove (← readPosition rest)
  else if folded == "up" then return .stepUp (← readPosition rest)
  else if folded == "down" then return .stepDown (← readPosition rest)
  else if folded == "toggle" then return .stepToggle (← readPosition rest)
  else throw (.unknownAction folded)

/-- The command with the given keyword, in lower case; `rest` follows the keyword. -/
def readCommand (keyword rest : String) : Except LineError EditCommand := do
  if keyword == "verb" || keyword == "v" then readVerbCommand rest
  else if keyword == "in" then
    match InputFormat.ofName? rest with
    | some f => return .inputFormat f
    | none => throw (.unknownInputFormat rest)
  else if keyword == "out" then
    match OutputFormat.ofName? rest with
    | some f => return .outputFormat f
    | none => throw (.unknownOutputFormat rest)
  else if keyword == "ragged" then return .ragged (← readSwitch rest)
  else if keyword == "headerless" then return .headerless (← readSwitch rest)
  else if keyword == "ifs" then return .separator (← required .missingSeparator rest)
  else if keyword == "options" then return .options rest
  else if keyword == "file" then return .file (← required .missingPath rest)
  else if keyword == "text" then return .text (expandEscapes rest)
  else if keyword == "append" then return .append (expandEscapes rest)
  else if keyword == "import" then return .importCommand (← required .missingCommand rest)
  else if keyword == "list" || keyword == "ls" || keyword == "show" then return .list
  else if keyword == "help" || keyword == "?" then return .help
  else if keyword == "quit" || keyword == "exit" || keyword == "q" then return .quit
  else throw (.unknownCommand keyword)

/-- The line holds no command: it is blank or a comment. -/
def isIdleLine (line : String) : Bool :=
  match (Text.trim line).toList with
  | [] => true
  | c :: _ => c == '#'

/-- The command of a line, if it holds one. -/
def readLine (line : String) : Except LineError (Option EditCommand) := do
  if isIdleLine line then return none
  let (keyword, rest) := Text.cutWord line
  return some (← readCommand (Text.lower keyword) rest)

end Pipewright
