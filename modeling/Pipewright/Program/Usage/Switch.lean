import Pipewright.Text.Numeral

/-!
# The commands and their switches

The program has commands, one of which has commands of its own. Every command takes the switches
that concern the whole program, and some of its own. A switch has a long name and perhaps a
letter, and may take a value.

## Main definitions

* `Node`: the commands, as nodes of the tree of commands.
* `Switch`: the switches, with `Switch.name`, `Switch.letter?` and `Switch.takes`.
* `Node.switches`, `Node.children`, `Node.operands`: what a command takes.
-/

namespace Pipewright.Program.Usage

/-- A command, with or without commands of its own. -/
inductive Node where
  /-- The program itself. -/
  | program
  /-- Show the saved pipeline. -/
  | show
  /-- Take over a command line. -/
  | parse
  /-- Preview on a sample. -/
  | preview
  /-- Run on the whole input. -/
  | run
  /-- Edit line by line. -/
  | watch
  /-- Move the saved pipeline. -/
  | state
  /-- Write the saved pipeline to a file. -/
  | exportState
  /-- Read the pipeline to save from a file. -/
  | importState
  deriving DecidableEq, Repr

/-- What a command takes besides switches. -/
inductive Operands where
  /-- Nothing. -/
  | none
  /-- A path. -/
  | path
  /-- Words. The first one and all words behind it belong together, whatever they look like. -/
  | words
  deriving DecidableEq, Repr

/-- What a switch takes. -/
inductive Takes where
  /-- Nothing; the switch may be given once. -/
  | nothing
  /-- Nothing; every time counts. -/
  | count
  /-- A text. -/
  | text
  /-- A path, which is not empty. -/
  | path
  /-- A number. -/
  | number
  deriving DecidableEq, Repr

/-- A switch. -/
inductive Switch where
  /-- Log more. -/
  | verbose
  /-- Log errors only. -/
  | quiet
  /-- The state file. -/
  | state
  /-- The tool. -/
  | tool
  /-- The directory for logs. -/
  | logDirectory
  /-- Show how the command is used. -/
  | help
  /-- Show the version. -/
  | version
  /-- Answer with JSON. -/
  | json
  /-- Save what was parsed. -/
  | save
  /-- The input file. -/
  | input
  /-- The pasted text. -/
  | text
  /-- The command line to take over first. -/
  | command
  /-- The number of lines of a sample. -/
  | lines
  /-- The file for the output. -/
  | output
  /-- The time that the tool may take, in seconds. -/
  | timeout
  /-- The pause after an edit, in milliseconds. -/
  | debounce
  deriving DecidableEq, Repr

namespace Node

/-- The name of the command behind the names of the commands it belongs to. -/
def name : Node → String
  | program => "mlr-workbench"
  | .show => "show"
  | parse => "parse"
  | preview => "preview"
  | run => "run"
  | watch => "watch"
  | state => "state"
  | exportState => "export"
  | importState => "import"

/-- The commands of a command. A command that has some needs one of them. -/
def children : Node → List Node
  | program => [.show, parse, preview, run, watch, state]
  | state => [exportState, importState]
  | _ => []

/-- The command of this command with the given name. -/
def child? (n : Node) (word : String) : Option Node :=
  n.children.find? (·.name == word)

/-- What the command takes besides switches. -/
def operands : Node → Operands
  | parse => .words
  | exportState | importState => .path
  | _ => .none

/-- The switches that concern the whole program. -/
def commonSwitches : List Switch :=
  [.verbose, .quiet, .state, .tool, .logDirectory, .help, .version]

/-- The switches of the command alone. -/
def ownSwitches : Node → List Switch
  | .show => [.json]
  | parse => [.save, .json]
  | preview => [.input, .text, .command, .lines, .json]
  | run => [.input, .output, .timeout]
  | watch => [.debounce, .lines]
  | program | state | exportState | importState => []

/-- The switches of the command. -/
def switches (n : Node) : List Switch :=
  commonSwitches ++ n.ownSwitches

end Node

namespace Switch

/-- The long name of the switch. -/
def name : Switch → String
  | verbose => "verbose"
  | quiet => "quiet"
  | state => "state"
  | tool => "mlr"
  | logDirectory => "log-dir"
  | help => "help"
  | version => "version"
  | json => "json"
  | save => "save"
  | input => "input"
  | text => "text"
  | command => "command"
  | lines => "lines"
  | output => "output"
  | timeout => "timeout"
  | debounce => "debounce-ms"

/-- The letter of the switch. -/
def letter? : Switch → Option Char
  | verbose => some 'v'
  | quiet => some 'q'
  | help => some 'h'
  | version => some 'V'
  | input => some 'i'
  | command => some 'c'
  | output => some 'o'
  | _ => none

/-- What the switch takes. -/
def takes : Switch → Takes
  | verbose => .count
  | quiet | help | version | json | save => .nothing
  | tool | text | command => .text
  | state | logDirectory | input | output => .path
  | lines | timeout | debounce => .number

/-- The switch takes a value. -/
def takesValue (s : Switch) : Bool :=
  match s.takes with
  | .nothing | .count => false
  | .text | .path | .number => true

/-- The switch may have the given value. -/
def accepts (s : Switch) (value : String) : Bool :=
  match s.takes with
  | .path => !value.isEmpty
  | .number => (Text.readUInt64? value).isSome
  | .nothing | .count | .text => true

end Switch

namespace Node

/-- The switch of the command with the given long name. -/
def named? (n : Node) (name : String) : Option Switch :=
  n.switches.find? (·.name == name)

/-- The switch of the command with the given letter. -/
def lettered? (n : Node) (letter : Char) : Option Switch :=
  n.switches.find? (·.letter? == some letter)

end Node

end Pipewright.Program.Usage
