import Pipewright.Program.Usage.Switch

/-!
# Reading the words of a command

The words behind a command are switches with their values, the name of a command that belongs
to it, and operands. Two hyphens alone end the switches. A value follows its switch as a word
of its own, behind an equals sign, or directly behind a letter.

## Main definitions

* `Given`: the switches and operands of one command.
* `Refusal`: why the words are refused.
* `Stop`: why reading ends early.
* `readLevel`: the switches and operands of a command, and the words of the command below it.
* `readLevels`: the commands from the program down, each with its switches and operands.
-/

namespace Pipewright.Program.Usage

/-- The switches and operands of one command. -/
structure Given where
  /-- The command. -/
  node : Node
  /-- The switches with their values, in order; a switch without a value has an empty one. -/
  switches : List (Switch × String) := []
  /-- The operands. -/
  operands : List String := []
  deriving DecidableEq, Repr

/-- Why the words are refused. -/
inductive Refusal where
  /-- There is no such switch. -/
  | unknownSwitch (word : String)
  /-- The switch takes no value. -/
  | unexpectedValue (switch : Switch)
  /-- The switch has no value. -/
  | missingValue (switch : Switch)
  /-- The switch may not have this value. -/
  | invalidValue (switch : Switch) (value : String)
  /-- The switch is given twice. -/
  | repeated (switch : Switch)
  /-- The two switches exclude each other. -/
  | conflict (first second : Switch)
  /-- The word is no command and no operand. -/
  | unexpectedWord (word : String)
  /-- One of the commands of the command is missing. -/
  | missingCommand (node : Node)
  /-- The operand is missing. -/
  | missingOperand (node : Node)
  /-- The operand may not be empty. -/
  | emptyOperand (node : Node)
  deriving DecidableEq, Repr

/-- The refusal in words. -/
def Refusal.message : Refusal → String
  | unknownSwitch word => "unexpected argument '" ++ word ++ "' found"
  | unexpectedValue switch => "no value may be given for '--" ++ switch.name ++ "'"
  | missingValue switch => "a value is required for '--" ++ switch.name ++ "'"
  | invalidValue switch value => "invalid value '" ++ value ++ "' for '--" ++ switch.name ++ "'"
  | repeated switch => "the argument '--" ++ switch.name ++ "' cannot be used multiple times"
  | conflict first second =>
    "the argument '--" ++ first.name ++ "' cannot be used with '--" ++ second.name ++ "'"
  | unexpectedWord word => "unexpected argument '" ++ word ++ "' found"
  | missingCommand node => "'" ++ node.name ++ "' requires a subcommand but one was not provided"
  | missingOperand node => "'" ++ node.name ++ "' requires an argument that was not provided"
  | emptyOperand node => "'" ++ node.name ++ "' requires an argument that is not empty"

/-- Why reading ends early. -/
inductive Stop where
  /-- The words are refused. -/
  | refused (reason : Refusal)
  /-- The usage of a command is asked for. -/
  | help (node : Node)
  /-- The version is asked for; `path` are the names of the commands so far. -/
  | version (path : List String)
  deriving DecidableEq, Repr

namespace Given

/-- The switch is given. -/
def has (g : Given) (s : Switch) : Bool :=
  g.switches.any (·.1 == s)

/-- The number of times the switch is given. -/
def count (g : Given) (s : Switch) : Nat :=
  g.switches.countP (·.1 == s)

/-- The value of the switch. -/
def value? (g : Given) (s : Switch) : Option String :=
  g.switches.lookup s

/-- The command with one more switch. Help and version end the reading. -/
def addSwitch (path : List String) (g : Given) (s : Switch) (value : String) :
    Except Stop Given :=
  if s = .help then .error (.help g.node)
  else if s = .version then .error (.version path)
  else if !s.accepts value then .error (.refused (.invalidValue s value))
  else if s.takes ≠ .count ∧ g.has s then .error (.refused (.repeated s))
  else .ok { g with switches := g.switches ++ [(s, value)] }

/-- The command with one more operand. -/
def addOperand (g : Given) (word : String) : Except Stop Given :=
  match g.node.operands with
  | .words => .ok { g with operands := g.operands ++ [word] }
  | .path =>
    if !g.operands.isEmpty then .error (.refused (.unexpectedWord word))
    else if word.isEmpty then .error (.refused (.emptyOperand g.node))
    else .ok { g with operands := [word] }
  | .none => .error (.refused (.unexpectedWord word))

/-- The command with the operands behind the switches. -/
def addOperands (g : Given) (words : List String) : Except Stop Given :=
  words.foldlM addOperand g

end Given

/-- What a word of a command is. -/
inductive Shape where
  /-- Two hyphens alone. -/
  | escape
  /-- A long name, with the value behind an equals sign. -/
  | long (name : String) (value? : Option String)
  /-- Letters behind a hyphen. -/
  | letters (cs : List Char)
  /-- Anything else, a hyphen alone included. -/
  | plain
  deriving DecidableEq, Repr

/-- The long name in the characters, and the value behind an equals sign. -/
def longShape (cs : List Char) : Shape :=
  match cs.dropWhile (· != '=') with
  | [] => .long (.ofList cs) none
  | _ :: value => .long (.ofList (cs.takeWhile (· != '='))) (some (.ofList value))

/-- What a word is by its looks. -/
def shape (word : String) : Shape :=
  match word.toList with
  | ['-', '-'] => .escape
  | '-' :: '-' :: cs => longShape cs
  | ['-'] => .plain
  | '-' :: cs => .letters cs
  | _ => .plain

/-- The command after a switch, and the switch whose value has yet to come. -/
abbrev Reading := Given × Option Switch

/-- Reads a long name with its value. -/
def readLong (path : List String) (g : Given) (s : Switch) (value? : Option String) :
    Except Stop Reading :=
  match s.takesValue, value? with
  | true, some value => (g.addSwitch path s value).map (·, none)
  | true, none => .ok (g, some s)
  | false, some _ => .error (.refused (.unexpectedValue s))
  | false, none => (g.addSwitch path s "").map (·, none)

/-- Reads the letters of a word. What follows a letter that takes a value is the value. -/
def readLetters (path : List String) (g : Given) : List Char → Except Stop Reading
  | [] => .ok (g, none)
  | c :: cs =>
    match g.node.lettered? c with
    | none => .error (.refused (.unknownSwitch (.ofList ['-', c])))
    | some s =>
      if s.takesValue then
        match cs with
        | [] => .ok (g, some s)
        | '=' :: value => (g.addSwitch path s (.ofList value)).map (·, none)
        | value => (g.addSwitch path s (.ofList value)).map (·, none)
      else
        match g.addSwitch path s "" with
        | .ok g' => readLetters path g' cs
        | .error stop => .error stop

/-- The command takes words, and the word with the given shape can be one of them although it
looks like a switch. -/
def startsWords (n : Node) : Shape → Bool
  | .long name _ => n.operands = .words && (n.named? name).isNone
  | .letters cs => n.operands = .words && cs.any fun c => (n.lettered? c).isNone
  | .escape | .plain => false

/-- Reads the words of a command, where `waiting` is the switch whose value comes next. The
answer are the switches and operands, and the command below with its words. -/
def readLevel (path : List String) (g : Given) (waiting : Option Switch) :
    List String → Except Stop (Given × Option (Node × List String))
  | [] =>
    match waiting with
    | some s => .error (.refused (.missingValue s))
    | none => .ok (g, none)
  | word :: rest =>
    match waiting with
    | some s =>
      match shape word with
      | .plain =>
        match g.addSwitch path s word with
        | .ok g' => readLevel path g' none rest
        | .error stop => .error stop
      | _ => .error (.refused (.missingValue s))
    | none =>
      match g.node.child? word with
      | some node => .ok (g, some (node, rest))
      | none =>
        if startsWords g.node (shape word) then (g.addOperands (word :: rest)).map (·, none)
        else
          match shape word with
          | .escape => (g.addOperands rest).map (·, none)
          | .long name value? =>
            match g.node.named? name with
            | none => .error (.refused (.unknownSwitch word))
            | some s =>
              match readLong path g s value? with
              | .ok (g', waiting') => readLevel path g' waiting' rest
              | .error stop => .error stop
          | .letters cs =>
            match readLetters path g cs with
            | .ok (g', waiting') => readLevel path g' waiting' rest
            | .error stop => .error stop
          | .plain =>
            if g.node.operands = .words then (g.addOperands (word :: rest)).map (·, none)
            else
              match g.addOperand word with
              | .ok g' => readLevel path g' none rest
              | .error stop => .error stop

/-- Refuses a command without the command or the operand that it needs, or with switches that
exclude each other. -/
def checkComplete (g : Given) : Except Stop Unit :=
  if !g.node.children.isEmpty then .error (.refused (.missingCommand g.node))
  else if g.node.operands ≠ .none ∧ g.operands.isEmpty then
    .error (.refused (.missingOperand g.node))
  else if g.has .input && g.has .text then .error (.refused (.conflict .input .text))
  else .ok ()

/-- Reads the words of a command and of the commands below it, `depth` levels down at most. The
answer has the lowest command first. -/
def readLevels (path : List String) (node : Node) (above : List Given) :
    (depth : Nat) → List String → Except Stop (List Given)
  | 0, _ => .ok above
  | depth + 1, words =>
    match readLevel (path ++ [node.name]) ⟨node, [], []⟩ none words with
    | .error stop => .error stop
    | .ok (g, none) => (checkComplete g).map fun _ => g :: above
    | .ok (g, some (child, rest)) =>
      readLevels (path ++ [node.name]) child (g :: above) depth rest

/-- The number of levels of commands. -/
def levelCount : Nat := 3

/-- Reads the words of the program. -/
def readProgram (words : List String) : Except Stop (List Given) :=
  readLevels [] .program [] levelCount words

end Pipewright.Program.Usage
