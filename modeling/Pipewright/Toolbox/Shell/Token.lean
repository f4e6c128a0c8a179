/-!
# The words of a script

A script is made of words and operators. A word is made of pieces: characters that stand for
themselves, and parameters whose values take their place. Quotes and backslashes take away the
meaning of the characters behind them.

## Main definitions

* `Parameter`, `WordPiece`: what words are made of.
* `Token`: words and operators.
* `readTokens`: the tokens of a script.
-/

namespace Pipewright.Toolbox.Shell

/-- What a dollar sign stands for. -/
inductive Parameter where
  /-- The argument with the given number; the name of the script has number zero. -/
  | argument (n : Nat)
  /-- All arguments, each on its own. -/
  | each
  /-- All arguments, joined. -/
  | joined
  /-- The number of arguments. -/
  | count
  /-- The status of the last command. -/
  | status
  /-- The number of the process. -/
  | process
  /-- A variable. -/
  | variable (name : String)
  deriving DecidableEq, Repr

/-- A piece of a word. -/
inductive WordPiece where
  /-- Characters that stand for themselves. -/
  | literal (cs : List Char)
  /-- A parameter, perhaps between double quotes. -/
  | parameter (p : Parameter) (quoted : Bool)
  deriving DecidableEq, Repr

/-- A word or an operator. -/
inductive Token where
  /-- A word. -/
  | word (pieces : List WordPiece)
  /-- The end of a command. -/
  | separator
  /-- The next command runs if this one ends well. -/
  | andThen
  /-- The next command runs if this one ends badly. -/
  | orElse
  /-- The next command reads what this one prints. -/
  | pipe
  /-- The octets of a stream go to the file that the next word names. -/
  | toFile (stream : Nat)
  /-- The octets of a stream go where those of another stream go, whose number is the next
  word. -/
  | toStream (stream : Nat)
  deriving DecidableEq, Repr

/-- Where the reading of a script is. -/
inductive Mode where
  /-- Between or inside words. -/
  | plain
  /-- Behind a backslash. -/
  | escape
  /-- Between single quotes. -/
  | single
  /-- Between double quotes. -/
  | double
  /-- Behind a backslash between double quotes. -/
  | doubleEscape
  /-- Behind a dollar sign. -/
  | dollar (quoted : Bool)
  /-- In the name of a variable. -/
  | name (quoted : Bool) (cs : List Char)
  /-- In a parameter between braces. -/
  | braces (quoted : Bool) (cs : List Char)
  /-- Behind an ampersand. -/
  | ampersand
  /-- Behind a vertical bar. -/
  | bar
  /-- Behind a greater sign. -/
  | greater (stream : Nat)
  /-- In a comment. -/
  | comment
  deriving DecidableEq, Repr

/-- What has been read of a script. -/
structure Reader where
  /-- The tokens, the last one first. -/
  tokens : List Token := []
  /-- The pieces of the word that is being read, the last one first. -/
  word? : Option (List WordPiece) := none
  /-- Where the reading is. -/
  mode : Mode := .plain
  deriving Repr

namespace Reader

/-- The reader with one more character in its word. -/
def addChar (r : Reader) (c : Char) : Reader :=
  match r.word? with
  | some (.literal cs :: rest) => { r with word? := some (.literal (cs ++ [c]) :: rest) }
  | word? => { r with word? := some (.literal [c] :: word?.getD []) }

/-- The reader with a word begun, if none is. -/
def beginWord (r : Reader) : Reader :=
  { r with word? := some (r.word?.getD []) }

/-- The reader with one more parameter in its word. -/
def addParameter (r : Reader) (p : Parameter) (quoted : Bool) : Reader :=
  { r with word? := some (.parameter p quoted :: r.word?.getD []) }

/-- The reader with its word ended. -/
def endWord (r : Reader) : Reader :=
  match r.word? with
  | some pieces => { r with tokens := .word pieces.reverse :: r.tokens, word? := none }
  | none => r

/-- The reader with an operator behind its word. -/
def operator (r : Reader) (t : Token) : Reader :=
  let r := r.endWord
  { r with tokens := t :: r.tokens, mode := .plain }

/-- The reader in another mode. -/
def into (r : Reader) (mode : Mode) : Reader :=
  { r with mode }

/-- The number of the stream in front of a greater sign, and the reader without it. -/
def takeStream (r : Reader) : Nat × Reader :=
  match r.word? with
  | some [.literal ['1']] => (1, { r with word? := none })
  | some [.literal ['2']] => (2, { r with word? := none })
  | _ => (1, r.endWord)

end Reader

/-- The mode behind a parameter. -/
def afterParameter (quoted : Bool) : Mode :=
  if quoted then .double else .plain

/-- The parameter with a name of one character. -/
def specialParameter? (c : Char) : Option Parameter :=
  if c.isDigit then some (.argument (c.toNat - 48))
  else if c == '@' then some .each
  else if c == '*' then some .joined
  else if c == '#' then some .count
  else if c == '?' then some .status
  else if c == '$' then some .process
  else none

/-- The parameter with the given name. -/
def parameterNamed (cs : List Char) : Parameter :=
  match cs with
  | [c] => (specialParameter? c).getD (.variable (.ofList cs))
  | _ =>
    if cs.all Char.isDigit then .argument (cs.foldl (fun n c => 10 * n + (c.toNat - 48)) 0)
    else .variable (.ofList cs)

/-- The character can stand in the name of a variable. -/
def isNameChar (c : Char) : Bool :=
  c.isAlphanum || c == '_'

/-- Reads a character outside quotes. -/
def readPlain (r : Reader) (c : Char) : Reader :=
  if c == '\\' then r.into .escape
  else if c == '\'' then r.beginWord.into .single
  else if c == '"' then r.beginWord.into .double
  else if c == '$' then r.into (.dollar false)
  else if c == ' ' || c == '\t' then r.endWord
  else if c == ';' || c == '\n' then r.operator .separator
  else if c == '&' then r.endWord.into .ampersand
  else if c == '|' then r.endWord.into .bar
  else if c == '>' then
    let (stream, r) := r.takeStream
    r.into (.greater stream)
  else if c == '#' && r.word?.isNone then r.into .comment
  else r.addChar c

/-- Reads a character between double quotes. -/
def readDouble (r : Reader) (c : Char) : Reader :=
  if c == '"' then r.into .plain
  else if c == '\\' then r.into .doubleEscape
  else if c == '$' then r.into (.dollar true)
  else r.addChar c

/-- Reads a character inside or outside double quotes. -/
def readOrdinary (quoted : Bool) (r : Reader) (c : Char) : Reader :=
  if quoted then readDouble (r.into .double) c else readPlain (r.into .plain) c

/-- Reads a character behind a dollar sign. -/
def readDollar (quoted : Bool) (r : Reader) (c : Char) : Reader :=
  if c == '\x7b' then r.into (.braces quoted [])
  else
    match specialParameter? c with
    | some p => (r.addParameter p quoted).into (afterParameter quoted)
    | none =>
      if isNameChar c then r.into (.name quoted [c])
      else readOrdinary quoted (r.addChar '$') c

/-- Reads a character. -/
def readChar (r : Reader) (c : Char) : Reader :=
  match r.mode with
  | .plain => readPlain r c
  | .escape => if c == '\n' then r.into .plain else (r.addChar c).into .plain
  | .single => if c == '\'' then r.into .plain else r.addChar c
  | .double => readDouble r c
  | .doubleEscape =>
    if c == '\n' then r.into .double
    else if ['$', '\x60', '"', '\\'].contains c then (r.addChar c).into .double
    else ((r.addChar '\\').addChar c).into .double
  | .dollar quoted => readDollar quoted r c
  | .name quoted cs =>
    if isNameChar c then r.into (.name quoted (cs ++ [c]))
    else readOrdinary quoted (r.addParameter (parameterNamed cs) quoted) c
  | .braces quoted cs =>
    if c == '\x7d' then (r.addParameter (parameterNamed cs) quoted).into (afterParameter quoted)
    else r.into (.braces quoted (cs ++ [c]))
  | .ampersand =>
    if c == '&' then r.operator .andThen else readPlain (r.operator .separator) c
  | .bar => if c == '|' then r.operator .orElse else readPlain (r.operator .pipe) c
  | .greater stream =>
    if c == '&' then r.operator (.toStream stream)
    else if c == '>' then r.operator (.toFile stream)
    else readPlain (r.operator (.toFile stream)) c
  | .comment => if c == '\n' then r.operator .separator else r

/-- The tokens of a script; nothing for a script that ends inside quotes or braces. -/
def readTokens (script : String) : Option (List Token) :=
  let r := script.toList.foldl readChar {}
  match r.mode with
  | .plain | .comment => some r.endWord.tokens.reverse
  | .escape => some (r.addChar '\\').endWord.tokens.reverse
  | .dollar false => some (r.addChar '$').endWord.tokens.reverse
  | .name false cs => some (r.addParameter (parameterNamed cs) false).endWord.tokens.reverse
  | .ampersand => some (r.operator .separator).tokens.reverse
  | .bar => some (r.operator .pipe).tokens.reverse
  | .greater stream => some (r.operator (.toFile stream)).tokens.reverse
  | .single | .double | .doubleEscape | .braces .. | .dollar true | .name true _ => none

end Pipewright.Toolbox.Shell
