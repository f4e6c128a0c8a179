/-!
# Splitting a text into words

The text of a step or of the options becomes words for execution by the usual rules of a
command interpreter: blanks are space, tab and line feed, quotes and backslashes group, and a
`#` in front of a word starts a comment up to the end of the line. The reading is a machine
that takes one character at a time and fails only when a quote is open at the end.

## Main definitions

* `Splitter`: the machine, with `Splitter.step` and `Splitter.finish`.
* `split?`: the words of a text.
-/

namespace Pipewright.Words

/-- Where the machine stands. -/
inductive Stand where
  /-- Between words. -/
  | between
  /-- Behind a backslash that starts a word. -/
  | leadingEscape
  /-- In a word, outside quotes. -/
  | plain
  /-- Behind a backslash in a word, outside quotes. -/
  | escape
  /-- Between single quotes. -/
  | single
  /-- Between double quotes. -/
  | double
  /-- Behind a backslash between double quotes. -/
  | doubleEscape
  /-- In a comment. -/
  | comment
  deriving DecidableEq, Repr

/-- The state of the reading. -/
structure Splitter where
  /-- The finished words. -/
  words : Array String
  /-- The word under construction. -/
  word : String
  /-- Where the machine stands. -/
  stand : Stand
  deriving DecidableEq, Repr

namespace Splitter

/-- The state in front of a text. -/
def init : Splitter :=
  ⟨#[], "", .between⟩

/-- The state with `c` added to the word, at stand `stand`. -/
def keep (s : Splitter) (c : Char) (stand : Stand) : Splitter :=
  { s with word := s.word.push c, stand := stand }

/-- The state with the word finished. -/
def close (s : Splitter) : Splitter :=
  ⟨s.words.push s.word, "", .between⟩

/-- The blanks of the splitting: space, tab and line feed. -/
def isGap (c : Char) : Bool :=
  c == ' ' || c == '\t' || c == '\n'

/-- The characters that a backslash escapes between double quotes: the dollar sign, the
backquote, the double quote and the backslash. -/
def isDoubleEscapable (c : Char) : Bool :=
  c == '$' || c == '\x60' || c == '"' || c == '\\'

/-- The state after one more character. -/
def step (s : Splitter) (c : Char) : Splitter :=
  match s.stand with
  | .between =>
    if c == '\'' then { s with stand := .single }
    else if c == '"' then { s with stand := .double }
    else if c == '\\' then { s with stand := .leadingEscape }
    else if isGap c then s
    else if c == '#' then { s with stand := .comment }
    else s.keep c .plain
  | .leadingEscape =>
    if c == '\n' then { s with stand := .between } else s.keep c .plain
  | .plain =>
    if c == '\'' then { s with stand := .single }
    else if c == '"' then { s with stand := .double }
    else if c == '\\' then { s with stand := .escape }
    else if isGap c then s.close
    else s.keep c .plain
  | .escape =>
    if c == '\n' then { s with stand := .plain } else s.keep c .plain
  | .single =>
    if c == '\'' then { s with stand := .plain } else s.keep c .single
  | .double =>
    if c == '"' then { s with stand := .plain }
    else if c == '\\' then { s with stand := .doubleEscape }
    else s.keep c .double
  | .doubleEscape =>
    if c == '\n' then { s with stand := .double }
    else if isDoubleEscapable c then s.keep c .double
    else (s.keep '\\' .double).keep c .double
  | .comment =>
    if c == '\n' then { s with stand := .between } else s

/-- The words at the end of the text, unless a quote is open there. A backslash at the very
end stands for itself. -/
def finish (s : Splitter) : Option (List String) :=
  match s.stand with
  | .between | .comment => some s.words.toList
  | .plain => some s.close.words.toList
  | .leadingEscape | .escape => some (s.keep '\\' .plain).close.words.toList
  | .single | .double | .doubleEscape => none

end Splitter

/-- The words of a text, unless a quote is open at its end. -/
def split? (text : String) : Option (List String) :=
  (text.toList.foldl Splitter.step Splitter.init).finish

end Pipewright.Words
