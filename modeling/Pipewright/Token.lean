import Pipewright.Text.Blank

/-!
# Tokens of a command line

A command line is read as a sequence of tokens. Every token keeps two views of itself: its raw
text, quotes and escapes exactly as typed, and its value, the word that a command would
receive. The reading is a machine that takes one character at a time; a blank outside quotes
ends a token.

Single quotes are literal. Inside double quotes a backslash escapes a quote, a backslash, a
backquote and a dollar sign, joins two lines when a line feed follows, and is an ordinary
character otherwise. Outside quotes a backslash escapes the next character and joins two lines
when a line feed follows; at the very end of the text it stands for itself.

## Main definitions

* `Token`, `TokenError`: what the reading yields.
* `Scanner`: the machine, with `Scanner.step` and `Scanner.finish`.
* `tokensOf`: the tokens of a text.
-/

namespace Pipewright

/-- A word of a command line. -/
structure Token where
  /-- The source text, quotes included. -/
  raw : String
  /-- The word after the removal of quotes and escapes. -/
  value : String
  /-- The byte offset of the first character. -/
  start : Nat
  /-- The byte offset behind the last character. -/
  stop : Nat
  /-- Some quoting or escaping took part. -/
  quoted : Bool
  deriving DecidableEq, Repr

/-- The word that joins the stages of a pipeline. -/
def connective : String := "then"

namespace Token

/-- The token looks like an option, such as `-n` or `--icsv`. -/
def isOption (t : Token) : Bool :=
  match t.value.toList with
  | '-' :: _ :: _ => true
  | _ => false

/-- The token is an unquoted occurrence of `word`. -/
def spells (t : Token) (word : String) : Bool :=
  !t.quoted && t.raw == word

/-- The token joins two stages of a pipeline. -/
def isConnective (t : Token) : Bool :=
  t.spells connective

end Token

/-- Why a text has no tokens. -/
inductive TokenError where
  /-- The quote that opens at byte `position` is never closed. -/
  | openQuote (quote : Char) (position : Nat)
  deriving DecidableEq, Repr

namespace TokenError

/-- The byte offset that the error is about. -/
def position : TokenError → Nat
  | openQuote _ position => position

/-- The error in words. -/
def message : TokenError → String
  | openQuote quote position =>
    "unterminated " ++ quote.toString ++ " quote starting at byte " ++ toString position

end TokenError

/-- Where the machine stands inside a token; a quote knows the offset at which it opened. -/
inductive Mode where
  /-- Outside quotes. -/
  | plain
  /-- Behind a backslash outside quotes. -/
  | escaped
  /-- Between single quotes. -/
  | single (opener : Nat)
  /-- Between double quotes. -/
  | double (opener : Nat)
  /-- Behind a backslash between double quotes. -/
  | doubleEscaped (opener : Nat)
  deriving DecidableEq, Repr

/-- A token under construction. -/
structure Draft where
  /-- The byte offset of the first character. -/
  start : Nat
  /-- The source text so far. -/
  raw : String
  /-- The value so far. -/
  value : String
  /-- Some quoting or escaping took part. -/
  quoted : Bool
  /-- There is more than joined lines, so that a token comes of it. -/
  meaningful : Bool
  /-- Where the machine stands. -/
  mode : Mode
  deriving DecidableEq, Repr

namespace Draft

/-- The draft of a token that starts at byte offset `start`. -/
def empty (start : Nat) : Draft :=
  ⟨start, "", "", false, false, .plain⟩

/-- The draft with `c` added to its value. -/
def keep (d : Draft) (c : Char) : Draft :=
  { d with value := d.value.push c, meaningful := true }

/-- The characters that a backslash escapes between double quotes: the double quote, the
backslash, the backquote and the dollar sign. -/
def isDoubleEscapable (c : Char) : Bool :=
  c == '"' || c == '\\' || c == '\x60' || c == '$'

/-- The draft after character `c` at byte offset `offset`. -/
def feed (draft : Draft) (offset : Nat) (c : Char) : Draft :=
  let d := { draft with raw := draft.raw.push c }
  match d.mode with
  | .plain =>
    if c == '\'' then { d with quoted := true, meaningful := true, mode := .single offset }
    else if c == '"' then { d with quoted := true, meaningful := true, mode := .double offset }
    else if c == '\\' then { d with quoted := true, mode := .escaped }
    else d.keep c
  | .escaped =>
    if c == '\n' then { d with mode := .plain } else { d.keep c with mode := .plain }
  | .single _ =>
    if c == '\'' then { d with mode := .plain } else d.keep c
  | .double opener =>
    if c == '"' then { d with mode := .plain }
    else if c == '\\' then { d with mode := .doubleEscaped opener }
    else d.keep c
  | .doubleEscaped opener =>
    if c == '\n' then { d with mode := .double opener }
    else if isDoubleEscapable c then { d.keep c with mode := .double opener }
    else { (d.keep '\\').keep c with mode := .double opener }

/-- The token that the draft amounts to when it ends at byte offset `stop`; lines joined and
nothing else make none. -/
def close? (d : Draft) (stop : Nat) : Option Token :=
  if d.meaningful then some ⟨d.raw, d.value, d.start, stop, d.quoted⟩ else none

end Draft

/-- The state of the reading: how far it is, what it has read, and the token it is in. -/
structure Scanner where
  /-- The byte offset of the next character. -/
  offset : Nat
  /-- The finished tokens. -/
  tokens : Array Token
  /-- The token under construction. -/
  draft : Option Draft
  deriving DecidableEq, Repr

namespace Scanner

/-- The state in front of a text. -/
def init : Scanner :=
  ⟨0, #[], none⟩

/-- The tokens, with that of the finished draft `d`. -/
def close (s : Scanner) (d : Draft) : Array Token :=
  match d.close? s.offset with
  | some t => s.tokens.push t
  | none => s.tokens

/-- The state after one more character. -/
def step (s : Scanner) (c : Char) : Scanner :=
  let next := s.offset + c.utf8Size
  match s.draft with
  | none =>
    if Text.isBlank c then { s with offset := next }
    else { s with offset := next, draft := some ((Draft.empty s.offset).feed s.offset c) }
  | some d =>
    if d.mode == .plain && Text.isBlank c then ⟨next, s.close d, none⟩
    else { s with offset := next, draft := some (d.feed s.offset c) }

/-- The state after the given characters. -/
def run (s : Scanner) (cs : List Char) : Scanner :=
  cs.foldl step s

/-- The tokens at the end of the text, unless a quote is open there. -/
def finish (s : Scanner) : Except TokenError (List Token) :=
  match s.draft with
  | none => .ok s.tokens.toList
  | some d =>
    match d.mode with
    | .plain => .ok (s.close d).toList
    | .escaped => .ok (s.close (d.keep '\\')).toList
    | .single opener => .error (.openQuote '\'' opener)
    | .double opener | .doubleEscaped opener => .error (.openQuote '"' opener)

end Scanner

/-- The tokens of a text. -/
def tokensOf (input : String) : Except TokenError (List Token) :=
  (Scanner.init.run input.toList).finish

end Pipewright
