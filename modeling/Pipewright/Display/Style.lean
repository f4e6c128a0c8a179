import Pipewright.Text.Blank
import Pipewright.Text.Line

/-!
# Styled text

Human output may be coloured and marked with symbols. A colour is an escape sequence in front
of the text and one behind it; neither takes up room, so widths are measured on the text
without its escape sequences.

## Main definitions

* `Style`: what the terminal can show.
* `paint`, `Role`: coloured text.
* `Symbol`: the marks in front of messages.
* `stripEscapes`, `visibleLength`: a text without its escape sequences, and its width.
* `truncate`, `indent`: texts made to fit.
-/

namespace Pipewright.Display

/-- What the terminal can show. -/
structure Style where
  /-- Colours are shown. -/
  color : Bool
  /-- Symbols are shown. -/
  symbols : Bool
  /-- The width of a line in characters. -/
  width : Nat
  deriving DecidableEq, Repr

/-- Neither colours nor symbols. -/
def Style.plain (width : Nat) : Style :=
  ⟨false, false, width⟩

/-- What a piece of text is for. -/
inductive Role where
  /-- Titles. -/
  | primary
  /-- Subtitles. -/
  | secondary
  /-- Heads of tables. -/
  | accent
  /-- Good news. -/
  | success
  /-- Warnings. -/
  | warning
  /-- Errors. -/
  | error
  /-- Remarks. -/
  | dim
  deriving DecidableEq, Repr

/-- The parameters of the escape sequence that selects the colour of the role. -/
def Role.code : Role → String
  | primary => "38;5;45"
  | secondary => "38;5;250"
  | accent => "38;5;213"
  | success => "38;5;82"
  | warning => "38;5;214"
  | error => "38;5;196"
  | dim => "2"

/-- The text in the colour of its role. -/
def paint (role : Role) (text : String) (style : Style) : String :=
  if style.color then "\x1b[" ++ role.code ++ "m" ++ text ++ "\x1b[0m" else text

/-- The marks in front of messages. -/
inductive Symbol where
  /-- A check mark. -/
  | success
  /-- A cross. -/
  | error
  /-- A warning sign. -/
  | warn
  /-- An information sign. -/
  | info
  /-- A test tube. -/
  | pipeline
  /-- A stopwatch. -/
  | clock
  /-- A floppy disk. -/
  | save
  deriving DecidableEq, Repr

namespace Symbol

/-- The symbol with the given name. -/
def ofName? (name : String) : Option Symbol :=
  [("success", success), ("error", error), ("warn", warn), ("info", info),
    ("pipeline", pipeline), ("clock", clock), ("save", save)].lookup name

/-- The character that shows the symbol. -/
def glyph : Symbol → String
  | success => "✔"
  | error => "✖"
  | warn => "⚠"
  | info => "ℹ"
  | pipeline => "🧪"
  | clock => "⏱"
  | save => "💾"

/-- The symbol as the style shows it. -/
def shown (s : Symbol) (style : Style) : String :=
  if style.symbols then s.glyph else ""

end Symbol

/-- The text without its escape sequences. A sequence starts with the escape character and an
opening bracket and ends with the next ASCII letter, or with the text; `inside` says whether
the text starts within one. -/
def stripFrom (inside : Bool) : List Char → List Char
  | [] => []
  | c :: cs =>
    if inside then stripFrom (!c.isAlpha) cs
    else if c == '\x1b' && cs.head? == some '[' then
      match cs with
      | [] => [c]
      | _ :: rest => stripFrom true rest
    else c :: stripFrom false cs

/-- The text without its escape sequences. -/
def stripEscapes (s : String) : String :=
  .ofList (stripFrom false s.toList)

/-- The number of characters that the text takes up. -/
def visibleLength (s : String) : Nat :=
  (stripEscapes s).length

/-- The text cut to at most `max` characters, with an ellipsis in place of the rest. -/
def truncate (s : String) (max : Nat) : String :=
  if max = 0 then ""
  else if s.length ≤ max then s
  else (String.ofList (s.toList.take (max - 1))).push '…'

/-- The text with `lead` in front of every line. -/
def indent (text lead : String) : String :=
  "\n".intercalate ((Text.lines text).map (lead ++ ·))

end Pipewright.Display
