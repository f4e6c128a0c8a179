/-!
# JSON values

Machine-readable output and the saved state are JSON texts. This module holds the values and
their printing with an indentation of two blanks. Objects keep the order of their members;
`Json.sorted` puts them in the order of their names.

## Main definitions

* `Json`: the values.
* `Json.pretty`: the indented text of a value.
* `Json.sorted`: the value with the members of all objects sorted by name.
-/

namespace Pipewright

/-- A JSON value. Numbers are whole. -/
inductive Json where
  /-- The null value. -/
  | null
  /-- A truth value. -/
  | bool (value : Bool)
  /-- A whole number. -/
  | number (value : Int)
  /-- A text. -/
  | string (value : String)
  /-- A list of values. -/
  | array (items : List Json)
  /-- Named values. -/
  | object (members : List (String × Json))
  deriving Repr, Inhabited

namespace Json

/-- The hexadecimal digit of a number below sixteen, in lower case. -/
def hexDigit (n : Nat) : Char :=
  if n < 10 then Char.ofNat (48 + n) else Char.ofNat (87 + n)

/-- The character as it is written between quotes. -/
def escapeChar (c : Char) : List Char :=
  if c == '"' then ['\\', '"']
  else if c == '\\' then ['\\', '\\']
  else if c == '\x08' then ['\\', 'b']
  else if c == '\x0c' then ['\\', 'f']
  else if c == '\n' then ['\\', 'n']
  else if c == '\r' then ['\\', 'r']
  else if c == '\t' then ['\\', 't']
  else if c.toNat < 0x20 then
    ['\\', 'u', '0', '0', hexDigit (c.toNat / 16), hexDigit (c.toNat % 16)]
  else [c]

/-- The characters of a text between quotes. -/
def quoteChars (s : String) : List Char :=
  '"' :: s.toList.flatMap escapeChar ++ ['"']

/-- A text between quotes. -/
def quote (s : String) : String :=
  .ofList (quoteChars s)

/-- A line feed and an indentation of `depth` steps. -/
def lineStart (depth : Nat) : String :=
  "\n" ++ .ofList (List.replicate (2 * depth) ' ')

/-- The parts between brackets, each on a line of its own one step deeper than `depth`; no
parts leave the brackets side by side. -/
def bracketed (opening closing : String) (depth : Nat) (parts : List String) : String :=
  if parts.isEmpty then opening ++ closing
  else
    opening ++ lineStart (depth + 1) ++ ("," ++ lineStart (depth + 1)).intercalate parts ++
      lineStart depth ++ closing

mutual

/-- The text of a value that stands `depth` steps deep. -/
def prettyAt (depth : Nat) : Json → String
  | null => "null"
  | bool b => if b then "true" else "false"
  | number n => toString n
  | string s => quote s
  | array items => bracketed "[" "]" depth (prettyItems (depth + 1) items)
  | object members => bracketed "\x7b" "\x7d" depth (prettyMembers (depth + 1) members)

/-- The texts of the items of a list. -/
def prettyItems (depth : Nat) : List Json → List String
  | [] => []
  | item :: rest => prettyAt depth item :: prettyItems depth rest

/-- The texts of the members of an object. -/
def prettyMembers (depth : Nat) : List (String × Json) → List String
  | [] => []
  | (name, value) :: rest =>
    (quote name ++ ": " ++ prettyAt depth value) :: prettyMembers depth rest

end

/-- The text of a value, indented by two blanks a step. -/
def pretty (v : Json) : String :=
  prettyAt 0 v

/-- The members with one more; a member of the same name gives way. -/
def put (name : String) (value : Json) (members : List (String × Json)) :
    List (String × Json) :=
  members.filter (·.1 != name) ++ [(name, value)]

/-- The members with one more at its place in the order of names. -/
def insertSorted (member : String × Json) : List (String × Json) → List (String × Json)
  | [] => [member]
  | m :: rest => if member.1 < m.1 then member :: m :: rest else m :: insertSorted member rest

mutual

/-- The value with the members of all objects in the order of their names. -/
def sorted : Json → Json
  | array items => .array (sortedItems items)
  | object members => .object (sortedMembers members)
  | v => v

/-- The items with the members of all objects in order. -/
def sortedItems : List Json → List Json
  | [] => []
  | item :: rest => item.sorted :: sortedItems rest

/-- The members in order, and so the members of the objects inside. -/
def sortedMembers : List (String × Json) → List (String × Json)
  | [] => []
  | (name, value) :: rest => insertSorted (name, value.sorted) (sortedMembers rest)

end

end Json

end Pipewright
