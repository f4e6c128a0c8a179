/-!
# The tokens of YAML

## Main definitions

* `ScalarStyle`: the forms of texts.
* `Token`: the tokens of a document.
-/

namespace Pipewright.Yaml

/-- The form of a text in a document. -/
inductive ScalarStyle where
  /-- Without quotes. -/
  | plain
  /-- Between single quotes. -/
  | single
  /-- Between double quotes. -/
  | double
  /-- A block of literal lines. -/
  | literal
  /-- A block of folded lines. -/
  | folded
  deriving DecidableEq, Repr

/-- A token of a document. -/
inductive Token where
  /-- The version that a document claims. -/
  | version (major minor : Nat)
  /-- A short handle and the beginning of the tags it stands for. -/
  | tagHandle (handle lead : String)
  /-- The mark in front of a document. -/
  | documentStart
  /-- The mark behind a document. -/
  | documentEnd
  /-- A list of lines begins. -/
  | blockSequenceStart
  /-- A mapping of lines begins. -/
  | blockMappingStart
  /-- A list or mapping of lines ends. -/
  | blockEnd
  /-- An opening bracket. -/
  | flowSequenceStart
  /-- A closing bracket. -/
  | flowSequenceEnd
  /-- An opening brace. -/
  | flowMappingStart
  /-- A closing brace. -/
  | flowMappingEnd
  /-- The hyphen of an item. -/
  | blockEntry
  /-- A comma. -/
  | flowEntry
  /-- A key follows. -/
  | key
  /-- A value follows. -/
  | value
  /-- A reference to a named node. -/
  | alias (name : String)
  /-- The name of a node. -/
  | anchor (name : String)
  /-- A tag: its handle and the rest. -/
  | tag (handle rest : String)
  /-- A text. -/
  | scalar (text : String) (style : ScalarStyle)
  deriving DecidableEq, Repr

end Pipewright.Yaml
