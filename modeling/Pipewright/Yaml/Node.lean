import Pipewright.Yaml.Event
import Pipewright.Yaml.Scan

/-!
# Reading the nodes of a document

A reader takes a node from the front of the parts that are left. A reference stands for the
node of that name; what a name refers to is settled in reading order, where every reference
comes behind its node.

## Main definitions

* `Part`, `Linked`: the structure of a document with its references settled.
* `ofText?`: the document that a text holds.
* `readText?`, `readBool?`: scalars of one kind.
* `readEntries?`, `readPairs?`: all items of a list and all members of a mapping.
* `skipNode`: any node.
-/

namespace Pipewright.Yaml

/-- A part of a document whose references are settled. -/
inductive Part where
  /-- A reference to the node with a number. -/
  | alias (number : Nat)
  /-- A text with its tag and its form. -/
  | scalar (tag text : String) (style : ScalarStyle)
  /-- A list begins. -/
  | sequenceStart
  /-- A list ends. -/
  | sequenceEnd
  /-- A mapping begins. -/
  | mappingStart
  /-- A mapping ends. -/
  | mappingEnd
  deriving DecidableEq, Repr

/-- The names seen so far, with the numbers of their nodes, and where the nodes stand. -/
structure Names where
  /-- The numbers of names, the latest first. -/
  numbers : List (String × Nat) := []
  /-- The positions of numbered nodes, the latest first. -/
  positions : List (Nat × Nat) := []

/-- The number of different names. -/
def Names.count (n : Names) : Nat :=
  (n.numbers.map (·.1)).eraseDups.length

/-- The names with those of the node at `position`. A name that is given again counts once, so
that the next new name takes over the number. -/
def Names.add (n : Names) (anchor : Option String) (position : Nat) : Names :=
  match anchor with
  | none => n
  | some name => ⟨(name, n.count) :: n.numbers, (n.count, position) :: n.positions⟩

/-- The parts from `position` on, and the names at the end; a reference to an unknown name is
refused. -/
def settle? (n : Names) (position : Nat) : List Event → Option (List Part × Names)
  | [] => some ([], n)
  | e :: es => do
    let (part, n) ← match e with
      | .alias name => (n.numbers.lookup name).map fun number => (Part.alias number, n)
      | .scalar anchor tag text style => some (.scalar tag text style, n.add anchor position)
      | .sequenceStart anchor => some (.sequenceStart, n.add anchor position)
      | .sequenceEnd => some (.sequenceEnd, n)
      | .mappingStart anchor => some (.mappingStart, n.add anchor position)
      | .mappingEnd => some (.mappingEnd, n)
    let (parts, n) ← settle? n (position + 1) es
    return (part :: parts, n)

/-- A document whose references are settled. -/
structure Linked where
  /-- The parts. -/
  parts : List Part
  /-- The positions of numbered nodes. -/
  positions : List (Nat × Nat)

/-- The parts from the node with the given number on. -/
def Linked.target (d : Linked) (number : Nat) : List Part :=
  match d.positions.lookup number with
  | some position => d.parts.drop position
  | none => []

/-- The one document that a text holds; a text without a document holds an empty one. -/
def ofText? (input : String) : Option Linked := do
  match ← documents? (← tokens? input) with
  | [] => return ⟨[], []⟩
  | [es] =>
    let (parts, n) ← settle? {} 0 es
    return ⟨parts, n.positions⟩
  | _ => none

/-! ### Readers -/

/-- A reader takes a node from the front of the parts. -/
abbrev NodeReader (α : Type) := List Part → Option (α × List Part)

/-- The node in front, or the one that it refers to. -/
def Linked.follow {α : Type} (d : Linked) (reader : NodeReader α) : NodeReader α
  | .alias number :: rest => (reader (d.target number)).map fun r => (r.1, rest)
  | ps => reader ps

/-- A text, whatever its form. -/
def readText? (d : Linked) : NodeReader String :=
  d.follow fun
    | .scalar _ text _ :: rest => some (text, rest)
    | _ => none

/-- The scalar may be a truth value: it is plain, or a block with the tag of truth values. -/
def mayBeTruth (tag : String) (style : ScalarStyle) : Bool :=
  style == .plain || (style == .literal && tag == truthTag)

/-- A truth value. -/
def readBool? (d : Linked) : NodeReader Bool :=
  d.follow fun
    | .scalar tag text style :: rest =>
      if mayBeTruth tag style then (readTruth? text).map (·, rest) else none
    | _ => none

/-- The parts behind a node, where `depth` lists and mappings are open already. -/
def skipNode (depth : Nat) : List Part → List Part
  | [] => []
  | p :: ps =>
    let depth := match p with
      | .sequenceStart | .mappingStart => depth + 1
      | .sequenceEnd | .mappingEnd => depth - 1
      | .alias _ | .scalar .. => depth
    if depth == 0 then ps else skipNode depth ps

/-- The state after all items of a list whose beginning has been read; `item` reads one. There
are at most `bound` items. -/
def readEntries? {σ : Type} (item : σ → NodeReader σ) : (bound : Nat) → σ → NodeReader σ
  | 0, _, _ => none
  | bound + 1, state, ps =>
    match ps with
    | .sequenceEnd :: rest => some (state, rest)
    | ps => (item state ps).bind fun r => readEntries? item bound r.1 r.2

/-- The state after all members of a mapping whose beginning has been read; `member` reads the
value behind a name. There are at most `bound` members. -/
def readPairs? {σ : Type} (d : Linked) (member : String → σ → NodeReader σ) :
    (bound : Nat) → σ → NodeReader σ
  | 0, _, _ => none
  | bound + 1, state, ps =>
    match ps with
    | .mappingEnd :: rest => some (state, rest)
    | ps => do
      let (name, ps) ← readText? d ps
      let (state, ps) ← member name state ps
      readPairs? d member bound state ps

/-- The state after the items of a list. A document without nodes and a node that is left out
count as an empty list. -/
def readSequence? {σ : Type} (d : Linked) (item : σ → NodeReader σ) (state : σ) : NodeReader σ :=
  d.follow fun
    | .sequenceStart :: rest => readEntries? item (rest.length + 1) state rest
    | .scalar _ "" .plain :: rest => some (state, rest)
    | _ => none

/-- The state after the members of a mapping. A document without nodes and a node that is left
out count as an empty mapping. -/
def readMapping? {σ : Type} (d : Linked) (member : String → σ → NodeReader σ) (state : σ) :
    NodeReader σ :=
  d.follow fun
    | .mappingStart :: rest => readPairs? d member (rest.length + 1) state rest
    | .scalar _ "" .plain :: rest => some (state, rest)
    | [] => some (state, [])
    | _ => none

end Pipewright.Yaml
