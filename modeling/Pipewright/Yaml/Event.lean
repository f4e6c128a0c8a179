import Pipewright.Yaml.Tag

/-!
# From tokens to the structure of a document

The structure of a document is the sequence of its nodes in reading order, with a mark where a
list or a mapping begins and ends. Where a node is left out, a plain text without characters
stands for it.

## Main definitions

* `Event`: the parts of the structure.
* `Builder`: the tokens that are left and the events so far.
* `documents?`: the events of each document.
-/

namespace Pipewright.Yaml

/-- A part of the structure of a document. -/
inductive Event where
  /-- A reference to a named node. -/
  | alias (name : String)
  /-- A text with its name, its tag and its form. -/
  | scalar (anchor : Option String) (tag text : String) (style : ScalarStyle)
  /-- A list begins. -/
  | sequenceStart (anchor : Option String)
  /-- A list ends. -/
  | sequenceEnd
  /-- A mapping begins. -/
  | mappingStart (anchor : Option String)
  /-- A mapping ends. -/
  | mappingEnd
  deriving DecidableEq, Repr

/-- The tokens that are left and the events so far. -/
structure Builder where
  /-- The tokens that are left. -/
  tokens : List Token
  /-- The events so far. -/
  events : Array Event := #[]
  /-- The handles of tags with the beginnings that they stand for. -/
  handles : List (String × String) := []

/-- The properties of a node. -/
structure Properties where
  /-- The name. -/
  anchor : Option String := none
  /-- The tag; the empty text stands for none. -/
  tag : Option String := none

namespace Builder

/-- The next token. -/
def next? (b : Builder) : Option Token :=
  b.tokens.head?

/-- The builder behind the next token. -/
def skip (b : Builder) : Builder :=
  { b with tokens := b.tokens.tail }

/-- The builder with one more event. -/
def emit (b : Builder) (e : Event) : Builder :=
  { b with events := b.events.push e }

/-- The builder with the event of a node that is left out. -/
def emitEmpty (b : Builder) (p : Properties := {}) : Builder :=
  b.emit (.scalar p.anchor (p.tag.getD "") "" .plain)

/-- The full tag; its handle has to be known. -/
def fullTag? (b : Builder) (handle rest : String) : Option String :=
  if handle.isEmpty then some rest else (b.handles.lookup handle).map (· ++ rest)

/-- The properties in front, a name and a tag in any order, and the builder behind them. -/
def takeProperties? (b : Builder) : Option (Properties × Builder) :=
  match b.tokens with
  | .anchor name :: .tag handle rest :: _ => do
    return (⟨some name, some (← b.fullTag? handle rest)⟩, b.skip.skip)
  | .tag handle rest :: .anchor name :: _ => do
    return (⟨some name, some (← b.fullTag? handle rest)⟩, b.skip.skip)
  | .anchor name :: _ => some (⟨some name, none⟩, b.skip)
  | .tag handle rest :: _ => do return (⟨none, some (← b.fullTag? handle rest)⟩, b.skip)
  | _ => some ({}, b)

/-- The next token is one of `ts`. -/
def isAt (b : Builder) (ts : List Token) : Bool :=
  b.next?.any ts.contains

end Builder

/-- What surrounds a node: lines, lines of a mapping, where a list needs no indentation, or
brackets. -/
inductive Surroundings where
  /-- Lines. -/
  | lines
  /-- Lines of a mapping. -/
  | mappingLines
  /-- Brackets. -/
  | brackets
  deriving DecidableEq, Repr

mutual

/-- A node. -/
def takeNode? : (bound : Nat) → Surroundings → Builder → Option Builder
  | 0, _, _ => none
  | bound + 1, around, b =>
    match b.next? with
    | some (.alias name) => some (b.skip.emit (.alias name))
    | _ =>
      match b.takeProperties? with
      | none => none
      | some (p, b) =>
        match b.next? with
        | some (.scalar text style) =>
          some (b.skip.emit (.scalar p.anchor (p.tag.getD "") text style))
        | some .flowSequenceStart =>
          takeFlowItems? bound true (b.skip.emit (.sequenceStart p.anchor))
        | some .flowMappingStart =>
          takeFlowMembers? bound true (b.skip.emit (.mappingStart p.anchor))
        | next =>
          if around == .mappingLines && next == some .blockEntry then
            takeOpenItems? bound (b.emit (.sequenceStart p.anchor))
          else if around != .brackets && next == some .blockSequenceStart then
            takeItems? bound (b.skip.emit (.sequenceStart p.anchor))
          else if around != .brackets && next == some .blockMappingStart then
            takeMembers? bound (b.skip.emit (.mappingStart p.anchor))
          else if p.anchor.isSome || p.tag.isSome then some (b.emitEmpty p)
          else none

/-- The items of a list of lines, up to its end. -/
def takeItems? : (bound : Nat) → Builder → Option Builder
  | 0, _ => none
  | bound + 1, b =>
    match b.next? with
    | some .blockEntry =>
      let b := b.skip
      if b.isAt [.blockEntry, .blockEnd] then takeItems? bound b.emitEmpty
      else (takeNode? bound .lines b).bind (takeItems? bound)
    | some .blockEnd => some (b.skip.emit .sequenceEnd)
    | _ => none

/-- The items of a list that is not indented, as long as there are any. -/
def takeOpenItems? : (bound : Nat) → Builder → Option Builder
  | 0, _ => none
  | bound + 1, b =>
    match b.next? with
    | some .blockEntry =>
      let b := b.skip
      if b.isAt [.blockEntry, .key, .value, .blockEnd] then takeOpenItems? bound b.emitEmpty
      else (takeNode? bound .lines b).bind (takeOpenItems? bound)
    | _ => some (b.emit .sequenceEnd)

/-- The members of a mapping of lines, up to its end. -/
def takeMembers? : (bound : Nat) → Builder → Option Builder
  | 0, _ => none
  | bound + 1, b =>
    match b.next? with
    | some .key =>
      let b := b.skip
      let keyed := if b.isAt [.key, .value, .blockEnd] then some b.emitEmpty
        else takeNode? bound .mappingLines b
      keyed.bind fun b =>
        match b.next? with
        | some .value =>
          let b := b.skip
          if b.isAt [.key, .value, .blockEnd] then takeMembers? bound b.emitEmpty
          else (takeNode? bound .mappingLines b).bind (takeMembers? bound)
        | _ => takeMembers? bound b.emitEmpty
    | some .blockEnd => some (b.skip.emit .mappingEnd)
    | _ => none

/-- The items between brackets, up to the closing one; `first` says that no item came before.
An item with a colon is a mapping of one member. -/
def takeFlowItems? : (bound : Nat) → (first : Bool) → Builder → Option Builder
  | 0, _, _ => none
  | bound + 1, first, b =>
    if b.next? == some .flowSequenceEnd then some (b.skip.emit .sequenceEnd)
    else if !first && b.next? != some .flowEntry then none
    else
      let b := if first then b else b.skip
      match b.next? with
      | some .key =>
        let b := b.skip.emit (.mappingStart none)
        let keyed := if b.isAt [.value, .flowEntry, .flowSequenceEnd] then some b.skip.emitEmpty
          else takeNode? bound .brackets b
        let valued := keyed.bind fun b =>
          if b.next? == some .value then
            let b := b.skip
            if b.isAt [.flowEntry, .flowSequenceEnd] then some b.emitEmpty
            else takeNode? bound .brackets b
          else some b.emitEmpty
        valued.bind fun b => takeFlowItems? bound false (b.emit .mappingEnd)
      | some .flowSequenceEnd => some (b.skip.emit .sequenceEnd)
      | _ => (takeNode? bound .brackets b).bind (takeFlowItems? bound false)

/-- The members between braces, up to the closing one; `first` says that no member came
before. -/
def takeFlowMembers? : (bound : Nat) → (first : Bool) → Builder → Option Builder
  | 0, _, _ => none
  | bound + 1, first, b =>
    if b.next? == some .flowMappingEnd then some (b.skip.emit .mappingEnd)
    else if !first && b.next? != some .flowEntry then none
    else
      let b := if first then b else b.skip
      match b.next? with
      | some .key =>
        let b := b.skip
        let keyed := if b.isAt [.value, .flowEntry, .flowMappingEnd] then some b.emitEmpty
          else takeNode? bound .brackets b
        let valued := keyed.bind fun b =>
          if b.next? == some .value then
            let b := b.skip
            if b.isAt [.flowEntry, .flowMappingEnd] then some b.emitEmpty
            else takeNode? bound .brackets b
          else some b.emitEmpty
        valued.bind (takeFlowMembers? bound false)
      | some .flowMappingEnd => some (b.skip.emit .mappingEnd)
      | _ => (takeNode? bound .brackets b).bind fun b => takeFlowMembers? bound false b.emitEmpty

end

/-- The handles that are always known. -/
def coreHandles : List (String × String) := [("!", "!"), ("!!", coreLead)]

/-- The handles that directives define, and the tokens behind the directives. A version other
than 1.1 and 1.2, a second version and a handle defined twice are refused. -/
def takeDirectives? (versioned : Bool) (handles : List (String × String)) :
    List Token → Option (List (String × String) × List Token)
  | .version major minor :: ts =>
    if versioned || major != 1 || (minor != 1 && minor != 2) then none
    else takeDirectives? true handles ts
  | .tagHandle handle lead :: ts =>
    if (handles.lookup handle).isSome then none
    else takeDirectives? versioned ((handle, lead) :: handles) ts
  | ts => some (handles ++ coreHandles, ts)

/-- The content of a document whose start has been read. -/
def takeContent? (handles : List (String × String)) (ts : List Token) : Option Builder :=
  let b : Builder := { tokens := ts, handles := handles }
  let isMissing := match ts with
    | [] => true
    | .version .. :: _ | .tagHandle .. :: _ | .documentStart :: _ | .documentEnd :: _ => true
    | _ => false
  if isMissing then some b.emitEmpty else takeNode? (3 * ts.length + 3) .lines b

/-- A document that is announced by a mark, perhaps with directives in front. -/
def takeExplicit? (ts : List Token) : Option Builder := do
  let (handles, ts) ← takeDirectives? false [] ts
  match ts with
  | .documentStart :: ts => takeContent? handles ts
  | _ => none

/-- The tokens behind the marks at the end of a document. -/
def skipEnds : List Token → List Token
  | .documentEnd :: ts => skipEnds ts
  | ts => ts

/-- The documents behind the first one. There are at most `bound`. -/
def moreDocuments? : (bound : Nat) → List Token → Option (List (List Event))
  | 0, _ => none
  | bound + 1, ts =>
    match skipEnds ts with
    | [] => some []
    | ts => do
      let b ← takeExplicit? ts
      return b.events.toList :: (← moreDocuments? bound b.tokens)

/-- The events of each document. -/
def documents? (ts : List Token) : Option (List (List Event)) :=
  match ts with
  | [] => some []
  | t :: _ => do
    let isExplicit := match t with
      | .version .. | .tagHandle .. | .documentStart => true
      | _ => false
    let b ← if isExplicit then takeExplicit? ts
      else takeNode? (3 * ts.length + 3) .lines { tokens := ts, handles := coreHandles }
    return b.events.toList :: (← moreDocuments? (ts.length + 1) b.tokens)

end Pipewright.Yaml
