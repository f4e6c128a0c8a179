import Pipewright.Files.Cause
import Pipewright.Files.Path
import Pipewright.Text.Utf8

/-!
# File trees

A file tree says which places hold files and directories. Paths are resolved in it step by
step from the working directory, and the operations on files either change the tree or fail
with a cause and leave it alone.

## Main definitions

* `Tree`: the places with their entries, with `Tree.entry?`, `Tree.put` and `Tree.erase`.
* `Tree.locate`: the place that a path names.
* `Tree.readBytes`, `Tree.writeBytes`, `Tree.makeDirectory`, `Tree.makeDirectories`,
  `Tree.rename`: the operations.
-/

namespace Pipewright.Files

/-- A place: the names on the way from the working directory. A place outside starts with
`..` parts or with the name `/` of the root. -/
abbrev Place := List String

/-- What a place holds. -/
inductive Entry where
  /-- A file with its octets. -/
  | file (bytes : List UInt8)
  /-- A directory. -/
  | directory
  deriving DecidableEq, Repr

/-- The places that hold something, each with its entry. -/
structure Tree where
  /-- The entries, at most one a place. -/
  entries : List (Place × Entry)
  deriving Repr

namespace Tree

/-- The tree without entries. -/
def empty : Tree :=
  ⟨[]⟩

/-- The place is the working directory, a directory above it or the root; these are always
there. -/
def isAnchor (place : Place) : Bool :=
  place.all (· == "..") || place == ["/"]

/-- What the place holds. -/
def entry? (t : Tree) (place : Place) : Option Entry :=
  if isAnchor place then some .directory else t.entries.lookup place

/-- The tree with `entry` at the place. -/
def put (t : Tree) (place : Place) (entry : Entry) : Tree :=
  ⟨(place, entry) :: t.entries.filter (·.1 != place)⟩

/-- The tree with nothing at the place. -/
def erase (t : Tree) (place : Place) : Tree :=
  ⟨t.entries.filter (·.1 != place)⟩

/-- The greatest number of octets in a name. -/
def nameLimit : Nat := 255

/-- The number of octets that a path stays below. -/
def pathLimit : Nat := 4096

/-- The place one directory up. -/
def up (place : Place) : Place :=
  if place == ["/"] then place
  else if place.all (· == "..") then place ++ [".."]
  else place.dropLast

/-- One step of the way: the place of `part` in the directory at `place`. -/
def enter (t : Tree) (place : Place) (part : String) : Except Cause Place :=
  match t.entry? place with
  | none => .error .notFound
  | some (.file _) => .error .notADirectory
  | some .directory =>
    if isIdle part then .ok place
    else if part == ".." then .ok (up place)
    else if nameLimit < part.utf8ByteSize then .error .nameTooLong
    else .ok (place ++ [part])

/-- The place at which the way of a path starts. -/
def origin (path : String) : Place :=
  if isAbsolute path then ["/"] else []

/-- The place reached by the given parts. -/
def walk (t : Tree) (path : String) (ps : List String) : Except Cause Place :=
  if path.isEmpty then .error .notFound
  else if path.toList.contains '\x00' then .error .nulInPath
  else if pathLimit ≤ path.utf8ByteSize then .error .nameTooLong
  else ps.foldlM t.enter (origin path)

/-- The place that a path names. There may be nothing there, unless a slash or a dot follows. -/
def locate (t : Tree) (path : String) : Except Cause Place :=
  t.walk path (parts path)

/-- The parts of a path without the slashes at its end. -/
def openParts (path : String) : List String :=
  match parts path with
  | [] => []
  | first :: rest => first :: (rest.reverse.dropWhile String.isEmpty).reverse

/-- The path ends in a slash. -/
def hasTrailingSlash (path : String) : Bool :=
  path.toList.getLast? == some '/'

/-- What a path leads to. -/
def lookAt (t : Tree) (path : String) : Except Cause Entry := do
  match t.entry? (← t.locate path) with
  | some entry => return entry
  | none => throw .notFound

/-- The path leads to a directory. -/
def isDirectory (t : Tree) (path : String) : Bool :=
  match t.lookAt path with
  | .ok .directory => true
  | _ => false

/-- The octets of the file at `path`. -/
def readBytes (t : Tree) (path : String) : Except Cause (List UInt8) := do
  match ← t.lookAt path with
  | .file bytes => return bytes
  | .directory => throw .isADirectory

/-- The text of the file at `path`. -/
def readText (t : Tree) (path : String) : Except Cause String := do
  match Text.decode? (← t.readBytes path) with
  | some s => return s
  | none => throw .notUtf8

/-- The tree with a file at `path` that holds the given octets, in place of the file that was
there. -/
def writeBytes (t : Tree) (path : String) (bytes : List UInt8) : Except Cause Tree := do
  let place ← t.walk path (openParts path)
  if hasTrailingSlash path then throw .isADirectory
  match t.entry? place with
  | some .directory => throw .isADirectory
  | _ => return t.put place (.file bytes)

/-- The tree with a new directory at `path`. -/
def makeDirectory (t : Tree) (path : String) : Except Cause Tree := do
  let place ← t.walk path (openParts path)
  match t.entry? place with
  | some _ => throw .alreadyExists
  | none => return t.put place .directory

/-- The tree with the directory at `path` and those above it; `paths` are `path` and the paths
above it, the deepest first. A directory that is there already is good enough. The second
answer is the tree as it is after a failure. -/
def makeDirectoriesAt (t : Tree) : List String → Except Cause Unit × Tree
  | [] => (.ok (), t)
  | path :: above =>
    match t.makeDirectory path with
    | .ok t' => (.ok (), t')
    | .error .notFound =>
      match makeDirectoriesAt t above with
      | (.error e, t') => (.error e, t')
      | (.ok (), t') =>
        match t'.makeDirectory path with
        | .ok t'' => (.ok (), t'')
        | .error e => (if t'.isDirectory path then .ok () else .error e, t')
    | .error e => (if t.isDirectory path then .ok () else .error e, t)

/-- The path and the paths above it, as many as `bound` allows. -/
def ancestry : (bound : Nat) → String → List String
  | 0, _ => []
  | bound + 1, path =>
    if path.isEmpty then []
    else
      match parent? path with
      | none => [path]
      | some above => path :: ancestry bound above

/-- The tree with the directory at `path` and those above it. -/
def makeDirectories (t : Tree) (path : String) : Except Cause Unit × Tree :=
  t.makeDirectoriesAt (ancestry path.toList.length path)

/-- The last part of the path is a dot or two, or the path is the root. -/
def endsInDots (path : String) : Bool :=
  match (openParts path).getLast? with
  | some last => last == "." || last == ".." || last.isEmpty
  | none => true

/-- The tree with the file at `source` moved to `target`, in place of the file that was there. -/
def rename (t : Tree) (source target : String) : Except Cause Tree := do
  let fromPlace ← t.locate source
  let toPlace ← t.walk target (openParts target)
  if endsInDots target then throw .busy
  match t.entry? fromPlace with
  | none => throw .notFound
  | some .directory => throw .isADirectory
  | some (.file bytes) =>
    if hasTrailingSlash target then throw .notADirectory
    match t.entry? toPlace with
    | some .directory => throw .isADirectory
    | _ => return (t.erase fromPlace).put toPlace (.file bytes)

end Tree

end Pipewright.Files
