/-!
# Paths as texts

A path is a text whose parts are separated by slashes. Empty parts and parts that are a single
dot mean nothing, except for the dot that a path starts with. This module takes paths apart
without looking at any files.

## Main definitions

* `parts`: the texts between the slashes.
* `parent?`: the path of the directory that holds the last part.
* `fileName?`, `extension?`: the last part and its extension.
* `beside`, `within`: paths made from a path.
-/

namespace Pipewright.Files

/-- The list cut at every element equal to `sep`. -/
def splitAt {α : Type} [BEq α] (sep : α) : List α → List (List α)
  | [] => [[]]
  | a :: as =>
    if a == sep then [] :: splitAt sep as
    else
      match splitAt sep as with
      | [] => [[a]]
      | part :: rest => (a :: part) :: rest

/-- The texts between the slashes of a path. -/
def parts (path : String) : List String :=
  (splitAt '/' path.toList).map .ofList

/-- The part means nothing where it stands. -/
def isIdle (part : String) : Bool :=
  part.isEmpty || part == "."

/-- The parts without those at the end that mean nothing; the first part stays. -/
def trimIdle (ps : List String) : List String :=
  match ps with
  | [] => []
  | first :: rest => first :: (rest.reverse.dropWhile isIdle).reverse

/-- The path starts at the root. -/
def isAbsolute (path : String) : Bool :=
  path.toList.head? == some '/'

/-- The path with the given parts; a lone empty part is the root when `absolute` says so. -/
def ofParts (absolute : Bool) (ps : List String) : String :=
  if absolute && ps == [""] then "/" else "/".intercalate ps

/-- The path of the directory that holds the last part of `path`; the root and the empty path
have none. -/
def parent? (path : String) : Option String :=
  match trimIdle (parts path) with
  | [] => none
  | [first] => if first.isEmpty then none else some ""
  | ps => some (ofParts (isAbsolute path) (trimIdle ps.dropLast))

/-- The last part of a path, if it is a name. -/
def fileName? (path : String) : Option String :=
  match (trimIdle (parts path)).getLast? with
  | none => none
  | some last => if isIdle last || last == ".." then none else some last

/-- The extension of the last part: what follows its last dot, unless that dot comes first. -/
def extension? (path : String) : Option String := do
  let name ← fileName? path
  let behind := name.toList.reverse.takeWhile (· != '.')
  if behind.length + 1 < name.toList.length then return .ofList behind.reverse else none

/-- The path with `ending` behind its last character. -/
def beside (path ending : String) : String :=
  path ++ ending

/-- The path of `name` in the directory at `path`. -/
def within (path name : String) : String :=
  if path.isEmpty || path.toList.getLast? == some '/' then path ++ name else path ++ "/" ++ name

end Pipewright.Files
