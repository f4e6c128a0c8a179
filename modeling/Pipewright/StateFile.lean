import Pipewright.Document.FromJson
import Pipewright.Document.FromYaml
import Pipewright.Document.ToYaml
import Pipewright.Document.Written
import Pipewright.Files.Tree

/-!
# Configurations in files

A configuration is kept in a file, as YAML if the extension of the file says so and as JSON
otherwise. It is written to a neighbouring file first, which then takes the place of the old
file, so that a failure leaves the old file alone.

## Main definitions

* `StateFileError`: the failures, with `StateFileError.message` and `StateFileError.chain`.
* `encode`, `decode`: the text of a configuration, and the configuration that a text describes.
* `write`, `read`: the way to a file and back.
-/

namespace Pipewright

/-- Why a configuration cannot be written to a file or read from it. -/
inductive StateFileError where
  /-- There is no file. -/
  | notFound (path : String)
  /-- An operation on the file or its neighbourhood fails. -/
  | blocked (path : String) (cause : Files.Cause)
  /-- The file holds no configuration in JSON. -/
  | badJson (path : String) (cause : Json.ReadError)
  /-- The file holds no configuration in YAML. -/
  | badYaml (path : String)
  deriving Repr

namespace StateFileError

/-- The error in words. -/
def message : StateFileError → String
  | notFound path => "no saved state at " ++ path
  | blocked path _ => "i/o error on " ++ path
  | badJson path _ => "invalid JSON state in " ++ path
  | badYaml path => "invalid YAML state in " ++ path

/-- The error with the errors behind it, in words. -/
def chain (e : StateFileError) : List String :=
  e.message ::
    match e with
    | notFound _ => []
    | blocked _ cause => [cause.message]
    | badJson _ cause => [cause.message]
    | badYaml _ => []

end StateFileError

namespace StateFile

/-- The path names a YAML file. -/
def holdsYaml (path : String) : Bool :=
  match Files.extension? path with
  | some extension => Text.sameFolded extension "yaml" || Text.sameFolded extension "yml"
  | none => false

/-- The text that is written to `path` for a configuration. -/
def encode (path : String) (c : Configuration) : String :=
  if holdsYaml path then c.yaml else c.document.pretty

/-- The configuration that the text of the file at `path` describes. -/
def decode (path text : String) : Except StateFileError Configuration :=
  if holdsYaml path then
    match Document.ofYamlText? text with
    | some c => .ok c.repaired
    | none => .error (.badYaml path)
  else
    match Document.ofJsonText text with
    | .ok c => .ok c.repaired
    | .error e => .error (.badJson path e)

/-- The path of the neighbouring file that is written first. -/
def temporary (path : String) : String :=
  Files.beside path ".tmp"

/-- The tree with the directories above the file at `path`. -/
def prepareParent (t : Files.Tree) (path : String) : Except StateFileError Unit × Files.Tree :=
  match Files.parent? path with
  | none => (.ok (), t)
  | some parent =>
    if parent.isEmpty then (.ok (), t)
    else
      match t.makeDirectories parent with
      | (.ok (), t') => (.ok (), t')
      | (.error cause, t') => (.error (.blocked parent cause), t')

/-- The tree with the octets in the file at `path`, by way of the neighbouring file. -/
def replaceFile (t : Files.Tree) (path : String) (bytes : List UInt8) :
    Except StateFileError Unit × Files.Tree :=
  match t.writeBytes (temporary path) bytes with
  | .error cause => (.error (.blocked (temporary path) cause), t)
  | .ok t' =>
    match t'.rename (temporary path) path with
    | .error cause => (.error (.blocked path cause), t')
    | .ok t'' => (.ok (), t'')

/-- The tree with the configuration in the file at `path`. After a failure the tree may have
new directories and the neighbouring file. -/
def write (t : Files.Tree) (path : String) (c : Configuration) :
    Except StateFileError Unit × Files.Tree :=
  match prepareParent t path with
  | (.error e, t') => (.error e, t')
  | (.ok (), t') => replaceFile t' path (Text.encode (encode path c))

/-- The configuration in the file at `path`. -/
def read (t : Files.Tree) (path : String) : Except StateFileError Configuration :=
  match t.readText path with
  | .ok text => decode path text
  | .error .notFound => .error (.notFound path)
  | .error cause => .error (.blocked path cause)

end StateFile

end Pipewright
