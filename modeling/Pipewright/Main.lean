import Pipewright.Program.Reach
import Pipewright.Toolbox

/-!
# The command line

The outer layer reads the environment, the files that a run may open and the standard input,
runs the program on them, writes back the files that have changed, and prints. The small
programs of the toolbox take the place of the tool.

## Main definitions

* `main`: the command line.
-/

namespace Pipewright.Main

open Files (Tree Entry Place)
open Program (Environment Host Invocation)

/-- The rest of the standard input. -/
partial def readRest (stream : IO.FS.Stream) (before : List ByteArray) : IO (List UInt8) := do
  let chunk ← stream.read 65536
  if chunk.isEmpty then return (before.reverse.map ByteArray.toList).flatten
  else readRest stream (chunk :: before)

/-- The variables of the environment that count. -/
def readEnvironment : IO Environment :=
  Environment.names.filterMapM fun name => do return (← IO.getEnv name).map (name, ·)

/-- What is at the path on disk. -/
def readEntry (path : String) : IO (Option Entry) := do
  match ← (IO.FS.readBinFile path).toBaseIO with
  | .ok bytes => return some (.file bytes.toList)
  | .error (.noFileOrDirectory ..) => return none
  | .error _ => return some .directory

/-- The tree with what is on disk at the path and above it. -/
def addPath (tree : Tree) (path : String) : IO Tree :=
  ((Tree.ancestry path.toList.length path).reverse).foldlM (fun t p => do
    match ← readEntry p, t.locate p with
    | some entry, .ok place => return t.put place entry
    | _, _ => return t) tree

/-- The tree with what is on disk at the paths. -/
def addPaths (tree : Tree) (paths : List String) : IO Tree :=
  paths.foldlM addPath tree

/-- The path of a place. -/
def pathOf (place : Place) : String :=
  match place with
  | "/" :: rest => "/" ++ "/".intercalate rest
  | _ => "/".intercalate place

/-- Brings the disk from one tree to another. -/
def writeBack (before after : Tree) : IO Unit := do
  for (place, entry) in after.entries.reverse do
    if before.entries.lookup place != some entry then
      match entry with
      | .directory => IO.FS.createDirAll (pathOf place)
      | .file bytes => IO.FS.writeBinFile (pathOf place) ⟨bytes.toArray⟩
  for (place, _) in before.entries do
    if (after.entries.lookup place).isNone then IO.FS.removeFile (pathOf place)

/-- The host of an invocation. -/
def readHost (invocation : Invocation) : IO Host := do
  let environment ← readEnvironment
  let input ← if invocation.task.readsInput then readRest (← IO.getStdin) [] else pure []
  let host : Host := { files := .empty, environment, input, toolbox := Toolbox.builtin }
  let named ← addPaths .empty (invocation.namedPaths (.settle host invocation.common))
  let host := { host with files := named }
  return { host with files := ← addPaths named (invocation.reach (.settle host invocation.common)) }

/-- The host of a run with the given words. Words that are refused need none. -/
def hostOf (words : List String) : IO Host :=
  match Invocation.read words with
  | .ok invocation => readHost invocation
  | .error _ => pure { files := .empty, toolbox := Toolbox.builtin }

/-- Runs the program on the given words. -/
def run (words : List String) : IO UInt32 := do
  let host ← hostOf words
  let finish := Program.run host words
  writeBack host.files finish.files
  (← IO.getStdout).putStr finish.output
  (← IO.getStderr).putStr finish.messages
  return finish.status.toUInt32

end Pipewright.Main

/-- The command line. -/
def main (words : List String) : IO UInt32 :=
  Pipewright.Main.run words
