import Pipewright.Program.Context
import Pipewright.Toolbox.Shell.Run

/-!
# The toolbox

The small programs can take the place of the tool. They are found by their names in the system's
directories; everything else that a path leads to is no program.

## Main definitions

* `program?`: the small program with a given name.
* `Toolbox.search`: the place of a program.
* `Toolbox.builtin`: the way to run the small programs.
-/

namespace Pipewright.Toolbox

open Program (Launch Environment)

/-- The small program with the given name. -/
def program? (environment : Environment) (name : String) : Option (Call → Execution) :=
  [("echo", echo), ("printf", printf), ("cat", cat), ("sleep", sleep),
    ("sh", Shell.shell environment), ("true", fun c => succeed c []),
    ("false", fun c => { status := some 1, rest := c.input })].lookup name

/-- The directories of the system that hold the small programs. -/
def systemDirectories : List String :=
  ["/usr/local/sbin", "/usr/local/bin", "/usr/sbin", "/usr/bin", "/sbin", "/bin"]

/-- The directories that are searched when the environment does not tell. -/
def defaultDirectories : List String :=
  ["/bin", "/usr/bin"]

/-- The directories that are searched; an empty name is the working directory. -/
def searchedDirectories (environment : Environment) : List String :=
  match environment.lookup "PATH" with
  | some path => (Files.splitAt ':' path.toList).map .ofList
  | none => defaultDirectories

/-- The small program in a directory of the system. -/
def inDirectory? (environment : Environment) (directory name : String) :
    Option (Call → Execution) :=
  if systemDirectories.contains directory then program? environment name else none

/-- The program at a path, or why it cannot be run. Files are no programs. -/
def atPath (files : Files.Tree) (environment : Environment) (path : String) :
    Except Files.Cause (Call → Execution) :=
  let parts := Files.parts path
  match inDirectory? environment ("/".intercalate parts.dropLast) (parts.getLast?.getD "") with
  | some program => .ok program
  | none =>
    match files.lookAt path with
    | .ok _ => .error .permissionDenied
    | .error cause => .error cause

/-- Looks for a program in the directories; `worst` is what was found so far. A file in the way
is remembered, and anything else goes on to the next directory. -/
def searchIn (files : Files.Tree) (environment : Environment) (name : String)
    (worst : Files.Cause) : List String → Except Files.Cause (Call → Execution)
  | [] => .error worst
  | directory :: rest =>
    match atPath files environment (Files.within directory name) with
    | .ok program => .ok program
    | .error .permissionDenied => searchIn files environment name .permissionDenied rest
    | .error _ => searchIn files environment name worst rest

/-- The program with the given name or path, or why it cannot be run. -/
def search (files : Files.Tree) (environment : Environment) (name : String) :
    Except Files.Cause (Call → Execution) :=
  if name.toList.contains '/' then atPath files environment name
  else if Files.Tree.nameLimit < name.utf8ByteSize then .error .nameTooLong
  else if name.isEmpty then .error .notFound
  else searchIn files environment name .notFound (searchedDirectories environment)

/-- What is said of a character that no argument can hold. -/
def nulInArguments : String := "nul byte found in provided data"

/-- The arguments of a launch, with the file that it reads. -/
def argumentsOf (l : Launch) : List String :=
  match l.request.records with
  | .text _ => l.request.arguments
  | .file path => l.request.arguments ++ [path]

/-- The standard input of a launch. -/
def inputOf (l : Launch) : List UInt8 :=
  match l.request.records with
  | .text content => Text.encode content
  | .file _ => []

/-- What the tool answers when a small program takes its place. -/
def reply (e : Execution) : Preview.ToolReply :=
  { output := Text.decodeLossy e.output
    messages := Text.decodeLossy e.messages
    status := e.status.map Int.ofNat }

/-- Runs the small programs. A program that takes as long as it may is too slow. -/
def builtin : Program.Toolbox := fun files l =>
  if (l.program :: argumentsOf l).any (·.toList.contains '\x00') then
    .error (.unstartable l.program nulInArguments)
  else
    match search files l.environment l.program with
    | .error .notFound => .error (.notFound l.program)
    | .error cause => .error (.unstartable l.program cause.message)
    | .ok program =>
      let e := program ⟨files, argumentsOf l, inputOf l⟩
      if l.limit.nanoseconds ≤ e.elapsed then .error (.overdue l.program l.limit)
      else .ok (reply e)

end Pipewright.Toolbox
