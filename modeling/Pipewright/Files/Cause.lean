/-!
# Why the file system refuses

## Main definitions

* `Cause`: the reasons, with `Cause.words` and `Cause.message`.
-/

namespace Pipewright.Files

/-- Why an operation on files fails. -/
inductive Cause where
  /-- There is nothing at the path. -/
  | notFound
  /-- The caller may not do that. -/
  | permissionDenied
  /-- The path names a directory in use. -/
  | busy
  /-- There is something at the path already. -/
  | alreadyExists
  /-- A file stands where a directory has to be. -/
  | notADirectory
  /-- A directory stands where a file has to be. -/
  | isADirectory
  /-- A name in the path is too long. -/
  | nameTooLong
  /-- The path holds the character NUL. -/
  | nulInPath
  /-- The octets are not the UTF-8 form of a text. -/
  | notUtf8
  deriving DecidableEq, Repr

namespace Cause

/-- The reason in words. -/
def words : Cause → String
  | notFound => "No such file or directory"
  | permissionDenied => "Permission denied"
  | busy => "Device or resource busy"
  | alreadyExists => "File exists"
  | notADirectory => "Not a directory"
  | isADirectory => "Is a directory"
  | nameTooLong => "File name too long"
  | nulInPath => "file name contained an unexpected NUL byte"
  | notUtf8 => "stream did not contain valid UTF-8"

/-- The number that the system has for the reason, if it is the system that refuses. -/
def number? : Cause → Option Nat
  | notFound => some 2
  | permissionDenied => some 13
  | busy => some 16
  | alreadyExists => some 17
  | notADirectory => some 20
  | isADirectory => some 21
  | nameTooLong => some 36
  | nulInPath | notUtf8 => none

/-- The reason in words, with its number. -/
def message (c : Cause) : String :=
  match c.number? with
  | some n => c.words ++ " (os error " ++ toString n ++ ")"
  | none => c.words

end Cause

end Pipewright.Files
