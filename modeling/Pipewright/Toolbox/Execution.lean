import Pipewright.Duration
import Pipewright.Files.Tree
import Pipewright.Text.Utf8

/-!
# Small programs

A small program reads files and its standard input, and answers with octets on its standard
output and standard error, an exit status and the time that it takes.

## Main definitions

* `Call`: what a small program is given.
* `Execution`: what comes of it.
* `succeed`, `complain`: the common outcomes.
-/

namespace Pipewright.Toolbox

/-- What a small program is given. -/
structure Call where
  /-- The files. -/
  files : Files.Tree
  /-- The arguments. -/
  arguments : List String
  /-- The octets of the standard input. -/
  input : List UInt8

/-- What comes of a small program. -/
structure Execution where
  /-- The octets of the standard output. -/
  output : List UInt8 := []
  /-- The octets of the standard error. -/
  messages : List UInt8 := []
  /-- The exit status, or nothing if a signal ended the program. -/
  status : Option Nat := some 0
  /-- The time that the program takes, in nanoseconds. -/
  elapsed : Nat := 0
  /-- What is left of the standard input. -/
  rest : List UInt8 := []

/-- The program prints the octets and ends well, without reading its input. -/
def succeed (c : Call) (output : List UInt8) : Execution :=
  { output, rest := c.input }

/-- The program ends badly with a line of its own, without reading its input. -/
def complain (c : Call) (message : String) : Execution :=
  { messages := Text.encode (message.push '\n'), status := some 1, rest := c.input }

/-- The hint that follows a complaint about the arguments. -/
def seeHelp (program : String) : String :=
  "\nTry '" ++ program ++ " --help' for more information."

/-- The complaint about a switch that the program does not know. -/
def unknownSwitch (program word : String) : String :=
  program ++ ": unrecognized option '" ++ word ++ "'" ++ seeHelp program

/-- The complaint about a letter that the program does not know. -/
def unknownLetter (program : String) (letter : Char) : String :=
  program ++ ": invalid option -- '" ++ String.singleton letter ++ "'" ++ seeHelp program

end Pipewright.Toolbox
