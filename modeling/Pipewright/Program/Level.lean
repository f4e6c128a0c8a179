/-!
# How much is logged

## Main definitions

* `Level`: the least severity that is logged.
* `Level.ofSwitches`: the level that the switches of the command line select.
-/

namespace Pipewright.Program

/-- The least severity of messages that are logged. -/
inductive Level where
  /-- Errors only. -/
  | error
  /-- Errors, warnings and information. -/
  | info
  /-- All of those and remarks for the search of faults. -/
  | debug
  /-- Everything. -/
  | trace
  deriving DecidableEq, Repr

namespace Level

/-- The name of the level. -/
def name : Level → String
  | error => "error"
  | info => "info"
  | debug => "debug"
  | trace => "trace"

/-- The level selected by the number of verbose switches and the quiet switch, which wins. -/
def ofSwitches (verbose : Nat) (quiet : Bool) : Level :=
  if quiet then error
  else
    match verbose with
    | 0 => info
    | 1 => debug
    | _ => trace

end Level

end Pipewright.Program
