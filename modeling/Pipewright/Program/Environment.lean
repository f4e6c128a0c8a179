import Pipewright.Display.Style
import Pipewright.Files.Path
import Pipewright.Text.Numeral

/-!
# The environment

Variables of the environment stand in for options that are not given, and say what the terminal
can show.

## Main definitions

* `Environment`: the variables that are set.
* `Environment.filled?`: a variable that holds more than blanks.
* `Environment.style`, `Environment.homeStateFile`: what the variables select.
-/

namespace Pipewright.Program

/-- The variables that are set, with their values. -/
abbrev Environment := List (String × String)

/-- The variable that names the state file. -/
def stateVariable : String := "MLR_WORKBENCH_STATE"

/-- The variable that names the tool. -/
def toolVariable : String := "MLR_BIN"

/-- The variable that names the directory for logs. -/
def logDirectoryVariable : String := "MLR_WORKBENCH_LOG_DIR"

/-- The name of the state file in the home directory. -/
def stateName : String := ".mlr_desktop_state.json"

/-- The width that is assumed for a terminal that does not tell. -/
def defaultWidth : Nat := 100

/-- The width to use when the terminal says that it has the given one. -/
def clampWidth (width : Nat) : Nat :=
  min (max width 40) 220

namespace Environment

/-- The value of a variable, if it holds more than blanks. -/
def filled? (e : Environment) (name : String) : Option String :=
  (e.lookup name).filter (!Text.isBlankText ·)

/-- The width of the terminal. -/
def width (e : Environment) : Nat :=
  match (e.lookup "COLUMNS").bind Text.readUInt64? with
  | some n => clampWidth n.toNat
  | none => defaultWidth

/-- What the terminal can show. -/
def style (e : Environment) : Display.Style :=
  ⟨(e.lookup "NO_COLOR").isNone, (e.lookup "NO_EMOJI").isNone, e.width⟩

/-- The state file unless another one is named: in the home directory, or in the working
directory if there is no home. -/
def homeStateFile (e : Environment) : String :=
  match (e.lookup "HOME").filter (!·.isEmpty) with
  | some home => Files.within home stateName
  | none => stateName

end Environment

end Pipewright.Program
