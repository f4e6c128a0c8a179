import Pipewright.Command.Line
import Pipewright.Display.Banner
import Pipewright.Display.Table

/-!
# The view of a configuration

A configuration is shown to people as a banner with its command line, a line with its settings
and a table of its steps.

## Main definitions

* `stepRows`: the rows of the table of steps.
* `renderConfiguration`: the view for people.
-/

namespace Pipewright.Display

/-- The rows of the table of steps: the number from one, the switch and the text. -/
def stepRows (c : Configuration) : List (List String) :=
  c.steps.mapIdx fun i s => [toString (i + 1), if s.enabled then "yes" else "no", s.text]

/-- What the banner says about the command line. -/
def commandSubtitle (c : Configuration) : String :=
  let command := c.commandLine
  if command.isEmpty then "(no enabled verbs)" else command

/-- The line with the settings. -/
def settingsLine (c : Configuration) : String :=
  let input := match c.inputFile? with
    | some path => "file " ++ path
    | none => "pasted text"
  let options := if c.options.isEmpty then "" else " • options: " ++ c.options
  "input: " ++ input ++ " • in=" ++ c.inputFormat.name ++ " out=" ++ c.outputFormat.name ++
    " ragged=" ++ toString c.ragged ++ " headerless=" ++ toString c.headerless ++ " ifs=" ++
    c.separator ++ options

/-- The table of steps, or a remark that there are none. -/
def stepsView (c : Configuration) (style : Style) : String :=
  if c.steps.isEmpty then paint .dim (Symbol.info.shown style ++ " (no verbs)") style
  else table ["#", "ON", "VERB"] (stepRows c) style

/-- The view of a configuration for people. -/
def renderConfiguration (c : Configuration) (style : Style) : String :=
  "\n".intercalate [
    banner (Symbol.pipeline.shown style ++ " Pipeline") (some (commandSubtitle c)) style,
    paint .dim (settingsLine c) style,
    stepsView c style]

end Pipewright.Display
