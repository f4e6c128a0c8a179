import Pipewright.Command.Reading
import Pipewright.Words.Quote

/-!
# From a configuration to a command line

The order of words is fixed: tool, input format, ragged, headerless, separator, output format,
options, enabled steps joined by the connective, and the input file. The texts of steps and
options stand as typed; the separator and the input file are quoted where they need it.

## Main definitions

* `Configuration.formatFlags`: the flags in order, each with its value.
* `Configuration.commandLine`: the command line that a user would type.
-/

namespace Pipewright

namespace Configuration

/-- The flags of the configuration in order, each with its value. -/
def formatFlags (c : Configuration) : List (String × Option String) :=
  let bare (flag : String) : String × Option String := (flag, none)
  c.inputFormat.flag?.toList.map bare ++
    (if c.inputFormat.hasSeparator && c.ragged then [bare raggedWord] else []) ++
    (if c.inputFormat.hasSeparator && c.headerless then [bare headerlessWord] else []) ++
    (if c.inputFormat = .csv ∧ c.separator ≠ defaultSeparator then
      [(separatorWord, some c.separator)] else []) ++
    c.outputFormat.flag?.toList.map bare

/-- The options without the blanks around them, if there are any. -/
def trimmedOptions? (c : Configuration) : Option String :=
  let options := Text.trim c.options
  if options.isEmpty then none else some options

/-- The words of the command line of a configuration; options and steps count as one word
each. -/
def commandWords (c : Configuration) : List String :=
  toolWord ::
    (c.formatFlags.flatMap fun f => f.1 :: (f.2.map Words.quote).toList) ++
    c.trimmedOptions?.toList ++
    (c.enabledSteps.map fun s => Text.trim s.text).intersperse connective ++
    (c.inputFile?.map Words.quote).toList

end Configuration

/-- The command line that a user would type; empty when no step takes part. -/
def Configuration.commandLine (c : Configuration) : String :=
  if c.hasEnabledSteps then " ".intercalate c.commandWords else ""

end Pipewright
