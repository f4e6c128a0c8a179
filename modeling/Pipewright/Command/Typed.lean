import Pipewright.Words.Quote

/-!
# A command line given as arguments

A command line to import comes as one argument, taken as it is, or as its words, which are
quoted again so that reading the line gives back the same words.

## Main definitions

* `lineOfArguments`: the command line that the arguments stand for.
-/

namespace Pipewright

/-- The command line that the arguments stand for. -/
def lineOfArguments : List String → String
  | [line] => line
  | words => Words.join words

end Pipewright
