import Pipewright.Configuration

/-!
# The bench

A preview depends on two things: the configuration and the text that was pasted in.

## Main definitions

* `Bench`: the two together.
* `Bench.isReady`: there is something to run, and something to run it on.
-/

namespace Pipewright

/-- A configuration with the pasted text. -/
structure Bench where
  /-- The configuration. -/
  configuration : Configuration := {}
  /-- The pasted text, which counts when the records come from pasted text. -/
  text : String := ""
  deriving DecidableEq, Repr

namespace Bench

/-- There is an input: a file, or a text that is not blank. -/
def hasRecords (w : Bench) : Bool :=
  w.configuration.inputFile?.isSome || !Text.isBlankText w.text

/-- There is an input, and a step takes part. -/
def isReady (w : Bench) : Bool :=
  w.hasRecords && w.configuration.hasEnabledSteps

end Bench

end Pipewright
