import Pipewright.Preview.Arbiter

/-!
# The live preview

Around the arbiter stand a timer for the pause and at most one run of the tool. An edit sets
the timer and calls off a run that it takes the place of; the timer starts a run; the result of
a run is shown and its configuration is saved, unless the run is no longer wanted.

## Main definitions

* `Live`: the arbiter, the timer, the run and what is published.
* `Live.receive`, `Live.expire`, `Live.finish`: what happens to it.
-/

namespace Pipewright.Preview

/-- The result of a run. -/
structure Landing where
  /-- The edit that was run. -/
  stamp : Stamp
  /-- Its configuration. -/
  configuration : Configuration
  /-- The result. -/
  result : Except Failure Success

/-- The live preview. -/
structure Live where
  /-- The arbiter. -/
  arbiter : Arbiter := {}
  /-- When the pause is over. -/
  deadline : Option Nat := none
  /-- The edit whose run is neither finished nor called off. -/
  underWay : Option Stamp := none
  /-- What is published. -/
  published : State := .idle 0
  deriving DecidableEq, Repr

namespace Live

/-- The live preview with what its arbiter shows published. -/
def refresh (l : Live) : Live :=
  { l with published := l.arbiter.state }

/-- An edit comes in at time `now`; the pause lasts for `pause`. -/
def receive (l : Live) (now pause : Nat) (stamp : Stamp) (bench : Bench) : Live :=
  let (superseded, arbiter) := l.arbiter.accept stamp bench
  refresh
    { l with
      arbiter := arbiter
      deadline := some (now + pause)
      underWay := if superseded then none else l.underWay }

/-- The pause is over. The answer is the edit that is run now. -/
def expire (l : Live) : Option Submission × Live :=
  let (submission, arbiter) := l.arbiter.release
  (submission,
    refresh
      { l with
        arbiter := arbiter
        deadline := none
        underWay := (submission.map (·.stamp)).or l.underWay })

/-- A run has a result. The answer is the configuration to save, if it is a success that is
shown. -/
def finish (l : Live) (c : Landing) : Option Configuration × Live :=
  if l.arbiter.awaits c.stamp then
    (match c.result with
      | .ok _ => some c.configuration
      | .error _ => none,
      refresh
        { l with
          arbiter := (l.arbiter.conclude c.stamp (.ofResult c.result)).2
          underWay := none })
  else (none, l)

end Live

end Pipewright.Preview
