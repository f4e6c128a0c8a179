import Pipewright.Preview.State

/-!
# The latest edit wins

An edit waits for a pause, is run when the pause has come, and is shown when its result is
there. A newer edit takes the place of an older one at every stage, and a result is shown only
while its edit is the newest.

## Main definitions

* `Arbiter`: the newest stamp, the edit that waits, and what is shown.
* `Arbiter.accept`, `Arbiter.release`, `Arbiter.conclude`: the transitions.
-/

namespace Pipewright.Preview

/-- The judge of which edit counts. -/
structure Arbiter where
  /-- The newest stamp. -/
  latest : Stamp := 0
  /-- The edit that waits for a pause. -/
  pending : Option Submission := none
  /-- What is shown. -/
  state : State := .idle 0
  deriving DecidableEq, Repr

namespace Arbiter

/-- The tool runs for some edit. -/
def isRunning (a : Arbiter) : Bool :=
  match a.state with
  | .running _ => true
  | .idle _ | .waiting _ | .showing .. => false

/-- The tool runs for the edit with the given stamp. -/
def awaits (a : Arbiter) (stamp : Stamp) : Bool :=
  a.state == .running stamp

/-- The arbiter after an edit, and whether it takes the place of a run. An edit that is not
newer than the newest one changes nothing. -/
def accept (a : Arbiter) (stamp : Stamp) (bench : Bench) : Bool × Arbiter :=
  if stamp ≤ a.latest then (false, a)
  else (a.isRunning, ⟨stamp, some ⟨stamp, bench⟩, .waiting stamp⟩)

/-- The arbiter after a pause, and the edit to run. An edit with nothing to run, or nothing to
run it on, clears what is shown. -/
def release (a : Arbiter) : Option Submission × Arbiter :=
  match a.pending with
  | none => (none, a)
  | some submission =>
    if submission.bench.isReady then
      (some submission, { a with pending := none, state := .running submission.stamp })
    else (none, { a with pending := none, state := .idle submission.stamp })

/-- The arbiter after a result, and whether it is shown. -/
def conclude (a : Arbiter) (stamp : Stamp) (outcome : Outcome) : Bool × Arbiter :=
  if a.awaits stamp then (true, { a with state := .showing stamp outcome }) else (false, a)

end Arbiter

end Pipewright.Preview
