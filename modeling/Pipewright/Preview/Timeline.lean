import Pipewright.Preview.Cycle
import Pipewright.Preview.Live

/-!
# Virtual time

On a timeline, time passes only while something is waited for; work itself takes no time. Edits
queue up until time passes and are taken in before anything else happens at that moment: what is
due at the very end of a wait happens when time goes on, behind the edits of that moment.

## Main definitions

* `World`: the files, the tool, the store and the bounds.
* `Timeline`: the live preview with its clock, its calls of the tool and its saves.
* `Timeline.submit`, `Timeline.wait`, `Timeline.settle`: what can be done with it.
-/

namespace Pipewright.Preview

/-- What surrounds a timeline. -/
structure World where
  /-- The files. -/
  files : Files.Tree := .empty
  /-- The bounds. -/
  settings : Settings := {}
  /-- What comes of the call of the tool with the given number, from zero. -/
  tool : Nat → Request → Reaction
  /-- The store accepts what is saved. -/
  storeAccepts : Bool := true

/-- A run of the tool. -/
structure Flight where
  /-- When it has its result. -/
  due : Nat
  /-- The result. -/
  landing : Landing

/-- The live preview in the course of time. -/
structure Timeline where
  /-- The time. -/
  now : Nat := 0
  /-- The number of edits. -/
  submitted : Nat := 0
  /-- The edits that have not been taken in, the oldest first. -/
  queue : List Submission := []
  /-- The live preview. -/
  live : Live := {}
  /-- The run that is neither finished nor called off. -/
  flight : Option Flight := none
  /-- The calls of the tool, in order. -/
  calls : List Request := []
  /-- The saved configurations, in order. -/
  saves : List Configuration := []

namespace Timeline

/-- The timeline after an edit, and the stamp of the edit. -/
def submit (s : Timeline) (bench : Bench) : Stamp × Timeline :=
  let stamp := s.submitted + 1
  (stamp, { s with submitted := stamp, queue := s.queue ++ [⟨stamp, bench⟩] })

/-- The timeline with one edit taken in. -/
def takeIn (w : World) (s : Timeline) (submission : Submission) : Timeline :=
  let live := s.live.receive s.now w.settings.pause submission.stamp submission.bench
  { s with live := live, flight := if live.underWay.isSome then s.flight else none }

/-- The timeline with all edits taken in. -/
def takeInAll (w : World) (s : Timeline) : Timeline :=
  { s.queue.foldl (takeIn w) s with queue := [] }

/-- The timeline with a run of the given edit. The tool is called when there are arguments and a
sample. -/
def start (w : World) (s : Timeline) (submission : Submission) : Timeline :=
  let c := submission.bench.configuration
  match request w.files w.settings submission.bench with
  | .error e => { s with flight := some ⟨s.now, ⟨submission.stamp, c, .error e⟩⟩ }
  | .ok r =>
    let reaction := w.tool s.calls.length r
    { s with
      calls := s.calls ++ [r]
      flight :=
        some ⟨s.now + reaction.delay, ⟨submission.stamp, c, settleAnswer c reaction.answer⟩⟩ }

/-- The timeline when the pause is over, at time `due`. -/
def expire (w : World) (s : Timeline) (due : Nat) : Timeline :=
  let (submission, live) := s.live.expire
  let s := { s with now := due, live := live }
  match submission with
  | none => s
  | some submission => s.start w submission

/-- The timeline when a run has its result. -/
def land (w : World) (s : Timeline) (f : Flight) : Timeline :=
  let (saved, live) := s.live.finish f.landing
  { s with
    now := f.due
    live := live
    flight := none
    saves := s.saves ++ if w.storeAccepts then saved.toList else [] }

/-- The timeline after the next thing that happens before time `target`: the end of the pause or
the result of a run. -/
def tick (w : World) (target : Nat) (s : Timeline) : Timeline :=
  match s.live.deadline with
  | some due => if due < target then s.expire w due else s
  | none =>
    match s.flight with
    | some f => if f.due < target then s.land w f else s
    | none => s

/-- The timeline after `ms` milliseconds. Two things can happen in that time: the end of the pause
and the result of the run that starts then. -/
def wait (w : World) (ms : Nat) (s : Timeline) : Timeline :=
  if ms = 0 then s
  else
    let target := s.now + ms
    { (s.takeInAll w |>.tick w target |>.tick w target) with now := target }

/-- How long a settled state is waited for, in milliseconds. -/
def patience : Nat := 3600000

/-- The published state, if it is settled and about the edit with the given stamp or a later
one. -/
def verdict? (s : Timeline) (stamp : Stamp) : Option State :=
  if stamp ≤ s.live.published.stamp && s.live.published.isFinal then some s.live.published
  else none

/-- The timeline when the preview has settled on the edit with the given stamp or a later one,
and the state then; nothing if that does not happen in time. -/
def settle (w : World) (stamp : Stamp) (s : Timeline) : Option State × Timeline :=
  match s.verdict? stamp with
  | some state => (some state, s)
  | none =>
    let target := s.now + patience
    let first := (s.takeInAll w).tick w target
    match first.verdict? stamp with
    | some state => (some state, first)
    | none =>
      let second := first.tick w target
      match second.verdict? stamp with
      | some state => (some state, second)
      | none => (none, { second with now := target })

end Timeline

end Pipewright.Preview
