import Pipewright.Preview.Cycle
import Pipewright.Preview.Live

/-!
# The parties of a live preview

Edits come in, pauses end, and runs of the tool go on beside each other; what reaches the live
preview waits there until it is taken in. None of the parties waits for another one, so that
anything that can happen may happen next. A run that was called off can end without a trace at
any moment, and it can have its result all the same.

## Main definitions

* `Run`: a run of the tool, for one edit.
* `Interplay`: the live preview, its runs, what is on its way to it, and what has come of it.
* `Event`, `Interplay.step`: what can happen next.
* `Interplay.run`: the interplay after some events.
-/

namespace Pipewright.Preview

/-- How far a run has come. -/
inductive Stage where
  /-- It has yet to prepare what the tool is given. -/
  | begun
  /-- The tool works. -/
  | calling
  /-- There was nothing to give to the tool. -/
  | refused (reason : Failure)
  /-- The tool has answered. -/
  | answered (answer : Answer)
  /-- It was called off, and is gone. -/
  | vanished

/-- A run of the tool. -/
structure Run where
  /-- The edit that is run. -/
  submission : Submission
  /-- How far it has come. -/
  stage : Stage := .begun

namespace Run

/-- The result of a run, when it has one. -/
def result? (r : Run) : Option (Except Failure Success) :=
  match r.stage with
  | .refused reason => some (.error reason)
  | .answered answer => some (settleAnswer r.submission.bench.configuration answer)
  | .begun | .calling | .vanished => none

/-- The run has neither ended nor vanished. -/
def isOpen (r : Run) : Bool :=
  match r.stage with
  | .begun | .calling => true
  | .refused _ | .answered _ | .vanished => false

/-- What the run hands back, when it has its result. -/
def landing? (r : Run) : Option Landing :=
  r.result?.map (⟨r.submission.stamp, r.submission.bench.configuration, ·⟩)

end Run

/-- The live preview among its parties. -/
structure Interplay where
  /-- All edits, the oldest first. -/
  edits : List Submission := []
  /-- The edits that have not been taken in, the oldest first. -/
  queue : List Submission := []
  /-- The live preview. -/
  live : Live := {}
  /-- All runs, the oldest first. -/
  runs : List Run := []
  /-- The results that have not been taken in, the oldest first. -/
  inbox : List Landing := []
  /-- All that has been published, in order. -/
  published : List State := [.idle 0]
  /-- The calls of the tool, in order. -/
  calls : List Request := []
  /-- The saved configurations, in order. -/
  saves : List Configuration := []

/-- What can happen. Runs are numbered from zero. -/
inductive Event where
  /-- An edit is submitted. -/
  | submit (bench : Bench)
  /-- The oldest edit that waits is taken in, at time `now`. -/
  | receive (now : Nat)
  /-- The pause is over. -/
  | expire
  /-- A run prepares what the tool is given, from the files as they are, and calls the tool. -/
  | call (run : Nat) (files : Files.Tree)
  /-- The tool answers a run. -/
  | answer (run : Nat) (answer : Answer)
  /-- A run that was called off is gone. -/
  | vanish (run : Nat)
  /-- The oldest result that waits is taken in; `accepts` says whether the store would accept
  what is saved. -/
  | land (accepts : Bool)

namespace Interplay

/-- An edit is submitted. -/
def submit (p : Interplay) (bench : Bench) : Interplay :=
  let x : Submission := ⟨p.edits.length + 1, bench⟩
  { p with edits := p.edits ++ [x], queue := p.queue ++ [x] }

/-- The oldest edit is taken in. -/
def receive (settings : Settings) (p : Interplay) (now : Nat) : Option Interplay :=
  match p.queue with
  | [] => none
  | x :: rest =>
    let live := p.live.receive now settings.pause x.stamp x.bench
    some { p with queue := rest, live := live, published := p.published ++ [live.published] }

/-- The pause is over, and a run begins if there is an edit to run. -/
def expire (p : Interplay) : Option Interplay :=
  match p.live.deadline with
  | none => none
  | some _ =>
    let (submission, live) := p.live.expire
    some
      { p with
        live := live
        runs := p.runs ++ submission.toList.map (⟨·, .begun⟩)
        published := p.published ++ [live.published] }

/-- The interplay when the run with the given number has come to where `r` says. A result is
handed back. -/
def proceed (p : Interplay) (run : Nat) (r : Run) : Interplay :=
  { p with runs := p.runs.set run r, inbox := p.inbox ++ r.landing?.toList }

/-- A run calls the tool, if there is something to give to it. -/
def call (settings : Settings) (p : Interplay) (run : Nat) (files : Files.Tree) :
    Option Interplay :=
  match p.runs[run]? with
  | some ⟨x, .begun⟩ =>
    match request files settings x.bench with
    | .error reason => some (p.proceed run ⟨x, .refused reason⟩)
    | .ok r => some { p.proceed run ⟨x, .calling⟩ with calls := p.calls ++ [r] }
  | some ⟨_, .calling⟩ | some ⟨_, .refused _⟩ | some ⟨_, .answered _⟩ | some ⟨_, .vanished⟩
  | none => none

/-- The tool answers a run. -/
def answer (p : Interplay) (run : Nat) (answer : Answer) : Option Interplay :=
  match p.runs[run]? with
  | some ⟨x, .calling⟩ => some (p.proceed run ⟨x, .answered answer⟩)
  | some ⟨_, .begun⟩ | some ⟨_, .refused _⟩ | some ⟨_, .answered _⟩ | some ⟨_, .vanished⟩
  | none => none

/-- A run is gone that has not ended, and that is not under way any more. -/
def vanish (p : Interplay) (run : Nat) : Option Interplay :=
  match p.runs[run]? with
  | some r =>
    if r.isOpen && p.live.underWay != some r.submission.stamp then
      some (p.proceed run { r with stage := .vanished })
    else none
  | none => none

/-- The oldest result is taken in. -/
def land (p : Interplay) (accepts : Bool) : Option Interplay :=
  match p.inbox with
  | [] => none
  | l :: rest =>
    let (saved, live) := p.live.finish l
    some
      { p with
        inbox := rest
        live := live
        published := p.published ++ if p.live.arbiter.awaits l.stamp then [live.published] else []
        saves := p.saves ++ if accepts then saved.toList else [] }

/-- The interplay after an event, if it can happen. -/
def step (settings : Settings) (p : Interplay) : Event → Option Interplay
  | .submit bench => some (p.submit bench)
  | .receive now => p.receive settings now
  | .expire => p.expire
  | .call run files => p.call settings run files
  | .answer run answer => p.answer run answer
  | .vanish run => p.vanish run
  | .land accepts => p.land accepts

/-- The interplay after some events, from the start, if they can happen in this order. -/
def run (settings : Settings) (events : List Event) : Option Interplay :=
  events.foldlM (step settings) {}

end Interplay

end Pipewright.Preview
