import Mathlib.Tactic.SplitIfs
import Pipewright.Proofs.Preview.Schedule

/-!
# The Phases of an Edit

After an edit has been taken in, a timeline goes through the phases of that edit and of no
other: the edit waits for the pause to end, then it is run, then its result is shown. An edit
that is not ready is cleared away at the end of the pause. In which phase a timeline stands is
a matter of the time alone.

## Main results

* `Timeline.Stands`: the timeline in a phase of an edit, as a whole.
* `Timeline.foldl_takeIn`: of the edits that are taken in, the last one begins its first phase.
* `Timeline.Stands.advance`: when time passes, a timeline stands in the phase of that time.
-/

namespace Pipewright.Preview

/-! ### What comes of an edit -/

namespace World

variable (w : World) (calls : Nat) (bench : Bench)

/-- How long the run of a bench takes, behind some calls of the tool. A run that cannot begin
ends at once. -/
def delay : Nat :=
  match request w.files w.settings bench with
  | .error _ => 0
  | .ok r => (w.tool calls r).delay

/-- The result of the run of a bench, behind some calls of the tool. -/
def result : Except Failure Success :=
  match request w.files w.settings bench with
  | .error e => .error e
  | .ok r => settleAnswer bench.configuration (w.tool calls r).answer

/-- The call of the tool that the run of a bench makes. -/
def callsFor : List Request :=
  match request w.files w.settings bench with
  | .error _ => []
  | .ok r => [r]

variable {w calls bench}

-- `request` is a long computation: the definitions around it are unfolded here and nowhere else,
-- and by `delta`, which does not look into it.

theorem delay_of_error {e : Failure} (h : request w.files w.settings bench = .error e) :
    w.delay calls bench = 0 := by
  delta delay
  rw [h]

theorem delay_of_ok {r : Request} (h : request w.files w.settings bench = .ok r) :
    w.delay calls bench = (w.tool calls r).delay := by
  delta delay
  rw [h]

theorem result_of_error {e : Failure} (h : request w.files w.settings bench = .error e) :
    w.result calls bench = .error e := by
  delta result
  rw [h]

theorem result_of_ok {r : Request} (h : request w.files w.settings bench = .ok r) :
    w.result calls bench = settleAnswer bench.configuration (w.tool calls r).answer := by
  delta result
  rw [h]

theorem callsFor_of_error {e : Failure} (h : request w.files w.settings bench = .error e) :
    w.callsFor bench = [] := by
  delta callsFor
  rw [h]

theorem callsFor_of_ok {r : Request} (h : request w.files w.settings bench = .ok r) :
    w.callsFor bench = [r] := by
  delta callsFor
  rw [h]

end World

namespace Entry

/-- The moment at which the pause behind the edit is over. -/
def due (w : World) (e : Entry) : Nat :=
  e.time + w.settings.pause

/-- The moment at which the run of the edit is over, behind some calls of the tool. -/
def landing (w : World) (calls : Nat) (e : Entry) : Nat :=
  e.due w + w.delay calls e.bench

end Entry

/-- How far an edit has come. -/
inductive Phase where
  /-- The pause is not over. -/
  | waiting
  /-- There is nothing to run, or nothing to run it on. -/
  | cleared
  /-- The tool runs. -/
  | running
  /-- The result is there. -/
  | showing
  deriving DecidableEq, Repr

/-- The phase of an edit at the moment `now`, behind some calls of the tool. What is due at a
moment happens when time goes on. -/
def Entry.phase (w : World) (calls : Nat) (e : Entry) (now : Nat) : Phase :=
  if now ≤ e.due w then .waiting
  else if !e.bench.isReady then .cleared
  else if now ≤ e.landing w calls then .running
  else .showing

namespace Entry

variable {w : World} {calls : Nat} {e : Entry} {now : Nat}

theorem phase_early (h : now ≤ e.due w) : e.phase w calls now = .waiting :=
  if_pos h

theorem phase_notReady (h : e.due w < now) (ready : e.bench.isReady = false) :
    e.phase w calls now = .cleared := by
  simp [phase, Nat.not_le.mpr h, ready]

theorem phase_flying (h : e.due w < now) (ready : e.bench.isReady = true)
    (hland : now ≤ e.landing w calls) : e.phase w calls now = .running := by
  simp [phase, Nat.not_le.mpr h, ready, hland]

theorem phase_landed (ready : e.bench.isReady = true) (hland : e.landing w calls < now) :
    e.phase w calls now = .showing := by
  have h : e.due w < now := Nat.lt_of_le_of_lt (Nat.le_add_right _ _) hland
  simp [phase, Nat.not_le.mpr h, ready, Nat.not_le.mpr hland]

end Entry

namespace Timeline

/-- The timeline stands in a phase of the edit `e`, which comes behind the calls `before`. -/
inductive Stands (w : World) (before : List Request) (e : Entry) : Phase → Timeline → Prop where
  /-- The edit waits, and nothing runs. -/
  | waiting {s : Timeline}
      (live : s.live =
        ⟨⟨e.stamp, some e.submission, .waiting e.stamp⟩, some (e.due w), none, .waiting e.stamp⟩)
      (flight : s.flight = none) (calls : s.calls = before) : Stands w before e .waiting s
  /-- Nothing waits and nothing runs. -/
  | cleared {s : Timeline} (ready : e.bench.isReady = false)
      (live : s.live = ⟨⟨e.stamp, none, .idle e.stamp⟩, none, none, .idle e.stamp⟩)
      (flight : s.flight = none) (calls : s.calls = before) : Stands w before e .cleared s
  /-- The edit is run. -/
  | running {s : Timeline} (ready : e.bench.isReady = true)
      (live : s.live =
        ⟨⟨e.stamp, none, .running e.stamp⟩, none, some e.stamp, .running e.stamp⟩)
      (flight : s.flight = some ⟨e.landing w before.length,
        ⟨e.stamp, e.bench.configuration, w.result before.length e.bench⟩⟩)
      (calls : s.calls = before ++ w.callsFor e.bench) : Stands w before e .running s
  /-- The result is shown, and nothing runs. -/
  | showing {s : Timeline} (ready : e.bench.isReady = true)
      (live : s.live =
        ⟨⟨e.stamp, none, .showing e.stamp (.ofResult (w.result before.length e.bench))⟩, none, none,
          .showing e.stamp (.ofResult (w.result before.length e.bench))⟩)
      (flight : s.flight = none)
      (calls : s.calls = before ++ w.callsFor e.bench) : Stands w before e .showing s

variable {w : World} {before : List Request} {e : Entry} {s : Timeline}

/-! ### One event -/

/-- What the start of a run adds to a timeline. -/
theorem start_eq (w : World) (s : Timeline) (x : Submission) :
    s.start w x =
      { s with
        calls := s.calls ++ w.callsFor x.bench
        flight := some ⟨s.now + w.delay s.calls.length x.bench,
          ⟨x.stamp, x.bench.configuration, w.result s.calls.length x.bench⟩⟩ } := by
  delta start
  cases hr : request w.files w.settings x.bench with
  | error e =>
      rw [World.callsFor_of_error hr, World.delay_of_error hr, World.result_of_error hr]
      simp
  | ok r => rw [World.callsFor_of_ok hr, World.delay_of_ok hr, World.result_of_ok hr]

/-- At the end of the pause an edit that is ready is run. -/
theorem Stands.tick_ready {target : Nat} (h : Stands w before e .waiting s)
    (hdue : e.due w < target) (ready : e.bench.isReady = true) :
    Stands w before e .running (s.tick w target) := by
  cases h with
  | waiting live flight calls =>
      have hexpire : s.live.expire = (some e.submission,
          ⟨⟨e.stamp, none, .running e.stamp⟩, none, some e.stamp, .running e.stamp⟩) := by
        simp [live, Live.expire, Arbiter.release, Entry.submission, ready, Live.refresh]
      have htick : s.tick w target = s.expire w (e.due w) := by simp [tick, live, hdue]
      rw [htick, expire, hexpire]
      dsimp only
      rw [start_eq]
      exact .running ready rfl (by rw [← calls]; rfl) (by rw [← calls]; rfl)

/-- At the end of the pause an edit that is not ready is cleared away. -/
theorem Stands.tick_notReady {target : Nat} (h : Stands w before e .waiting s)
    (hdue : e.due w < target) (ready : e.bench.isReady = false) :
    Stands w before e .cleared (s.tick w target) := by
  cases h with
  | waiting live flight calls =>
      have hexpire : s.live.expire =
          (none, ⟨⟨e.stamp, none, .idle e.stamp⟩, none, none, .idle e.stamp⟩) := by
        simp [live, Live.expire, Arbiter.release, Entry.submission, ready, Live.refresh]
      have htick : s.tick w target = s.expire w (e.due w) := by simp [tick, live, hdue]
      rw [htick, expire, hexpire]
      exact .cleared ready rfl flight calls

/-- When its run is over, the result of an edit is shown. -/
theorem Stands.tick_landing {target : Nat} (h : Stands w before e .running s)
    (hdue : e.landing w before.length < target) :
    Stands w before e .showing (s.tick w target) := by
  cases h with
  | running ready live flight calls =>
      simp only [tick, live, flight, hdue, if_true, land]
      exact .showing ready (by simp [Live.finish, Arbiter.awaits, Arbiter.conclude, Live.refresh])
        rfl calls

/-- Before the end of the pause nothing happens. -/
theorem Stands.tick_early {target : Nat} (h : Stands w before e .waiting s)
    (hdue : ¬ e.due w < target) : s.tick w target = s := by
  cases h with
  | waiting live flight calls => simp [tick, live, hdue]

/-- While the tool runs, nothing happens. -/
theorem Stands.tick_flying {target : Nat} (h : Stands w before e .running s)
    (hdue : ¬ e.landing w before.length < target) : s.tick w target = s := by
  cases h with
  | running ready live flight calls => simp [tick, live, flight, hdue]

/-- Nothing happens to an edit that was cleared away, -/
theorem Stands.tick_cleared (target : Nat) (h : Stands w before e .cleared s) :
    s.tick w target = s := by
  cases h with
  | cleared ready live flight calls => simp [tick, live, flight]

/-- or whose result is shown. -/
theorem Stands.tick_showing (target : Nat) (h : Stands w before e .showing s) :
    s.tick w target = s := by
  cases h with
  | showing ready live flight calls => simp [tick, live, flight]

/-! ### The passing of time -/

/-- The phase of a timeline does not hang on its clock, its edits to come and its saves. -/
theorem Stands.congr {p : Phase} {s' : Timeline} (h : Stands w before e p s)
    (hlive : s'.live = s.live) (hflight : s'.flight = s.flight) (hcalls : s'.calls = s.calls) :
    Stands w before e p s' := by
  cases h with
  | waiting live flight calls =>
      exact .waiting (hlive.trans live) (hflight.trans flight) (hcalls.trans calls)
  | cleared ready live flight calls =>
      exact .cleared ready (hlive.trans live) (hflight.trans flight) (hcalls.trans calls)
  | running ready live flight calls =>
      exact .running ready (hlive.trans live) (hflight.trans flight) (hcalls.trans calls)
  | showing ready live flight calls =>
      exact .showing ready (hlive.trans live) (hflight.trans flight) (hcalls.trans calls)

/-- The timeline after the two things that can happen before the moment `target`. -/
def advance (w : World) (target : Nat) (s : Timeline) : Timeline :=
  { (s.tick w target).tick w target with now := target }

theorem wait_eq {ms : Nat} (hms : ms ≠ 0) (s : Timeline) :
    s.wait w ms = (s.takeInAll w).advance w (s.now + ms) := by
  rw [wait, if_neg hms]
  rfl

/-- A run that has begun goes on until it is over, and then nothing more happens. -/
theorem Stands.fly {target : Nat} (h : Stands w before e .running s) (hdue : e.due w < target) :
    Stands w before e (e.phase w before.length target) (s.tick w target) ∧
      (s.tick w target).tick w target = s.tick w target := by
  have ready : e.bench.isReady = true := by
    cases h
    assumption
  by_cases hland : e.landing w before.length < target
  · rw [Entry.phase_landed ready hland]
    exact ⟨h.tick_landing hland, (h.tick_landing hland).tick_showing target⟩
  · rw [Entry.phase_flying hdue ready (Nat.le_of_not_lt hland), h.tick_flying hland]
    exact ⟨h, h.tick_flying hland⟩

/-- When time passes, a timeline stands in the phase of that time. -/
theorem Stands.advance {now target : Nat} (h : Stands w before e (e.phase w before.length now) s)
    (hle : now ≤ target) :
    Stands w before e (e.phase w before.length target) (s.advance w target) := by
  suffices hticks : Stands w before e (e.phase w before.length target)
      ((s.tick w target).tick w target) from hticks.congr rfl rfl rfl
  rcases Nat.lt_or_ge (e.due w) target with hdue | hdue
  · cases ready : e.bench.isReady with
    | false =>
        rw [Entry.phase_notReady hdue ready]
        rcases Nat.lt_or_ge (e.due w) now with hnow | hnow
        · rw [Entry.phase_notReady hnow ready] at h
          rwa [h.tick_cleared, h.tick_cleared]
        · rw [Entry.phase_early hnow] at h
          have hcleared := h.tick_notReady hdue ready
          rwa [hcleared.tick_cleared]
    | true =>
        rcases Nat.lt_or_ge (e.due w) now with hnow | hnow
        · rcases Nat.lt_or_ge (e.landing w before.length) now with hland | hland
          · rw [Entry.phase_landed ready hland] at h
            rw [h.tick_showing, h.tick_showing,
              Entry.phase_landed ready (Nat.lt_of_lt_of_le hland hle)]
            exact h
          · rw [Entry.phase_flying hnow ready hland] at h
            rw [(h.fly hdue).2]
            exact (h.fly hdue).1
        · rw [Entry.phase_early hnow] at h
          exact ((h.tick_ready hdue ready).fly hdue).1
  · rw [Entry.phase_early hdue]
    rw [Entry.phase_early (Nat.le_trans hle hdue)] at h
    have hstill := h.tick_early (Nat.not_lt.mpr hdue)
    rwa [hstill, hstill]

/-- In the phase of the moment `target`, nothing more happens before it. -/
theorem Stands.rest {target : Nat} (h : Stands w before e (e.phase w before.length target) s) :
    s.tick w target = s := by
  rcases Nat.lt_or_ge (e.due w) target with hdue | hdue
  · cases ready : e.bench.isReady with
    | false =>
        rw [Entry.phase_notReady hdue ready] at h
        exact h.tick_cleared target
    | true =>
        rcases Nat.lt_or_ge (e.landing w before.length) target with hland | hland
        · rw [Entry.phase_landed ready hland] at h
          exact h.tick_showing target
        · rw [Entry.phase_flying hdue ready hland] at h
          exact h.tick_flying (Nat.not_lt.mpr hland)
  · rw [Entry.phase_early hdue] at h
    exact h.tick_early (Nat.not_lt.mpr hdue)

/-! ### Taking edits in -/

/-- A newer edit takes the place of everything that waits or runs. -/
theorem takeIn_eq {x : Submission} (hnewer : s.live.arbiter.latest < x.stamp)
    (hruns : s.live.underWay.isSome = true → s.live.arbiter.isRunning = true) :
    s.takeIn w x =
      { s with
        live := ⟨⟨x.stamp, some x, .waiting x.stamp⟩, some (s.now + w.settings.pause), none,
          .waiting x.stamp⟩
        flight := none } := by
  have haccept : s.live.arbiter.accept x.stamp x.bench =
      (s.live.arbiter.isRunning, ⟨x.stamp, some x, .waiting x.stamp⟩) := by
    rw [Arbiter.accept, if_neg (Nat.not_le.mpr hnewer)]
  have hnone : (if s.live.arbiter.isRunning = true then none else s.live.underWay) = none := by
    split
    · rfl
    · rename_i h
      exact Option.not_isSome_iff_eq_none.mp fun h' => h (hruns h')
  simp [takeIn, Live.receive, haccept, hnone, Live.refresh]

/-- Of several newer edits, the last one counts. -/
theorem foldl_takeIn {xs : List Submission} {last : Submission}
    (hlast : xs.getLast? = some last)
    (hsorted : xs.Pairwise fun x y => x.stamp < y.stamp)
    (hnewer : ∀ x ∈ xs, s.live.arbiter.latest < x.stamp)
    (hruns : s.live.underWay.isSome = true → s.live.arbiter.isRunning = true) :
    xs.foldl (takeIn w) s =
      { s with
        live := ⟨⟨last.stamp, some last, .waiting last.stamp⟩, some (s.now + w.settings.pause),
          none, .waiting last.stamp⟩
        flight := none } := by
  induction xs generalizing s with
  | nil => simp at hlast
  | cons x rest ih =>
      have hx := takeIn_eq (w := w) (hnewer x (by simp)) hruns
      cases rest with
      | nil =>
          obtain rfl : x = last := by simpa using hlast
          exact hx
      | cons y rest =>
          rw [List.getLast?_cons_cons] at hlast
          obtain ⟨hfirst, hrest⟩ := List.pairwise_cons.mp hsorted
          rw [List.foldl_cons, hx, ih hlast hrest hfirst (by simp)]

/-- In every phase, what is under way is what the arbiter holds to be running. -/
theorem Stands.isRunning {p : Phase} (h : Stands w before e p s)
    (hsome : s.live.underWay.isSome = true) : s.live.arbiter.isRunning = true := by
  cases h with
  | waiting live | cleared _ live | showing _ live => simp [live] at hsome
  | running _ live => simp [live, Arbiter.isRunning]

/-- In every phase, the edit is the newest one. -/
theorem Stands.latest {p : Phase} (h : Stands w before e p s) :
    s.live.arbiter.latest = e.stamp := by
  cases h with
  | waiting live | cleared _ live | running _ live | showing _ live => rw [live]

/-- The edit has made its call when its pause is over, if it was ready. -/
theorem Stands.calls_eq {now : Nat} (h : Stands w before e (e.phase w before.length now) s) :
    s.calls =
      before ++ if e.due w < now ∧ e.bench.isReady = true then w.callsFor e.bench else [] := by
  generalize hp : e.phase w before.length now = p at h
  rw [Entry.phase] at hp
  cases h with
  | waiting live flight calls =>
      have hdue : ¬ e.due w < now := by
        split_ifs at hp with hdue
        exact Nat.not_lt.mpr hdue
      rw [if_neg fun h => hdue h.1, List.append_nil, calls]
  | cleared ready live flight calls =>
      rw [if_neg (by simp [ready]), List.append_nil, calls]
  | running ready live flight calls | showing ready live flight calls =>
      have hdue : e.due w < now := by
        split_ifs at hp with hdue
        all_goals exact Nat.lt_of_not_le hdue
      rw [if_pos ⟨hdue, ready⟩, calls]

end Timeline

end Pipewright.Preview
