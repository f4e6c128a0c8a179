import Mathlib.Data.List.Basic
import Pipewright.Proofs.Preview.Phase

/-!
# Timelines Keep to Their Schedules

A schedule alone decides which edits reach the tool: those whose pause ends before the next
edit comes in, and before the end of the schedule. This module says which calls of the tool a
schedule makes, and proves that its timeline makes them and stands in the phase of the newest
edit. The induction is on the schedule, act by act: an edit that is submitted changes nothing
yet, and a wait takes in what has been submitted and lets time pass.

## Main results

* `callsBy`: the calls of the tool that the edits of a schedule make.
* `Timeline.follows_run`: the timeline of a schedule keeps to it.
* `Timeline.exists_run_eq`: a timeline passes through what it is at each moment.
-/

namespace Pipewright.Preview

/-! ### The calls of a schedule -/

/-- The pause behind the edit `e` ends before the moment `u`, and before any later edit among
`es` comes in. -/
def Entry.Ripe (w : World) (es : List Entry) (u : Nat) (e : Entry) : Prop :=
  e.due w < u ∧ ∀ n ∈ es, e.stamp < n.stamp → e.due w < n.time

instance (w : World) (es : List Entry) (u : Nat) : DecidablePred (Entry.Ripe w es u) :=
  fun _ => inferInstanceAs (Decidable (_ ∧ _))

/-- The calls of the tool that the edit `e` among `es` has made by the moment `u`. -/
def Entry.calls (w : World) (es : List Entry) (u : Nat) (e : Entry) : List Request :=
  if e.Ripe w es u ∧ e.bench.isReady then w.callsFor e.bench else []

/-- The calls of the tool that the edits `es` have made by the moment `u`. -/
def callsBy (w : World) (es : List Entry) (u : Nat) : List Request :=
  es.flatMap (Entry.calls w es u)

variable {w : World} {es : List Entry} {u : Nat}

theorem Entry.calls_congr {es' : List Entry} {u' : Nat} {e : Entry}
    (h : e.Ripe w es u ↔ e.Ripe w es' u') : e.calls w es u = e.calls w es' u' := by
  simp only [Entry.calls, h]

/-- An edit that has just come in has made no call. -/
theorem Entry.calls_eq_nil {e : Entry} (h : u ≤ e.time) : e.calls w es u = [] := by
  refine if_neg fun hcalls => ?_
  exact absurd hcalls.1.1 (Nat.not_lt.mpr (Nat.le_add_right_of_le h))

/-- Edits that come in later do not count. -/
theorem callsBy_append {later : List Entry} (h : ∀ n ∈ later, u ≤ n.time) :
    callsBy w (es ++ later) u = callsBy w es u := by
  have hlater : later.flatMap (Entry.calls w (es ++ later) u) = [] :=
    List.flatMap_eq_nil_iff.mpr fun n hn => Entry.calls_eq_nil (h n hn)
  rw [callsBy, List.flatMap_append, hlater, List.append_nil]
  refine List.flatMap_congr fun e he => Entry.calls_congr ?_
  refine and_congr_right fun hdue => ⟨fun hq n hn => hq n (List.mem_append_left _ hn), ?_⟩
  intro hq n hn hlt
  rcases List.mem_append.mp hn with hn | hn
  · exact hq n hn hlt
  · exact Nat.lt_of_lt_of_le hdue (h n hn)

/-- Behind the last edit, only that edit can still make a call. -/
theorem callsBy_last {init : List Entry} {e : Entry} (hu : e.time ≤ u)
    (hlast : ∀ x ∈ init, x.stamp < e.stamp) :
    callsBy w (init ++ [e]) u =
      callsBy w (init ++ [e]) e.time ++
        if e.due w < u ∧ e.bench.isReady then w.callsFor e.bench else [] := by
  have hinit : ∀ x ∈ init, x.calls w (init ++ [e]) u = x.calls w (init ++ [e]) e.time := by
    intro x hx
    refine Entry.calls_congr (and_congr_left fun hq => ?_)
    have hdue : x.due w < e.time := hq e (by simp) (hlast x hx)
    exact iff_of_true (Nat.lt_of_lt_of_le hdue hu) hdue
  have hripe : e.Ripe w (init ++ [e]) u ↔ e.due w < u := by
    refine and_iff_left fun n hn hlt => ?_
    rcases List.mem_append.mp hn with hn | hn
    · exact absurd (hlast n hn) (Nat.lt_asymm hlt)
    · rw [List.mem_singleton.mp hn] at hlt
      exact absurd hlt (Nat.lt_irrefl _)
  simp only [callsBy, List.flatMap_append, List.flatMap_singleton]
  rw [List.flatMap_congr hinit, Entry.calls_eq_nil (Nat.le_refl e.time), List.append_nil]
  simp only [Entry.calls, hripe]

namespace Timeline

/-- The timeline stands where it should at the moment `now`, behind the edits that it has taken
in: at the start behind no edit, and else in the phase of the last one. -/
inductive Stood (w : World) (now : Nat) : List Entry → Timeline → Prop where
  /-- No edit has been taken in. -/
  | fresh {s : Timeline} (live : s.live = {}) (flight : s.flight = none) (calls : s.calls = []) :
      Stood w now [] s
  /-- The edit `e` has been taken in last. -/
  | behind {s : Timeline} {init : List Entry} {e : Entry} {before : List Request}
      (hbefore : before = callsBy w (init ++ [e]) e.time)
      (h : Stands w before e (e.phase w before.length now) s) : Stood w now (init ++ [e]) s

variable {now : Nat} {taken : List Entry} {s : Timeline}

/-- A timeline that stands where it should has made the calls of the edits it has taken in. -/
theorem Stood.calls_eq (h : Stood w now taken s) (hsorted : taken.Pairwise (·.stamp < ·.stamp))
    (htime : ∀ e ∈ taken, e.time ≤ now) : s.calls = callsBy w taken now := by
  cases h with
  | fresh live flight calls => exact calls
  | @behind _ init e before hbefore h =>
      have hlast : ∀ x ∈ init, x.stamp < e.stamp := fun x hx =>
        (List.pairwise_append.mp hsorted).2.2 x hx e (by simp)
      rw [callsBy_last (htime e (by simp)) hlast, ← hbefore, h.calls_eq]

theorem Stood.congr {s' : Timeline} (h : Stood w now taken s) (hlive : s'.live = s.live)
    (hflight : s'.flight = s.flight) (hcalls : s'.calls = s.calls) : Stood w now taken s' := by
  cases h with
  | fresh live flight calls =>
      exact .fresh (hlive.trans live) (hflight.trans flight) (hcalls.trans calls)
  | behind hbefore h => exact .behind hbefore (h.congr hlive hflight hcalls)

/-- When time passes, a timeline goes on to stand where it should. -/
theorem Stood.advance {target : Nat} (h : Stood w now taken s) (hle : now ≤ target) :
    Stood w target taken (s.advance w target) := by
  cases h with
  | fresh live flight calls =>
      have hstill : s.tick w target = s := by simp [tick, live, flight]
      refine .fresh ?_ ?_ ?_
      all_goals rw [Timeline.advance, hstill, hstill]
      all_goals assumption
  | behind hbefore h => exact .behind hbefore (h.advance hle)

/-- The edits to come are newer than the newest one. -/
theorem Stood.latest_lt {fresh : List Entry} (h : Stood w now taken s)
    (hsorted : (taken ++ fresh).Pairwise (·.stamp < ·.stamp)) (hpos : ∀ e ∈ fresh, 0 < e.stamp) :
    ∀ e ∈ fresh, s.live.arbiter.latest < e.stamp := by
  intro n hn
  cases h with
  | fresh live => exact live ▸ hpos n hn
  | behind hbefore h =>
      rw [h.latest]
      exact (List.pairwise_append.mp hsorted).2.2 _ (by simp) n hn

/-- What is under way is what the arbiter holds to be running. -/
theorem Stood.isRunning (h : Stood w now taken s) (hsome : s.live.underWay.isSome = true) :
    s.live.arbiter.isRunning = true := by
  cases h with
  | fresh live => simp [live] at hsome
  | behind hbefore h => exact h.isRunning hsome

/-- Without edits to take in, nothing is taken in. -/
theorem takeInAll_of_queue (w : World) (h : s.queue = []) : s.takeInAll w = s := by
  obtain ⟨now, submitted, queue, live, flight, calls, saves⟩ := s
  cases h
  rfl

/-- A timeline that stands where it should takes in newer edits. -/
theorem Stood.takeInAll {fresh : List Entry} (h : Stood w s.now taken s)
    (hsorted : (taken ++ fresh).Pairwise (·.stamp < ·.stamp)) (hpos : ∀ e ∈ fresh, 0 < e.stamp)
    (hqueue : s.queue = fresh.map Entry.submission)
    (htime : ∀ e ∈ taken, e.time ≤ s.now) (hfresh : ∀ e ∈ fresh, e.time = s.now) :
    Stood w s.now (taken ++ fresh) (s.takeInAll w) := by
  have hcalls : s.calls = callsBy w (taken ++ fresh) s.now := by
    rw [callsBy_append fun n hn => Nat.le_of_eq (hfresh n hn).symm]
    exact h.calls_eq (List.pairwise_append.mp hsorted).1 htime
  obtain rfl | ⟨init, e, rfl⟩ := List.eq_nil_or_concat fresh
  · rwa [takeInAll_of_queue w hqueue, List.append_nil]
  · rw [List.concat_eq_append] at *
    have hlast : ((init ++ [e]).map Entry.submission).getLast? = some e.submission := by simp
    have htake := foldl_takeIn (w := w) (s := s) hlast
      (List.pairwise_map.mpr (List.pairwise_append.mp hsorted).2.1)
      (List.forall_mem_map.mpr (h.latest_lt hsorted hpos)) h.isRunning
    have hnow : e.time = s.now := hfresh e (by simp)
    rw [Timeline.takeInAll, hqueue, htake, ← List.append_assoc]
    refine .behind (hnow ▸ List.append_assoc .. ▸ hcalls) ?_
    rw [Entry.phase_early (hnow ▸ Nat.le_add_right _ _)]
    exact .waiting (by simp [Entry.due, Entry.submission, hnow]) rfl rfl

/-! ### Whole schedules -/

/-- What happens by itself submits no edit and takes none in. -/
theorem tick_frame (w : World) (target : Nat) (s : Timeline) :
    (s.tick w target).submitted = s.submitted ∧ (s.tick w target).queue = s.queue := by
  unfold tick
  split
  · split
    · rw [expire]
      dsimp only
      split
      · exact ⟨rfl, rfl⟩
      · rw [start_eq]
        exact ⟨rfl, rfl⟩
    · exact ⟨rfl, rfl⟩
  · split
    · split <;> exact ⟨rfl, rfl⟩
    · exact ⟨rfl, rfl⟩

/-- While time passes, no edit comes in. -/
theorem advance_queue (w : World) (target : Nat) (s : Timeline) :
    ((s.takeInAll w).advance w target).queue = [] :=
  (tick_frame w _ _).2.trans (tick_frame w _ _).2

/-- Taking edits in submits none. -/
theorem takeInAll_submitted (w : World) (s : Timeline) :
    (s.takeInAll w).submitted = s.submitted := by
  have hfold : ∀ (xs : List Submission) (s : Timeline),
      (xs.foldl (takeIn w) s).submitted = s.submitted := by
    intro xs
    induction xs with
    | nil => exact fun s => rfl
    | cons x rest ih => exact fun s => ih _
  exact hfold s.queue s

/-- The timeline `s` keeps to the schedule `acts`: its clock shows the time that has passed, the
edits of this very moment have yet to be taken in, and it stands behind the others. -/
structure Follows (w : World) (acts : Schedule) (s : Timeline) : Prop where
  /-- The clock shows the time that has passed. -/
  now : s.now = acts.duration
  /-- All edits have been counted. -/
  submitted : s.submitted = acts.entries.length
  /-- It stands behind the edits that it has taken in. -/
  stood : ∃ taken fresh, acts.entries = taken ++ fresh ∧
    s.queue = fresh.map Entry.submission ∧ (∀ e ∈ fresh, e.time = s.now) ∧
    Stood w s.now taken s

theorem Follows.submit {acts : Schedule} (h : Follows w acts s) (bench : Bench) :
    Follows w (acts ++ [.submit bench]) (s.submit bench).2 := by
  obtain ⟨taken, fresh, hentries, hqueue, hfresh, hstood⟩ := h.stood
  have hnew := Schedule.entries_submit acts bench
  refine ⟨?_, ?_, taken, fresh ++ [⟨acts.entries.length + 1, acts.duration, bench⟩], ?_, ?_, ?_, ?_⟩
  · rw [Schedule.duration_append]
    exact h.now
  · rw [hnew, List.length_append]
    exact congrArg (· + 1) h.submitted
  · rw [hnew, hentries, List.append_assoc]
  · rw [Timeline.submit, hqueue, h.submitted, List.map_append]
    rfl
  · intro e he
    rcases List.mem_append.mp he with he | he
    · exact hfresh e he
    · rw [List.mem_singleton.mp he]
      exact h.now.symm
  · exact hstood.congr rfl rfl rfl

/-- When time begins to pass, all edits have been taken in. -/
theorem Follows.takeInAll {acts : Schedule} (h : Follows w acts s) :
    Stood w s.now acts.entries (s.takeInAll w) := by
  obtain ⟨taken, fresh, hentries, hqueue, hfresh, hstood⟩ := h.stood
  have hsorted : (taken ++ fresh).Pairwise (·.stamp < ·.stamp) :=
    hentries ▸ (Schedule.pairwise_entries acts).imp And.left
  have hpos : ∀ e ∈ fresh, 0 < e.stamp := by
    intro e he
    have hmem : e ∈ acts.entries := hentries ▸ List.mem_append_right _ he
    obtain ⟨i, hi, rfl⟩ := List.mem_iff_getElem.mp hmem
    rw [Schedule.stamp_getElem]
    exact Nat.succ_pos i
  have htime : ∀ e ∈ taken, e.time ≤ s.now := fun e he =>
    h.now ▸ Schedule.time_le_duration (hentries ▸ List.mem_append_left _ he)
  exact hentries ▸ hstood.takeInAll hsorted hpos hqueue htime hfresh

theorem Follows.wait {acts : Schedule} (h : Follows w acts s) (ms : Nat) :
    Follows w (acts ++ [.wait ms]) (s.wait w ms) := by
  have hduration : Schedule.duration (acts ++ [.wait ms]) = s.now + ms := by
    rw [Schedule.duration_append, h.now]
    rfl
  have hsame := Schedule.entries_wait acts ms
  rcases Nat.eq_zero_or_pos ms with rfl | hms
  · rw [Timeline.wait, if_pos rfl]
    exact ⟨hduration.symm, hsame ▸ h.submitted, hsame ▸ h.stood⟩
  · rw [wait_eq (Nat.ne_of_gt hms)]
    refine ⟨hduration.symm, ?_, acts.entries, [], ?_, advance_queue w _ _, by simp, ?_⟩
    · rw [hsame, ← h.submitted, ← takeInAll_submitted w s]
      exact (tick_frame w _ _).1.trans (tick_frame w _ _).1
    · rw [hsame, List.append_nil]
    · exact h.takeInAll.advance (Nat.le_add_right _ _)

/-- **The timeline of a schedule keeps to it.** -/
theorem follows_run (w : World) (acts : Schedule) : Follows w acts (run w acts) := by
  induction acts using List.reverseRecOn with
  | nil => exact ⟨rfl, rfl, [], [], rfl, rfl, by simp, .fresh rfl rfl rfl⟩
  | append_singleton acts act ih =>
      rw [run_concat]
      cases act with
      | submit bench => exact ih.submit bench
      | wait ms => exact ih.wait ms

/-! ### Looking at a timeline -/

/-- A timeline with its next event: nothing happens by itself, or the same thing happens before
every moment that is late enough, whatever the clock shows. -/
theorem tick_cases (w : World) (s : Timeline) :
    (∀ target n, { s with now := n }.tick w target = { s with now := n }) ∨
      ∃ due s', ∀ target n, { s with now := n }.tick w target =
        if due < target then s' else { s with now := n } := by
  cases hd : s.live.deadline with
  | some due => exact .inr ⟨due, s.expire w due, fun target n => by rw [tick, hd]; rfl⟩
  | none =>
      cases s.flight with
      | some f => exact .inr ⟨f.due, s.land w f, fun target n => by simp only [tick, hd]; rfl⟩
      | none => exact .inl fun target n => by simp only [tick, hd]

/-- With more time, the same thing happens. -/
theorem tick_mono {a b : Nat} (hab : a ≤ b) (w : World) (s : Timeline) :
    s.tick w a = s ∨ s.tick w a = s.tick w b := by
  rcases tick_cases w s with h | ⟨due, s', h⟩
  · exact .inl (h a s.now)
  · have ha : s.tick w a = if due < a then s' else s := h a s.now
    have hb : s.tick w b = if due < b then s' else s := h b s.now
    by_cases hdue : due < a
    · exact .inr (by rw [ha, hb, if_pos hdue, if_pos (Nat.lt_of_lt_of_le hdue hab)])
    · exact .inl (by rw [ha, if_neg hdue])

/-- What happens does not hang on the clock. -/
theorem tick_clock (w : World) (target n : Nat) (s : Timeline) :
    { s with now := n }.tick w target = s.tick w target ∨
      s.tick w target = s ∧ { s with now := n }.tick w target = { s with now := n } := by
  rcases tick_cases w s with h | ⟨due, s', h⟩
  · exact .inr ⟨h target s.now, h target n⟩
  · have hs : s.tick w target = if due < target then s' else s := h target s.now
    rw [h, hs]
    by_cases hdue : due < target
    · exact .inl (by rw [if_pos hdue, if_pos hdue])
    · exact .inr (by rw [if_neg hdue, if_neg hdue]; exact ⟨rfl, rfl⟩)

/-- The clock at which time begins to pass does not count. -/
theorem advance_clock (w : World) (target n : Nat) (s : Timeline) :
    { s with now := n }.advance w target = s.advance w target := by
  rw [Timeline.advance, Timeline.advance]
  rcases tick_clock w target n s with h | ⟨hs, h⟩
  · rw [h]
  · rw [h, hs, h, hs]

/-- No third thing happens. -/
theorem Stood.tick_tick (h : Stood w now taken s) {target : Nat} (hle : now ≤ target) :
    ((s.tick w target).tick w target).tick w target = (s.tick w target).tick w target := by
  cases h with
  | fresh live flight calls =>
      have hstill : s.tick w target = s := by simp [tick, live, flight]
      rw [hstill, hstill, hstill]
  | behind hbefore h =>
      have hend : Stands w _ _ _ ((s.tick w target).tick w target) :=
        (h.advance hle).congr rfl rfl rfl
      exact hend.rest

/-- Time that passes in two parts does the same as in one. -/
theorem Stood.advance_advance (h : Stood w now taken s) {a b : Nat} (ha : now ≤ a) (hab : a ≤ b) :
    (s.advance w a).advance w b = s.advance w b := by
  have hthird := h.tick_tick (Nat.le_trans ha hab)
  rw [Timeline.advance.eq_def w a, advance_clock]
  rcases tick_mono hab w s with h1 | h1
  · rw [h1, h1]
  · rw [h1]
    rcases tick_mono hab w (s.tick w b) with h2 | h2
    · rw [h2, Timeline.advance, Timeline.advance, hthird]
    · rw [h2, Timeline.advance, Timeline.advance, hthird, hthird]

/-- Waiting in two parts does the same as waiting at once: a timeline may be looked at. -/
theorem wait_wait (w : World) (acts : Schedule) (a b : Nat) :
    ((run w acts).wait w a).wait w b = (run w acts).wait w (a + b) := by
  rcases Nat.eq_zero_or_pos a with rfl | ha
  · rw [Nat.zero_add, Timeline.wait.eq_def w 0, if_pos rfl]
  rcases Nat.eq_zero_or_pos b with rfl | hb
  · rw [Timeline.wait, if_pos rfl, Nat.add_zero]
  have hstood := (follows_run w acts).takeInAll
  rw [wait_eq (Nat.ne_of_gt ha), wait_eq (Nat.ne_of_gt hb),
    wait_eq (Nat.ne_of_gt (Nat.add_pos_left ha b)), takeInAll_of_queue w (advance_queue w _ _),
    ← Nat.add_assoc]
  exact hstood.advance_advance (Nat.le_add_right _ _) (Nat.le_add_right _ _)

/-- The timeline of a schedule passes through the timeline at each moment of it. -/
theorem exists_run_eq (w : World) {acts : Schedule} {u : Nat} (hu : u ≤ acts.duration) :
    ∃ rest : Schedule, rest.duration = acts.duration - u ∧
      run w acts = rest.foldl (perform w) (atTime w acts u) := by
  suffices h : ∀ pre : Schedule, ∃ rest : Schedule, rest.duration = acts.duration - u ∧
      run w (pre ++ acts) = rest.foldl (perform w) (run w (pre ++ acts.upTo u)) from h []
  induction acts generalizing u with
  | nil =>
      intro pre
      obtain rfl : u = 0 := Nat.le_zero.mp hu
      exact ⟨[], rfl, by rw [Schedule.upTo, run_concat, List.append_nil]; rfl⟩
  | cons act acts ih =>
      intro pre
      cases act with
      | submit bench =>
          obtain ⟨rest, hrest, hrun⟩ := ih hu (pre ++ [.submit bench])
          exact ⟨rest, hrest, by simpa [Schedule.upTo] using hrun⟩
      | wait ms =>
          rw [Schedule.upTo]
          rw [Schedule.duration] at hu ⊢
          split
          · rename_i hms
            obtain ⟨rest, hrest, hrun⟩ := ih (u := u - ms) (by omega) (pre ++ [.wait ms])
            exact ⟨rest, by omega, by simpa using hrun⟩
          · rename_i hms
            refine ⟨.wait (ms - u) :: acts, by rw [Schedule.duration]; omega, ?_⟩
            have hsum : u + (ms - u) = ms := by omega
            rw [List.foldl_cons, run_concat, perform, perform, wait_wait, hsum]
            simp [run, perform]

end Timeline

end Pipewright.Preview
