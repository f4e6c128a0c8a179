import Mathlib.Data.List.Basic
import Pipewright.Proofs.Preview.ToolCalls

/-!
# A Live Preview Shows One Preview of the Newest Edit

What is published at a moment depends on the newest edit alone. While its pause lasts, it waits;
then it is run, as if it were the only edit there ever was; then what came of the run is shown,
which is the outcome of one preview. Older edits leave one trace: the tool is told how often it
has been called before.

## Main definitions

* `Schedule.newest?`: the newest edit at a moment.
* `World.outcome`: what comes of an edit, in terms of one preview.
* `Timeline.ShowsNewest`: what is published at a moment.

## Main results

* `Timeline.stands_atTime`: the phase of a timeline at a moment.
* `Timeline.showsNewest`: what is published is what the newest edit calls for.
-/

namespace Pipewright.Preview

/-- The newest edit that has come in by the moment `u`. -/
def Schedule.newest? (acts : Schedule) (u : Nat) : Option Entry :=
  (acts.entries.filter (·.time ≤ u)).getLast?

/-- What comes of an edit, behind some calls of the tool: the outcome of one preview, or the
failure that tells of a breakdown. -/
def World.outcome (w : World) (calls : Nat) (bench : Bench) : Outcome :=
  match request w.files w.settings bench with
  | .error e => .failure e.report e.isFailureToRun
  | .ok r =>
    match (w.tool calls r).answer with
    | .breakdown message => .failure ("internal error: " ++ message.getD unknownBreakdown) false
    | .reply reply =>
      match cycle w.files w.settings (fun _ => reply) bench with
      | .ok success => .success success
      | .error e => .failure e.report e.isFailureToRun

/-- The result of a run is shown as what comes of the edit. -/
theorem World.ofResult_result (w : World) (calls : Nat) (bench : Bench) :
    .ofResult (w.result calls bench) = w.outcome calls bench := by
  delta World.outcome
  cases hr : request w.files w.settings bench with
  | error e =>
      rw [World.result_of_error hr]
      rfl
  | ok r =>
      rw [World.result_of_ok hr]
      cases ha : (w.tool calls r).answer with
      | breakdown message =>
          simp [ha, settleAnswer, Outcome.ofResult, Failure.report, Failure.chain,
            Failure.isFailureToRun]
      | reply reply =>
          have hcycle : cycle w.files w.settings (fun _ => reply) bench =
              judge bench.configuration reply := by
            rw [cycle, hr]
            rfl
          simp only [ha, settleAnswer, hcycle]
          cases judge bench.configuration reply <;> rfl

/-- What is shown in a phase of an edit, behind some calls of the tool. -/
def Entry.shownIn (w : World) (calls : Nat) (e : Entry) : Phase → State
  | .waiting => .waiting e.stamp
  | .cleared => .idle e.stamp
  | .running => .running e.stamp
  | .showing => .showing e.stamp (w.outcome calls e.bench)

namespace Timeline

variable {w : World} {acts : Schedule} {u : Nat} {e : Entry}

/-- The number of calls of the tool before the edit `e` came in. -/
def callsBefore (w : World) (acts : Schedule) (e : Entry) : Nat :=
  (atTime w acts e.time).calls.length

/-- At a moment after its newest edit has come in, a timeline stands in a phase of that edit,
behind the calls that had been made when the edit came in. -/
theorem stands_atTime (he : acts.newest? u = some e) (hu : e.time < u) :
    Stands w (atTime w acts e.time).calls e (e.phase w (callsBefore w acts e) u)
      (atTime w acts u) := by
  have h := follows_run w (acts.upTo u)
  rw [Schedule.newest?, ← Schedule.entries_upTo] at he
  obtain ⟨taken, fresh, hentries, -, hfresh, hstood⟩ := h.stood
  rw [h.now, Schedule.duration_upTo] at hfresh hstood
  -- an edit that has yet to be taken in would have come in at the moment `u` itself
  have hnone : fresh = [] := by
    obtain rfl | ⟨init, n, rfl⟩ := List.eq_nil_or_concat fresh
    · rfl
    · have hn : n.time = u := hfresh n (by simp)
      rw [hentries, List.concat_eq_append, ← List.append_assoc, List.getLast?_append] at he
      obtain rfl : n = e := by simpa using he
      exact absurd hu (hn ▸ Nat.lt_irrefl _)
  rw [hnone, List.append_nil] at hentries
  rw [hentries] at he
  cases hstood with
  | fresh => simp at he
  | @behind _ init e' before hbefore hstands =>
      obtain rfl : e' = e := by simpa using he
      have hcalls : (atTime w acts e'.time).calls = before := by
        obtain ⟨later, hall, hlater⟩ := acts.exists_entries_eq_append u
        rw [calls_atTime, hall, hentries, hbefore,
          callsBy_append fun n hn => Nat.le_of_lt (Nat.lt_trans hu (hlater n hn))]
      rw [callsBefore, hcalls]
      exact hstands

/-- What is published in the phase in which a timeline stands. -/
theorem Stands.published {before : List Request} {p : Phase} {s : Timeline}
    (h : Stands w before e p s) : s.live.published = e.shownIn w before.length p := by
  cases h with
  | waiting live | cleared _ live | running _ live => rw [live, Entry.shownIn]
  | showing _ live => rw [live, Entry.shownIn, w.ofResult_result]

/-- What is published after the newest edit has come in. -/
theorem published_atTime (he : acts.newest? u = some e) (hu : e.time < u) :
    (atTime w acts u).live.published =
      e.shownIn w (callsBefore w acts e) (e.phase w (callsBefore w acts e) u) :=
  (stands_atTime he hu).published

/-- What is published at the moment `u` of a schedule, if nothing else happens at that very
moment. -/
structure ShowsNewest (w : World) (acts : Schedule) (u : Nat) : Prop where
  /-- Before the first edit nothing is shown. -/
  untouched : acts.newest? u = none → (atTime w acts u).live.published = .idle 0
  /-- While the pause behind the newest edit lasts, the edit waits. -/
  waiting : ∀ e, acts.newest? u = some e → e.time < u → u < e.time + w.settings.pause →
    (atTime w acts u).live.published = .waiting e.stamp
  /-- After the pause, an edit without an input or without a step is cleared away. -/
  cleared : ∀ e, acts.newest? u = some e → e.time + w.settings.pause < u →
    e.bench.hasRecords = false ∨ e.bench.configuration.hasEnabledSteps = false →
    (atTime w acts u).live.published = .idle e.stamp
  /-- Any other edit is run for as long as the tool takes for it, -/
  running : ∀ e, acts.newest? u = some e → e.time + w.settings.pause < u →
    e.bench.isReady = true →
    u < e.time + w.settings.pause + w.delay (callsBefore w acts e) e.bench →
    (atTime w acts u).live.published = .running e.stamp
  /-- and then what comes of it is shown. -/
  showing : ∀ e, acts.newest? u = some e → e.bench.isReady = true →
    e.time + w.settings.pause + w.delay (callsBefore w acts e) e.bench < u →
    (atTime w acts u).live.published =
      .showing e.stamp (w.outcome (callsBefore w acts e) e.bench)
  /-- Older edits count only through the number of calls that they have made. -/
  alone : ∀ e acts', acts.newest? u = some e → acts'.newest? u = some e → e.time < u →
    callsBefore w acts' e = callsBefore w acts e →
    (atTime w acts' u).live.published = (atTime w acts u).live.published

/-- Before the first edit a timeline stands where it began. -/
theorem published_of_newest?_eq_none (he : acts.newest? u = none) :
    (atTime w acts u).live.published = .idle 0 := by
  rw [Schedule.newest?, List.getLast?_eq_none_iff, ← Schedule.entries_upTo] at he
  obtain ⟨taken, fresh, hentries, -, -, hstood⟩ := (follows_run w (acts.upTo u)).stood
  rw [he] at hentries
  obtain rfl := (List.append_eq_nil_iff.mp hentries.symm).1
  generalize hs : run w (acts.upTo u) = s at hstood
  rw [atTime, hs]
  generalize htaken : ([] : List Entry) = taken at hstood
  cases hstood with
  | fresh live => rw [live]
  | behind => simp at htaken

/-- **A live preview shows one preview of the newest edit**, at every moment. -/
theorem showsNewest (w : World) (acts : Schedule) (u : Nat) : ShowsNewest w acts u where
  untouched := published_of_newest?_eq_none
  waiting e he hu hdue := by
    rw [published_atTime he hu, Entry.phase_early (Nat.le_of_lt hdue), Entry.shownIn]
  cleared e he hdue hnot := by
    have ready : e.bench.isReady = false := by rwa [Bench.isReady, Bool.and_eq_false_iff]
    rw [published_atTime he (Nat.lt_of_le_of_lt (Nat.le_add_right _ _) hdue),
      Entry.phase_notReady hdue ready, Entry.shownIn]
  running e he hdue ready hland := by
    rw [published_atTime he (Nat.lt_of_le_of_lt (Nat.le_add_right _ _) hdue),
      Entry.phase_flying hdue ready (Nat.le_of_lt hland), Entry.shownIn]
  showing e he ready hland := by
    have hu : e.time < u := by omega
    rw [published_atTime he hu, Entry.phase_landed ready hland, Entry.shownIn]
  alone e acts' he he' hu hcalls := by
    rw [published_atTime he hu, published_atTime he' hu, hcalls]

/-- The run of the first edit would take until 1500; nothing of it is left. -/
example :
    (atTime { tool := fun calls _ => ⟨if calls = 0 then 1000 else 0, .reply (.ok {})⟩ }
      [.submit ⟨{ steps := [⟨"cat", true⟩] }, "a=1"⟩, .wait 700,
        .submit ⟨{ steps := [⟨"tac", true⟩] }, "a=1"⟩] 1201).live.published =
      .showing 2 (.success ⟨"", "mlr tac", .auto⟩) := by decide +kernel

end Timeline

end Pipewright.Preview
