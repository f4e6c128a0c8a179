import Pipewright.Proofs.Preview.Persistence

/-!
# Timer, Waiting Edit and Run Stay in Step

A live preview keeps three things beside each other: the timer, the arbiter with the edit that
waits, and the run that it holds so as to be able to call it off. Different events change them, and
several runs may be on their way at once, since one that was called off can have its result all the
same.

What keeps them in step is said of every run by itself: the run that is held works or has its
result on the way, and every other one was called off, or its result was shown. An edit that comes
in lets go of the run that is held by calling it off, a result by being shown; nothing else lets go
of a run, and the timer starts one only when none is held.

## Main definitions

* `Live.callsOff`, `Interplay.calledOff`: the runs that edits call off.
* `Run.IsLive`: a run that was not called off and has no result.
* `Interplay.InStep`: how the timer, the waiting edit and the runs stand to each other.

## Main results

* `Interplay.Holds.step`: every event keeps the invariant.
* `Interplay.inStep_of_run`: after any events they are in step.
-/

namespace Pipewright.Preview

open Arbiter (News Tells)

/-- The edit that the tool runs for. -/
def State.running? : State → Option Stamp
  | running s => some s
  | idle _ | waiting _ | showing .. => none

theorem State.running?_eq_some_iff {st : State} {s : Stamp} :
    st.running? = some s ↔ st = .running s := by
  cases st <;> simp [running?]

/-! ### The arbiter between two calls -/

namespace Arbiter

variable {h : List News} {a : Arbiter}

/-- What is shown is about the newest edit. -/
theorem Tells.stamp_state (ha : Tells h a) : a.state.stamp = a.latest := by
  rw [ha.last]
  cases h.getLast? with
  | none => rfl
  | some n => exact n.state_stamp

/-- An edit waits just while the state says so, and it is the newest one. -/
theorem Tells.state_of_pending (ha : Tells h a) {x : Submission} (hx : a.pending = some x) :
    a.state = .waiting x.stamp ∧ x.stamp = a.latest := by
  have hlast := ofNews_pending (ha.last ▸ hx)
  rw [ha.last, hlast]
  exact ⟨rfl, rfl⟩

end Arbiter

/-! ### What becomes of a live preview -/

namespace Live

variable {l : Live}

/-- The run that an edit calls off when it comes in: the one that is held, if the edit takes the
place of a run. -/
def callsOff (l : Live) (stamp : Stamp) (bench : Bench) : Option Stamp :=
  if (l.arbiter.accept stamp bench).1 then l.underWay else none

/-- A newer edit waits, and the run that is held is let go of if one is shown. -/
theorem receive_of_lt {stamp : Stamp} (newer : l.arbiter.latest < stamp) (now pause : Nat)
    (bench : Bench) :
    l.receive now pause stamp bench =
      ⟨⟨stamp, some ⟨stamp, bench⟩, .waiting stamp⟩, some (now + pause),
        if l.arbiter.isRunning then none else l.underWay, .waiting stamp⟩ := by
  simp [receive, Arbiter.accept, Nat.not_le.mpr newer, refresh]

/-- An edit that is ready is run when its pause is over. -/
theorem expire_of_isReady {x : Submission} (waits : l.arbiter.pending = some x)
    (ready : x.bench.isReady = true) :
    l.expire =
      (some x, ⟨{ l.arbiter with pending := none, state := .running x.stamp }, none, some x.stamp,
        .running x.stamp⟩) := by
  simp [expire, Arbiter.release, waits, ready, refresh]

/-- An edit that is not ready is cleared away when its pause is over. -/
theorem expire_of_not_isReady {x : Submission} (waits : l.arbiter.pending = some x)
    (ready : x.bench.isReady = false) :
    l.expire =
      (none, ⟨{ l.arbiter with pending := none, state := .idle x.stamp }, none, l.underWay,
        .idle x.stamp⟩) := by
  simp [expire, Arbiter.release, waits, ready, refresh]

/-- The result of the run that is shown lets go of it. -/
theorem finish_of_running {c : Landing} (wanted : l.arbiter.state = .running c.stamp) :
    l.finish c =
      (c.toSave, ⟨{ l.arbiter with state := .showing c.stamp (.ofResult c.result) }, l.deadline,
        none, .showing c.stamp (.ofResult c.result)⟩) := by
  have hawaits := (Arbiter.awaits_iff l.arbiter c.stamp).mpr wanted
  simp only [finish, hawaits, if_true, Arbiter.conclude, refresh]
  rfl

/-- Any other result changes nothing. -/
theorem finish_of_not_running {c : Landing} (unwanted : l.arbiter.state ≠ .running c.stamp) :
    l.finish c = (none, l) := by
  rw [ne_eq, ← Arbiter.awaits_iff, Bool.not_eq_true] at unwanted
  simp [finish, unwanted]

end Live

/-! ### Runs that are called off -/

/-- The run was neither called off, as those of `off` were, nor has it a result. -/
def Run.IsLive (off : List Stamp) (r : Run) : Prop :=
  r.submission.stamp ∉ off ∧ r.result? = none

instance (off : List Stamp) : DecidablePred (Run.IsLive off) := fun r =>
  decidable_of_iff (r.submission.stamp ∉ off ∧ r.result?.isNone = true) (by simp [Run.IsLive])

namespace Interplay

/-- The run that an event calls off. -/
def callsOff (p : Interplay) : Event → Option Stamp
  | .receive _ => p.queue.head?.bind fun x => p.live.callsOff x.stamp x.bench
  | .submit _ | .expire | .call .. | .answer .. | .vanish _ | .land _ => none

/-- The runs that the events call off, in order, from `p` on. -/
def calledOffFrom (settings : Settings) (p : Interplay) : List Event → List Stamp
  | [] => []
  | e :: rest =>
    (p.callsOff e).toList ++
      match p.step settings e with
      | none => []
      | some q => calledOffFrom settings q rest

/-- The runs that the events call off, in order, from the start. -/
def calledOff (settings : Settings) (events : List Event) : List Stamp :=
  calledOffFrom settings {} events

theorem calledOffFrom_concat (settings : Settings) (p : Interplay) {q : Interplay}
    {events : List Event} (h : events.foldlM (step settings) p = some q) (e : Event) :
    calledOffFrom settings p (events ++ [e]) =
      calledOffFrom settings p events ++ (q.callsOff e).toList := by
  induction events generalizing p with
  | nil =>
      obtain rfl : p = q := Option.some.inj h
      cases hstep : p.step settings e <;> simp [calledOffFrom, hstep]
  | cons e' rest ih =>
      rw [List.foldlM_cons] at h
      obtain ⟨p', hstep, hrest⟩ := Option.bind_eq_some_iff.mp h
      simp only [List.cons_append, calledOffFrom, hstep, ih p' hrest, List.append_assoc]

theorem calledOff_concat {settings : Settings} {events : List Event} {q : Interplay}
    (h : run settings events = some q) (e : Event) :
    calledOff settings (events ++ [e]) = calledOff settings events ++ (q.callsOff e).toList :=
  calledOffFrom_concat settings {} h e

/-! ### The invariant -/

variable {settings : Settings} {p p' : Interplay} {h : List News} {off : List Stamp}

/-- The result of the run was shown. -/
def HasShown (p : Interplay) (r : Run) : Prop :=
  ∃ o, r.result?.map .ofResult = some o ∧ .showing r.submission.stamp o ∈ p.published

/-- The run works, or its result is on the way. -/
def IsAwaited (p : Interplay) (r : Run) : Prop :=
  r.isOpen = true ∨ ∃ l ∈ p.inbox, r.landing? = some l

/-- What keeps the timer, the waiting edit and the runs in step, when the runs of `off` were called
off. -/
structure Holds (off : List Stamp) (p : Interplay) : Prop where
  /-- The timer is set just while an edit waits. -/
  timer : p.live.deadline.isSome = p.live.arbiter.pending.isSome
  /-- The run that is shown is held. -/
  underWay : p.live.underWay = p.live.arbiter.state.running?
  /-- The runs that were called off are those of older edits. -/
  older : ∀ s ∈ off, s < p.live.arbiter.latest
  /-- The run that is held is there, and it works or its result is on the way. -/
  awaited : ∀ s, p.live.underWay = some s → ∃ r ∈ p.runs, r.submission.stamp = s ∧ p.IsAwaited r
  /-- Every other run was called off, or its result was shown. -/
  ended : ∀ r ∈ p.runs, p.live.underWay ≠ some r.submission.stamp →
    r.submission.stamp ∈ off ∨ p.HasShown r

theorem holds_start : Holds [] {} where
  timer := rfl
  underWay := rfl
  older := by simp
  awaited := by simp
  ended := by simp

theorem HasShown.mono {r : Run} (hr : p.HasShown r) (hmore : p.published ⊆ p'.published) :
    p'.HasShown r := by
  obtain ⟨o, hresult, hshown⟩ := hr
  exact ⟨o, hresult, hmore hshown⟩

/-- No run is held while an edit waits. -/
theorem Holds.underWay_of_pending (hh : Holds off p) (hp : Tallies h p) {x : Submission}
    (waits : p.live.arbiter.pending = some x) : p.live.underWay = none := by
  rw [hh.underWay, (hp.tells.state_of_pending waits).1]
  rfl

/-- The run that is held is that of the newest edit. -/
theorem Holds.eq_latest (hh : Holds off p) (hp : Tallies h p) {s : Stamp}
    (held : p.live.underWay = some s) : s = p.live.arbiter.latest := by
  rw [hh.underWay, State.running?_eq_some_iff] at held
  rw [← hp.tells.stamp_state, held]
  rfl

/-- An edit that is submitted changes nothing for the live preview. -/
theorem Holds.submit (hh : Holds off p) (bench : Bench) : Holds off (p.submit bench) where
  timer := hh.timer
  underWay := hh.underWay
  older := hh.older
  awaited := hh.awaited
  ended := hh.ended

/-- A run is held just while one is shown to work. -/
theorem Holds.isRunning_eq (hh : Holds off p) :
    p.live.arbiter.isRunning = p.live.underWay.isSome := by
  rw [hh.underWay]
  cases hstate : p.live.arbiter.state <;> simp [Arbiter.isRunning, hstate, State.running?]

/-- An edit that comes in calls the run off that is held, whenever there is one. -/
theorem Holds.callsOff_eq (hh : Holds off p) {x : Submission}
    (newer : p.live.arbiter.latest < x.stamp) :
    p.live.callsOff x.stamp x.bench = p.live.underWay := by
  rw [Live.callsOff, Arbiter.accept, if_neg (Nat.not_le.mpr newer), hh.isRunning_eq]
  cases p.live.underWay <;> rfl

/-- **An edit comes in**: it waits from now on, the timer is set, and the run that is held is
called off. -/
theorem Holds.receive (hh : Holds off p) (hp : Tallies h p) {x : Submission}
    {rest : List Submission} (waits : p.queue = x :: rest) (now : Nat)
    (happens : p.receive settings now = some p') :
    Holds (off ++ (p.callsOff (.receive now)).toList) p' := by
  have newer : p.live.arbiter.latest < x.stamp := hp.latest_lt (waits ▸ List.mem_cons_self)
  have hcalls : p.callsOff (.receive now) = p.live.underWay := by
    simp only [callsOff, waits, List.head?_cons, Option.bind_some]
    exact hh.callsOff_eq newer
  have hnone : (if p.live.arbiter.isRunning then none else p.live.underWay) = none := by
    rw [hh.isRunning_eq]
    cases p.live.underWay <;> rfl
  simp only [Interplay.receive, waits, Option.some.injEq] at happens
  rw [Live.receive_of_lt newer, hnone] at happens
  subst happens
  rw [hcalls]
  constructor
  · rfl
  · rfl
  · intro s hs
    rcases List.mem_append.mp hs with hs | hs
    · exact (hh.older s hs).trans newer
    · exact hh.eq_latest hp (Option.mem_toList.mp hs) ▸ newer
  · simp
  · intro r hr _
    by_cases hheld : p.live.underWay = some r.submission.stamp
    · exact .inl (List.mem_append_right _ (Option.mem_toList.mpr hheld))
    · rcases hh.ended r hr hheld with hoff | hshown
      · exact .inl (List.mem_append_left _ hoff)
      · exact .inr (hshown.mono (List.subset_append_left _ _))

/-- **The pause is over**: the edit that waits is run, when no run is held, or it is cleared
away. -/
theorem Holds.expire (hh : Holds off p) (hp : Tallies h p) (happens : p.expire = some p') :
    Holds off p' := by
  unfold Interplay.expire at happens
  split at happens
  · cases happens
  next due set =>
  obtain ⟨x, waits⟩ : ∃ x, p.live.arbiter.pending = some x := by
    rw [← Option.isSome_iff_exists, ← hh.timer, set]
    rfl
  have hfree : p.live.underWay = none := hh.underWay_of_pending hp waits
  cases ready : x.bench.isReady with
  | true =>
      rw [Live.expire_of_isReady waits ready] at happens
      cases happens
      constructor
      · rfl
      · rfl
      · exact hh.older
      · rintro s ⟨⟩
        exact ⟨⟨x, .begun⟩, by simp, rfl, .inl rfl⟩
      · intro r hr hother
        rcases List.mem_append.mp hr with hr | hr
        · exact (hh.ended r hr (by simp [hfree])).imp_right
            (·.mono (List.subset_append_left _ _))
        · obtain rfl : r = ⟨x, .begun⟩ := by simpa using hr
          exact absurd rfl hother
  | false =>
      rw [Live.expire_of_not_isReady waits ready] at happens
      cases happens
      constructor
      · rfl
      · exact hfree
      · exact hh.older
      · simp [hfree]
      · intro r hr hother
        have hold : r ∈ p.runs := by simpa using hr
        exact (hh.ended r hold hother).imp_right (·.mono (List.subset_append_left _ _))

/-- **A run goes on**: one that is held works on or hands its result back, and one that has not
ended by itself ends without a trace only when it is not held. -/
theorem Holds.proceed (hh : Holds off p) {i : Nat} {r : Run} (r' : Run)
    (here : p.runs[i]? = some r) (opened : r.isOpen = true) (same : r'.submission = r.submission)
    (stays : p.live.underWay = some r.submission.stamp →
      r'.isOpen = true ∨ r'.landing?.isSome = true) (calls : List Request) :
    Holds off { p.proceed i r' with calls := calls } := by
  have hr : r ∈ p.runs := List.mem_of_getElem? here
  have hr' : r' ∈ (p.proceed i r').runs :=
    List.mem_set (List.getElem?_eq_some_iff.mp here).1 r'
  constructor
  · exact hh.timer
  · exact hh.underWay
  · exact hh.older
  · intro s held
    obtain ⟨q, hq, rfl, hawaited⟩ := hh.awaited s held
    by_cases hstamp : q.submission.stamp = r.submission.stamp
    · refine ⟨r', hr', by rw [same, hstamp], ?_⟩
      rcases stays (hstamp ▸ held) with hopen | hlanding
      · exact .inl hopen
      · obtain ⟨l, hl⟩ := Option.isSome_iff_exists.mp hlanding
        exact .inr ⟨l, List.mem_append_right _ (Option.mem_toList.mpr hl), hl⟩
    · -- another run is held, and it stays as it is
      have hne : r ≠ q := fun heq => hstamp (heq ▸ rfl)
      obtain ⟨j, hj, rfl⟩ := List.mem_iff_getElem.mp hq
      have hij : i ≠ j := by
        rintro rfl
        rw [List.getElem?_eq_getElem hj, Option.some.injEq] at here
        exact hne here.symm
      refine ⟨_, List.mem_of_getElem? (i := j) ?_, rfl, hawaited.imp_right ?_⟩
      · exact (List.getElem?_set_ne hij).trans (List.getElem?_eq_getElem hj)
      · rintro ⟨l, hl, hlanding⟩
        exact ⟨l, List.mem_append_left _ hl, hlanding⟩
  · intro q hq hother
    rcases List.mem_or_eq_of_mem_set hq with hq | rfl
    · exact hh.ended q hq hother
    · -- the run had no result, so that it was called off if it is not held
      rw [same] at hother ⊢
      rcases hh.ended r hr hother with hoff | ⟨o, hresult, -⟩
      · exact .inl hoff
      · rw [Run.result?_of_isOpen opened] at hresult
        cases hresult

/-- **The result of the run that is held is taken in**: it is shown, and the run let go of. -/
theorem Holds.land (hh : Holds off p) (hp : Tallies h p) {l : Landing} {rest : List Landing}
    (waits : p.inbox = l :: rest) (wanted : p.live.arbiter.state = .running l.stamp)
    (accepts : Bool) (happens : p.land accepts = some p') : Holds off p' := by
  have hawaits := (Arbiter.awaits_iff p.live.arbiter l.stamp).mpr wanted
  simp only [Interplay.land, waits, Live.finish_of_running wanted, hawaits, if_true,
    Option.some.injEq] at happens
  subst happens
  obtain ⟨r₀, hr₀, hlanding⟩ := hp.inbox l (waits ▸ List.mem_cons_self)
  obtain ⟨hstamp, -, hresult⟩ := Run.landing?_eq_some_iff.mp hlanding
  constructor
  · exact hh.timer
  · rfl
  · exact hh.older
  · simp
  · intro r hr _
    by_cases hheld : r.submission.stamp = l.stamp
    · obtain rfl := hp.run_unique hr hr₀ (hheld.trans hstamp.symm)
      exact .inr ⟨.ofResult l.result, by simp [hresult], by simp [hheld]⟩
    · have hother : p.live.underWay ≠ some r.submission.stamp := by
        rw [hh.underWay, wanted]
        simpa [State.running?] using Ne.symm hheld
      exact (hh.ended r hr hother).imp_right (·.mono (List.subset_append_left _ _))

/-- **Any other result is dropped**, and that is all. -/
theorem land_of_not_running {l : Landing} {rest : List Landing} (waits : p.inbox = l :: rest)
    (unwanted : p.live.arbiter.state ≠ .running l.stamp) (accepts : Bool) :
    p.land accepts = some { p with inbox := rest } := by
  have hawaits : p.live.arbiter.awaits l.stamp = false := by
    rwa [← Bool.not_eq_true, Arbiter.awaits_iff]
  simp [Interplay.land, waits, Live.finish_of_not_running unwanted, hawaits]

theorem Holds.drop (hh : Holds off p) {l : Landing} {rest : List Landing}
    (waits : p.inbox = l :: rest) (unwanted : p.live.arbiter.state ≠ .running l.stamp) :
    Holds off { p with inbox := rest } where
  timer := hh.timer
  underWay := hh.underWay
  older := hh.older
  awaited s held := by
    obtain ⟨r, hr, rfl, hawaited⟩ := hh.awaited s held
    refine ⟨r, hr, rfl, hawaited.imp_right ?_⟩
    rintro ⟨k, hk, hlanding⟩
    rw [waits] at hk
    rcases List.mem_cons.mp hk with rfl | hk
    · -- the result of the run that is held is not dropped
      rw [hh.underWay, State.running?_eq_some_iff,
        (Run.landing?_eq_some_iff.mp hlanding).1] at held
      exact absurd held unwanted
    · exact ⟨k, hk, hlanding⟩
  ended := hh.ended

theorem Holds.call (hh : Holds off p) {i : Nat} {files : Files.Tree}
    (happens : p.call settings i files = some p') : Holds off p' := by
  unfold Interplay.call at happens
  split at happens
  next x here =>
    split at happens
    next reason _ =>
      cases happens
      exact hh.proceed ⟨x, .refused reason⟩ here rfl rfl (fun _ => .inr rfl) p.calls
    · cases happens
      exact hh.proceed ⟨x, .calling⟩ here rfl rfl (fun _ => .inl rfl) _
  all_goals cases happens

theorem Holds.answer (hh : Holds off p) {i : Nat} {a : Answer}
    (happens : p.answer i a = some p') : Holds off p' := by
  unfold Interplay.answer at happens
  split at happens
  next x here =>
    cases happens
    exact hh.proceed ⟨x, .answered a⟩ here rfl rfl (fun _ => .inr rfl) p.calls
  all_goals cases happens

theorem Holds.vanish (hh : Holds off p) {i : Nat} (happens : p.vanish i = some p') :
    Holds off p' := by
  unfold Interplay.vanish at happens
  split at happens
  next r here =>
    split at happens
    next hcond =>
      obtain ⟨hopen, hother⟩ := Bool.and_eq_true_iff.mp hcond
      cases happens
      refine hh.proceed { r with stage := .vanished } here hopen rfl ?_ p.calls
      exact fun held => absurd held (bne_iff_ne.mp hother)
    · cases happens
  · cases happens

/-- An event that calls no run off. -/
theorem Holds.quiet (hh : Holds off p') {e : Event} (hnone : p.callsOff e = none) :
    Holds (off ++ (p.callsOff e).toList) p' := by
  rw [hnone, Option.toList_none, List.append_nil]
  exact hh

/-- **Every event** keeps the timer, the waiting edit and the runs in step. -/
theorem Holds.step (hh : Holds off p) (hp : Tallies h p) {e : Event}
    (happens : p.step settings e = some p') : Holds (off ++ (p.callsOff e).toList) p' := by
  cases e <;> rw [Interplay.step] at happens
  case submit bench =>
    cases happens
    exact (hh.submit bench).quiet rfl
  case receive now =>
    cases hqueue : p.queue with
    | nil => simp [Interplay.receive, hqueue] at happens
    | cons x rest => exact hh.receive hp hqueue now happens
  case expire => exact (hh.expire hp happens).quiet rfl
  case call i files => exact (hh.call happens).quiet rfl
  case answer i a => exact (hh.answer happens).quiet rfl
  case vanish i => exact (hh.vanish happens).quiet rfl
  case land accepts =>
    cases hinbox : p.inbox with
    | nil => simp [Interplay.land, hinbox] at happens
    | cons l rest =>
        by_cases hwanted : p.live.arbiter.state = .running l.stamp
        · exact (hh.land hp hinbox hwanted accepts happens).quiet rfl
        · rw [land_of_not_running hinbox hwanted] at happens
          cases happens
          exact (hh.drop hinbox hwanted).quiet rfl

/-- After any events the invariant holds, for the runs that they called off. -/
theorem holds_of_run {events : List Event} (hrun : run settings events = some p) :
    Holds (calledOff settings events) p := by
  induction events using List.reverseRecOn generalizing p with
  | nil =>
      cases hrun
      exact holds_start
  | append_singleton events e ih =>
      rw [run_concat] at hrun
      obtain ⟨q, hq, hstep⟩ := Option.bind_eq_some_iff.mp hrun
      obtain ⟨h, hp, -⟩ := exists_tallies_of_run hq
      rw [calledOff_concat hq]
      exact (ih hq).step hp hstep

/-! ### In step -/

/-- How the timer, the waiting edit and the runs stand to each other, when the runs of `off` were
called off. -/
structure InStep (off : List Stamp) (p : Interplay) : Prop where
  /-- The timer is set just while an edit waits and is shown to wait; it is the newest one. -/
  timer : p.live.deadline.isSome = true ↔ ∃ x, p.live.arbiter.pending = some x ∧
    p.live.arbiter.state = .waiting x.stamp ∧ x.stamp = p.live.arbiter.latest
  /-- A run is held just while it is shown to work. -/
  held : ∀ s, p.live.underWay = some s ↔ p.live.arbiter.state = .running s
  /-- It is the run of the newest edit, it was not called off, and it works or its result is on
  the way. -/
  newest : ∀ s, p.live.underWay = some s → s = p.live.arbiter.latest ∧ s ∉ off ∧
    ∃ r ∈ p.runs, r.submission.stamp = s ∧ p.IsAwaited r
  /-- A run that is live is the one that is held, -/
  live : ∀ r ∈ p.runs, r.IsLive off → p.live.underWay = some r.submission.stamp
  /-- so that there is one at most. -/
  single : (p.runs.filter (Run.IsLive off ·)).length ≤ 1
  /-- A run that a newer edit has taken the place of was called off, or its result had been
  shown. -/
  superseded : ∀ r ∈ p.runs, r.submission.stamp < p.live.arbiter.latest →
    r.submission.stamp ∈ off ∨ p.HasShown r
  /-- No run is gone without a trace unless it was called off. -/
  vanished : ∀ r ∈ p.runs, r.stage = .vanished → r.submission.stamp ∈ off
  /-- A result of any other run than the one that is held is dropped, and nothing else changes:
  neither the arbiter nor the timer, what is held, what is published or what is saved. -/
  stale : ∀ (l : Landing) (rest : List Landing) (accepts : Bool),
    p.live.underWay ≠ some l.stamp →
      land { p with inbox := l :: rest } accepts = some { p with inbox := rest }

/-- A run that is not held and has no result was called off. -/
theorem Holds.mem_off (hh : Holds off p) {r : Run} (hr : r ∈ p.runs)
    (hother : p.live.underWay ≠ some r.submission.stamp) (hresult : r.result? = none) :
    r.submission.stamp ∈ off := by
  rcases hh.ended r hr hother with hoff | ⟨o, hshown, -⟩
  · exact hoff
  · rw [hresult] at hshown
    cases hshown

/-- A run that is awaited has not vanished. -/
theorem IsAwaited.stage_ne {r : Run} (hr : p.IsAwaited r) : r.stage ≠ .vanished := by
  intro hstage
  rcases hr with hopen | ⟨l, -, hlanding⟩
  · simp [Run.isOpen, hstage] at hopen
  · simp [Run.landing?, Run.result?, hstage] at hlanding

theorem Holds.inStep (hh : Holds off p) (hp : Tallies h p) : InStep off p := by
  have hlive : ∀ r ∈ p.runs, r.IsLive off → p.live.underWay = some r.submission.stamp := by
    intro r hr ⟨hoff, hresult⟩
    by_contra hother
    exact hoff (hh.mem_off hr hother hresult)
  constructor
  · rw [hh.timer, Option.isSome_iff_exists]
    refine exists_congr fun x => ⟨fun waits => ⟨waits, hp.tells.state_of_pending waits⟩, And.left⟩
  · intro s
    rw [hh.underWay, State.running?_eq_some_iff]
  · intro s held
    have hlatest := hh.eq_latest hp held
    refine ⟨hlatest, fun hoff => ?_, hh.awaited s held⟩
    exact absurd (hh.older s hoff) (hlatest ▸ Nat.lt_irrefl s)
  · exact hlive
  · rcases hfilter : p.runs.filter (Run.IsLive off ·) with _ | ⟨r, _ | ⟨q, rest⟩⟩
    · exact Nat.zero_le 1
    · exact Nat.le_refl 1
    -- two live runs would both be the one that is held
    have hheld : ∀ k ∈ r :: q :: rest, p.live.underWay = some k.submission.stamp := by
      intro k hk
      obtain ⟨hmem, hk⟩ := List.mem_filter.mp (hfilter ▸ hk)
      exact hlive k hmem (of_decide_eq_true hk)
    have hdistinct : (r :: q :: rest).Pairwise
        fun k k' => k.submission.stamp ≠ k'.submission.stamp :=
      hfilter ▸ (List.pairwise_map.mp hp.nodup_stamps).filter _
    have hne := (List.pairwise_cons.mp hdistinct).1 q List.mem_cons_self
    have hsame := (hheld r List.mem_cons_self).symm.trans
      (hheld q (List.mem_cons_of_mem r List.mem_cons_self))
    exact absurd (Option.some.inj hsame) hne
  · intro r hr holder
    refine hh.ended r hr fun held => ?_
    exact absurd (hh.eq_latest hp held) (Nat.ne_of_lt holder)
  · intro r hr hstage
    refine hh.mem_off hr (fun held => ?_) (by simp [Run.result?, hstage])
    obtain ⟨q, hq, hstamp, hawaited⟩ := hh.awaited _ held
    exact hawaited.stage_ne (hp.run_unique hq hr hstamp ▸ hstage)
  · intro l rest accepts hother
    refine land_of_not_running (p := { p with inbox := l :: rest }) rfl ?_ accepts
    rwa [hh.underWay, ne_eq, State.running?_eq_some_iff] at hother

/-- **The timer, the waiting edit and the runs stay in step**, whatever happens and in whatever
order: edits that come in while a run works or while its result is on the way, results that come
late, and results of runs that were called off. -/
theorem inStep_of_run {events : List Event} (hrun : run settings events = some p) :
    InStep (calledOff settings events) p := by
  obtain ⟨h, hp, -⟩ := exists_tallies_of_run hrun
  exact (holds_of_run hrun).inStep hp

/-- A newer edit comes in while the result of an older one is on the way: the older run is called
off too late, the newer one is held, and the late result waits to be dropped. -/
theorem inStep_of_run_late :
    ∃ p, run {}
        [.submit ⟨{ steps := [⟨"cat", true⟩] }, "a=1"⟩, .receive 0, .expire, .call 0 .empty,
          .submit ⟨{ steps := [⟨"tac", true⟩] }, "a=1"⟩, .answer 0 (.reply (.ok {})), .receive 700,
          .expire] = some p ∧
      p.live.underWay = some 2 ∧ p.inbox.map Landing.stamp = [1] ∧ InStep [1] p := by
  have hrun := (Option.some_get (x := run {}
    [.submit ⟨{ steps := [⟨"cat", true⟩] }, "a=1"⟩, .receive 0, .expire, .call 0 .empty,
      .submit ⟨{ steps := [⟨"tac", true⟩] }, "a=1"⟩, .answer 0 (.reply (.ok {})), .receive 700,
      .expire]) (by decide +kernel)).symm
  have hoff : calledOff {}
      [.submit ⟨{ steps := [⟨"cat", true⟩] }, "a=1"⟩, .receive 0, .expire, .call 0 .empty,
        .submit ⟨{ steps := [⟨"tac", true⟩] }, "a=1"⟩, .answer 0 (.reply (.ok {})), .receive 700,
        .expire] = [1] := by
    decide +kernel
  exact ⟨_, hrun, by decide +kernel, by decide +kernel, hoff ▸ inStep_of_run hrun⟩

end Interplay

end Pipewright.Preview
