import Pipewright.Proofs.Preview.Persistence
import Pipewright.Proofs.Preview.Timing

/-!
# Timelines Are Interplays

On a timeline everything has its moment; among its parties a live preview meets with whatever
comes next. A timeline is an interplay in which the events come in the order of their moments:
each thing that happens on it is brought about by one event or two. What is proved of all
interplays therefore holds of timelines.

The run that a timeline waits for has not handed its result back yet. Among the parties it is one
that can still answer with that result, or one that has nothing to give to the tool; the result
is handed back only when the timeline takes it in, so that none is left over when an edit calls
the run off.

## Main results

* `Timeline.Mirrors`: an interplay that has come to where a timeline is.
* `Timeline.exists_interplay`: there is one for the timeline of each schedule.
* `Timeline.exists_persists`: what a timeline saves, when the store accepts it.
* `Timeline.run_store`: nothing else on a timeline hangs on the store.
-/

namespace Pipewright.Preview

/-- The run `r` can hand back the result `l` as the next thing it does. -/
inductive Run.Bears (w : World) : Run → Landing → Prop where
  /-- There is nothing to give to the tool. -/
  | refused {x : Submission} {reason : Failure}
      (nothing : request w.files w.settings x.bench = .error reason) :
      Bears w ⟨x, .begun⟩ ⟨x.stamp, x.bench.configuration, .error reason⟩
  /-- The tool answers. -/
  | answered {x : Submission} (a : Answer) :
      Bears w ⟨x, .calling⟩
        ⟨x.stamp, x.bench.configuration, settleAnswer x.bench.configuration a⟩

namespace Interplay

/-- Some events lead from one interplay to another, with the store of `w`. -/
def Leads (w : World) (p q : Interplay) : Prop :=
  ∃ events : List Event, events.foldlM (step w.settings) p = some q ∧
    ∀ accepts, .land accepts ∈ events → accepts = w.storeAccepts

variable {w : World} {p q r : Interplay}

theorem Leads.refl (w : World) (p : Interplay) : Leads w p p :=
  ⟨[], rfl, by simp⟩

theorem Leads.trans (hpq : Leads w p q) (hqr : Leads w q r) : Leads w p r := by
  obtain ⟨events, hevents, hstore⟩ := hpq
  obtain ⟨more, hmore, hstore'⟩ := hqr
  refine ⟨events ++ more, ?_, fun accepts hmem => ?_⟩
  · rw [List.foldlM_append, hevents]
    exact hmore
  · rcases List.mem_append.mp hmem with hmem | hmem
    · exact hstore accepts hmem
    · exact hstore' accepts hmem

theorem leads_of_step {e : Event} (h : p.step w.settings e = some q)
    (hstore : ∀ accepts, e = .land accepts → accepts = w.storeAccepts) : Leads w p q := by
  refine ⟨[e], ?_, fun accepts hmem => hstore accepts (List.mem_singleton.mp hmem).symm⟩
  rw [List.foldlM_cons, h]
  rfl

/-- The oldest edit that waits is taken in. -/
theorem leads_receive {x : Submission} {rest : List Submission} (waits : p.queue = x :: rest)
    (now : Nat) :
    Leads w p
      { p with
        queue := rest
        live := p.live.receive now w.settings.pause x.stamp x.bench
        published := p.published ++
          [(p.live.receive now w.settings.pause x.stamp x.bench).published] } := by
  refine leads_of_step (e := .receive now) ?_ (by simp)
  rw [step, receive, waits]

/-- A pause that has begun ends. -/
theorem leads_expire {due : Nat} (set : p.live.deadline = some due) :
    Leads w p
      { p with
        live := p.live.expire.2
        runs := p.runs ++ p.live.expire.1.toList.map (⟨·, .begun⟩)
        published := p.published ++ [p.live.expire.2.published] } := by
  refine leads_of_step (e := .expire) ?_ (by simp)
  rw [step, expire, set]

/-- A run that has something to give to the tool calls it. -/
theorem leads_call {i : Nat} {x : Submission} {r : Request} (here : p.runs[i]? = some ⟨x, .begun⟩)
    (given : request w.files w.settings x.bench = .ok r) :
    Leads w p { p.proceed i ⟨x, .calling⟩ with calls := p.calls ++ [r] } := by
  refine leads_of_step (e := .call i w.files) ?_ (by simp)
  rw [step, call, here]
  simp only [given]

/-- The oldest result that waits is taken in. -/
theorem leads_land {l : Landing} {rest : List Landing} (waits : p.inbox = l :: rest) :
    Leads w p
      { p with
        inbox := rest
        live := (p.live.finish l).2
        published := p.published ++
          if p.live.arbiter.awaits l.stamp then [(p.live.finish l).2.published] else []
        saves := p.saves ++ if w.storeAccepts then (p.live.finish l).1.toList else [] } := by
  refine leads_of_step (e := .land w.storeAccepts) ?_ (by simp)
  rw [step, land, waits]

/-- A run that bears a result hands it back. -/
theorem leads_of_bears {i : Nat} {x : Run} {l : Landing} (here : p.runs[i]? = some x)
    (h : x.Bears w l) :
    ∃ runs, Leads w p { p with runs := runs, inbox := p.inbox ++ [l] } := by
  cases h with
  | @refused x reason nothing =>
      refine ⟨p.runs.set i ⟨x, .refused reason⟩, ?_⟩
      refine leads_of_step (e := .call i w.files) ?_ (by simp)
      rw [step, call, here]
      simp only [nothing]
      rfl
  | @answered x a =>
      refine ⟨p.runs.set i ⟨x, .answered a⟩, ?_⟩
      refine leads_of_step (e := .answer i a) ?_ (by simp)
      rw [step, answer, here]
      rfl

end Interplay

namespace Timeline

open Interplay (Leads)

/-- The interplay `p` has come to where the timeline `s` is. -/
structure Mirrors (w : World) (s : Timeline) (p : Interplay) : Prop where
  /-- The same edits have been submitted, -/
  submitted : p.edits.length = s.submitted
  /-- and the same have yet to be taken in. -/
  queue : p.queue = s.queue
  /-- The live preview is the same. -/
  live : p.live = s.live
  /-- What is published was published last. -/
  published : p.published.getLast? = some s.live.published
  /-- No result waits to be taken in. -/
  inbox : p.inbox = []
  /-- The tool has been called in the same way. -/
  calls : p.calls = s.calls
  /-- The same has been saved. -/
  saves : p.saves = s.saves
  /-- The run that the timeline waits for can hand back its result. -/
  flight : ∀ f, s.flight = some f → ∃ (i : Nat) (r : Run), p.runs[i]? = some r ∧
    r.Bears w f.landing

variable {w : World} {s : Timeline} {p : Interplay}

theorem Mirrors.submit (h : Mirrors w s p) (bench : Bench) :
    Mirrors w (s.submit bench).2 (p.submit bench) where
  submitted := by simp [Timeline.submit, Interplay.submit, h.submitted]
  queue := by simp [Timeline.submit, Interplay.submit, h.submitted, h.queue]
  live := h.live
  published := h.published
  inbox := h.inbox
  calls := h.calls
  saves := h.saves
  flight := h.flight

theorem Mirrors.takeIn {x : Submission} {rest : List Submission}
    (h : Mirrors w { s with queue := x :: rest } p) :
    ∃ q, Leads w p q ∧ Mirrors w { s.takeIn w x with queue := rest } q := by
  refine ⟨_, Interplay.leads_receive h.queue s.now, ?_⟩
  rw [h.live]
  exact
    { submitted := h.submitted
      queue := rfl
      live := rfl
      published := by simp [Timeline.takeIn]
      inbox := h.inbox
      calls := h.calls
      saves := h.saves
      flight := fun f hf => by
        refine h.flight f ?_
        simp only [Timeline.takeIn] at hf
        split at hf
        · exact hf
        · cases hf }

/-- The edits that wait are taken in one by one. -/
theorem Mirrors.foldl_takeIn {xs : List Submission} (h : Mirrors w { s with queue := xs } p) :
    ∃ q, Leads w p q ∧ Mirrors w { xs.foldl (Timeline.takeIn w) s with queue := [] } q := by
  induction xs generalizing s p with
  | nil => exact ⟨p, .refl w p, h⟩
  | cons x rest ih =>
      obtain ⟨q, hpq, hq⟩ := h.takeIn
      obtain ⟨r, hqr, hr⟩ := ih hq
      exact ⟨r, hpq.trans hqr, hr⟩

theorem Mirrors.takeInAll (h : Mirrors w s p) :
    ∃ q, Leads w p q ∧ Mirrors w (s.takeInAll w) q :=
  h.foldl_takeIn

/-- A run that has begun calls the tool, unless it has nothing to give to it. -/
theorem Mirrors.start {i : Nat} {x : Submission} (h : Mirrors w s p)
    (here : p.runs[i]? = some ⟨x, .begun⟩) :
    ∃ q, Leads w p q ∧ Mirrors w (s.start w x) q := by
  rw [start_eq]
  cases hr : request w.files w.settings x.bench with
  | error reason =>
      rw [World.callsFor_of_error hr, World.result_of_error hr, List.append_nil]
      refine ⟨p, .refl w p, ?_⟩
      exact
        { h with
          flight := fun f hf => by
            obtain rfl := Option.some.inj hf
            exact ⟨i, _, here, .refused hr⟩ }
  | ok r =>
      rw [World.callsFor_of_ok hr, World.result_of_ok hr]
      refine ⟨_, Interplay.leads_call here hr, ?_⟩
      exact
        { submitted := h.submitted
          queue := h.queue
          live := h.live
          published := h.published
          inbox := by
            rw [Interplay.proceed, h.inbox]
            rfl
          calls := by rw [h.calls]
          saves := h.saves
          flight := fun f hf => by
            obtain rfl := Option.some.inj hf
            refine ⟨i, ⟨x, .calling⟩, ?_, .answered _⟩
            exact List.getElem?_set_self (List.getElem?_eq_some_iff.mp here).1 }

theorem Mirrors.expire {due : Nat} (h : Mirrors w s p) (hdue : s.live.deadline = some due) :
    ∃ q, Leads w p q ∧ Mirrors w (s.expire w due) q := by
  obtain ⟨q, hlead, hq, hruns⟩ : ∃ q, Leads w p q ∧
      Mirrors w { s with now := due, live := s.live.expire.2 } q ∧
      q.runs = p.runs ++ s.live.expire.1.toList.map (⟨·, .begun⟩) := by
    refine ⟨_, Interplay.leads_expire (h.live ▸ hdue), ?_, by rw [h.live]⟩
    rw [h.live]
    exact
      { submitted := h.submitted
        queue := h.queue
        live := rfl
        published := by simp
        inbox := h.inbox
        calls := h.calls
        saves := h.saves
        flight := fun f hf => by
          obtain ⟨i, r, here, hbears⟩ := h.flight f hf
          refine ⟨i, r, ?_, hbears⟩
          rw [List.getElem?_append_left (List.getElem?_eq_some_iff.mp here).1, here] }
  rw [Timeline.expire]
  cases hx : s.live.expire.1 with
  | none => exact ⟨q, hlead, by simpa only [hx] using hq⟩
  | some x =>
      have here : q.runs[p.runs.length]? = some ⟨x, .begun⟩ := by simp [hruns, hx]
      obtain ⟨r, hqr, hr⟩ := hq.start here
      exact ⟨r, hlead.trans hqr, by simpa only [hx] using hr⟩

theorem Mirrors.land {f : Flight} (h : Mirrors w s p) (hf : s.flight = some f) :
    ∃ q, Leads w p q ∧ Mirrors w (s.land w f) q := by
  -- only now does the run hand its result back, so that the inbox holds nothing else
  obtain ⟨i, r, here, hbears⟩ := h.flight f hf
  obtain ⟨runs, hlead⟩ := Interplay.leads_of_bears here hbears
  rw [h.inbox, List.nil_append] at hlead
  refine ⟨_, hlead.trans (Interplay.leads_land rfl), ?_⟩
  simp only [h.live, h.saves]
  exact
    { submitted := h.submitted
      queue := h.queue
      live := rfl
      published := by
        cases hwanted : s.live.arbiter.awaits f.landing.stamp with
        | true => simp [Timeline.land]
        | false => simpa [Timeline.land, Live.finish, hwanted] using h.published
      inbox := rfl
      calls := h.calls
      saves := rfl
      flight := fun f hf => by cases hf }

theorem Mirrors.tick (h : Mirrors w s p) (target : Nat) :
    ∃ q, Leads w p q ∧ Mirrors w (s.tick w target) q := by
  have hstill : ∃ q, Leads w p q ∧ Mirrors w s q := ⟨p, .refl w p, h⟩
  unfold Timeline.tick
  split
  · rename_i due hdue
    split
    · exact h.expire hdue
    · exact hstill
  · split
    · rename_i f hf
      split
      · exact h.land hf
      · exact hstill
    · exact hstill

theorem Mirrors.wait (h : Mirrors w s p) (ms : Nat) :
    ∃ q, Leads w p q ∧ Mirrors w (s.wait w ms) q := by
  rw [Timeline.wait]
  split
  · exact ⟨p, .refl w p, h⟩
  · obtain ⟨q₁, hlead₁, hq₁⟩ := h.takeInAll
    obtain ⟨q₂, hlead₂, hq₂⟩ := hq₁.tick (s.now + ms)
    obtain ⟨q₃, hlead₃, hq₃⟩ := hq₂.tick (s.now + ms)
    exact ⟨q₃, (hlead₁.trans hlead₂).trans hlead₃, { hq₃ with }⟩

theorem Mirrors.perform (h : Mirrors w s p) (act : Act) :
    ∃ q, Leads w p q ∧ Mirrors w (s.perform w act) q := by
  cases act with
  | submit bench =>
      exact ⟨_, Interplay.leads_of_step (e := .submit bench) rfl (by simp), h.submit bench⟩
  | wait ms => exact h.wait ms

/-- **The timeline of a schedule is an interplay**, with a store that always answers in the same
way. -/
theorem exists_interplay (w : World) (acts : Schedule) :
    ∃ events p, Interplay.run w.settings events = some p ∧ Mirrors w (run w acts) p ∧
      ∀ accepts, .land accepts ∈ events → accepts = w.storeAccepts := by
  suffices h : ∃ p, Leads w {} p ∧ Mirrors w (run w acts) p by
    obtain ⟨p, ⟨events, hrun, hstore⟩, hp⟩ := h
    exact ⟨events, p, hrun, hp, hstore⟩
  induction acts using List.reverseRecOn with
  | nil => exact ⟨{}, .refl w {}, ⟨rfl, rfl, rfl, rfl, rfl, rfl, rfl, by simp [run]⟩⟩
  | append_singleton acts act ih =>
      obtain ⟨p, hlead, hp⟩ := ih
      obtain ⟨q, hpq, hq⟩ := hp.perform act
      exact ⟨q, hlead.trans hpq, by rwa [run_concat]⟩

/-- With a store that accepts everything, a timeline saves the configurations of the successes
that are displayed on it. -/
theorem exists_persists (haccepts : w.storeAccepts = true) (acts : Schedule) :
    ∃ p, Mirrors w (run w acts) p ∧ p.Persists := by
  obtain ⟨events, p, hrun, hp, hstore⟩ := exists_interplay w acts
  obtain ⟨h, htallies, hsaves⟩ := Interplay.exists_tallies_of_run hrun
  refine ⟨p, hp, htallies.persists (hsaves ?_)⟩
  rintro e he rfl
  exact absurd (hstore false he) (by simp [haccepts])

/-! ### The store of a timeline -/

theorem takeInAll_store (w : World) (accepts : Bool) (s : Timeline)
    (saves : List Configuration) :
    { s with saves := saves }.takeInAll { w with storeAccepts := accepts } =
      { s.takeInAll w with saves := saves } := by
  have hfold : ∀ (xs : List Submission) (s : Timeline),
      xs.foldl (takeIn { w with storeAccepts := accepts }) { s with saves := saves } =
        { xs.foldl (takeIn w) s with saves := saves } := by
    intro xs
    induction xs with
    | nil => exact fun s => rfl
    | cons x rest ih => exact fun s => ih (s.takeIn w x)
  have h := hfold s.queue s
  unfold takeInAll
  rw [h]

theorem start_store (w : World) (accepts : Bool) (s : Timeline) (x : Submission)
    (saves : List Configuration) :
    { s with saves := saves }.start { w with storeAccepts := accepts } x =
      { s.start w x with saves := saves } := by
  delta start
  dsimp only
  cases request w.files w.settings x.bench <;> rfl

theorem tick_store (w : World) (accepts : Bool) (target : Nat) (s : Timeline)
    (saves : List Configuration) :
    ∃ saves', { s with saves := saves }.tick { w with storeAccepts := accepts } target =
      { s.tick w target with saves := saves' } := by
  obtain ⟨now, submitted, queue, live, flight, calls, saved⟩ := s
  unfold tick
  cases hdue : live.deadline with
  | some due =>
      refine ⟨saves, ?_⟩
      dsimp only
      split
      · unfold expire
        cases hx : live.expire.1 with
        | none => simp only [hx]
        | some x =>
            simp only [hx]
            exact start_store w accepts
              ⟨due, submitted, queue, live.expire.2, flight, calls, saved⟩ x saves
      · rfl
  | none =>
      cases flight with
      | none => exact ⟨saves, rfl⟩
      | some f =>
          dsimp only
          split
          · exact ⟨_, rfl⟩
          · exact ⟨_, rfl⟩

theorem perform_store (w : World) (accepts : Bool) (s : Timeline) (act : Act)
    (saves : List Configuration) :
    ∃ saves', { s with saves := saves }.perform { w with storeAccepts := accepts } act =
      { s.perform w act with saves := saves' } := by
  cases act with
  | submit bench => exact ⟨saves, rfl⟩
  | wait ms =>
      rw [perform, perform, wait, wait]
      split
      · exact ⟨saves, rfl⟩
      · rw [takeInAll_store]
        obtain ⟨saves₁, h₁⟩ := tick_store w accepts (s.now + ms) (s.takeInAll w) saves
        obtain ⟨saves₂, h₂⟩ :=
          tick_store w accepts (s.now + ms) ((s.takeInAll w).tick w (s.now + ms)) saves₁
        exact ⟨saves₂, by simp only [h₁, h₂]⟩

/-- **Nothing but the saves of a timeline hangs on the store.** -/
theorem run_store (w : World) (accepts : Bool) (acts : Schedule) :
    ∃ saves, run { w with storeAccepts := accepts } acts = { run w acts with saves := saves } := by
  induction acts using List.reverseRecOn with
  | nil => exact ⟨[], rfl⟩
  | append_singleton acts act ih =>
      obtain ⟨saves, h⟩ := ih
      rw [run_concat, run_concat, h]
      exact perform_store w accepts (run w acts) act saves

end Timeline

end Pipewright.Preview
