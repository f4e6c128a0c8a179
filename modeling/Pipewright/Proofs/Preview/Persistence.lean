import Mathlib.Data.List.Forall2
import Pipewright.Proofs.Preview.Interleaving

/-!
# The Displayed Successes Are What Is Saved

A live preview saves a configuration when it shows a success. The save and the success come from
one result, and the result from the run of one edit; so the saved configurations are those of the
edits whose successes were displayed, one for one, whatever else is going on. The store is told of
the saves and has no say in anything else.

## Main definitions

* `Interplay.displayed`: the successes that were displayed.
* `Interplay.Persists`: the saved configurations are those of the displayed successes.

## Main results

* `Interplay.Tallies.move`: what an event adds to the saves.
* `Interplay.run_blind`: nothing but the saves hangs on the store.
* `Interplay.persists_of_run`: both together, for any events.
-/

namespace Pipewright.Preview

open Arbiter (News)

/-- The success that is shown, with the stamp of its edit. -/
def State.success? : State → Option (Stamp × Success)
  | .showing s (.success result) => some (s, result)
  | .showing _ (.failure ..) | .idle _ | .waiting _ | .running _ => none

theorem State.success?_eq_some_iff {st : State} {d : Stamp × Success} :
    st.success? = some d ↔ st = .showing d.1 (.success d.2) := by
  cases st with
  | showing s o => cases o <;> simp [success?, Prod.ext_iff]
  | idle | waiting | running => simp [success?]

namespace Interplay

variable {p p' : Interplay} {e : Event} {h : List News}

/-! ### What is saved -/

/-- A success is shown when it is news. -/
theorem success?_state_eq_some_iff {n : News} {d : Stamp × Success} :
    n.state.success? = some d ↔ n = .shown d.1 (.success d.2) := by
  rw [State.success?_eq_some_iff]
  cases n <;> simp [News.state]

/-- The successes that were displayed, in order, with the stamps of their edits. -/
def displayed (p : Interplay) : List (Stamp × Success) :=
  p.published.filterMap State.success?

/-- The success `d` is that of an edit with the configuration `c`, whose command line it shows. -/
structure Records (p : Interplay) (d : Stamp × Success) (c : Configuration) : Prop where
  /-- The configuration is that of the edit. -/
  edit : ∃ x ∈ p.edits, x.stamp = d.1 ∧ x.bench.configuration = c
  /-- The command is its command line. -/
  command : d.2.command = c.commandLine

theorem Tallies.displayed_eq (hp : Tallies h p) :
    p.displayed = h.filterMap (·.state.success?) := by
  rw [displayed, hp.published, List.filterMap_cons, List.filterMap_map]
  rfl

/-- What is saved with a result that is handed back is recorded by its success. -/
theorem Tallies.records (hp : Tallies h p) {l : Landing} (hl : l ∈ p.inbox) :
    List.Forall₂ p.Records (State.showing l.stamp (.ofResult l.result)).success?.toList
      l.toSave.toList := by
  obtain ⟨r, hr, hlanding⟩ := hp.inbox l hl
  obtain ⟨hstamp, hconfiguration, hresult⟩ := Run.landing?_eq_some_iff.mp hlanding
  cases hok : l.result with
  | error e => simp [Outcome.ofResult, State.success?, Landing.toSave, hok]
  | ok d =>
      obtain ⟨reply, -, hjudge⟩ := Run.reply_of_result? (hresult.trans (congrArg some hok))
      have hedit : r.submission ∈ p.edits := by
        have hmem : r.submission ∈ h.filterMap News.released? :=
          hp.runs ▸ List.mem_map_of_mem hr
        obtain ⟨n, hn, hnx⟩ := List.mem_filterMap.mp hmem
        rw [News.released?_eq_some_iff] at hnx
        exact hp.mem_edits (hp.tells.known _ (hnx ▸ hn))
      have hrecords : p.Records (l.stamp, d) l.configuration :=
        ⟨⟨r.submission, hedit, hstamp, hconfiguration⟩,
          hconfiguration ▸ command_of_judge hjudge⟩
      simpa [Outcome.ofResult, State.success?, Landing.toSave, hok] using hrecords

/-- **One event** adds to the history what has come of it, and to the saves of a store that
accepts them what is recorded by the success in it. -/
theorem Tallies.move (hp : Tallies h p) (hm : Move p e p') :
    ∃ (n : Option News) (saved : List Configuration), Tallies (h ++ n.toList) p' ∧
      p'.saves = p.saves ++ saved ∧
      (e ≠ .land false → List.Forall₂ p.Records (n.bind (·.state.success?)).toList saved) := by
  cases hm with
  | submit bench =>
      exact ⟨none, [], by simpa using hp.submit bench, (List.append_nil _).symm, by simp⟩
  | @receive _ due underWay x rest waits =>
      exact ⟨some (.accepted x), [], hp.receive waits due underWay, by simp [publish],
        fun _ => .nil⟩
  | @expire underWay set =>
      obtain ⟨n, hstage, hnext⟩ := hp.expire set underWay
      have hnone : n.state.success? = none := by
        refine Option.eq_none_iff_forall_ne_some.mpr fun d hd => ?_
        rw [success?_state_eq_some_iff.mp hd] at hstage
        cases hstage
      exact ⟨some n, [], hnext, by simp [publish], by simp [hnone]⟩
  | proceed here opened same =>
      exact ⟨none, [], by simpa using hp.proceed here opened same _, by simp [Interplay.proceed],
        by simp⟩
  | @shown accepts l rest waits wanted =>
      refine ⟨some (.shown l.stamp (.ofResult l.result)), _, hp.land waits wanted _, rfl, ?_⟩
      intro haccepts
      have htrue : accepts = true := by simpa using haccepts
      rw [if_pos htrue]
      exact hp.records (waits ▸ List.mem_cons_self)
  | dropped waits => exact ⟨none, [], by simpa using hp.drop waits, by simp, by simp⟩

/-- An edit that has been submitted is one for good. -/
theorem Move.edits_subset (hm : Move p e p') : p.edits ⊆ p'.edits := by
  cases hm with
  | submit bench => exact List.subset_append_left _ _
  | receive | expire | proceed | shown | dropped => exact List.Subset.refl _

theorem run_concat (settings : Settings) (events : List Event) (e : Event) :
    run settings (events ++ [e]) = (run settings events).bind (·.step settings e) := by
  simp [run, List.foldlM_append]

/-- What an interplay has published is the history of its arbiter, and what a store that accepts
everything holds is recorded by the successes in it. -/
theorem exists_tallies_of_run {settings : Settings} {events : List Event}
    (hrun : run settings events = some p) :
    ∃ h, Tallies h p ∧
      ((∀ e ∈ events, e ≠ .land false) → List.Forall₂ p.Records p.displayed p.saves) := by
  induction events using List.reverseRecOn generalizing p with
  | nil =>
      cases hrun
      exact ⟨[], tallies_start, fun _ => .nil⟩
  | append_singleton events e ih =>
      rw [run_concat] at hrun
      obtain ⟨q, hq, hstep⟩ := Option.bind_eq_some_iff.mp hrun
      have hm := move_of_step settings hstep
      obtain ⟨h, hp, hsaves⟩ := ih hq
      obtain ⟨n, saved, hnext, heq, hsaved⟩ := hp.move hm
      refine ⟨h ++ n.toList, hnext, fun haccepts => ?_⟩
      have hdisplayed : p.displayed = q.displayed ++ (n.bind (·.state.success?)).toList := by
        rw [hp.displayed_eq, hnext.displayed_eq, List.filterMap_append]
        cases n with
        | none => rfl
        | some n => exact congrArg _ (filterMap_concat _ [] n)
      have hgrow : ∀ d c, q.Records d c → p.Records d c := by
        rintro d c ⟨⟨x, hx, hd⟩, hcommand⟩
        exact ⟨⟨x, hm.edits_subset hx, hd⟩, hcommand⟩
      rw [hdisplayed, heq]
      refine List.rel_append ?_ ?_
      · exact (hsaves fun e' he' => haccepts e' (List.mem_append_left _ he')).imp hgrow
      · exact (hsaved (haccepts e (by simp))).imp hgrow

/-! ### What is displayed -/

/-- A newer edit has taken the place of the edit with stamp `s` before a result of it was
shown. -/
def Superseded (p : Interplay) (s : Stamp) : Prop :=
  ∃ earlier st later, p.published = earlier ++ st :: later ∧ s < st.stamp ∧
    ∀ o, .showing s o ∉ earlier

/-- The edit with stamp `s` has been found to have nothing to run, or nothing to run it on. -/
def Cleared (p : Interplay) (s : Stamp) : Prop :=
  .idle s ∈ p.published

/-- A run of the edit with stamp `s` has failed, or such a failure has been shown. -/
def Failed (p : Interplay) (s : Stamp) : Prop :=
  (∃ r ∈ p.runs, r.submission.stamp = s ∧ ∃ reason, r.result? = some (.error reason)) ∨
    ∃ message transport, .showing s (.failure message transport) ∈ p.published

/-- A run of the edit with stamp `s` has broken down. -/
def BrokeDown (p : Interplay) (s : Stamp) : Prop :=
  ∃ r ∈ p.runs, r.submission.stamp = s ∧ ∃ message, r.stage = .answered (.breakdown message)

/-- The saved configurations are those of the displayed successes. -/
structure Persists (p : Interplay) : Prop where
  /-- In the order in which the successes were displayed, each save is the configuration of the
  edit, and its command line is the command that is shown. -/
  saved : List.Forall₂ p.Records p.displayed p.saves
  /-- No edit shares its stamp with another one. -/
  stamps : p.edits.Pairwise fun x y => x.stamp < y.stamp
  /-- Later successes are those of later edits, so that no edit is saved twice. -/
  once : p.displayed.Pairwise fun d d' => d.1 < d'.1
  /-- A success is the one that a reply of the tool amounts to, in the one run of its edit. -/
  replied : ∀ d ∈ p.displayed, ∃ r ∈ p.runs, r.submission.stamp = d.1 ∧
    ∃ reply, r.stage = .answered (.reply reply) ∧
      judge r.submission.bench.configuration reply = .ok d.2
  /-- No edit is saved that a newer one has taken the place of, -/
  notSuperseded : ∀ d ∈ p.displayed, ¬ p.Superseded d.1
  /-- that has been cleared away, -/
  notCleared : ∀ d ∈ p.displayed, ¬ p.Cleared d.1
  /-- that has failed, -/
  notFailed : ∀ d ∈ p.displayed, ¬ p.Failed d.1
  /-- or whose run has broken down. -/
  notBrokeDown : ∀ d ∈ p.displayed, ¬ p.BrokeDown d.1

theorem Tallies.shown_of_displayed (hp : Tallies h p) {d : Stamp × Success}
    (hd : d ∈ p.displayed) : News.shown d.1 (.success d.2) ∈ h := by
  rw [hp.displayed_eq] at hd
  obtain ⟨n, hn, hs⟩ := List.mem_filterMap.mp hd
  exact success?_state_eq_some_iff.mp hs ▸ hn

/-- The stamps of what has been published never get smaller. -/
theorem Tallies.published_ordered (hp : Tallies h p) :
    p.published.Pairwise fun st st' => st.stamp ≤ st'.stamp := by
  rw [hp.published]
  refine List.pairwise_cons.mpr ⟨fun _ _ => Nat.zero_le _, List.pairwise_map.mpr ?_⟩
  refine hp.tells.ordered.imp fun {n m} hnm => ?_
  rw [News.state_stamp, News.state_stamp]
  exact hnm.stamp_le

/-- No two runs are of the same edit. -/
theorem Tallies.nodup_stamps (hp : Tallies h p) :
    (p.runs.map fun r => r.submission.stamp).Nodup := by
  have hgrowing : (p.runs.map Run.submission).Pairwise fun x y => x.stamp < y.stamp := by
    rw [hp.runs]
    refine Arbiter.pairwise_filterMap (k := 1) hp.tells.ordered fun n x hn => ?_
    rw [News.released?_eq_some_iff.mp hn]
    exact ⟨rfl, rfl⟩
  exact List.pairwise_map.mpr ((List.pairwise_map.mp hgrowing).imp Nat.ne_of_lt)

/-- There is one run at most for each edit. -/
theorem Tallies.run_unique (hp : Tallies h p) {r q : Run} (hr : r ∈ p.runs) (hq : q ∈ p.runs)
    (hstamp : r.submission.stamp = q.submission.stamp) : r = q :=
  List.inj_on_of_nodup_map hp.nodup_stamps hr hq hstamp

/-- What has been published is an entry of the history, unless it is what there was at first. -/
theorem Tallies.mem_published (hp : Tallies h p) {st : State} (hst : st ∈ p.published) :
    st = .idle 0 ∨ ∃ n ∈ h, n.state = st := by
  rw [hp.published] at hst
  rcases List.mem_cons.mp hst with hst | hst
  · exact .inl hst
  · exact .inr (List.mem_map.mp hst)

/-- The run of a displayed success. -/
theorem Tallies.run_of_displayed (hp : Tallies h p) {d : Stamp × Success}
    (hd : d ∈ p.displayed) :
    ∃ r ∈ p.runs, r.submission.stamp = d.1 ∧ r.result? = some (.ok d.2) := by
  obtain ⟨r, hr, hstamp, hresult⟩ := hp.shown _ _ (hp.shown_of_displayed hd)
  refine ⟨r, hr, hstamp, ?_⟩
  obtain ⟨result, hresult, hsuccess⟩ := Option.map_eq_some_iff.mp hresult
  cases result with
  | error reason => cases hsuccess
  | ok s =>
      cases hsuccess
      exact hresult

/-- All runs of an edit whose success was displayed have that result. -/
theorem Tallies.result_of_displayed (hp : Tallies h p) {d : Stamp × Success}
    (hd : d ∈ p.displayed) {r : Run} (hr : r ∈ p.runs) (hstamp : r.submission.stamp = d.1) :
    r.result? = some (.ok d.2) := by
  obtain ⟨q, hq, hq', hresult⟩ := hp.run_of_displayed hd
  rwa [hp.run_unique hr hq (hstamp.trans hq'.symm)]

theorem Tallies.not_superseded (hp : Tallies h p) {d : Stamp × Success}
    (hd : d ∈ p.displayed) : ¬ p.Superseded d.1 := by
  rintro ⟨earlier, st, later, heq, hlt, hnone⟩
  obtain ⟨st', hst', hd⟩ := List.mem_filterMap.mp hd
  obtain rfl := State.success?_eq_some_iff.mp hd
  have hordered := hp.published_ordered
  rw [heq] at hst' hordered
  rcases List.mem_append.mp hst' with hst' | hst'
  · exact hnone _ hst'
  · rcases List.mem_cons.mp hst' with rfl | hst'
    · exact Nat.lt_irrefl _ hlt
    · have hle := (List.pairwise_cons.mp (List.pairwise_append.mp hordered).2.1).1 _ hst'
      exact Nat.not_lt.mpr hle hlt

theorem Tallies.not_cleared (hp : Tallies h p) {d : Stamp × Success}
    (hd : d ∈ p.displayed) : ¬ p.Cleared d.1 := by
  intro hidle
  have hshown := hp.shown_of_displayed hd
  rcases hp.mem_published hidle with hzero | ⟨n, hn, hstate⟩
  · obtain ⟨x, hx, hstamp⟩ := hp.tells.rooted _ hshown
    have hpos := (hp.counted x (hp.mem_edits hx)).1
    rw [hstamp, News.stamp, State.idle.inj hzero] at hpos
    exact Nat.lt_irrefl _ hpos
  · cases n with
    | cleared x =>
        obtain ⟨y, hy, hstamp⟩ := hp.tells.ran _ _ hshown
        cases hp.tells.eq_of_stage hn hy ((State.idle.inj hstate).trans hstamp.symm) rfl
    | accepted | released | shown => cases hstate

theorem Tallies.not_failed (hp : Tallies h p) {d : Stamp × Success}
    (hd : d ∈ p.displayed) : ¬ p.Failed d.1 := by
  rintro (⟨r, hr, hstamp, reason, hresult⟩ | ⟨message, transport, hfailure⟩)
  · rw [hp.result_of_displayed hd hr hstamp] at hresult
    cases hresult
  · rcases hp.mem_published hfailure with hzero | ⟨n, hn, hstate⟩
    · cases hzero
    · cases n with
      | shown s o =>
          cases hstate
          cases hp.tells.eq_of_stage hn (hp.shown_of_displayed hd) rfl rfl
      | accepted | released | cleared => cases hstate

theorem Tallies.not_brokeDown (hp : Tallies h p) {d : Stamp × Success}
    (hd : d ∈ p.displayed) : ¬ p.BrokeDown d.1 := by
  rintro ⟨r, hr, hstamp, message, hstage⟩
  obtain ⟨reply, hreply, -⟩ := Run.reply_of_result? (hp.result_of_displayed hd hr hstamp)
  rw [hstage] at hreply
  cases hreply

theorem Tallies.persists (hp : Tallies h p)
    (saved : List.Forall₂ p.Records p.displayed p.saves) : p.Persists where
  saved := saved
  stamps := hp.growing
  once := by
    rw [hp.displayed_eq]
    refine Arbiter.pairwise_filterMap (k := 2) hp.tells.ordered fun n d hn => ?_
    rw [success?_state_eq_some_iff.mp hn]
    exact ⟨rfl, rfl⟩
  replied d hd := by
    obtain ⟨r, hr, hstamp, hresult⟩ := hp.run_of_displayed hd
    exact ⟨r, hr, hstamp, Run.reply_of_result? hresult⟩
  notSuperseded _ := hp.not_superseded
  notCleared _ := hp.not_cleared
  notFailed _ := hp.not_failed
  notBrokeDown _ := hp.not_brokeDown

/-! ### The store -/

/-- The interplay without its saves. -/
def forget (p : Interplay) : Interplay :=
  { p with saves := [] }

end Interplay

/-- The event with a store that accepts what is saved. -/
def Event.blind : Event → Event
  | .land _ => .land true
  | e => e

theorem Event.blind_blind (e : Event) : e.blind.blind = e.blind := by
  cases e <;> rfl

namespace Interplay

/-- Whether an event can happen, and what comes of it but for the saves, hangs neither on the
saves nor on the store. -/
theorem step_blind (settings : Settings) (p : Interplay) (e : Event) :
    (p.step settings e).map forget = (p.forget.step settings e.blind).map forget := by
  cases e with
  | submit bench => rfl
  | receive now =>
      simp only [step, receive, Event.blind, forget]
      cases p.queue <;> rfl
  | expire =>
      simp only [step, expire, Event.blind, forget]
      cases p.live.deadline <;> rfl
  | call i files =>
      simp only [step, call, Event.blind, forget]
      split
      · split <;> rfl
      all_goals rfl
  | answer i a =>
      simp only [step, answer, Event.blind, forget]
      split <;> rfl
  | vanish i =>
      have hruns : p.forget.runs = p.runs := rfl
      have hlive : p.forget.live = p.live := rfl
      simp only [step, vanish, Event.blind]
      rw [hruns, hlive]
      split
      · split <;> rfl
      · rfl
  | land accepts =>
      simp only [step, land, Event.blind, forget]
      cases p.inbox <;> rfl

/-- Of the events so far, only what they have come to but for the saves counts for what comes of
the next one. -/
theorem forget_run_concat (settings : Settings) (events : List Event) (e : Event) :
    (run settings (events ++ [e])).map forget =
      ((run settings events).map forget).bind fun q => (q.step settings e.blind).map forget := by
  rw [run_concat]
  cases run settings events with
  | none => rfl
  | some p => exact p.step_blind settings e

/-- Nothing but the saves hangs on the store. -/
theorem run_blind (settings : Settings) (events : List Event) :
    (run settings events).map forget = (run settings (events.map Event.blind)).map forget := by
  induction events using List.reverseRecOn with
  | nil => rfl
  | append_singleton events e ih =>
      rw [List.map_append, List.map_singleton, forget_run_concat, forget_run_concat, ih,
        Event.blind_blind]

/-- **Exactly the displayed successes are saved**, in whatever order things happen, by a store
that accepts them. What the store does with its saves changes nothing else: with any other answers
of the store, the same happens, the same is published and the tool is called in the same way. -/
theorem persists_of_run {settings : Settings} {events : List Event}
    (hrun : run settings events = some p) :
    ((∀ e ∈ events, e ≠ .land false) → p.Persists) ∧
      ∀ events', events'.map Event.blind = events.map Event.blind →
        ∃ saves, run settings events' = some { p with saves := saves } := by
  refine ⟨fun haccepts => ?_, fun events' hblind => ?_⟩
  · obtain ⟨h, hp, hsaves⟩ := exists_tallies_of_run hrun
    exact hp.persists (hsaves haccepts)
  · have hsame := run_blind settings events'
    rw [hblind, ← run_blind, hrun] at hsame
    obtain ⟨q, hq, hforget⟩ := Option.map_eq_some_iff.mp hsame
    refine ⟨q.saves, ?_⟩
    have hrest : q = { q.forget with saves := q.saves } := rfl
    rw [hq, hrest, hforget]
    rfl

/-- A newer edit comes in while the tool works on an older one, which the tool answers all the
same. -/
theorem persists_of_run_superseded :
    ∃ p, run {}
        [.submit ⟨{ steps := [⟨"cat", true⟩] }, "a=1"⟩, .receive 0, .expire, .call 0 .empty,
          .submit ⟨{ steps := [⟨"tac", true⟩] }, "a=1"⟩, .receive 700, .answer 0 (.reply (.ok {})),
          .expire, .land true, .call 1 .empty, .answer 1 (.reply (.ok {})), .land true] = some p ∧
      p.saves = [{ steps := [⟨"tac", true⟩] }] ∧ p.Persists := by
  refine ⟨_, (Option.some_get (by decide +kernel)).symm, by decide +kernel, ?_⟩
  exact (persists_of_run (Option.some_get (by decide +kernel)).symm).1 (by simp)

end Interplay

end Pipewright.Preview
