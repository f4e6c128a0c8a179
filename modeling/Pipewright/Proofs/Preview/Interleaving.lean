import Pipewright.Preview.Interplay
import Pipewright.Proofs.Preview.LatestEdit

/-!
# Interleavings

Among its parties, a live preview is told of edits, pauses and results in any order, and several
runs may be on their way at once. This module says what one event can do, and what holds after any
events: what has been published is the history of the arbiter inside, entry by entry.

That edits come in with growing stamps, and that the timer is set only while an edit waits, makes
every publication an entry of its own. A result that is shown was handed back by a run of its
edit, and a run begins for an edit only when the arbiter hands it out.

## Main results

* `Interplay.move_of_step`: what an event can do.
* `Interplay.Tallies`: the interplay agrees with the history of its arbiter.
* `Interplay.Tallies.tell`: it goes on to agree with it when the arbiter is told of something.
-/

namespace Pipewright.Preview

open Arbiter (News Turn Tells)

/-- What is saved when the result is shown. -/
def Landing.toSave (l : Landing) : Option Configuration :=
  match l.result with
  | .ok _ => some l.configuration
  | .error _ => none

/-! ### Runs -/

/-- The command of a success is the command line of its configuration. -/
theorem command_of_judge {c : Configuration} {reply : Except RunError ToolReply} {d : Success}
    (h : judge c reply = .ok d) : d.command = c.commandLine := by
  unfold judge at h
  split at h
  · cases h
  · split at h
    · cases h
      rfl
    · cases h

namespace Run

/-- A run with a success has a reply of the tool that was judged to be one. -/
theorem reply_of_result? {r : Run} {d : Success} (h : r.result? = some (.ok d)) :
    ∃ reply, r.stage = .answered (.reply reply) ∧
      judge r.submission.bench.configuration reply = .ok d := by
  unfold result? at h
  split at h
  · simp at h
  · rename_i answer hstage
    cases answer with
    | reply reply => exact ⟨reply, hstage, by simpa [settleAnswer] using h⟩
    | breakdown message => simp [settleAnswer] at h
  all_goals simp at h

theorem landing?_eq_some_iff {r : Run} {l : Landing} :
    r.landing? = some l ↔ r.submission.stamp = l.stamp ∧
      r.submission.bench.configuration = l.configuration ∧ r.result? = some l.result := by
  obtain ⟨stamp, configuration, result⟩ := l
  simp only [landing?, Option.map_eq_some_iff, Landing.mk.injEq]
  constructor
  · rintro ⟨_, hresult, rfl, rfl, rfl⟩
    exact ⟨rfl, rfl, hresult⟩
  · rintro ⟨rfl, rfl, hresult⟩
    exact ⟨_, hresult, rfl, rfl, rfl⟩

/-- A run that has a result is not open. -/
theorem result?_of_isOpen {r : Run} (h : r.isOpen = true) : r.result? = none := by
  unfold isOpen at h
  unfold result?
  cases hstage : r.stage <;> simp_all

end Run

namespace Interplay

/-! ### One event -/

/-- The interplay with a new arbiter, whose state is published. -/
def publish (p : Interplay) (a : Arbiter) (deadline : Option Nat) (underWay : Option Stamp) :
    Interplay :=
  { p with live := ⟨a, deadline, underWay, a.state⟩, published := p.published ++ [a.state] }

/-- What an event can do. The three events of a run differ only in where they take it. -/
inductive Move (p : Interplay) : Event → Interplay → Prop where
  /-- An edit is submitted. -/
  | submit (bench : Bench) : Move p (.submit bench) (p.submit bench)
  /-- The arbiter is told of the oldest edit, and the timer is set. -/
  | receive {now due : Nat} {underWay : Option Stamp} {x : Submission} {rest : List Submission}
      (waits : p.queue = x :: rest) :
      Move p (.receive now)
        { p.publish (p.live.arbiter.after (.accept x.stamp x.bench)) (some due) underWay with
          queue := rest }
  /-- The arbiter is told of the pause, and what it hands out is run. -/
  | expire {underWay : Option Stamp} (set : p.live.deadline.isSome = true) :
      Move p .expire
        { p.publish (p.live.arbiter.after .release) none underWay with
          runs := p.runs ++ p.live.arbiter.release.1.toList.map (⟨·, .begun⟩) }
  /-- A run that has not ended goes on. -/
  | proceed {e : Event} {run : Nat} {r r' : Run} {more : List Request}
      (here : p.runs[run]? = some r) (opened : r.isOpen = true)
      (same : r'.submission = r.submission) :
      Move p e { p.proceed run r' with calls := p.calls ++ more }
  /-- A result that is wanted is shown, and saved if it is a success. -/
  | shown {accepts : Bool} {l : Landing} {rest : List Landing} (waits : p.inbox = l :: rest)
      (wanted : p.live.arbiter.state = .running l.stamp) :
      Move p (.land accepts)
        { p.publish (p.live.arbiter.after (.conclude l.stamp (.ofResult l.result)))
            p.live.deadline none with
          inbox := rest
          saves := p.saves ++ if accepts then l.toSave.toList else [] }
  /-- Any other result is dropped. -/
  | dropped {accepts : Bool} {l : Landing} {rest : List Landing} (waits : p.inbox = l :: rest)
      (unwanted : p.live.arbiter.state ≠ .running l.stamp) :
      Move p (.land accepts) { p with inbox := rest }

variable {p p' : Interplay} {e : Event}

/-- A run goes on without a call of the tool. -/
theorem Move.quiet {run : Nat} {r r' : Run} (here : p.runs[run]? = some r)
    (opened : r.isOpen = true) (same : r'.submission = r.submission) :
    Move p e (p.proceed run r') := by
  have h : Move p e { p.proceed run r' with calls := p.calls ++ [] } :=
    .proceed here opened same
  rwa [List.append_nil] at h

theorem move_of_receive (settings : Settings) {now : Nat} (h : p.receive settings now = some p') :
    Move p (.receive now) p' := by
  unfold receive at h
  split at h
  · cases h
  · rename_i x rest hqueue
    cases h
    exact .receive hqueue

theorem move_of_expire (h : p.expire = some p') : Move p .expire p' := by
  unfold expire at h
  split at h
  · cases h
  · rename_i due hdue
    cases h
    exact .expire (by simp [hdue])

theorem move_of_call (settings : Settings) {i : Nat} {files : Files.Tree}
    (h : p.call settings i files = some p') :
    Move p (.call i files) p' := by
  unfold call at h
  split at h
  · rename_i x hrun
    split at h
    · cases h
      exact .quiet hrun rfl rfl
    · cases h
      exact .proceed hrun rfl rfl
  all_goals cases h

theorem move_of_answer {i : Nat} {a : Answer} (h : p.answer i a = some p') :
    Move p (.answer i a) p' := by
  unfold answer at h
  split at h
  · rename_i x hrun
    cases h
    exact .quiet hrun rfl rfl
  all_goals cases h

theorem move_of_vanish {i : Nat} (h : p.vanish i = some p') : Move p (.vanish i) p' := by
  unfold vanish at h
  split at h
  · rename_i r hrun
    split at h
    · rename_i hopen
      cases h
      exact .quiet hrun (Bool.and_eq_true_iff.mp hopen).1 rfl
    · cases h
  · cases h

theorem move_of_land {accepts : Bool} (h : p.land accepts = some p') :
    Move p (.land accepts) p' := by
  unfold land at h
  split at h
  · cases h
  · rename_i l rest hinbox
    cases hwanted : p.live.arbiter.awaits l.stamp with
    | true =>
        simp only [Live.finish, hwanted, if_true, Option.some.injEq] at h
        subst h
        exact .shown hinbox ((Arbiter.awaits_iff _ _).mp hwanted)
    | false =>
        have hstate : p.live.arbiter.state ≠ .running l.stamp := by
          rw [ne_eq, ← Arbiter.awaits_iff, hwanted]
          exact Bool.false_ne_true
        simp only [Live.finish, hwanted, Bool.false_eq_true, if_false, Option.toList_none, ite_self,
          List.append_nil, Option.some.injEq] at h
        subst h
        exact .dropped hinbox hstate

/-- An event does one of these. -/
theorem move_of_step (settings : Settings) (h : p.step settings e = some p') : Move p e p' := by
  cases e with
  | submit bench =>
      cases h
      exact .submit bench
  | receive now => exact move_of_receive settings h
  | expire => exact move_of_expire h
  | call i files => exact move_of_call settings h
  | answer i a => exact move_of_answer h
  | vanish i => exact move_of_vanish h
  | land accepts => exact move_of_land h

/-! ### What has been published -/

theorem filterMap_concat {α β : Type} (f : α → Option β) (l : List α) (a : α) :
    (l ++ [a]).filterMap f = l.filterMap f ++ (f a).toList := by
  cases hf : f a <;> simp [hf]

/-- The interplay agrees with the history of its arbiter. -/
structure Tallies (h : List News) (p : Interplay) : Prop where
  /-- The history is that of the arbiter. -/
  tells : Tells h p.live.arbiter
  /-- Each entry has been published. -/
  published : p.published = .idle 0 :: h.map News.state
  /-- Every edit has been accepted, unless it has yet to be taken in. -/
  edits : p.edits = h.filterMap News.accepted? ++ p.queue
  /-- Later edits have greater stamps. -/
  growing : p.edits.Pairwise fun x y => x.stamp < y.stamp
  /-- The stamps count the edits from one. -/
  counted : ∀ x ∈ p.edits, 0 < x.stamp ∧ x.stamp ≤ p.edits.length
  /-- The timer is set only while an edit waits. -/
  timer : p.live.deadline.isSome = true → p.live.arbiter.pending.isSome = true
  /-- The runs are those of the edits that were handed out. -/
  runs : p.runs.map Run.submission = h.filterMap News.released?
  /-- A result that waits was handed back by a run. -/
  inbox : ∀ l ∈ p.inbox, ∃ r ∈ p.runs, r.landing? = some l
  /-- A result that was shown was handed back by a run. -/
  shown : ∀ s o, News.shown s o ∈ h →
    ∃ r ∈ p.runs, r.submission.stamp = s ∧ r.result?.map .ofResult = some o

theorem tallies_start : Tallies [] {} where
  tells := ⟨rfl, .nil, by simp, by simp, by simp⟩
  published := rfl
  edits := rfl
  growing := .nil
  counted := by simp
  timer := by simp
  runs := rfl
  inbox := by simp
  shown := by simp

variable {h : List News}

theorem Tallies.submit (hp : Tallies h p) (bench : Bench) : Tallies h (p.submit bench) where
  tells := hp.tells
  published := hp.published
  edits := by simp [Interplay.submit, ← List.append_assoc, ← hp.edits]
  growing := by
    refine List.pairwise_append.mpr ⟨hp.growing, List.pairwise_singleton _ _, ?_⟩
    intro x hx y hy
    rw [List.mem_singleton.mp hy]
    exact Nat.lt_succ_of_le (hp.counted x hx).2
  counted x hx := by
    rw [Interplay.submit, List.length_append]
    rcases List.mem_append.mp hx with hx | hx
    · exact ⟨(hp.counted x hx).1, Nat.le_succ_of_le (hp.counted x hx).2⟩
    · rw [List.mem_singleton.mp hx]
      exact ⟨Nat.succ_pos _, Nat.le_refl _⟩
  timer := hp.timer
  runs := hp.runs
  inbox := hp.inbox
  shown := hp.shown

theorem Tallies.mem_edits (hp : Tallies h p) {x : Submission} (hx : News.accepted x ∈ h) :
    x ∈ p.edits := by
  rw [hp.edits]
  refine List.mem_append_left _ (List.mem_filterMap.mpr ⟨_, hx, ?_⟩)
  exact News.accepted?_eq_some_iff.mpr rfl

/-- An edit that has yet to be taken in is newer than the newest one. -/
theorem Tallies.latest_lt (hp : Tallies h p) {x : Submission} (hx : x ∈ p.queue) :
    p.live.arbiter.latest < x.stamp := by
  rcases hp.tells.latest with hzero | ⟨y, hy, hlatest⟩
  · rw [hzero]
    exact (hp.counted x (hp.edits ▸ List.mem_append_right _ hx)).1
  · rw [← hlatest]
    have hgrowing := hp.growing
    rw [hp.edits] at hgrowing
    refine (List.pairwise_append.mp hgrowing).2.2 y ?_ x hx
    exact List.mem_filterMap.mpr ⟨_, hy, News.accepted?_eq_some_iff.mpr rfl⟩

/-- When something comes of a call of the arbiter, the history goes on with it. -/
theorem Tallies.tell (hp : Tallies h p) {c : Arbiter.Call} {n : News} {b : Arbiter}
    (ht : Turn p.live.arbiter c (some n) b) (arbiter : p'.live.arbiter = b)
    (published : p'.published = p.published ++ [b.state]) (edits : p'.edits = p.edits)
    (queue : p.queue = n.accepted?.toList ++ p'.queue)
    (timer : p'.live.deadline.isSome = true → b.pending.isSome = true)
    (runs : p'.runs = p.runs ++ n.released?.toList.map (⟨·, .begun⟩))
    (inbox : p'.inbox ⊆ p.inbox)
    (shown : ∀ s o, n = .shown s o →
      ∃ r ∈ p.runs, r.submission.stamp = s ∧ r.result?.map .ofResult = some o) :
    Tallies (h ++ [n]) p' where
  tells := arbiter ▸ hp.tells.turn ht
  published := by simp [published, hp.published, ht.state_eq]
  edits := by rw [edits, hp.edits, queue, filterMap_concat, List.append_assoc]
  growing := edits ▸ hp.growing
  counted := edits ▸ hp.counted
  timer := arbiter ▸ timer
  runs := by
    rw [runs, List.map_append, hp.runs, filterMap_concat, List.map_map]
    exact congrArg _ (List.map_id _)
  inbox l hl := by
    obtain ⟨r, hr, hlanding⟩ := hp.inbox l (inbox hl)
    exact ⟨r, runs ▸ List.mem_append_left _ hr, hlanding⟩
  shown s o hs := by
    obtain ⟨r, hr, hresult⟩ : ∃ r ∈ p.runs, r.submission.stamp = s ∧
        r.result?.map .ofResult = some o := by
      rcases List.mem_append.mp hs with hs | hs
      · exact hp.shown s o hs
      · exact shown s o (List.mem_singleton.mp hs).symm
    exact ⟨r, runs ▸ List.mem_append_left _ hr, hresult⟩

theorem Tallies.receive (hp : Tallies h p) {x : Submission} {rest : List Submission}
    (waits : p.queue = x :: rest) (due : Nat) (underWay : Option Stamp) :
    Tallies (h ++ [.accepted x])
      { p.publish (p.live.arbiter.after (.accept x.stamp x.bench)) (some due) underWay with
        queue := rest } := by
  have ht := Arbiter.turn_after p.live.arbiter (.accept x.stamp x.bench)
  generalize p.live.arbiter.after _ = b, p.live.arbiter.news _ = n at ht ⊢
  cases ht with
  | refused older =>
      exact absurd (hp.latest_lt (waits ▸ List.mem_cons_self)) (Nat.not_lt.mpr older)
  | accepted newer =>
      exact hp.tell (.accepted newer) rfl rfl rfl waits (fun _ => rfl) (List.append_nil _).symm
        (fun _ hl => hl) (by simp)

/-- What is handed out at the end of a pause is in the news. -/
theorem release_eq (a : Arbiter) : a.release.1 = (a.news .release).bind News.released? := by
  unfold Arbiter.news Arbiter.release
  split
  · simp [*]
  · split <;> simp [*, News.released?]

theorem Tallies.expire (hp : Tallies h p) (set : p.live.deadline.isSome = true)
    (underWay : Option Stamp) :
    ∃ n, n.stage = 1 ∧ Tallies (h ++ [n])
      { p.publish (p.live.arbiter.after .release) none underWay with
        runs := p.runs ++ p.live.arbiter.release.1.toList.map (⟨·, .begun⟩) } := by
  have ht := Arbiter.turn_after p.live.arbiter .release
  rw [release_eq]
  generalize p.live.arbiter.after _ = b, p.live.arbiter.news _ = n at ht ⊢
  -- the timer is set only while an edit waits, so that something comes of the pause
  cases ht with
  | bored empty =>
      have hwaits := hp.timer set
      simp [empty] at hwaits
  | released waits ready =>
      exact ⟨_, rfl, hp.tell (.released waits ready) rfl rfl rfl rfl (by simp [publish]) rfl
        (fun _ hl => hl) (by simp)⟩
  | cleared waits ready =>
      exact ⟨_, rfl, hp.tell (.cleared waits ready) rfl rfl rfl rfl (by simp [publish]) rfl
        (fun _ hl => hl) (by simp)⟩

theorem Tallies.land (hp : Tallies h p) {l : Landing} {rest : List Landing}
    (waits : p.inbox = l :: rest) (wanted : p.live.arbiter.state = .running l.stamp)
    (saves : List Configuration) :
    Tallies (h ++ [.shown l.stamp (.ofResult l.result)])
      { p.publish (p.live.arbiter.after (.conclude l.stamp (.ofResult l.result)))
          p.live.deadline none with
        inbox := rest
        saves := saves } := by
  have ht := Arbiter.turn_after p.live.arbiter (.conclude l.stamp (.ofResult l.result))
  generalize p.live.arbiter.after _ = b, p.live.arbiter.news _ = n at ht ⊢
  cases ht with
  | stale unwanted => exact absurd wanted unwanted
  | shown runs =>
      refine hp.tell (.shown runs) rfl rfl rfl rfl hp.timer (List.append_nil _).symm
        (fun _ hl => waits ▸ List.mem_cons_of_mem _ hl) ?_
      rintro s o ⟨⟩
      obtain ⟨r, hr, hlanding⟩ := hp.inbox l (waits ▸ List.mem_cons_self)
      obtain ⟨hstamp, -, hresult⟩ := Run.landing?_eq_some_iff.mp hlanding
      exact ⟨r, hr, hstamp, by simp [hresult]⟩

/-- A run that goes on leaves the runs with results as they are. -/
theorem mem_runs_proceed {i : Nat} {r r' q : Run} (here : p.runs[i]? = some r)
    (opened : r.isOpen = true) (hq : q ∈ p.runs) (hresult : q.result?.isSome = true) :
    q ∈ (p.proceed i r').runs := by
  obtain ⟨j, hj, rfl⟩ := List.mem_iff_getElem.mp hq
  -- the run that goes on is open, so it is not the one with a result
  have hne : i ≠ j := by
    rintro rfl
    rw [List.getElem?_eq_getElem hj] at here
    rw [Option.some.inj here, Run.result?_of_isOpen opened] at hresult
    simp at hresult
  have hget : (p.proceed i r').runs[j]? = some p.runs[j] := by
    rw [proceed, List.getElem?_set_ne hne, List.getElem?_eq_getElem hj]
  exact List.mem_of_getElem? hget

theorem Tallies.proceed (hp : Tallies h p) {i : Nat} {r r' : Run} (here : p.runs[i]? = some r)
    (opened : r.isOpen = true) (same : r'.submission = r.submission) (calls : List Request) :
    Tallies h { p.proceed i r' with calls := calls } where
  tells := hp.tells
  published := hp.published
  edits := hp.edits
  growing := hp.growing
  counted := hp.counted
  timer := hp.timer
  runs := by
    rw [← hp.runs]
    simp only [Interplay.proceed, List.map_set]
    refine List.ext_getElem? fun j => ?_
    rw [List.getElem?_set]
    split
    · rename_i hij
      subst hij
      rw [List.getElem?_map, here]
      simp [same, (List.getElem?_eq_some_iff.mp here).1]
    · rfl
  inbox l hl := by
    rcases List.mem_append.mp hl with hl | hl
    · obtain ⟨q, hq, hlanding⟩ := hp.inbox l hl
      refine ⟨q, mem_runs_proceed here opened hq ?_, hlanding⟩
      simp [(Run.landing?_eq_some_iff.mp hlanding).2.2]
    · have hlt := (List.getElem?_eq_some_iff.mp here).1
      exact ⟨r', List.mem_set hlt r', by simpa using hl⟩
  shown s o hs := by
    obtain ⟨q, hq, hstamp, hresult⟩ := hp.shown s o hs
    refine ⟨q, mem_runs_proceed here opened hq ?_, hstamp, hresult⟩
    obtain ⟨result, hresult, -⟩ := Option.map_eq_some_iff.mp hresult
    simp [hresult]

theorem Tallies.drop (hp : Tallies h p) {l : Landing} {rest : List Landing}
    (waits : p.inbox = l :: rest) : Tallies h { p with inbox := rest } where
  tells := hp.tells
  published := hp.published
  edits := hp.edits
  growing := hp.growing
  counted := hp.counted
  timer := hp.timer
  runs := hp.runs
  inbox k hk := hp.inbox k (waits ▸ List.mem_cons_of_mem _ hk)
  shown := hp.shown

end Interplay

end Pipewright.Preview
