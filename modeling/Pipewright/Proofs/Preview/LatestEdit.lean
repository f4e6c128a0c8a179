import Mathlib.Data.List.Induction
import Mathlib.Data.List.Nodup
import Mathlib.Order.Bounds.Basic
import Pipewright.Preview.Arbiter

/-!
# The Latest Edit Wins

An arbiter is told of edits, pauses and results in any order, with any stamps. What comes of
the calls is its history: an edit is accepted, it is released to be run or cleared away, a
result is shown. Calls that change nothing leave no trace in it.

Everything that is claimed of an arbiter follows from the shape of its history. The last entry
is all that an arbiter knows, and each entry is about a later edit than the one before it, or
about the same edit at a later stage. Both are kept by every call.

## Main results

* `Arbiter.turn_after`: what a call can do.
* `Arbiter.tells_run`: the history of an arbiter agrees with its state, and is in order.
* `Arbiter.latestWins`: what follows for the calls.
-/

namespace Pipewright.Preview.Arbiter

/-- What an arbiter can be told. -/
inductive Call where
  /-- An edit comes in. -/
  | accept (stamp : Stamp) (bench : Bench)
  /-- A pause is over. -/
  | release
  /-- A run has a result. -/
  | conclude (stamp : Stamp) (outcome : Outcome)

/-- What can come of a call. -/
inductive News where
  /-- The edit counts from now on. -/
  | accepted (submission : Submission)
  /-- The edit is handed out, to be run. -/
  | released (submission : Submission)
  /-- The edit is not ready and is cleared away. -/
  | cleared (submission : Submission)
  /-- The result is shown. -/
  | shown (stamp : Stamp) (outcome : Outcome)

namespace News

/-- The edit that the news is about. -/
def stamp : News → Stamp
  | accepted x | released x | cleared x => x.stamp
  | shown s _ => s

/-- How far the edit has come. -/
def stage : News → Nat
  | accepted _ => 0
  | released _ | cleared _ => 1
  | shown .. => 2

/-- The state after the news. -/
def state : News → State
  | accepted x => .waiting x.stamp
  | released x => .running x.stamp
  | cleared x => .idle x.stamp
  | shown s o => .showing s o

/-- The first news is about an earlier edit, or about the same edit at an earlier stage. -/
def Before (n m : News) : Prop :=
  n.stamp < m.stamp ∨ n.stamp = m.stamp ∧ n.stage < m.stage

/-- Of two entries at the same stage, one before the other, the second is about a later edit. -/
theorem Before.stamp_lt {n m : News} (h : n.Before m) (hstage : n.stage = m.stage) :
    n.stamp < m.stamp := by
  rcases h with h | ⟨-, h⟩
  · exact h
  · omega

theorem Before.stamp_le {n m : News} (h : n.Before m) : n.stamp ≤ m.stamp := by
  rcases h with h | ⟨h, -⟩
  · exact Nat.le_of_lt h
  · exact Nat.le_of_eq h

theorem Before.trans {n m k : News} (h : n.Before m) (h' : m.Before k) : n.Before k := by
  rcases h with h | ⟨hs, h⟩ <;> rcases h' with h' | ⟨hs', h'⟩
  · exact .inl (h.trans h')
  · exact .inl (hs' ▸ h)
  · exact .inl (hs ▸ h')
  · exact .inr ⟨hs.trans hs', h.trans h'⟩

/-- The accepted edit. -/
def accepted? : News → Option Submission
  | accepted x => some x
  | released _ | cleared _ | shown .. => none

/-- The edit that is handed out. -/
def released? : News → Option Submission
  | released x => some x
  | accepted _ | cleared _ | shown .. => none

/-- The result that is shown, with the stamp of its edit. -/
def shown? : News → Option (Stamp × Outcome)
  | shown s o => some (s, o)
  | accepted _ | released _ | cleared _ => none

@[simp]
theorem accepted?_eq_some_iff {n : News} {x : Submission} :
    n.accepted? = some x ↔ n = .accepted x := by
  cases n <;> simp [accepted?]

@[simp]
theorem released?_eq_some_iff {n : News} {x : Submission} :
    n.released? = some x ↔ n = .released x := by
  cases n <;> simp [released?]

@[simp]
theorem shown?_eq_some_iff {n : News} {p : Stamp × Outcome} :
    n.shown? = some p ↔ n = .shown p.1 p.2 := by
  cases n <;> simp [shown?, Prod.ext_iff]

theorem state_stamp (n : News) : n.state.stamp = n.stamp := by
  cases n <;> rfl

end News

/-- The arbiter after a call. -/
def after (a : Arbiter) : Call → Arbiter
  | .accept stamp bench => (a.accept stamp bench).2
  | .release => a.release.2
  | .conclude stamp outcome => (a.conclude stamp outcome).2

/-- What comes of a call: an edit that is newer than the newest one counts, the end of a pause
hands out what `release` answers or clears it away, and a result is shown when `conclude` says
so. -/
def news (a : Arbiter) : Call → Option News
  | .accept stamp bench => if stamp ≤ a.latest then none else some (.accepted ⟨stamp, bench⟩)
  | .release => (a.release.1.map .released).or (a.pending.map .cleared)
  | .conclude stamp outcome =>
    if (a.conclude stamp outcome).1 then some (.shown stamp outcome) else none

/-- The arbiter after the calls, from the start. -/
def run (calls : List Call) : Arbiter :=
  calls.foldl after {}

/-- What comes of the calls. -/
def newsOf (a : Arbiter) : List Call → List News
  | [] => []
  | c :: rest => (a.news c).toList ++ newsOf (a.after c) rest

/-- What has come of the calls, from the start. -/
def history (calls : List Call) : List News :=
  newsOf {} calls

/-- The edits that were accepted, in order. -/
def accepted (calls : List Call) : List Submission :=
  (history calls).filterMap News.accepted?

/-- The edits that were handed out, in order. -/
def released (calls : List Call) : List Submission :=
  (history calls).filterMap News.released?

/-- The results that were shown, in order, with the stamps of their edits. -/
def shown (calls : List Call) : List (Stamp × Outcome) :=
  (history calls).filterMap News.shown?

theorem run_concat (calls : List Call) (c : Call) : run (calls ++ [c]) = (run calls).after c := by
  simp [run]

theorem newsOf_append (a : Arbiter) (calls more : List Call) :
    a.newsOf (calls ++ more) = a.newsOf calls ++ (calls.foldl after a).newsOf more := by
  induction calls generalizing a with
  | nil => rfl
  | cons c rest ih => simp [newsOf, ih]

theorem history_concat (calls : List Call) (c : Call) :
    history (calls ++ [c]) = history calls ++ ((run calls).news c).toList := by
  simp [history, newsOf_append, newsOf, run]

/-! ### One call -/

/-- What a call can do: what comes of it, and the arbiter after it. -/
inductive Turn (a : Arbiter) : Call → Option News → Arbiter → Prop where
  /-- An edit that is newer takes the place of all others. -/
  | accepted {stamp : Stamp} {bench : Bench} (newer : a.latest < stamp) :
      Turn a (.accept stamp bench) (some (.accepted ⟨stamp, bench⟩))
        ⟨stamp, some ⟨stamp, bench⟩, .waiting stamp⟩
  /-- An edit that is not newer does not count. -/
  | refused {stamp : Stamp} {bench : Bench} (older : stamp ≤ a.latest) :
      Turn a (.accept stamp bench) none a
  /-- The edit that waits is handed out. -/
  | released {x : Submission} (waits : a.pending = some x) (ready : x.bench.isReady = true) :
      Turn a .release (some (.released x)) { a with pending := none, state := .running x.stamp }
  /-- The edit that waits cannot be run. -/
  | cleared {x : Submission} (waits : a.pending = some x) (ready : x.bench.isReady = false) :
      Turn a .release (some (.cleared x)) { a with pending := none, state := .idle x.stamp }
  /-- No edit waits. -/
  | bored (empty : a.pending = none) : Turn a .release none a
  /-- The result of the run is shown. -/
  | shown {stamp : Stamp} {outcome : Outcome} (runs : a.state = .running stamp) :
      Turn a (.conclude stamp outcome) (some (.shown stamp outcome))
        { a with state := .showing stamp outcome }
  /-- The result is of no run that is wanted. -/
  | stale {stamp : Stamp} {outcome : Outcome} (unwanted : a.state ≠ .running stamp) :
      Turn a (.conclude stamp outcome) none a

theorem awaits_iff (a : Arbiter) (stamp : Stamp) :
    a.awaits stamp = true ↔ a.state = .running stamp := by
  simp [awaits]

/-- A call does one of these. -/
theorem turn_after (a : Arbiter) (c : Call) : Turn a c (a.news c) (a.after c) := by
  cases c with
  | accept stamp bench =>
      by_cases h : stamp ≤ a.latest
      · simpa [news, after, accept, h] using Turn.refused h
      · simpa [news, after, accept, h] using Turn.accepted (Nat.lt_of_not_le h)
  | release =>
      cases hp : a.pending with
      | none => simpa [news, after, release, hp] using Turn.bored hp
      | some x =>
          cases hr : x.bench.isReady with
          | true => simpa [news, after, release, hp, hr] using Turn.released hp hr
          | false => simpa [news, after, release, hp, hr] using Turn.cleared hp hr
  | conclude stamp outcome =>
      by_cases h : a.state = .running stamp
      · simpa [news, after, conclude, (a.awaits_iff stamp).mpr h] using Turn.shown h
      · simpa [news, after, conclude, (a.awaits_iff stamp).not.mpr h] using Turn.stale h

/-- The newest stamp never gets smaller. -/
theorem Turn.latest_le {a b : Arbiter} {c : Call} {n : Option News} (h : Turn a c n b) :
    a.latest ≤ b.latest := by
  cases h with
  | accepted newer => exact newer.le
  | refused | released | cleared | bored | shown | stale => exact le_rfl

/-- When something comes of a call, the state afterwards is that of the news. -/
theorem Turn.state_eq {a b : Arbiter} {c : Call} {n : News} (h : Turn a c (some n) b) :
    b.state = n.state := by
  cases h <;> rfl

/-! ### The history -/

/-- The arbiter after some news. -/
def ofNews : Option News → Arbiter
  | none => {}
  | some n => ⟨n.stamp, n.accepted?, n.state⟩

theorem ofNews_pending {last : Option News} {x : Submission} (h : (ofNews last).pending = some x) :
    last = some (.accepted x) := by
  cases last with
  | none => simp [ofNews] at h
  | some n => rw [News.accepted?_eq_some_iff.mp h]

theorem ofNews_running {last : Option News} {s : Stamp} (h : (ofNews last).state = .running s) :
    ∃ x, last = some (.released x) ∧ x.stamp = s := by
  cases last with
  | none => simp [ofNews] at h
  | some n => cases n <;> simp_all [ofNews, News.state]

theorem ofNews_showing {last : Option News} {s : Stamp} {o : Outcome}
    (h : (ofNews last).state = .showing s o) : last = some (.shown s o) := by
  cases last with
  | none => simp [ofNews] at h
  | some n => cases n <;> simp_all [ofNews, News.state]

/-- The history agrees with the arbiter. -/
structure Tells (h : List News) (a : Arbiter) : Prop where
  /-- The last entry is all that the arbiter knows. -/
  last : a = ofNews h.getLast?
  /-- Every entry is about a later edit or a later stage than those before it. -/
  ordered : h.Pairwise News.Before
  /-- Every entry is about an edit that was accepted. -/
  rooted : ∀ n ∈ h, ∃ x, News.accepted x ∈ h ∧ x.stamp = n.stamp
  /-- What was handed out is what had been accepted. -/
  known : ∀ x, News.released x ∈ h → News.accepted x ∈ h
  /-- What is shown had been handed out. -/
  ran : ∀ s o, News.shown s o ∈ h → ∃ x, News.released x ∈ h ∧ x.stamp = s

/-- An entry that is behind the last one is behind all others. -/
theorem Tells.forall_before {h : List News} {a : Arbiter} (ha : Tells h a) {n m : News}
    (hlast : h.getLast? = some n) (hnm : n.Before m) : ∀ k ∈ h, k.Before m := by
  obtain ⟨pre, rfl⟩ := List.getLast?_eq_some_iff.mp hlast
  intro k hk
  rcases List.mem_append.mp hk with hk | hk
  · exact ((List.pairwise_append.mp ha.ordered).2.2 k hk n (by simp)).trans hnm
  · exact List.mem_singleton.mp hk ▸ hnm

/-- No entry is about an edit that is newer than the newest one. -/
theorem Tells.stamp_le {h : List News} {a : Arbiter} (ha : Tells h a) :
    ∀ n ∈ h, n.stamp ≤ a.latest := by
  intro n hn
  obtain ⟨last, hlast⟩ := Option.ne_none_iff_exists'.mp
    (List.getLast?_eq_none_iff.not.mpr (List.ne_nil_of_mem hn))
  obtain ⟨pre, rfl⟩ := List.getLast?_eq_some_iff.mp hlast
  rw [ha.last, hlast]
  rcases List.mem_append.mp hn with hn | hn
  · exact ((List.pairwise_append.mp ha.ordered).2.2 n hn last (by simp)).stamp_le
  · exact List.mem_singleton.mp hn ▸ le_rfl

/-- An edit comes to each stage once at most. -/
theorem Tells.eq_of_stage {h : List News} {a : Arbiter} (ha : Tells h a) {n m : News}
    (hn : n ∈ h) (hm : m ∈ h) (hstamp : n.stamp = m.stamp) (hstage : n.stage = m.stage) :
    n = m := by
  have hkeys : (h.map fun n => (n.stamp, n.stage)).Nodup := by
    refine List.pairwise_map.mpr (ha.ordered.imp fun {n m} hnm heq => ?_)
    obtain ⟨hstamp, hstage⟩ := Prod.mk.inj heq
    exact absurd hstamp (Nat.ne_of_lt (hnm.stamp_lt hstage))
  exact List.inj_on_of_nodup_map hkeys hn hm (Prod.ext hstamp hstage)

/-- The newest stamp is that of an edit that was accepted, or zero. -/
theorem Tells.latest {h : List News} {a : Arbiter} (ha : Tells h a) :
    a.latest = 0 ∨ ∃ x, News.accepted x ∈ h ∧ x.stamp = a.latest := by
  rw [ha.last]
  cases hlast : h.getLast? with
  | none => exact .inl rfl
  | some n => exact .inr (ha.rooted n (List.mem_of_getLast? hlast))

/-- The history goes on with an entry that is behind all others. -/
theorem Tells.concat {h : List News} {a : Arbiter} (ha : Tells h a) {m : News}
    (hbefore : ∀ k ∈ h, k.Before m)
    (hrooted : ∃ x, News.accepted x ∈ h ++ [m] ∧ x.stamp = m.stamp)
    (hknown : ∀ x, m = .released x → News.accepted x ∈ h)
    (hran : ∀ s o, m = .shown s o → ∃ x, News.released x ∈ h ∧ x.stamp = s) :
    Tells (h ++ [m]) (ofNews (some m)) where
  last := by simp
  ordered := by
    refine List.pairwise_append.mpr ⟨ha.ordered, List.pairwise_singleton _ _, ?_⟩
    intro k hk m' hm'
    exact List.mem_singleton.mp hm' ▸ hbefore k hk
  rooted n hn := by
    rcases List.mem_append.mp hn with hn | hn
    · obtain ⟨x, hx, hs⟩ := ha.rooted n hn
      exact ⟨x, List.mem_append_left _ hx, hs⟩
    · exact List.mem_singleton.mp hn ▸ hrooted
  known x hx := by
    rcases List.mem_append.mp hx with hx | hx
    · exact List.mem_append_left _ (ha.known x hx)
    · exact List.mem_append_left _ (hknown x (List.mem_singleton.mp hx).symm)
  ran s o hs := by
    have hold : ∃ x, News.released x ∈ h ∧ x.stamp = s := by
      rcases List.mem_append.mp hs with hs | hs
      · exact ha.ran s o hs
      · exact hran s o (List.mem_singleton.mp hs).symm
    obtain ⟨x, hx, hxs⟩ := hold
    exact ⟨x, List.mem_append_left _ hx, hxs⟩

/-- A call keeps the history and the arbiter in agreement. -/
theorem Tells.turn {h : List News} {a b : Arbiter} {c : Call} {n : Option News}
    (ha : Tells h a) (ht : Turn a c n b) : Tells (h ++ n.toList) b := by
  -- what comes of a call is about a newer edit, or takes the edit of the last entry one stage on
  cases ht with
  | refused | bored | stale => simpa using ha
  | @accepted stamp bench newer =>
      refine ha.concat (m := .accepted ⟨stamp, bench⟩) ?_ ⟨_, by simp, rfl⟩ (by simp) (by simp)
      exact fun k hk => .inl ((ha.stamp_le k hk).trans_lt newer)
  | @released x waits =>
      have hlast := ofNews_pending (ha.last ▸ waits)
      have hmem : News.accepted x ∈ h := List.mem_of_getLast? hlast
      have hnext := ha.concat (m := .released x)
        (ha.forall_before hlast (.inr ⟨rfl, Nat.zero_lt_one⟩))
        ⟨x, by simp [hmem], rfl⟩ (by simpa using hmem) (by simp)
      rwa [ha.last, hlast]
  | @cleared x waits =>
      have hlast := ofNews_pending (ha.last ▸ waits)
      have hmem : News.accepted x ∈ h := List.mem_of_getLast? hlast
      have hnext := ha.concat (m := .cleared x)
        (ha.forall_before hlast (.inr ⟨rfl, Nat.zero_lt_one⟩))
        ⟨x, by simp [hmem], rfl⟩ (by simp) (by simp)
      rwa [ha.last, hlast]
  | @shown stamp outcome runs =>
      obtain ⟨x, hlast, rfl⟩ := ofNews_running (ha.last ▸ runs)
      have hmem : News.released x ∈ h := List.mem_of_getLast? hlast
      have hnext := ha.concat (m := .shown x.stamp outcome)
        (ha.forall_before hlast (.inr ⟨rfl, Nat.one_lt_two⟩))
        ⟨x, by simp [ha.known x hmem], rfl⟩ (by simp) (by simpa using ⟨x, hmem, rfl⟩)
      rwa [ha.last, hlast]

/-- The history of an arbiter agrees with it. -/
theorem tells_run (calls : List Call) : Tells (history calls) (run calls) := by
  induction calls using List.reverseRecOn with
  | nil => exact ⟨rfl, .nil, by simp [history, newsOf], by simp [history, newsOf],
      by simp [history, newsOf]⟩
  | append_singleton calls c ih =>
      rw [history_concat, run_concat]
      exact ih.turn (turn_after _ c)

/-- What the last call made of a result. -/
theorem conclude_eq_true_iff (a : Arbiter) (stamp : Stamp) (outcome : Outcome) :
    (a.conclude stamp outcome).1 = true ↔ a.state = .running stamp := by
  rw [← awaits_iff, conclude]
  split <;> simp_all

/-- Entries of the same stage are about edits with growing stamps. -/
theorem pairwise_filterMap {α : Type} {h : List News} (ho : h.Pairwise News.Before)
    {f : News → Option α} {stamp : α → Stamp} {k : Nat}
    (hf : ∀ n x, f n = some x → n.stage = k ∧ n.stamp = stamp x) :
    (h.filterMap f).Pairwise fun x y => stamp x < stamp y := by
  refine List.pairwise_filterMap.mpr (ho.imp ?_)
  intro n m hnm x hx y hy
  obtain ⟨hn, hx⟩ := hf n x hx
  obtain ⟨hm, hy⟩ := hf m y hy
  rw [← hx, ← hy]
  exact hnm.stamp_lt (hn.trans hm.symm)

/-! ### Calls and their history -/

theorem mem_accepted_iff {calls : List Call} {x : Submission} :
    x ∈ accepted calls ↔ News.accepted x ∈ history calls := by
  simp [accepted]

theorem mem_released_iff {calls : List Call} {x : Submission} :
    x ∈ released calls ↔ News.released x ∈ history calls := by
  simp [released]

/-- An edit that was accepted was given, with this stamp and this bench. -/
theorem mem_of_accepted {calls : List Call} {x : Submission}
    (h : News.accepted x ∈ history calls) : .accept x.stamp x.bench ∈ calls := by
  induction calls using List.reverseRecOn with
  | nil => simp [history, newsOf] at h
  | append_singleton calls c ih =>
      rw [history_concat, List.mem_append, Option.mem_toList] at h
      rcases h with h | h
      · exact List.mem_append_left _ (ih h)
      · have ht := turn_after (run calls) c
        rw [h] at ht
        generalize (run calls).after c = b at ht
        cases ht with
        | accepted => simp

/-- No edit that was given is newer than the newest one. -/
theorem stamp_le_latest {calls : List Call} {stamp : Stamp} {bench : Bench}
    (h : .accept stamp bench ∈ calls) : stamp ≤ (run calls).latest := by
  induction calls using List.reverseRecOn with
  | nil => simp at h
  | append_singleton calls c ih =>
      rw [run_concat]
      have ht := turn_after (run calls) c
      rcases List.mem_append.mp h with h | h
      · exact (ih h).trans ht.latest_le
      · obtain rfl := List.mem_singleton.mp h
        generalize (run calls).after _ = b, (run calls).news _ = n at ht ⊢
        cases ht with
        | accepted => exact le_rfl
        | refused older => exact older

/-- What is claimed of an arbiter after any calls. -/
structure LatestWins (calls : List Call) : Prop where
  /-- The state is about the newest edit. -/
  state_stamp : (run calls).state.stamp = (run calls).latest
  /-- The newest stamp is the greatest one that was accepted, or zero. -/
  latest_accepted :
    IsGreatest (insert 0 {s | ∃ x ∈ accepted calls, x.stamp = s}) (run calls).latest
  /-- It is the greatest one that was given at all, or zero. -/
  latest_given :
    IsGreatest (insert 0 {s | ∃ bench, .accept s bench ∈ calls}) (run calls).latest
  /-- No call makes it smaller. -/
  latest_le : ∀ call, (run calls).latest ≤ (run (calls ++ [call])).latest
  /-- An edit waits exactly when the state says so. -/
  pending_iff : (run calls).pending.isSome ↔ ∃ s, (run calls).state = .waiting s
  /-- The accepted edits have growing stamps, so that a stamp stands for one bench. -/
  accepted_increasing : (accepted calls).Pairwise fun x y => x.stamp < y.stamp
  /-- An accepted edit was given, with its stamp and its bench. -/
  accepted_given : ∀ x ∈ accepted calls, .accept x.stamp x.bench ∈ calls
  /-- What is handed out is an edit that was accepted, with its bench. -/
  released_subset : released calls ⊆ accepted calls
  /-- Edits are handed out with growing stamps, so each of them at most once. -/
  released_increasing : (released calls).Pairwise fun x y => x.stamp < y.stamp
  /-- Results are shown with growing stamps, so at most one for each edit. -/
  shown_increasing : (shown calls).Pairwise fun p q => p.1 < q.1
  /-- A result is shown only when the last thing that came of the calls is that its edit was
  handed out: no newer edit has been accepted since. -/
  shown_next : ∀ s o, ((run calls).conclude s o).1 = true →
    ∃ x ∈ released calls, x.stamp = s ∧ (history calls).getLast? = some (.released x)
  /-- A result that is not shown changes nothing. -/
  not_shown : ∀ s o, ((run calls).conclude s o).1 = false → ((run calls).conclude s o).2 = run calls
  /-- The result in the state is the one shown last, and its edit is the newest. -/
  showing : ∀ s o, (run calls).state = .showing s o →
    (shown calls).getLast? = some (s, o) ∧ s = (run calls).latest

/-- **The latest edit wins**, whatever the arbiter is told, in whatever order. -/
theorem latestWins (calls : List Call) : LatestWins calls where
  state_stamp := by
    rw [(tells_run calls).last]
    cases (history calls).getLast? with
    | none => rfl
    | some n => exact n.state_stamp
  latest_accepted := by
    refine ⟨?_, ?_⟩
    · exact (tells_run calls).latest.imp_right fun ⟨x, hx, h⟩ =>
        ⟨x, mem_accepted_iff.mpr hx, h⟩
    · rintro s (rfl | ⟨x, hx, rfl⟩)
      · exact Nat.zero_le _
      · exact (tells_run calls).stamp_le _ (mem_accepted_iff.mp hx)
  latest_given := by
    refine ⟨?_, ?_⟩
    · refine (tells_run calls).latest.imp_right ?_
      rintro ⟨x, hx, h⟩
      exact ⟨x.bench, h ▸ mem_of_accepted hx⟩
    · rintro s (rfl | ⟨bench, hs⟩)
      · exact Nat.zero_le _
      · exact stamp_le_latest hs
  latest_le call := by
    rw [run_concat]
    exact (turn_after _ call).latest_le
  pending_iff := by
    rw [(tells_run calls).last]
    cases (history calls).getLast? with
    | none => simp [ofNews]
    | some n => cases n <;> simp [ofNews, News.accepted?, News.state]
  accepted_increasing := by
    refine pairwise_filterMap (k := 0) (tells_run calls).ordered fun n x hn => ?_
    rw [News.accepted?_eq_some_iff.mp hn]
    exact ⟨rfl, rfl⟩
  accepted_given x hx := mem_of_accepted (mem_accepted_iff.mp hx)
  released_subset x hx := by
    rw [mem_accepted_iff]
    exact (tells_run calls).known x (mem_released_iff.mp hx)
  released_increasing := by
    refine pairwise_filterMap (k := 1) (tells_run calls).ordered fun n x hn => ?_
    rw [News.released?_eq_some_iff.mp hn]
    exact ⟨rfl, rfl⟩
  shown_increasing := by
    refine pairwise_filterMap (k := 2) (tells_run calls).ordered fun n p hn => ?_
    rw [News.shown?_eq_some_iff.mp hn]
    exact ⟨rfl, rfl⟩
  shown_next s o h := by
    rw [conclude_eq_true_iff, (tells_run calls).last] at h
    obtain ⟨x, hlast, hx⟩ := ofNews_running h
    exact ⟨x, mem_released_iff.mpr (List.mem_of_getLast? hlast), hx, hlast⟩
  not_shown s o h := by
    rw [conclude] at h ⊢
    split <;> simp_all
  showing s o h := by
    rw [(tells_run calls).last] at h
    have hlast := ofNews_showing h
    refine ⟨?_, by rw [(tells_run calls).last, hlast]; rfl⟩
    obtain ⟨pre, hpre⟩ := List.getLast?_eq_some_iff.mp hlast
    rw [shown, hpre, List.filterMap_append]
    simp [News.shown?]

end Pipewright.Preview.Arbiter
