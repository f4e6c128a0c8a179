import Mathlib.Data.List.Induction
import Mathlib.Order.Basic
import Pipewright.Preview.Timeline

/-!
# Schedules

What is done with a timeline is a list of acts: edits are submitted, and time passes. Such a
schedule says when which edit comes in, before anything is known of the preview. A timeline is
looked at in the middle of a schedule by running the part up to that moment.

## Main definitions

* `Act`, `Schedule`: what is done with a timeline.
* `Entry`, `Schedule.entries`: the edits with their stamps and moments.
* `Schedule.upTo`: the part of a schedule up to a moment.
* `Timeline.run`, `Timeline.atTime`: the timeline after a schedule, and at a moment of it.

## Main results

* `Schedule.entries_upTo`: the edits up to a moment.
* `Schedule.quiet_iff`: if the next edit comes late enough, so do all later ones.
-/

namespace Pipewright.Preview

/-- What can be done with a timeline. -/
inductive Act where
  /-- An edit is submitted. -/
  | submit (bench : Bench)
  /-- Some milliseconds pass. -/
  | wait (ms : Nat)

/-- What is done with a timeline, in order. -/
abbrev Schedule := List Act

/-- An edit with the moment at which it comes in. -/
structure Entry where
  /-- Its stamp. -/
  stamp : Stamp
  /-- The moment. -/
  time : Nat
  /-- The bench after the edit. -/
  bench : Bench
  deriving DecidableEq, Repr

/-- The edit without its moment. -/
def Entry.submission (e : Entry) : Submission :=
  ⟨e.stamp, e.bench⟩

namespace Schedule

/-- How long a schedule takes. -/
def duration : Schedule → Nat
  | [] => 0
  | .submit _ :: rest => duration rest
  | .wait ms :: rest => ms + duration rest

/-- The edits of a schedule that begins at the moment `now`, behind `count` other edits. -/
def entriesFrom (count now : Nat) : Schedule → List Entry
  | [] => []
  | .submit bench :: rest => ⟨count + 1, now, bench⟩ :: entriesFrom (count + 1) now rest
  | .wait ms :: rest => entriesFrom count (now + ms) rest

/-- The edits of a schedule, with their stamps and moments. -/
def entries (acts : Schedule) : List Entry :=
  entriesFrom 0 0 acts

/-- The part of a schedule up to the moment `u`. Behind its end time just passes. -/
def upTo (u : Nat) : Schedule → Schedule
  | [] => [.wait u]
  | .submit bench :: rest => .submit bench :: upTo u rest
  | .wait ms :: rest => if ms ≤ u then .wait ms :: upTo (u - ms) rest else [.wait u]

/-! ### Lengths -/

theorem duration_append (a b : Schedule) : duration (a ++ b) = duration a + duration b := by
  induction a with
  | nil => simp [duration]
  | cons act rest ih => cases act <;> simp [duration, ih, Nat.add_assoc]

theorem duration_upTo (u : Nat) (acts : Schedule) : duration (acts.upTo u) = u := by
  induction acts generalizing u with
  | nil => rfl
  | cons act rest ih =>
      cases act with
      | submit bench => exact ih u
      | wait ms =>
          rw [upTo]
          split
          · rename_i h
            rw [duration, ih, Nat.add_sub_cancel' h]
          · rfl

theorem entriesFrom_append (count now : Nat) (a b : Schedule) :
    entriesFrom count now (a ++ b) =
      entriesFrom count now a ++
        entriesFrom (count + (entriesFrom count now a).length) (now + duration a) b := by
  induction a generalizing count now with
  | nil => rfl
  | cons act rest ih =>
      cases act <;> simp [entriesFrom, duration, ih, Nat.add_assoc, Nat.add_comm 1]

theorem entries_submit (acts : Schedule) (bench : Bench) :
    entries (acts ++ [.submit bench]) =
      entries acts ++ [⟨(entries acts).length + 1, duration acts, bench⟩] := by
  simp [entries, entriesFrom_append, entriesFrom]

theorem entries_wait (acts : Schedule) (ms : Nat) :
    entries (acts ++ [.wait ms]) = entries acts := by
  simp [entries, entriesFrom_append, entriesFrom]

/-! ### The order of the edits -/

/-- The stamps of the edits are one, two, three and so on. -/
theorem stamp_getElem (acts : Schedule) (i : Nat) (h : i < (entries acts).length) :
    ((entries acts)[i]).stamp = i + 1 := by
  induction acts using List.reverseRecOn with
  | nil => simp [entries, entriesFrom] at h
  | append_singleton acts act ih =>
      cases act with
      | submit bench =>
          simp only [entries_submit] at h ⊢
          rcases Nat.lt_or_ge i (entries acts).length with hi | hi
          · rw [List.getElem_append_left hi, ih hi]
          · obtain rfl : i = (entries acts).length := by simp at h; omega
            simp
      | wait ms =>
          simp only [entries_wait] at h ⊢
          exact ih h

/-- Every edit comes in by the end of the schedule. -/
theorem time_le_duration {acts : Schedule} {e : Entry} (he : e ∈ entries acts) :
    e.time ≤ duration acts := by
  induction acts using List.reverseRecOn with
  | nil => simp [entries, entriesFrom] at he
  | append_singleton acts act ih =>
      rw [duration_append]
      cases act with
      | submit bench =>
          rw [entries_submit] at he
          rcases List.mem_append.mp he with he | he
          · exact Nat.le_add_right_of_le (ih he)
          · rw [List.mem_singleton.mp he]
            exact Nat.le_add_right _ _
      | wait ms =>
          rw [entries_wait] at he
          exact Nat.le_add_right_of_le (ih he)

/-- Later edits have greater stamps and come in no earlier. -/
theorem pairwise_entries (acts : Schedule) :
    (entries acts).Pairwise fun e n => e.stamp < n.stamp ∧ e.time ≤ n.time := by
  induction acts using List.reverseRecOn with
  | nil => exact .nil
  | append_singleton acts act ih =>
      cases act with
      | submit bench =>
          rw [entries_submit, List.pairwise_append]
          refine ⟨ih, List.pairwise_singleton _ _, ?_⟩
          intro e he n hn
          obtain rfl := List.mem_singleton.mp hn
          refine ⟨?_, time_le_duration he⟩
          obtain ⟨i, hi, rfl⟩ := List.mem_iff_getElem.mp he
          rw [stamp_getElem]
          exact Nat.succ_lt_succ hi
      | wait ms => rwa [entries_wait]

/-- If the next edit comes after the moment `t`, so do all later ones. -/
theorem quiet_iff {acts : Schedule} {e : Entry} (he : e ∈ entries acts) (t : Nat) :
    (∀ n ∈ entries acts, n.stamp = e.stamp + 1 → t < n.time) ↔
      ∀ n ∈ entries acts, e.stamp < n.stamp → t < n.time := by
  refine ⟨fun h n hn hlt => ?_, fun h n hn heq => h n hn (heq ▸ Nat.lt_succ_self _)⟩
  obtain ⟨i, hi, rfl⟩ := List.mem_iff_getElem.mp he
  obtain ⟨j, hj, rfl⟩ := List.mem_iff_getElem.mp hn
  rw [stamp_getElem, stamp_getElem] at hlt
  have hij : i + 1 ≤ j := Nat.lt_of_succ_lt_succ hlt
  have hnext : i + 1 < (entries acts).length := Nat.lt_of_le_of_lt hij hj
  have ht := h _ (List.getElem_mem hnext) (by rw [stamp_getElem, stamp_getElem])
  rcases Nat.eq_or_lt_of_le hij with rfl | hij
  · exact ht
  · have hsorted := List.pairwise_iff_getElem.mp (pairwise_entries acts) _ _ hnext hj hij
    exact Nat.lt_of_lt_of_le ht hsorted.2

/-! ### The part up to a moment -/

theorem le_time_of_mem_entriesFrom {count now : Nat} {acts : Schedule} {e : Entry}
    (he : e ∈ entriesFrom count now acts) : now ≤ e.time := by
  induction acts generalizing count now with
  | nil => simp [entriesFrom] at he
  | cons act rest ih =>
      cases act with
      | submit bench =>
          rcases List.mem_cons.mp he with rfl | he
          · exact Nat.le_refl _
          · exact ih he
      | wait ms => exact Nat.le_of_add_right_le (ih he)

theorem exists_entriesFrom_eq_append (count now u : Nat) (acts : Schedule) :
    ∃ later, entriesFrom count now acts = entriesFrom count now (upTo u acts) ++ later ∧
      ∀ n ∈ later, now + u < n.time := by
  induction acts generalizing count now u with
  | nil => exact ⟨[], rfl, by simp⟩
  | cons act rest ih =>
      cases act with
      | submit bench =>
          obtain ⟨later, heq, hlater⟩ := ih (count + 1) now u
          exact ⟨later, by rw [entriesFrom, heq]; rfl, hlater⟩
      | wait ms =>
          rw [upTo]
          split
          · rename_i h
            obtain ⟨later, heq, hlater⟩ := ih count (now + ms) (u - ms)
            rw [Nat.add_assoc, Nat.add_sub_cancel' h] at hlater
            exact ⟨later, heq, hlater⟩
          · rename_i h
            refine ⟨_, rfl, fun n hn => ?_⟩
            have := le_time_of_mem_entriesFrom hn
            omega

/-- The edits that come in by a moment are the first ones. -/
theorem exists_entries_eq_append (u : Nat) (acts : Schedule) :
    ∃ later, entries acts = entries (upTo u acts) ++ later ∧ ∀ n ∈ later, u < n.time := by
  simpa [entries] using exists_entriesFrom_eq_append 0 0 u acts

/-- The edits of the part up to a moment are those that come in by then. -/
theorem entries_upTo (u : Nat) (acts : Schedule) :
    entries (upTo u acts) = (entries acts).filter (·.time ≤ u) := by
  obtain ⟨later, heq, hlater⟩ := exists_entries_eq_append u acts
  have hfirst : ∀ e ∈ entries (upTo u acts), decide (e.time ≤ u) = true := fun e he =>
    decide_eq_true (duration_upTo u acts ▸ time_le_duration he)
  have hrest : ∀ e ∈ later, ¬ decide (e.time ≤ u) = true := fun e he => by simp [hlater e he]
  rw [heq, List.filter_append, List.filter_eq_self.mpr hfirst, List.filter_eq_nil_iff.mpr hrest,
    List.append_nil]

end Schedule

namespace Timeline

/-- The timeline after an act. -/
def perform (w : World) (s : Timeline) : Act → Timeline
  | .submit bench => (s.submit bench).2
  | .wait ms => s.wait w ms

/-- The timeline after a schedule, from the start. -/
def run (w : World) (acts : Schedule) : Timeline :=
  acts.foldl (perform w) {}

/-- The timeline at the moment `u` of a schedule. -/
def atTime (w : World) (acts : Schedule) (u : Nat) : Timeline :=
  run w (acts.upTo u)

theorem run_concat (w : World) (acts : Schedule) (act : Act) :
    run w (acts ++ [act]) = (run w acts).perform w act := by
  simp [run]

end Timeline

end Pipewright.Preview
