import Mathlib.Data.List.Forall2
import Pipewright.Proofs.Outcome
import Pipewright.Proofs.Preview.Timing

/-!
# Which Edits Reach the Tool

The tool is called for an edit when the pause behind the edit is over, if no other edit has come
in by then, and if there is something to run, something to run it on, and a way to do so. It is
called once, with what the configuration and the input say, and it is called for nothing else.

The calls are looked at at every moment, so the statement also says when a call is made: a
moment after the end of the pause sees it, and the end of the pause itself does not.

## Main results

* `request_eq_ok_iff`: what the tool is given, in terms of the configuration and the input.
* `Timeline.calls_atTime`: the calls that a timeline has made by a moment.
* `Timeline.calls_atTime_of_reaches`: they are those of the edits that reach the tool, in order.
-/

namespace Pipewright.Preview

namespace World

/-- What the tool is given for a bench: the arguments and the output format of the
configuration, and a sample of the input file or, if there is none, of the pasted text. -/
structure Gives (w : World) (bench : Bench) (r : Request) : Prop where
  /-- The arguments are those of the configuration. -/
  arguments : bench.configuration.arguments = .ok r.arguments
  /-- The output format is that of the configuration. -/
  format : r.format = bench.configuration.outputFormat
  /-- In file mode the tool gets the head of the file. -/
  file : ∀ path, bench.configuration.inputFile? = some path →
    ∃ text, fileHead w.files path w.settings.lineLimit = .ok text ∧ r.records = .text text
  /-- Otherwise it gets the head of the pasted text. -/
  pasted : bench.configuration.inputFile? = none →
    r.records = .text (textHead bench.text w.settings.lineLimit w.settings.byteLimit)

end World

/-- What is sampled, in terms of the input. -/
theorem sample_eq_ok_iff {w : World} {bench : Bench} {text : String} :
    sample w.files w.settings bench = .ok text ↔
      (∀ path, bench.configuration.inputFile? = some path →
        fileHead w.files path w.settings.lineLimit = .ok text) ∧
      (bench.configuration.inputFile? = none →
        text = textHead bench.text w.settings.lineLimit w.settings.byteLimit) := by
  rw [sample]
  cases bench.configuration.inputFile? with
  | none => simp [eq_comm]
  | some path => simp [mapError_eq_ok_iff]

/-- What the tool is given, in terms of the configuration and the input. -/
theorem request_eq_ok_iff {w : World} {bench : Bench} {r : Request} :
    request w.files w.settings bench = .ok r ↔ w.Gives bench r := by
  rw [request, bind_eq_ok_iff]
  constructor
  · rintro ⟨args, hargs, h⟩
    obtain ⟨text, htext, hr⟩ := bind_eq_ok_iff.mp h
    obtain ⟨hfile, hpasted⟩ := sample_eq_ok_iff.mp htext
    cases hr
    exact ⟨mapError_eq_ok_iff.mp hargs, rfl, fun path hpath => ⟨text, hfile path hpath, rfl⟩,
      fun hnone => congrArg Records.text (hpasted hnone)⟩
  · rintro ⟨hargs, hformat, hfile, hpasted⟩
    have hsample : ∃ text, sample w.files w.settings bench = .ok text ∧ r.records = .text text := by
      cases hpath : bench.configuration.inputFile? with
      | none =>
          exact ⟨_, sample_eq_ok_iff.mpr ⟨by simp [hpath], fun _ => rfl⟩, hpasted hpath⟩
      | some path =>
          obtain ⟨text, htext, hrecords⟩ := hfile path hpath
          refine ⟨text, sample_eq_ok_iff.mpr ⟨?_, by simp [hpath]⟩, hrecords⟩
          simpa [hpath] using htext
    obtain ⟨text, htext, hrecords⟩ := hsample
    refine ⟨r.arguments, mapError_eq_ok_iff.mpr hargs, bind_eq_ok_iff.mpr ⟨text, htext, ?_⟩⟩
    obtain ⟨args, records, format⟩ := r
    cases hrecords
    cases hformat
    rfl

/-- The edit `e` of a schedule reaches the tool before the moment `u`. -/
structure Entry.Reaches (w : World) (acts : Schedule) (u : Nat) (e : Entry) : Prop where
  /-- The pause behind the edit is over. -/
  ended : e.time + w.settings.pause < u
  /-- The next edit, if there is one, comes in later than that. -/
  quiet : ∀ n ∈ acts.entries, n.stamp = e.stamp + 1 → e.time + w.settings.pause < n.time
  /-- There is an input. -/
  hasRecords : e.bench.hasRecords = true
  /-- A step takes part. -/
  hasSteps : e.bench.configuration.hasEnabledSteps = true
  /-- The configuration has arguments. -/
  arguments : ∃ words, e.bench.configuration.arguments = .ok words
  /-- In file mode the file can be read. -/
  readable : ∀ path, e.bench.configuration.inputFile? = some path →
    ∃ text, fileHead w.files path w.settings.lineLimit = .ok text

variable {w : World} {acts : Schedule} {u : Nat}

/-- The tool can be given something exactly when there are arguments and a sample. -/
theorem exists_gives_iff {bench : Bench} :
    (∃ r, w.Gives bench r) ↔
      (∃ words, bench.configuration.arguments = .ok words) ∧
        ∀ path, bench.configuration.inputFile? = some path →
          ∃ text, fileHead w.files path w.settings.lineLimit = .ok text := by
  constructor
  · rintro ⟨r, h⟩
    refine ⟨⟨_, h.arguments⟩, fun path hpath => ?_⟩
    obtain ⟨text, htext, -⟩ := h.file path hpath
    exact ⟨text, htext⟩
  · rintro ⟨⟨words, hwords⟩, hfile⟩
    cases hpath : bench.configuration.inputFile? with
    | none => exact ⟨⟨words, .text _, _⟩, hwords, rfl, by simp [hpath], fun _ => rfl⟩
    | some path =>
        obtain ⟨text, htext⟩ := hfile path hpath
        refine ⟨⟨words, .text text, _⟩, hwords, rfl, ?_, by simp [hpath]⟩
        simpa [hpath] using htext

/-- The call that the run of a bench makes is the one that gives the tool what it is given. -/
theorem mem_callsFor_iff {bench : Bench} {r : Request} :
    r ∈ w.callsFor bench ↔ w.Gives bench r := by
  rw [← request_eq_ok_iff]
  cases hr : request w.files w.settings bench with
  | error e => simp [World.callsFor_of_error hr]
  | ok r' => simp [World.callsFor_of_ok hr, eq_comm]

/-- An edit reaches the tool when its pause is over in time, when it is ready, and when its run
makes a call. -/
theorem Entry.reaches_iff {e : Entry} :
    e.Reaches w acts u ↔
      (e.due w < u ∧ ∀ n ∈ acts.entries, n.stamp = e.stamp + 1 → e.due w < n.time) ∧
        e.bench.isReady = true ∧ w.callsFor e.bench ≠ [] := by
  have hcalls : w.callsFor e.bench ≠ [] ↔ ∃ r, w.Gives e.bench r := by
    simp only [← mem_callsFor_iff, ne_eq, List.eq_nil_iff_forall_not_mem, not_forall, not_not]
  rw [hcalls, exists_gives_iff, Bench.isReady, Bool.and_eq_true]
  constructor
  · rintro ⟨hover, hquiet, hrecords, hsteps, hargs, hread⟩
    exact ⟨⟨hover, hquiet⟩, ⟨hrecords, hsteps⟩, hargs, hread⟩
  · rintro ⟨⟨hover, hquiet⟩, ⟨hrecords, hsteps⟩, hargs, hread⟩
    exact ⟨hover, hquiet, hrecords, hsteps, hargs, hread⟩

instance (w : World) (acts : Schedule) (u : Nat) : DecidablePred (Entry.Reaches w acts u) :=
  fun _ => decidable_of_iff _ Entry.reaches_iff.symm

/-- The calls of an edit: one if it reaches the tool, and none if it does not. -/
theorem Entry.calls_eq {e : Entry} (he : e ∈ acts.entries) :
    e.calls w acts.entries u = if e.Reaches w acts u then w.callsFor e.bench else [] := by
  have hripe : e.Ripe w acts.entries u ↔
      e.due w < u ∧ ∀ n ∈ acts.entries, n.stamp = e.stamp + 1 → e.due w < n.time := by
    rw [Entry.Ripe, Schedule.quiet_iff he]
  simp only [Entry.calls, Entry.reaches_iff, hripe]
  by_cases hnone : w.callsFor e.bench = []
  · simp [hnone]
  · simp [hnone]

/-- Elements that have one image each, and elements that have none. -/
theorem forall₂_flatMap {α β : Type} {R : α → β → Prop} {p : α → Prop} [DecidablePred p]
    {f : α → List β} {l : List α} (hone : ∀ a ∈ l, p a → ∃ b, f a = [b] ∧ R a b)
    (hnone : ∀ a ∈ l, ¬ p a → f a = []) : List.Forall₂ R (l.filter p) (l.flatMap f) := by
  induction l with
  | nil => exact .nil
  | cons a l ih =>
      have hrest := ih (fun b hb => hone b (by simp [hb])) fun b hb => hnone b (by simp [hb])
      by_cases ha : p a
      · obtain ⟨b, hb, hab⟩ := hone a (by simp) ha
        rw [List.filter_cons_of_pos (by simpa using ha), List.flatMap_cons, hb]
        exact .cons hab hrest
      · rw [List.filter_cons_of_neg (by simpa using ha), List.flatMap_cons, hnone a (by simp) ha]
        exact hrest

namespace Timeline

/-- The calls that the timeline of a schedule makes. -/
theorem calls_run (w : World) (acts : Schedule) :
    (run w acts).calls = callsBy w acts.entries acts.duration := by
  have h := follows_run w acts
  obtain ⟨taken, fresh, hentries, -, hfresh, hstood⟩ := h.stood
  have hsorted : taken.Pairwise (·.stamp < ·.stamp) :=
    (List.pairwise_append.mp (hentries ▸ (Schedule.pairwise_entries acts).imp And.left)).1
  have htime : ∀ e ∈ taken, e.time ≤ (run w acts).now := fun e he =>
    h.now ▸ Schedule.time_le_duration (hentries ▸ List.mem_append_left _ he)
  rw [hstood.calls_eq hsorted htime, hentries, ← h.now,
    callsBy_append fun n hn => Nat.le_of_eq (hfresh n hn).symm]

/-- The calls that a timeline has made by a moment. -/
theorem calls_atTime (w : World) (acts : Schedule) (u : Nat) :
    (atTime w acts u).calls = callsBy w acts.entries u := by
  obtain ⟨later, hentries, hlater⟩ := acts.exists_entries_eq_append u
  rw [atTime, calls_run, Schedule.duration_upTo, hentries,
    callsBy_append fun n hn => Nat.le_of_lt (hlater n hn)]

/-- **The pause decides which edits reach the tool.** The calls that a timeline has made by a
moment are, in the order of submission, one for each edit that reaches the tool before it, and
each gives the tool what the configuration and the input of the edit say. -/
theorem calls_atTime_of_reaches (w : World) (acts : Schedule) (u : Nat) :
    List.Forall₂ (fun e r => w.Gives e.bench r) (acts.entries.filter (Entry.Reaches w acts u))
      (atTime w acts u).calls := by
  rw [calls_atTime]
  refine forall₂_flatMap (fun e he hreaches => ?_) fun e he hreaches => ?_
  · obtain ⟨r, hr⟩ := exists_gives_iff.mpr ⟨hreaches.arguments, hreaches.readable⟩
    refine ⟨r, ?_, hr⟩
    rw [Entry.calls_eq he, if_pos hreaches, World.callsFor_of_ok (request_eq_ok_iff.mpr hr)]
  · rw [Entry.calls_eq he, if_neg hreaches]

/-- Of two edits within one pause, the second one reaches the tool. -/
example :
    (atTime { tool := fun _ _ => ⟨0, .reply (.ok {})⟩ }
      [.submit ⟨{ steps := [⟨"cat", true⟩] }, "a=1"⟩, .wait 400,
        .submit ⟨{ steps := [⟨"tac", true⟩] }, "a=1"⟩] 901).calls =
      [⟨["tac"], .text "a=1", .auto⟩] := by decide +kernel

end Timeline

end Pipewright.Preview
