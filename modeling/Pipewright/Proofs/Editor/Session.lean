import Pipewright.Program.Dialogue
import Pipewright.Proofs.Configuration.Repair
import Pipewright.Proofs.Editor.Positions

/-!
# Sessions of Edits

A bench is fed any lines whatsoever. A configuration that needs no repair never comes to need
one, although the lines may carry any text, whole command lines among them. A line that is no
command, that is refused, that fails or that only asks for something leaves the bench as it
is, and no position that occurs on the way leaves the 64-bit numbers.

## Main definitions

* `Bench.feedAll`: the bench after some lines.
* `Bench.Orderly`: what holds of a bench and the next line.

## Main results

* `Configuration.IsTidy.edit`: an edit leaves no need for repair behind.
* `Bench.isTidy_feedAll`: nor does any session.
* `Bench.orderly_feedAll`: every line of every session is taken in an orderly way.
* `Program.Desk.exists_bench_takeLines`: the bench of a dialogue is that of a session.
* `Program.Desk.isTidy_takeLines`: no dialogue has a configuration that needs repair.
-/

namespace Pipewright

/-! ### Edits of the step list -/

/-- The exchange of neighbours neither adds nor loses an element. -/
theorem swapNeighbours_perm {α : Type} (i : Nat) (l : List α) : (swapNeighbours i l).Perm l := by
  induction i, l using swapNeighbours.induct with
  | case1 a b rest => exact .swap a b rest
  | case2 i a rest ih => exact ih.cons a
  | case3 i l hpair hrest =>
      rw [swapNeighbours]
      · exact hpair
      · exact hrest

namespace Configuration

variable {c c' : Configuration} {i : UInt64}

/-- A configuration is tidy with the steps of a tidy one, in whatever order and number. -/
theorem IsTidy.of_subset (h : c.IsTidy) {steps : List Step} (hsteps : steps ⊆ c.steps) :
    IsTidy { c with steps := steps } where
  separator := h.separator
  steps s hs := h.steps s (hsteps hs)

/-- Appending a step keeps a configuration tidy. -/
theorem IsTidy.addStep? (h : c.IsTidy) {text : String} (hadd : c.addStep? text = some c') :
    c'.IsTidy := by
  obtain ⟨s, hs, rfl⟩ := Option.map_eq_some_iff.mp hadd
  refine ⟨h.separator, fun t ht => ?_⟩
  rcases List.mem_append.mp ht with hold | hnew
  · exact h.steps t hold
  · rw [List.mem_singleton.mp hnew]
    exact Step.isTidy_of_ofText? hs

/-- Removing a step keeps a configuration tidy. -/
theorem IsTidy.removeStep? (h : c.IsTidy) (hremove : c.removeStep? i = some c') : c'.IsTidy := by
  obtain ⟨-, hsome⟩ := Option.ite_none_right_eq_some.mp hremove
  obtain rfl := Option.some.inj hsome
  exact h.of_subset (List.eraseIdx_sublist _ _).subset

/-- Exchanging a step with the one before it keeps a configuration tidy. -/
theorem IsTidy.moveStepUp? (h : c.IsTidy) (hmove : c.moveStepUp? i = some c') : c'.IsTidy := by
  obtain ⟨-, hsome⟩ := Option.ite_none_right_eq_some.mp hmove
  obtain rfl := Option.some.inj hsome
  exact h.of_subset (swapNeighbours_perm _ _).subset

/-- Exchanging a step with the one behind it keeps a configuration tidy. -/
theorem IsTidy.moveStepDown (h : c.IsTidy) (hmove : c.moveStepDown i = .ok (some c')) :
    c'.IsTidy := by
  obtain ⟨behind, -, hmove⟩ := bind_eq_ok_iff.mp hmove
  split at hmove
  · obtain rfl := Option.some.inj (Except.ok.inj hmove)
    exact h.of_subset (swapNeighbours_perm _ _).subset
  · exact absurd hmove nofun

/-- A change that keeps a step tidy keeps a configuration tidy. -/
theorem IsTidy.changeStep? (h : c.IsTidy) {f : Step → Step}
    (hf : ∀ s : Step, s.IsTidy → (f s).IsTidy) (hchange : c.changeStep? i f = some c') :
    c'.IsTidy := by
  obtain ⟨hi, hsome⟩ := Option.ite_none_right_eq_some.mp hchange
  obtain rfl := Option.some.inj hsome
  obtain ⟨before, s, behind, hsteps, -, hmodify⟩ := List.exists_of_modify f hi
  have hall : ∀ t ∈ before ++ s :: behind, t.IsTidy := hsteps ▸ h.steps
  refine ⟨h.separator, fun t ht => ?_⟩
  replace ht : t ∈ before ++ f s :: behind := hmodify ▸ ht
  rcases List.mem_append.mp ht with hbefore | hbehind
  · exact hall t (List.mem_append_left _ hbefore)
  rcases List.mem_cons.mp hbehind with rfl | hbehind
  · exact hf s (hall s (by simp))
  · exact hall t (by simp [hbehind])

/-- Replacing the text of a step keeps a configuration tidy. -/
theorem IsTidy.retextStep? (h : c.IsTidy) {text : String}
    (hretext : c.retextStep? i text = some c') : c'.IsTidy := by
  obtain ⟨t, ht, hchange⟩ := Option.bind_eq_some_iff.mp hretext
  have htidy := Step.isTidy_of_ofText? ht
  refine h.changeStep? (fun s _ => ?_) hchange
  exact ⟨htidy.ne_empty, htidy.trim_eq⟩

/-- **An edit leaves no need for repair behind**, whatever text it carries. -/
theorem IsTidy.edit (h : c.IsTidy) {command : EditCommand} (hedit : c.edit command = .ok c') :
    c'.IsTidy := by
  cases command with
  | stepAdd text =>
      rw [Configuration.edit, orElseFail_eq_ok_iff] at hedit
      exact h.addStep? hedit
  | stepEdit i text =>
      rw [Configuration.edit, orElseFail_eq_ok_iff] at hedit
      exact h.retextStep? hedit
  | stepRemove i => exact h.removeStep? (orElseFail_eq_ok_iff.mp hedit)
  | stepUp i => exact h.moveStepUp? (orElseFail_eq_ok_iff.mp hedit)
  | stepDown i =>
      rw [Configuration.edit] at hedit
      split at hedit
      next moved hmove =>
        obtain rfl := orElseFail_eq_ok_iff.mp hedit
        exact h.moveStepDown hmove
      next e hmove => exact absurd hedit error_ne_ok
  | stepToggle i =>
      refine h.changeStep? (fun s hs => ?_) (orElseFail_eq_ok_iff.mp hedit)
      exact ⟨hs.ne_empty, hs.trim_eq⟩
  | separator text =>
      obtain rfl := Except.ok.inj hedit
      exact ⟨orDefaultSeparator_ne_empty text, h.steps⟩
  | importCommand line =>
      rw [Configuration.edit] at hedit
      split at hedit
      next c₁ himport =>
        obtain rfl := Except.ok.inj hedit
        exact isTidy_of_ofCommand himport
      next e himport => exact absurd hedit error_ne_ok
  | inputFormat | outputFormat | ragged | headerless | options | file | text | append | list
  | help | quit =>
      obtain rfl := Except.ok.inj hedit
      exact ⟨h.separator, h.steps⟩

end Configuration

/-! ### Lines that change little -/

/-- A blank line holds no command. -/
theorem isIdleLine_of_isBlankText {line : String} (h : Text.isBlankText line = true) :
    isIdleLine line = true := by
  have hblank : line.toList.dropWhile Text.isBlank = [] :=
    List.dropWhile_eq_nil_iff.mpr (List.all_eq_true.mp h)
  have htrim : (Text.trim line).toList = [] := by
    rw [Text.trim, String.toList_ofList, Text.trimChars, hblank]
    rfl
  rw [isIdleLine, htrim]

/-- A comment holds no command. -/
theorem isIdleLine_of_comment {line : String} (h : (Text.trim line).toList.head? = some '#') :
    isIdleLine line = true := by
  obtain ⟨rest, hrest⟩ := List.head?_eq_some_iff.mp h
  rw [isIdleLine, hrest]
  rfl

/-- A command that is not about the pasted text leaves it alone. -/
theorem EditCommand.textAfter_of_not_isPaste {command : EditCommand}
    (h : command.isPaste = false) (text : String) :
    command.textAfter text = text := by
  cases command with
  | text | append => exact absurd h nofun
  | _ => rfl

namespace Bench

variable {w w' : Bench} {line : String} {command : EditCommand}

/-! ### One line -/

/-- A command yields the edited configuration and its own text. -/
theorem perform_eq_ok_iff {followUp : FollowUp} :
    w.perform command = .ok (followUp, w') ↔ ∃ c, w.configuration.edit command = .ok c ∧
      followUp = command.followUp ∧ w' = ⟨c, command.textAfter w.text⟩ := by
  rw [perform, bind_eq_ok_iff]
  simp [pure, Except.pure, Prod.mk.injEq, eq_comm]

/-- A command fails where its edit does. -/
theorem perform_eq_error_iff {e : EditError} :
    w.perform command = .error e ↔ w.configuration.edit command = .error e := by
  rw [perform, bind_eq_error_iff]
  simp [pure, Except.pure]

/-- **What a line does.** Either the line is not done and the bench stays as it is, or it holds
a command whose edit does not fail, and the bench is the one that the command makes. -/
theorem feed_cases (w : Bench) (line : String) :
    (∃ outcome, w.feed line = (outcome, w) ∧
      ∀ command followUp, outcome ≠ .done command followUp) ∨
    ∃ command c, readLine line = .ok (some command) ∧ w.configuration.edit command = .ok c ∧
      w.feed line = (.done command command.followUp, ⟨c, command.textAfter w.text⟩) := by
  rw [feed]
  split
  next e hread => exact .inl ⟨_, rfl, nofun⟩
  next hread => exact .inl ⟨_, rfl, nofun⟩
  next command hread =>
    split
    next e hperform => exact .inl ⟨_, rfl, nofun⟩
    next followUp w' hperform =>
      obtain ⟨c, hedit, rfl, rfl⟩ := perform_eq_ok_iff.mp hperform
      exact .inr ⟨command, c, hread, hedit, rfl⟩

/-- A line leaves no need for repair behind. -/
theorem isTidy_feed (h : w.configuration.IsTidy) (line : String) :
    (w.feed line).2.configuration.IsTidy := by
  rcases w.feed_cases line with ⟨outcome, hsame, -⟩ | ⟨command, c, -, hedit, hfeed⟩
  · rw [hsame]
    exact h
  · rw [hfeed]
    exact h.edit hedit

/-- A line without a command leaves the bench as it is. -/
theorem feed_of_isIdleLine (h : isIdleLine line = true) : w.feed line = (.idle, w) := by
  simp [feed, readLine, h, pure, Except.pure]

/-- A command that only asks for something leaves the bench as it is. -/
theorem feed_of_followUp_ne_edited (hread : readLine line = .ok (some command))
    (hasks : command.followUp ≠ .edited) : w.feed line = (.done command command.followUp, w) := by
  have hperform : w.perform command = .ok (command.followUp, w) := by
    cases command with
    | list | help | quit => exact perform_eq_ok_iff.mpr ⟨w.configuration, rfl, rfl, rfl⟩
    | _ => exact absurd rfl hasks
  rw [feed, hread]
  simp only [hperform]

/-- A line takes a bench to another in an orderly way. -/
structure Orderly (w : Bench) (line : String) : Prop where
  /-- The configuration needs no repair afterwards. -/
  repaired : (w.feed line).2.configuration.repaired = (w.feed line).2.configuration
  /-- A blank line does nothing. -/
  blank : Text.isBlankText line = true → w.feed line = (.idle, w)
  /-- A comment does nothing. -/
  comment : (Text.trim line).toList.head? = some '#' → w.feed line = (.idle, w)
  /-- A line that is refused does nothing else. -/
  refused : ∀ e, readLine line = .error e → w.feed line = (.refused e, w)
  /-- A command that fails does nothing else. -/
  failed : ∀ command e, readLine line = .ok (some command) → w.perform command = .error e →
    w.feed line = (.failed command e, w)
  /-- A command that only asks for something changes nothing. -/
  asks : ∀ command, readLine line = .ok (some command) →
    command = .list ∨ command = .help ∨ command = .quit →
    w.feed line = (.done command command.followUp, w)
  /-- Only the lines with the two keywords for it change the pasted text. -/
  text : (w.feed line).2.text ≠ w.text →
    Text.lower (Text.cutWord line).1 = "text" ∨ Text.lower (Text.cutWord line).1 = "append"
  /-- The position of a command is one less than a 64-bit number that the line spells. -/
  position : ∀ command i, readLine line = .ok (some command) → command.position? = some i →
    ∃ (word : String) (n : UInt64), word.toList <:+: line.toList ∧
      Text.readUInt64? word = some n ∧ n.toNat = i.toNat + 1
  /-- The position behind it, where a verb may move, is a 64-bit number. -/
  behind : ∀ command i, readLine line = .ok (some command) → command.position? = some i →
    positionBehind i = .ok (i.toNat + 1)
  /-- A verb moves up from a position that has one before it. -/
  before : ∀ i followUp, (w.feed line).1 = .done (.stepUp i) followUp → 0 < i.toNat
  /-- The number of the verb in a message is a 64-bit number. -/
  number : ∀ command e, (w.feed line).1 = .failed command e → ∀ i ∈ e.position?,
    i.toNat + 1 < UInt64.size
  /-- No position is too great. -/
  overflow : ∀ command e, (w.feed line).1 ≠ .failed command (.overflow e)

/-- The outcome of a line that fails is the failure of its command's edit. -/
theorem feed_eq_failed {e : EditError} (h : (w.feed line).1 = .failed command e) :
    readLine line = .ok (some command) ∧ w.configuration.edit command = .error e := by
  rw [feed] at h
  split at h
  next e' hread => exact absurd h nofun
  next hread => exact absurd h nofun
  next command' hread =>
    split at h
    next e' hperform =>
      obtain ⟨rfl, rfl⟩ := LineOutcome.failed.inj h
      exact ⟨hread, perform_eq_error_iff.mp hperform⟩
    next followUp w' hperform => exact absurd h nofun

/-- The outcome of a line that is done is that of its command's edit. -/
theorem feed_eq_done {followUp : FollowUp} (h : (w.feed line).1 = .done command followUp) :
    ∃ c, w.configuration.edit command = .ok c := by
  rcases w.feed_cases line with ⟨outcome, hsame, hdone⟩ | ⟨command', c, -, hedit, hfeed⟩
  · rw [hsame] at h
    exact absurd h (hdone command followUp)
  · rw [hfeed] at h
    obtain ⟨rfl, -⟩ := LineOutcome.done.inj h
    exact ⟨c, hedit⟩

/-- **Every line is taken in an orderly way** by a bench whose configuration is tidy. -/
theorem orderly_of_isTidy (h : w.configuration.IsTidy) (line : String) : w.Orderly line where
  repaired := (isTidy_feed h line).repaired_eq
  blank hblank := feed_of_isIdleLine (isIdleLine_of_isBlankText hblank)
  comment hcomment := feed_of_isIdleLine (isIdleLine_of_comment hcomment)
  refused e hread := by rw [feed, hread]
  failed command e hread hperform := by
    rw [feed, hread]
    simp only [hperform]
  asks command hread hasks := by
    refine feed_of_followUp_ne_edited hread ?_
    rcases hasks with rfl | rfl | rfl
    all_goals exact nofun
  text htext := by
    rcases w.feed_cases line with ⟨outcome, hsame, -⟩ | ⟨command, c, hread, -, hfeed⟩
    · rw [hsame] at htext
      exact absurd rfl htext
    · rw [hfeed] at htext
      refine keyword_of_isPaste hread ?_
      by_contra hpaste
      exact htext (EditCommand.textAfter_of_not_isPaste (Bool.eq_false_iff.mpr hpaste) w.text)
  position command i hread hi := exists_number_of_readLine hread hi
  behind command i hread hi := by
    rw [positionBehind, if_pos (position_lt_of_readLine hread hi)]
  before i followUp hdone := by
    obtain ⟨c, hedit⟩ := feed_eq_done hdone
    exact (Option.ite_none_right_eq_some.mp (orElseFail_eq_ok_iff.mp hedit)).1.1
  number command e hfailed i hi := by
    obtain ⟨hread, hedit⟩ := feed_eq_failed hfailed
    exact position_lt_of_readLine hread (position_of_edit_eq_error hedit i hi)
  overflow command e hfailed := by
    obtain ⟨hread, hedit⟩ := feed_eq_failed hfailed
    obtain ⟨i⟩ := e
    obtain ⟨rfl, hsize⟩ := overflow_of_edit_eq_error hedit
    exact absurd (position_lt_of_readLine hread rfl) (Nat.not_lt.mpr hsize)

/-! ### Sessions -/

/-- The bench after some lines. -/
def feedAll (w : Bench) (lines : List String) : Bench :=
  lines.foldl (fun w line => (w.feed line).2) w

/-- The first line of a session is fed first. -/
theorem feedAll_cons (w : Bench) (line : String) (lines : List String) :
    w.feedAll (line :: lines) = (w.feed line).2.feedAll lines := by
  simp only [feedAll, List.foldl_cons]

/-- A session leaves no need for repair behind. -/
theorem isTidy_feedAll (h : w.configuration.IsTidy) (lines : List String) :
    (w.feedAll lines).configuration.IsTidy := by
  induction lines generalizing w with
  | nil => exact h
  | cons line lines ih =>
      rw [feedAll_cons]
      exact ih (isTidy_feed h line)

/-- **Every line of every session is taken in an orderly way.** -/
theorem orderly_feedAll (h : w.configuration.repaired = w.configuration) (lines : List String)
    (line : String) : (w.feedAll lines).Orderly line :=
  orderly_of_isTidy (isTidy_feedAll (Configuration.repaired_eq_iff.mp h) lines) line

/-- A session that takes over a command line, edits a verb and then moves one that is not
there. -/
theorem orderly_feedAll_import :
    ({} : Bench).configuration.repaired = ({} : Bench).configuration ∧
      (({} : Bench).feedAll
        ["import mlr --icsv sort -f a then  head ", "verb edit 2  tac  "]).Orderly "verb down 9" :=
  ⟨rfl, orderly_feedAll rfl _ _⟩

/-- The verbs that this session leaves. -/
example :
    (({} : Bench).feedAll
      ["import mlr --icsv sort -f a then  head ", "verb edit 2  tac  ", "verb down 9"]
        ).configuration.steps = [⟨"sort -f a", true⟩, ⟨"tac", true⟩] := by
  decide +kernel

end Bench

/-! ### The dialogue -/

/-- What is read from a state file needs no repair, whoever wrote it. -/
theorem StateFile.isTidy_of_read {t : Files.Tree} {path : String} {c : Configuration}
    (h : StateFile.read t path = .ok c) : c.IsTidy := by
  rw [read] at h
  split at h
  next text hread =>
    rw [decode] at h
    split at h
    · split at h
      next c₀ hyaml =>
        obtain rfl := Except.ok.inj h
        exact c₀.isTidy_repaired
      next hyaml => exact absurd h error_ne_ok
    · split at h
      next c₀ hjson =>
        obtain rfl := Except.ok.inj h
        exact c₀.isTidy_repaired
      next e hjson => exact absurd h error_ne_ok
  next hread => exact absurd h error_ne_ok
  next cause hread => exact absurd h error_ne_ok

/-- What a command starts from needs no repair, be it saved or the default. -/
theorem Program.Context.isTidy_of_load {ctx : Program.Context} {c : Configuration} {saved : Bool}
    (h : ctx.load = .ok (c, saved)) : c.IsTidy := by
  rw [load] at h
  split at h
  next c₀ hread =>
    obtain ⟨rfl, -⟩ := Prod.mk.inj (Except.ok.inj h)
    exact StateFile.isTidy_of_read hread
  next hread =>
    obtain ⟨rfl, -⟩ := Prod.mk.inj (Except.ok.inj h)
    exact ⟨by decide, List.forall_mem_nil _⟩
  next e hread => exact absurd h error_ne_ok

namespace Program.Desk

open Display (Style)

/-- A desk that takes a line feeds it to its bench. -/
theorem bench_take (style : Style) (d : Desk) (text : String) :
    (d.take style text).bench = (d.bench.feed text).2 := by
  rcases d.bench.feed_cases text with ⟨outcome, hsame, hdone⟩ | ⟨command, c, hread, -, hfeed⟩
  · simp only [take, hsame]
    cases outcome with
    | done command followUp => exact absurd rfl (hdone command followUp)
    | idle | refused | failed => rfl
  · cases hfollowUp : command.followUp with
    | edited => simp only [take, hfeed, hfollowUp, submit]
    | _ =>
        have hasks : command.followUp ≠ .edited := by
          rw [hfollowUp]
          exact nofun
        simp only [take, Bench.feed_of_followUp_ne_edited hread hasks, hfollowUp, print]

/-- **The bench of a dialogue** is that of a session with some of its lines. -/
theorem exists_bench_takeLines (style : Style) (d : Desk) (pieces : List (List UInt8)) :
    ∃ lines, (d.takeLines style pieces).1.bench = d.bench.feedAll lines := by
  induction pieces generalizing d with
  | nil => exact ⟨[], rfl⟩
  | cons piece rest ih =>
      rw [takeLines]
      cases Text.decode? piece with
      | none => exact ⟨[], rfl⟩
      | some text =>
          dsimp only
          split
          · exact ⟨[], rfl⟩
          · obtain ⟨lines, hlines⟩ := ih (d.take style text)
            exact ⟨text :: lines, by rw [hlines, bench_take, Bench.feedAll_cons]⟩

/-- **The configuration of a dialogue never needs repair**, whatever is in the state file and
whatever the lines are. -/
theorem isTidy_takeLines {ctx : Context} {c : Configuration} {saved : Bool}
    (h : ctx.load = .ok (c, saved)) (style : Style) (pieces : List (List UInt8)) :
    ((openDesk c style).takeLines style pieces).1.bench.configuration.IsTidy := by
  obtain ⟨lines, hlines⟩ := exists_bench_takeLines style (openDesk c style) pieces
  have hopen : (openDesk c style).bench.configuration = c := rfl
  rw [hlines]
  refine Bench.isTidy_feedAll ?_ lines
  rw [hopen]
  exact Context.isTidy_of_load h

end Program.Desk

end Pipewright
