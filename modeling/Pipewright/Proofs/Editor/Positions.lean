import Mathlib.Data.List.Infix
import Mathlib.Data.List.TakeWhile
import Pipewright.Editor.Apply
import Pipewright.Proofs.Outcome
import Pipewright.Proofs.Text.Span

/-!
# Positions in the Edit Language

People count verbs from one, and the program counts them from zero. The number is read from a
word of the line as a 64-bit number, and one is taken off it; when an edit fails, one is added
again for the message. Neither step leaves the 64-bit numbers, because a zero is refused where
a number is read.

## Main definitions

* `EditCommand.position?`, `EditError.position?`: the position that a command or a failure
  speaks of.
* `EditCommand.isPaste`: the command is about the pasted text.

## Main results

* `exists_number_of_readLine`: every position is one less than a number that the line spells.
* `position_of_edit_eq_error`: a failed edit speaks of the position of its command.
* `keyword_of_isPaste`: the keywords of the lines about the pasted text.
-/

namespace Pipewright

/-! ### Words of a line -/

namespace Text

/-- The first word of a text is a piece of it. -/
theorem cutWord_fst_isInfix (s : String) : (cutWord s).1.toList <:+: s.toList := by
  rw [cutWord, String.toList_ofList]
  exact (List.takeWhile_prefix _).isInfix.trans (trimChars_isInfix s.toList)

/-- What follows the first word of a text is a piece of it. -/
theorem cutWord_snd_isInfix (s : String) : (cutWord s).2.toList <:+: s.toList := by
  rw [cutWord, String.toList_ofList]
  have hrest := (List.dropWhile_suffix (!isBlank ·) (l := trimChars s.toList)).isInfix
  exact (trimChars_isInfix _).trans (hrest.trans (trimChars_isInfix s.toList))

end Text

/-! ### Commands and failures with a position -/

/-- The position that a command speaks of. -/
def EditCommand.position? : EditCommand → Option UInt64
  | .stepEdit i _ | .stepRemove i | .stepUp i | .stepDown i | .stepToggle i => some i
  | _ => none

/-- The command is about the pasted text. -/
def EditCommand.isPaste : EditCommand → Bool
  | .text _ | .append _ => true
  | _ => false

/-- The position that a failure speaks of. -/
def EditError.position? : EditError → Option UInt64
  | .noStep i | .cannotMoveUp i | .cannotMoveDown i | .overflow (.behind i) => some i
  | .blankStep | .refused _ _ => none

/-- **What a numeral denotes.** The position is one less than the number, which is not zero. -/
theorem readPosition_eq_ok_iff {word : String} {i : UInt64} :
    readPosition word = .ok i ↔ ∃ n, Text.readUInt64? word = some n ∧ n.toNat = i.toNat + 1 := by
  rw [readPosition]
  cases Text.readUInt64? word with
  | none => simp
  | some n =>
      simp only [Option.some.injEq, exists_eq_left']
      by_cases hzero : n = 0
      · subst hzero
        simp
      · have hpos : 0 < n.toNat := by
          refine Nat.pos_of_ne_zero fun h => hzero ?_
          rw [← UInt64.toNat_inj, h, UInt64.toNat_zero]
        have hpred : (n - 1).toNat = n.toNat - 1 :=
          UInt64.toNat_sub_of_le _ _ (UInt64.le_iff_toNat_le.mpr hpos)
        rw [if_neg hzero, Except.ok.injEq, ← UInt64.toNat_inj, hpred]
        omega

/-- A line about verbs is not about the pasted text, and its position stands behind the action
or behind the number of an edit. -/
theorem yields_readVerbCommand (rest : String) :
    Yields (readVerbCommand rest) fun command => command.isPaste = false ∧
      ∀ i ∈ command.position?, ∃ word : String,
        word.toList <:+: rest.toList ∧ readPosition word = .ok i := by
  rw [readVerbCommand]
  dsimp only
  have hbehind := Text.cutWord_snd_isInfix rest
  have hnumber := (Text.cutWord_fst_isInfix (Text.cutWord rest).2).trans hbehind
  -- the five commands with a position end alike, with the word that was read for it
  have hends {command : EditCommand} {word : String} {i : UInt64} (hpaste : command.isPaste = false)
      (hposition : command.position? = some i) (hword : word.toList <:+: rest.toList)
      (hread : readPosition word = .ok i) : command.isPaste = false ∧
        ∀ i ∈ command.position?, ∃ word : String,
          word.toList <:+: rest.toList ∧ readPosition word = .ok i := by
    refine ⟨hpaste, fun j hj => ⟨word, hword, ?_⟩⟩
    rw [hposition, Option.mem_some_iff] at hj
    rw [hread, hj]
  refine .ite (fun _ => .bind fun text _ => .pure ⟨rfl, nofun⟩) fun _ => ?_
  refine .ite (fun _ => .bind fun text _ => .bind fun i hi => .pure (hends rfl rfl hnumber hi))
    fun _ => ?_
  refine .ite (fun _ => .bind fun i hi => .pure (hends rfl rfl hbehind hi)) fun _ => ?_
  refine .ite (fun _ => .bind fun i hi => .pure (hends rfl rfl hbehind hi)) fun _ => ?_
  refine .ite (fun _ => .bind fun i hi => .pure (hends rfl rfl hbehind hi)) fun _ => ?_
  exact .ite (fun _ => .bind fun i hi => .pure (hends rfl rfl hbehind hi)) fun _ => .throw _

/-- A line about the pasted text starts with one of two keywords, and only a line about verbs
speaks of a position. -/
theorem yields_readCommand (keyword rest : String) :
    Yields (readCommand keyword rest) fun command =>
      (command.isPaste = true → keyword = "text" ∨ keyword = "append") ∧
      ∀ i ∈ command.position?, ∃ word : String,
        word.toList <:+: rest.toList ∧ readPosition word = .ok i := by
  rw [readCommand]
  refine .ite (fun _ command h => ?_) fun _ => ?_
  · obtain ⟨hpaste, hposition⟩ := yields_readVerbCommand rest command h
    exact ⟨fun h => absurd (hpaste.symm.trans h) nofun, hposition⟩
  -- no other command has a position, and two of them are about the pasted text
  have hplain {command : EditCommand} (hpaste : command.isPaste = false)
      (hposition : command.position? = none) :
      (command.isPaste = true → keyword = "text" ∨ keyword = "append") ∧
        ∀ i ∈ command.position?, ∃ word : String,
          word.toList <:+: rest.toList ∧ readPosition word = .ok i := by
    refine ⟨fun h => absurd (hpaste.symm.trans h) nofun, fun i hi => ?_⟩
    exact absurd (hposition.symm.trans hi) nofun
  refine .ite (fun _ => ?inFormat) fun _ => ?_
  case inFormat =>
    cases InputFormat.ofName? rest with
    | none => exact .throw _
    | some f => exact .pure (hplain rfl rfl)
  refine .ite (fun _ => ?outFormat) fun _ => ?_
  case outFormat =>
    cases OutputFormat.ofName? rest with
    | none => exact .throw _
    | some f => exact .pure (hplain rfl rfl)
  refine .ite (fun _ => .bind fun _ _ => .pure (hplain rfl rfl)) fun _ => ?_
  refine .ite (fun _ => .bind fun _ _ => .pure (hplain rfl rfl)) fun _ => ?_
  refine .ite (fun _ => .bind fun _ _ => .pure (hplain rfl rfl)) fun _ => ?_
  refine .ite (fun _ => .pure (hplain rfl rfl)) fun _ => ?_
  refine .ite (fun _ => .bind fun _ _ => .pure (hplain rfl rfl)) fun _ => ?_
  refine .ite (fun h => .pure ⟨fun _ => .inl (eq_of_beq h), nofun⟩) fun _ => ?_
  refine .ite (fun h => .pure ⟨fun _ => .inr (eq_of_beq h), nofun⟩) fun _ => ?_
  refine .ite (fun _ => .bind fun _ _ => .pure (hplain rfl rfl)) fun _ => ?_
  refine .ite (fun _ => .pure (hplain rfl rfl)) fun _ => ?_
  refine .ite (fun _ => .pure (hplain rfl rfl)) fun _ => ?_
  exact .ite (fun _ => .pure (hplain rfl rfl)) fun _ => .throw _

/-- A line with a command is not idle, and its command is that of its keyword. -/
theorem readLine_eq_some_iff {line : String} {command : EditCommand} :
    readLine line = .ok (some command) ↔ isIdleLine line = false ∧
      readCommand (Text.lower (Text.cutWord line).1) (Text.cutWord line).2 = .ok command := by
  rw [readLine]
  cases isIdleLine line with
  | true => simp [pure, Except.pure]
  | false => simp [bind_eq_ok_iff, pure, Except.pure]

/-- **The keywords of the pasted text.** -/
theorem keyword_of_isPaste {line : String} {command : EditCommand}
    (h : readLine line = .ok (some command)) (hpaste : command.isPaste = true) :
    Text.lower (Text.cutWord line).1 = "text" ∨ Text.lower (Text.cutWord line).1 = "append" :=
  (yields_readCommand _ _ command (readLine_eq_some_iff.mp h).2).1 hpaste

/-- **Positions come from numbers.** The position of a command is one less than a number that
the line spells. -/
theorem exists_number_of_readLine {line : String} {command : EditCommand} {i : UInt64}
    (h : readLine line = .ok (some command)) (hi : command.position? = some i) :
    ∃ (word : String) (n : UInt64), word.toList <:+: line.toList ∧
      Text.readUInt64? word = some n ∧ n.toNat = i.toNat + 1 := by
  have hyields := yields_readCommand _ _ command (readLine_eq_some_iff.mp h).2
  obtain ⟨word, hword, hread⟩ := hyields.2 i hi
  obtain ⟨n, hn, hsucc⟩ := readPosition_eq_ok_iff.mp hread
  exact ⟨word, n, hword.trans (Text.cutWord_snd_isInfix line), hn, hsucc⟩

/-- The position behind that of a command is a 64-bit number. -/
theorem position_lt_of_readLine {line : String} {command : EditCommand} {i : UInt64}
    (h : readLine line = .ok (some command)) (hi : command.position? = some i) :
    i.toNat + 1 < UInt64.size := by
  obtain ⟨-, n, -, -, hsucc⟩ := exists_number_of_readLine h hi
  rw [← hsucc]
  exact n.toNat_lt_size

/-! ### Failures -/

/-- A value that is there is what is yielded. -/
theorem orElseFail_eq_ok_iff {ε α : Type} {e : ε} {a : α} {value : Option α} :
    orElseFail e value = .ok a ↔ value = some a := by
  cases value <;> simp [orElseFail]

/-- A failure where there is no value is the given one. -/
theorem orElseFail_eq_error_iff {ε α : Type} {e e' : ε} {value : Option α} :
    orElseFail e value = .error e' ↔ value = none ∧ e = e' := by
  cases value <;> simp [orElseFail]

/-- The exchange with the verb behind fails at the position, or beyond the 64-bit numbers. -/
theorem edit_stepDown_eq_error_iff {c : Configuration} {i : UInt64} {e : EditError} :
    c.edit (.stepDown i) = .error e ↔
      (i.toNat + 1 < UInt64.size ∧ c.steps.length ≤ i.toNat + 1 ∧ e = .cannotMoveDown i) ∨
      (UInt64.size ≤ i.toNat + 1 ∧ e = .overflow (.behind i)) := by
  rw [Configuration.edit, Configuration.moveStepDown, positionBehind]
  by_cases hbehind : i.toNat + 1 < UInt64.size
  · have hfits : ¬ UInt64.size ≤ i.toNat + 1 := Nat.not_le.mpr hbehind
    by_cases hlast : i.toNat + 1 < c.steps.length
    · have hnone : ¬ c.steps.length ≤ i.toNat + 1 := Nat.not_le.mpr hlast
      simp [hbehind, hlast, hfits, hnone, bind, Except.bind, pure, Except.pure, orElseFail]
    · simp [hbehind, hlast, hfits, bind, Except.bind, pure, Except.pure, orElseFail,
        Nat.not_lt.mp hlast, eq_comm]
  · simp [hbehind, Nat.not_lt.mp hbehind, bind, Except.bind, eq_comm]

/-- A failed edit speaks of the position of its command, if of any. -/
theorem position_of_edit_eq_error {c : Configuration} {command : EditCommand} {e : EditError}
    (h : c.edit command = .error e) : ∀ i ∈ e.position?, command.position? = some i := by
  intro i hi
  cases command with
  | stepDown j =>
      rcases edit_stepDown_eq_error_iff.mp h with ⟨-, -, rfl⟩ | ⟨-, rfl⟩
      · exact hi
      · exact hi
  | stepAdd | stepEdit | stepRemove | stepUp | stepToggle =>
      rw [Configuration.edit, orElseFail_eq_error_iff] at h
      obtain ⟨-, rfl⟩ := h
      exact hi
  | importCommand line =>
      rw [Configuration.edit] at h
      split at h
      · exact absurd h nofun
      · obtain rfl := Except.error.inj h
        exact absurd hi nofun
  | _ => exact absurd h nofun

/-- Only the exchange with the verb behind can go beyond the 64-bit numbers, and only from the
greatest of them. -/
theorem overflow_of_edit_eq_error {c : Configuration} {command : EditCommand} {i : UInt64}
    (h : c.edit command = .error (.overflow (.behind i))) :
    command = .stepDown i ∧ UInt64.size ≤ i.toNat + 1 := by
  have hposition : command.position? = some i := position_of_edit_eq_error h i rfl
  cases command with
  | stepDown j =>
      obtain rfl : j = i := Option.some.inj hposition
      rcases edit_stepDown_eq_error_iff.mp h with ⟨-, -, he⟩ | ⟨hsize, -⟩
      · exact absurd he nofun
      · exact ⟨rfl, hsize⟩
  | stepEdit | stepRemove | stepUp | stepToggle =>
      rw [Configuration.edit, orElseFail_eq_error_iff] at h
      exact absurd h.2 nofun
  | _ => exact absurd hposition nofun

end Pipewright
