import Pipewright.Proofs.Editor.Escapes
import Pipewright.Proofs.Editor.Positions
import Pipewright.Proofs.Text.Words

/-!
# Canonical Lines of the Edit Language

A command can be typed in many ways: keywords have short forms and count in letters of any case,
numbers may have zeros or a plus sign in front, and blanks do not matter between words. Every
command has one canonical line nevertheless, and reading that line yields the command. What a line
says beyond its keywords, its payload, is taken over as it stands.

## Main definitions

* `EditCommand.lead`, `EditCommand.payload`, `EditCommand.line`: the canonical line of a command.
* `EditCommand.IsTypeable`: what is true of a command that a line can say.
* `EditCommand.Carries`: a command holds what stands behind the words of its line.

## Main results

* `Text.readUInt64?_toString`: a 64-bit number is read back from its digits.
* `readLine_line_of_isTypeable`: a command is read from its canonical line.
* `carries_of_readLine`: what a command holds stands in the line it was read from.
* `exists_readLine_eq_iff`: the commands that are read are those that a line can say.
* `readLine_line_of_readLine`: every command has a canonical line.
-/

namespace Pipewright

open Text (Trimmed IsWord cutWord behindWords)

/-! ### Numerals -/

/-- **A 64-bit number is read back from its digits.** -/
theorem Text.readUInt64?_toString {n : Nat} (h : n < UInt64.size) :
    readUInt64? (toString n) = some n.toUInt64 := by
  have hdigits : ∀ c ∈ Nat.toDigits 10 n, c.isDigit = true := fun c hc =>
    Nat.isDigit_of_mem_toDigits (by decide) (by decide) hc
  have hunsigned : unsigned (Nat.toDigits 10 n) = Nat.toDigits 10 n := by
    rw [unsigned]
    intro cs hcs
    exact absurd (hdigits '+' (hcs ▸ List.mem_cons_self)) (by decide)
  have hvalue : readNat? (Nat.toDigits 10 n) = some n := by
    rw [readNat?, if_neg (by simpa [Nat.toDigits_ne_nil] using hdigits)]
    have hfold := Nat.ofDigitChars_ten_toDigits (n := n)
    rw [Nat.ofDigitChars_eq_foldl] at hfold
    exact congrArg some hfold
  rw [readUInt64?, Nat.toString_eq_ofList_toDigits, String.toList_ofList, hunsigned, hvalue]
  exact if_pos h

/-- The position of a verb is read back from its number. -/
theorem readPosition_toString {i : UInt64} (h : i.toNat + 1 < UInt64.size) :
    readPosition (toString (i.toNat + 1)) = .ok i :=
  readPosition_eq_ok_iff.mpr ⟨_, Text.readUInt64?_toString h, UInt64.toNat_ofNat_of_lt' h⟩

namespace EditCommand

/-- The number of the verb at a position, as it is typed. -/
def number (i : UInt64) : String :=
  toString (i.toNat + 1)

/-- The word for a state of a switch, if it is not to be turned over. -/
def switchWords : Option Bool → List String
  | none => []
  | some true => ["on"]
  | some false => ["off"]

/-- The words in front of the payload. -/
def lead : EditCommand → List String
  | .stepAdd _ => ["verb", "add"]
  | .stepEdit i _ => ["verb", "edit", number i]
  | .stepRemove i => ["verb", "rm", number i]
  | .stepUp i => ["verb", "up", number i]
  | .stepDown i => ["verb", "down", number i]
  | .stepToggle i => ["verb", "toggle", number i]
  | .inputFormat f => ["in", f.name]
  | .outputFormat f => ["out", f.name]
  | .ragged on => "ragged" :: switchWords on
  | .headerless on => "headerless" :: switchWords on
  | .separator _ => ["ifs"]
  | .options _ => ["options"]
  | .file _ => ["file"]
  | .text _ => ["text"]
  | .append _ => ["append"]
  | .importCommand _ => ["import"]
  | .list => ["list"]
  | .help => ["help"]
  | .quit => ["quit"]

/-- There is a keyword in front of every payload. -/
theorem length_lead (command : EditCommand) :
    command.lead.length = command.lead.tail.length + 1 := by
  cases command <;> rfl

/-- The payload that is taken over as it stands. -/
def verbatim? : EditCommand → Option String
  | .stepAdd typed | .stepEdit _ typed | .separator typed | .options typed | .file typed
  | .importCommand typed => some typed
  | _ => none

/-- The text that a command about the pasted text carries. -/
def pasted? : EditCommand → Option String
  | .text content | .append content => some content
  | _ => none

/-- The payload as it is typed. -/
def payload (command : EditCommand) : String :=
  (command.verbatim?.or (command.pasted?.map writeEscapes)).getD ""

/-- **The canonical line** of a command. -/
def line (command : EditCommand) : String :=
  " ".intercalate (command.lead ++ [command.payload].filter (· ≠ ""))

/-- A line can say this command. -/
structure IsTypeable (command : EditCommand) : Prop where
  /-- The number of the verb is a 64-bit number. -/
  position : ∀ i ∈ command.position?, i.toNat + 1 < UInt64.size
  /-- What is taken over as it stands has no blanks at its ends. -/
  verbatim : ∀ typed ∈ command.verbatim?, Trimmed typed.toList
  /-- Only the options may be empty. -/
  present : command.verbatim? = some "" → command = .options ""
  /-- Neither has pasted text once its escapes are written, and it holds no others. -/
  pasted : ∀ content ∈ command.pasted?,
    Trimmed (writeEscapesIn content.toList) ∧ ¬ HoldsEscape content.toList

end EditCommand

/-! ### Reading a line of words -/

/-- The text is a word in lower case that starts no comment. -/
structure IsKeyword (w : String) : Prop where
  /-- It is a word. -/
  isWord : IsWord w.toList
  /-- It is in lower case. -/
  lower : Text.lower w = w
  /-- It starts no comment. -/
  head : w.toList.head? ≠ some '#'

/-- Whether a text is a keyword can be decided. -/
instance (w : String) : Decidable (IsKeyword w) :=
  decidable_of_iff (IsWord w.toList ∧ Text.lower w = w ∧ w.toList.head? ≠ some '#')
    ⟨fun h => ⟨h.1, h.2.1, h.2.2⟩, fun h => ⟨h.1, h.2, h.3⟩⟩

/-- A line whose first word starts no comment holds a command. -/
theorem isIdleLine_eq_false {line : String} {c : Char}
    (h : (cutWord line).1.toList.head? = some c) (hc : c ≠ '#') : isIdleLine line = false := by
  rw [cutWord, String.toList_ofList] at h
  obtain ⟨word, hword⟩ := List.head?_eq_some_iff.mp h
  obtain ⟨rest, hrest⟩ := List.takeWhile_prefix (!Text.isBlank ·) (l := Text.trimChars line.toList)
  rw [hword, List.cons_append] at hrest
  rw [isIdleLine, Text.trim, String.toList_ofList, ← hrest]
  exact beq_eq_false_iff_ne.mpr hc

/-- **A line that starts with a keyword** is read as the command of that keyword. -/
theorem readLine_intercalate {w : String} (hw : IsKeyword w) (ws : List String) :
    readLine (" ".intercalate (w :: ws)) =
      (readCommand w (Text.trim (" ".intercalate ws))).map some := by
  have hcut := Text.cutWord_intercalate hw.isWord ws
  have hidle : isIdleLine (" ".intercalate (w :: ws)) = false := by
    have hfirst := List.head?_eq_some_head hw.isWord.ne_nil
    refine isIdleLine_eq_false (by rw [hcut]; exact hfirst) ?_
    rintro hcomment
    exact hw.head (hcomment ▸ hfirst)
  rw [readLine, hidle, hcut]
  dsimp only
  rw [hw.lower]
  rfl

/-- The payload of a line, or nothing at its end. -/
theorem intercalate_payload (payload : String) :
    " ".intercalate ([payload].filter (· ≠ "")) = payload := by
  by_cases h : payload = ""
  · subst h
    rfl
  · simp [h]

/-- A text that is required is there unless it is empty. -/
theorem required_eq_ok_iff {missing : LineError} {behind typed : String} :
    required missing behind = .ok typed ↔ behind ≠ "" ∧ typed = behind := by
  rw [required]
  split
  next h => simp [String.isEmpty_iff.mp h]
  next h =>
    rw [Except.ok.injEq, eq_comm]
    exact (and_iff_right (mt String.isEmpty_iff.mpr h)).symm

/-! ### Reading canonical lines -/

section Lead

open EditCommand (number switchWords)

variable {command : EditCommand} {w : String} {ws : List String} {rest : String}

/-- A canonical line starts with a keyword. -/
theorem isKeyword_of_lead (hlead : command.lead = w :: ws) : IsKeyword w := by
  cases command <;>
  · obtain ⟨rfl, -⟩ := List.cons.inj hlead
    decide +kernel

/-- A canonical line is read by its keyword and what is behind it. -/
theorem readLine_of_lead (hlead : command.lead = w :: ws)
    (hrest : Text.trim (" ".intercalate (ws ++ [command.payload].filter (· ≠ ""))) = rest)
    (hread : readCommand w rest = .ok command) : readLine command.line = .ok (some command) := by
  rw [EditCommand.line, hlead, List.cons_append, readLine_intercalate (isKeyword_of_lead hlead),
    hrest, hread]
  rfl

/-- A canonical line without a payload is read by its keyword and the words behind it. -/
theorem readLine_of_words (hlead : command.lead = w :: ws) (hpayload : command.payload = "")
    (hread : readCommand w (Text.trim (" ".intercalate ws)) = .ok command) :
    readLine command.line = .ok (some command) := by
  refine readLine_of_lead hlead ?_ hread
  rw [hpayload, List.filter_cons_of_neg (by simp), List.filter_nil, List.append_nil]

/-- A canonical line with nothing but a payload behind its keyword. -/
theorem readLine_of_keyword (hlead : command.lead = [w])
    (htrimmed : Trimmed command.payload.toList)
    (hread : readCommand w command.payload = .ok command) :
    readLine command.line = .ok (some command) := by
  refine readLine_of_lead hlead ?_ hread
  rw [List.nil_append, intercalate_payload, htrimmed.trim_eq]

/-- A canonical line about verbs is read by its action and what is behind it. -/
theorem readLine_of_action (hlead : command.lead = "verb" :: w :: ws) (hw : IsWord w.toList)
    (hrest : Text.trim (" ".intercalate (ws ++ [command.payload].filter (· ≠ ""))) = rest)
    (hread : ∀ s, cutWord s = (w, rest) → readVerbCommand s = .ok command) :
    readLine command.line = .ok (some command) := by
  refine readLine_of_lead hlead rfl ((if_pos rfl).trans (hread _ ?_))
  rw [Text.cutWord_trim, List.cons_append, Text.cutWord_intercalate hw, hrest]

/-- A line about the text of one verb has the number of the verb and the text behind its action. -/
theorem readVerbCommand_of_edit {s number typed : String} (hs : cutWord s = ("edit", rest))
    (hrest : cutWord rest = (number, typed)) :
    readVerbCommand s = (required .missingVerbText typed >>= fun t =>
      (readPosition number).map (.stepEdit · t)) := by
  rw [readVerbCommand, hs]
  dsimp only
  rw [hrest]
  rfl

/-- A canonical line about one verb has nothing but the number of the verb behind its action. -/
theorem readLine_of_position {i : UInt64} {make : UInt64 → EditCommand}
    (hlead : (make i).lead = ["verb", w, number i]) (hpayload : (make i).payload = "")
    (hw : IsWord w.toList) (hi : i.toNat + 1 < UInt64.size)
    (hread : ∀ s, cutWord s = (w, number i) →
      readVerbCommand s = (readPosition (number i)).map make) :
    readLine (make i).line = .ok (some (make i)) := by
  have hrest : Text.trim (" ".intercalate ([number i] ++ [(make i).payload].filter (· ≠ ""))) =
      number i := by
    rw [hpayload]
    exact (Text.isWord_toString _).trimmed.trim_eq
  refine readLine_of_action hlead hw hrest fun s hs => ?_
  rw [hread s hs, number, readPosition_toString hi]
  rfl

/-- A canonical line with a payload that must not be missing behind its keyword. -/
theorem readLine_of_required {typed : String} {make : String → EditCommand} {missing : LineError}
    (hlead : (make typed).lead = [w]) (hpayload : (make typed).payload = typed)
    (htyped : typed ≠ "" ∧ Trimmed typed.toList)
    (hread : readCommand w typed = (required missing typed).map make) :
    readLine (make typed).line = .ok (some (make typed)) := by
  refine readLine_of_keyword hlead (by rw [hpayload]; exact htyped.2) ?_
  rw [hpayload, hread, required_eq_ok_iff.mpr ⟨htyped.1, rfl⟩]
  rfl

/-- A canonical line about the pasted text has the text with its escapes behind its keyword. -/
theorem readLine_of_pasted {content : String} {make : String → EditCommand}
    (hlead : (make content).lead = [w]) (hpayload : (make content).payload = writeEscapes content)
    (hcontent : Trimmed (writeEscapesIn content.toList) ∧ ¬ HoldsEscape content.toList)
    (hread : ∀ s, readCommand w s = .ok (make (expandEscapes s))) :
    readLine (make content).line = .ok (some (make content)) := by
  have htrimmed : Trimmed (make content).payload.toList := by
    rw [hpayload, writeEscapes, String.toList_ofList]
    exact hcontent.1
  refine readLine_of_keyword hlead htrimmed ?_
  rw [hread, hpayload, expandEscapes_writeEscapes hcontent.2]

/-- The state of a switch is read back from its word. -/
theorem readSwitch_switchWords (on : Option Bool) :
    readSwitch (Text.trim (" ".intercalate (switchWords on))) = .ok on := by
  cases on with
  | none => decide +kernel
  | some on => cases on <;> decide +kernel

/-- A canonical line about a switch has the word for its state behind its keyword. -/
theorem readLine_of_switch {on : Option Bool} {make : Option Bool → EditCommand}
    (hlead : (make on).lead = w :: switchWords on) (hpayload : (make on).payload = "")
    (hread : ∀ s, readCommand w s = readSwitch s >>= fun on => .ok (make on)) :
    readLine (make on).line = .ok (some (make on)) := by
  refine readLine_of_words hlead hpayload ?_
  rw [hread, readSwitch_switchWords]
  rfl

end Lead

/-- A command that a line can say is read from its canonical line. -/
theorem readLine_line_of_isTypeable {command : EditCommand} (h : command.IsTypeable) :
    readLine command.line = .ok (some command) := by
  -- only the options may be empty
  have htyped {typed : String} (hverbatim : command.verbatim? = some typed)
      (hother : command ≠ .options "") : typed ≠ "" ∧ Trimmed typed.toList := by
    refine ⟨fun hempty => hother (h.present ?_), h.verbatim typed hverbatim⟩
    rw [hverbatim, hempty]
  cases command with
  | stepAdd typed =>
      obtain ⟨hne, htrimmed⟩ := htyped rfl (by simp)
      have hrest : Text.trim (" ".intercalate ([typed].filter (· ≠ ""))) = typed := by
        rw [intercalate_payload, htrimmed.trim_eq]
      refine readLine_of_action rfl (by decide +kernel) hrest fun s hs => ?_
      have hread : readVerbCommand s = (required .missingVerb typed).map .stepAdd := by
        rw [readVerbCommand, hs]
        rfl
      rw [hread, required_eq_ok_iff.mpr ⟨hne, rfl⟩]
      rfl
  | stepEdit i typed =>
      obtain ⟨hne, htrimmed⟩ := htyped rfl (by simp)
      have hcut : cutWord (Text.trim (" ".intercalate
          ([EditCommand.number i] ++ [typed].filter (· ≠ "")))) =
            (EditCommand.number i, typed) := by
        have hnumber : IsWord (EditCommand.number i).toList := Text.isWord_toString _
        rw [Text.cutWord_trim, List.singleton_append, Text.cutWord_intercalate hnumber,
          intercalate_payload, htrimmed.trim_eq]
      refine readLine_of_action rfl (by decide +kernel) rfl fun s hs => ?_
      rw [readVerbCommand_of_edit hs hcut, required_eq_ok_iff.mpr ⟨hne, rfl⟩, EditCommand.number,
        readPosition_toString (h.position i rfl)]
      rfl
  | stepRemove i | stepUp i | stepDown i | stepToggle i =>
      refine readLine_of_position rfl rfl (by decide +kernel) (h.position i rfl) fun s hs => ?_
      rw [readVerbCommand, hs]
      rfl
  | inputFormat f =>
      refine readLine_of_words rfl rfl ?_
      cases f <;> decide +kernel
  | outputFormat f =>
      refine readLine_of_words rfl rfl ?_
      cases f <;> decide +kernel
  | ragged on | headerless on => exact readLine_of_switch rfl rfl fun _ => rfl
  | separator typed | file typed | importCommand typed =>
      exact readLine_of_required rfl rfl (htyped rfl (by simp)) rfl
  | options typed => exact readLine_of_keyword rfl (h.verbatim typed rfl) rfl
  | text content | append content =>
      exact readLine_of_pasted rfl rfl (h.pasted content rfl) fun _ => rfl
  | list | help | quit => exact readLine_of_words rfl rfl (by decide +kernel)

/-- Only the payload keeps its blanks. -/
example : EditCommand.line (.stepEdit 1 "sort  -f a") = "verb edit 2 sort  -f a" := by
  decide +kernel

/-! ### What a line says -/

namespace EditCommand

/-- What the command holds is what stands behind the words of its line. -/
structure Carries (command : EditCommand) (behind : String) : Prop where
  /-- It is taken over as it stands. -/
  verbatim : ∀ typed ∈ command.verbatim?, typed = behind
  /-- Only the options may be empty. -/
  present : command.verbatim? = some "" → command = .options ""
  /-- The escapes of pasted text are expanded. -/
  pasted : ∀ content ∈ command.pasted?, content = expandEscapes behind

variable {command : EditCommand} {behind typed : String}

/-- A command without a payload. -/
theorem carries_of_eq_none (hverbatim : command.verbatim? = none)
    (hpasted : command.pasted? = none) : command.Carries behind := by
  refine ⟨?_, ?_, ?_⟩ <;> simp [hverbatim, hpasted]

/-- A command with a payload that must not be missing. -/
theorem carries_of_required {missing : LineError} (hverbatim : command.verbatim? = some typed)
    (hpasted : command.pasted? = none) (h : required missing behind = .ok typed) :
    command.Carries behind := by
  obtain ⟨hne, rfl⟩ := required_eq_ok_iff.mp h
  refine ⟨?_, ?_, ?_⟩ <;> simp [hverbatim, hpasted, hne]

/-- The options may be missing. -/
theorem carries_options : (options behind).Carries behind := by
  refine ⟨?_, ?_, ?_⟩ <;> simp [verbatim?, pasted?]

/-- A command about the pasted text. -/
theorem carries_of_pasted (hverbatim : command.verbatim? = none)
    (hpasted : command.pasted? = some (expandEscapes behind)) : command.Carries behind := by
  refine ⟨?_, ?_, ?_⟩ <;> simp [hverbatim, hpasted]

end EditCommand

open EditCommand (carries_of_eq_none carries_of_required carries_options carries_of_pasted)

/-- What a command about verbs holds is what stands behind its action and its number. -/
theorem yields_readVerbCommand_carries (rest : String) : Yields (readVerbCommand rest)
    fun command => command.Carries (behindWords command.lead.tail.length rest) := by
  rw [readVerbCommand]
  dsimp only
  refine .ite (fun _ => .bind fun typed h => .pure (carries_of_required rfl rfl h)) fun _ => ?_
  refine .ite (fun _ => .bind fun typed h => .bind fun i _ => .pure (carries_of_required rfl rfl h))
    fun _ => ?_
  refine .ite (fun _ => .bind fun i _ => .pure (carries_of_eq_none rfl rfl)) fun _ => ?_
  refine .ite (fun _ => .bind fun i _ => .pure (carries_of_eq_none rfl rfl)) fun _ => ?_
  refine .ite (fun _ => .bind fun i _ => .pure (carries_of_eq_none rfl rfl)) fun _ => ?_
  exact .ite (fun _ => .bind fun i _ => .pure (carries_of_eq_none rfl rfl)) fun _ => .throw _

/-- What a command holds is what stands behind its keyword and the other words of its line. -/
theorem yields_readCommand_carries (keyword rest : String) : Yields (readCommand keyword rest)
    fun command => command.Carries (behindWords command.lead.tail.length rest) := by
  rw [readCommand]
  refine .ite (fun _ => yields_readVerbCommand_carries rest) fun _ => ?_
  refine .ite (fun _ => ?inFormat) fun _ => ?_
  case inFormat =>
    cases InputFormat.ofName? rest with
    | none => exact .throw _
    | some f => exact .pure (carries_of_eq_none rfl rfl)
  refine .ite (fun _ => ?outFormat) fun _ => ?_
  case outFormat =>
    cases OutputFormat.ofName? rest with
    | none => exact .throw _
    | some f => exact .pure (carries_of_eq_none rfl rfl)
  refine .ite (fun _ => .bind fun on _ => .pure (carries_of_eq_none rfl rfl)) fun _ => ?_
  refine .ite (fun _ => .bind fun on _ => .pure (carries_of_eq_none rfl rfl)) fun _ => ?_
  refine .ite (fun _ => .bind fun typed h => .pure (carries_of_required rfl rfl h)) fun _ => ?_
  refine .ite (fun _ => .pure carries_options) fun _ => ?_
  refine .ite (fun _ => .bind fun typed h => .pure (carries_of_required rfl rfl h)) fun _ => ?_
  refine .ite (fun _ => .pure (carries_of_pasted rfl rfl)) fun _ => ?_
  refine .ite (fun _ => .pure (carries_of_pasted rfl rfl)) fun _ => ?_
  refine .ite (fun _ => .bind fun typed h => .pure (carries_of_required rfl rfl h)) fun _ => ?_
  refine .ite (fun _ => .pure (carries_of_eq_none rfl rfl)) fun _ => ?_
  refine .ite (fun _ => .pure (carries_of_eq_none rfl rfl)) fun _ => ?_
  exact .ite (fun _ => .pure (carries_of_eq_none rfl rfl)) fun _ => .throw _

/-- **What a command holds** is what stands in its line behind as many words as its canonical line
has in front of the payload. -/
theorem carries_of_readLine {line : String} {command : EditCommand}
    (h : readLine line = .ok (some command)) :
    command.Carries (behindWords command.lead.length line) := by
  have hcarries := yields_readCommand_carries _ _ command (readLine_eq_some_iff.mp h).2
  rw [command.length_lead]
  exact hcarries

/-- The payload of a line is trimmed, and it is an end of the trimmed line. -/
theorem behindWords_lead (command : EditCommand) (line : String) :
    Trimmed (behindWords command.lead.length line).toList ∧
      (behindWords command.lead.length line).toList <:+ Text.trimChars line.toList := by
  rw [command.length_lead]
  exact Text.behindWords_succ _ line

/-- A command that is read from a line is one that a line can say. -/
theorem isTypeable_of_readLine {line : String} {command : EditCommand}
    (h : readLine line = .ok (some command)) : command.IsTypeable := by
  have hcarries := carries_of_readLine h
  have htrimmed := (behindWords_lead command line).1
  refine ⟨fun i hi => position_lt_of_readLine h hi, fun typed htyped => ?_, hcarries.present,
    fun content hcontent => ?_⟩
  · rw [hcarries.verbatim typed htyped]
    exact htrimmed
  · rw [hcarries.pasted content hcontent, expandEscapes, String.toList_ofList,
      writeEscapesIn_expandEscapesIn]
    exact ⟨trimmed_writeEscapesIn htrimmed, not_holdsEscape_expandEscapesIn _⟩

/-- **The commands that are read** are those that a line can say. -/
theorem exists_readLine_eq_iff {command : EditCommand} :
    (∃ line, readLine line = .ok (some command)) ↔ command.IsTypeable :=
  ⟨fun ⟨_, h⟩ => isTypeable_of_readLine h, fun h => ⟨_, readLine_line_of_isTypeable h⟩⟩

/-- **Every command has a canonical line.** A command that is read from any line is read from its
canonical line as well. Its payload is the end of the line it was read from, as it stands there; for
pasted text the escapes are expanded, and none are left. -/
theorem readLine_line_of_readLine {line : String} {command : EditCommand}
    (h : readLine line = .ok (some command)) :
    readLine command.line = .ok (some command) ∧
      (∀ typed ∈ command.verbatim?, typed = behindWords command.lead.length line ∧
        typed.toList <:+ Text.trimChars line.toList) ∧
      ∀ content ∈ command.pasted?,
        content = expandEscapes (behindWords command.lead.length line) ∧
          ¬ ['\\', 'n'] <:+: content.toList ∧ ¬ ['\\', 't'] <:+: content.toList := by
  have hcarries := carries_of_readLine h
  have htypeable := isTypeable_of_readLine h
  refine ⟨readLine_line_of_isTypeable htypeable, fun typed htyped => ?_, fun content hcontent => ?_⟩
  · have hbehind := hcarries.verbatim typed htyped
    refine ⟨hbehind, ?_⟩
    rw [hbehind]
    exact (behindWords_lead command line).2
  · exact ⟨hcarries.pasted content hcontent, not_or.mp (htypeable.pasted content hcontent).2⟩

/-- A tab and a line feed behind a stray backslash, in a line with more blanks than it needs. -/
theorem readLine_line_of_readLine_text :
    readLine "  TEXT  a\\tb\\\\n  c " = .ok (some (.text "a\tb\\\n  c")) ∧
      EditCommand.line (.text "a\tb\\\n  c") = "text a\\tb\\\\n  c" ∧
      readLine "text a\\tb\\\\n  c" = .ok (some (.text "a\tb\\\n  c")) := by
  have hread : readLine "  TEXT  a\\tb\\\\n  c " = .ok (some (.text "a\tb\\\n  c")) := by
    decide +kernel
  have hline : EditCommand.line (.text "a\tb\\\n  c") = "text a\\tb\\\\n  c" := by
    decide +kernel
  refine ⟨hread, hline, ?_⟩
  rw [← hline]
  exact (readLine_line_of_readLine hread).1

end Pipewright
