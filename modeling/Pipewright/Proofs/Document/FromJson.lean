import Pipewright.Document.FromJson
import Pipewright.Document.Written
import Pipewright.Proofs.Json.Containers

/-!
# The Written Document Is Read Back

The document of a configuration is written with a member for each field, and reading the
members one by one puts every part of the configuration in its place again. Formats and the
input mode are written as names, and each name is read as what it names.

## Main results

* `InputMode.ofText_name`, `InputFormat.ofText_spelling`, `OutputFormat.ofText_spelling`: names
  are read as what they name.
* `Document.reads_step`: a step is read back.
* `Document.ofJsonText_pretty`: a configuration is read back.
-/

namespace Pipewright

/-! ### Names -/

/-- The name of a mode is read as the mode. -/
theorem InputMode.ofText_name (m : InputMode) : InputMode.ofText m.name = m := by
  cases m <;> decide +kernel

/-- The spelling of an input format is read as the format. -/
theorem InputFormat.ofText_spelling (f : InputFormat) : InputFormat.ofText f.spelling = f := by
  cases f <;> decide +kernel

/-- The spelling of an output format is read as the format. -/
theorem OutputFormat.ofText_spelling (f : OutputFormat) : OutputFormat.ofText f.spelling = f := by
  cases f <;> decide +kernel

namespace Document

open Json (Reads MembersRead ItemsRead isSpace)

/-- The name of a field is read as the field. -/
theorem Field.ofName?_name (f : Field) : Field.ofName? f.name = some f := by
  cases f <;> decide +kernel

variable (depth : Nat)

/-! ### Steps -/

/-- The members of a step are read one by one. -/
theorem membersRead_step (s : Step) :
    MembersRead readStepMember {} ((Json.prettyMembers depth
      [(StepField.text.name, .string s.text), (StepField.enabled.name, .bool s.enabled)]).map
        String.toList) ⟨some s.text, some s.enabled⟩ := by
  have htext : StepField.ofName? StepField.text.name = some .text := by decide +kernel
  have henabled : StepField.ofName? StepField.enabled.name = some .enabled := by decide +kernel
  have hdone : MembersRead readStepMember ⟨some s.text, some s.enabled⟩
      ((Json.prettyMembers depth []).map String.toList) ⟨some s.text, some s.enabled⟩ := by
    rw [Json.prettyMembers]
    exact .done _
  refine .cons (t := ⟨some s.text, none⟩) (fun rest => ?text) (.cons (fun rest => ?enabled) hdone)
  case text =>
    simp only [readStepMember, htext, Option.isSome_none, Bool.false_eq_true, if_false,
      Json.readMemberValue_of_reads (Json.reads_string depth s.text)]
    rfl
  case enabled =>
    simp only [readStepMember, henabled, Option.isSome_none, Bool.false_eq_true, if_false,
      Json.readMemberValue_of_reads (Json.reads_bool depth s.enabled)]
    rfl

/-- **A step is read back.** -/
theorem reads_step (s : Step) : Reads readStep s (Json.prettyAt depth s.document).toList := by
  rw [Step.document, Json.prettyAt]
  refine Json.reads_object fun trail rest htrail => ?_
  have hmembers := membersRead_step (depth + 1) s
  rw [readStepMembers, hmembers.readMembers_body (depth + 1) htrail rest]
  rfl

/-- A step starts with a brace. -/
theorem exists_cons_of_step (s : Step) :
    ∃ text, (Json.prettyAt depth s.document).toList = '\x7b' :: text := by
  rw [Step.document, Json.prettyAt]
  obtain ⟨trail, -, hshape⟩ := Json.exists_toList_bracketed "\x7b" "\x7d" depth
    (Json.prettyMembers (depth + 1)
      [(StepField.text.name, .string s.text), (StepField.enabled.name, .bool s.enabled)])
  exact ⟨_, hshape⟩

/-- The steps of a list are read one by one. -/
theorem itemsRead_steps (before steps : List Step) :
    ItemsRead readAnotherStep before
      ((Json.prettyItems depth (steps.map Step.document)).map String.toList)
      (before ++ steps) := by
  induction steps generalizing before with
  | nil =>
      rw [List.append_nil, List.map_nil, Json.prettyItems, List.map_nil]
      exact .done before
  | cons s steps ih =>
      have hmore := ih (before ++ [s])
      rw [List.append_assoc, List.singleton_append] at hmore
      obtain ⟨text, htext⟩ := exists_cons_of_step depth s
      rw [List.map_cons, Json.prettyItems, List.map_cons, htext]
      refine .item (by decide) (by decide) (fun rest => ?_) hmore
      have hread := reads_step depth s [] rest (List.forall_mem_nil _)
      rw [htext, List.nil_append] at hread
      rw [readAnotherStep, hread]
      rfl

/-- The steps of a configuration are read back. -/
theorem reads_steps (steps : List Step) :
    Reads readSteps steps (Json.prettyAt depth (.array (steps.map Step.document))).toList := by
  rw [Json.prettyAt]
  refine Json.reads_list fun trail rest htrail => ?_
  have hitems := itemsRead_steps (depth + 1) [] steps
  exact hitems.readItems_body (depth + 1) htrail rest

/-! ### Configurations -/

/-- The value of a field is read back. -/
theorem reads_value (f : Field) (v : f.Value) :
    Reads (readValue f) v (Json.prettyAt depth (f.document v)).toList := by
  cases f with
  | ragged | headerless => exact Json.reads_bool depth v
  | steps => exact reads_steps depth v
  | inputPath | inputMode | inputFormat | fieldSeparator | outputFormat | options =>
      exact Json.reads_string depth v

/-- The draft with the given fields of a configuration. -/
def Draft.putAll (c : Configuration) (d : Draft) (fields : List Field) : Draft :=
  fields.foldl (fun d f => d.put f (c.field f)) d

/-- The fields of a configuration are read one by one, if none of them comes twice. -/
theorem membersRead_fields (c : Configuration) (d : Draft) {fields : List Field}
    (hnodup : fields.Nodup) (hfresh : ∀ f ∈ fields, f ∉ d.filled) :
    MembersRead readMember d ((Json.prettyMembers depth
      (fields.map fun f => (f.name, f.document (c.field f)))).map String.toList)
        (d.putAll c fields) := by
  induction fields generalizing d with
  | nil =>
      rw [List.map_nil, Json.prettyMembers, List.map_nil]
      exact .done d
  | cons f fields ih =>
      obtain ⟨hf, hnodup⟩ := List.nodup_cons.mp hnodup
      refine .cons (t := d.put f (c.field f)) (fun rest => ?_) (ih _ hnodup ?_)
      · have hnew : d.filled.contains f = false := by
          simpa using hfresh f (by simp)
        simp only [readMember, Field.ofName?_name, hnew, Bool.false_eq_true, if_false,
          Json.readMemberValue_of_reads (reads_value depth f (c.field f))]
        rfl
      · intro g hg hfilled
        rcases List.mem_cons.mp hfilled with rfl | hfilled
        · exact hf hg
        · exact hfresh g (by simp [hg]) hfilled

/-- All fields of a configuration make up the configuration. -/
theorem putAll_all (c : Configuration) :
    (({} : Draft).putAll c Field.all).configuration = c := by
  simp only [Draft.putAll, Field.all, List.foldl_cons, List.foldl_nil, Draft.put,
    Configuration.setField, Configuration.field, InputMode.ofText_name,
    InputFormat.ofText_spelling, OutputFormat.ofText_spelling]

/-- A configuration is read back. -/
theorem reads_configuration (c : Configuration) :
    Reads readConfiguration c (Json.prettyAt depth c.document).toList := by
  rw [Configuration.document, Json.prettyAt]
  refine Json.reads_object fun trail rest htrail => ?_
  have hnodup : Field.all.Nodup := by decide
  have hmembers := membersRead_fields (depth + 1) c {} hnodup (by simp)
  rw [readConfigurationMembers, hmembers.readMembers_body (depth + 1) htrail rest, Json.mapValue,
    Except.map, putAll_all]

/-- **The written document is read back**, whatever texts the configuration holds. -/
theorem ofJsonText_pretty (c : Configuration) : ofJsonText c.document.pretty = .ok c :=
  Json.readWhole_of_reads (reads_configuration 0 c)

end Document

end Pipewright
