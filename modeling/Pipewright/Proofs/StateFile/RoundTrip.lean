import Pipewright.Program.TakeOver
import Pipewright.Proofs.Configuration.Repair
import Pipewright.Proofs.Document.FromJson
import Pipewright.Proofs.StateFile.Write

/-!
# A Saved Configuration Is Read Back

What is written to a state file is the document of the configuration, in UTF-8. The octets are
read back as the document's text, the text as the configuration, and the configuration is
repaired. A configuration that a command line describes needs no repair, so what a command that
saves reports is what every later command finds.

## Main definitions

* `StateFile.Faithful`: a path keeps the configurations that are written to it.

## Main results

* `StateFile.decode_encode`: the text of a configuration describes its repair.
* `StateFile.read_of_write`: what is read behind a write is the repair of what was written.
* `StateFile.faithful_of_not_holdsYaml`: every path that does not name a YAML file is faithful.
-/

namespace Pipewright

namespace StateFile

open Program (Context takeOverLine showPipeline configurationAnswer)

variable {path : String}

/-- **The text of a configuration** describes its repair. -/
theorem decode_encode (hjson : holdsYaml path = false) (c : Configuration) :
    decode path (encode path c) = .ok c.repaired := by
  rw [decode, encode, hjson]
  simp only [Bool.false_eq_true, if_false, Document.ofJsonText_pretty]

/-- **Behind a write**, what is read is the repair of what was written. -/
theorem read_of_write (hjson : holdsYaml path = false) {t t' : Files.Tree} {c : Configuration}
    (h : write t path c = (.ok (), t')) : read t' path = .ok c.repaired := by
  have htext : t'.readText path = .ok (encode path c) :=
    Files.Tree.readText_of_readBytes (readBytes_of_write h)
  rw [read, htext]
  exact decode_encode hjson c

/-- A context finds what was read from its state file. -/
theorem load_of_read {ctx : Context} {c : Configuration}
    (h : read ctx.files ctx.stateFile = .ok c) : ctx.load = .ok (c, true) := by
  rw [Context.load, h]

/-- **Taking over a command line with a save** that does not fail prints and saves the
configuration that the line describes. -/
theorem takeOverLine_save_cases {ctx : Context} {words : List String} {json : Bool}
    (h : (takeOverLine ctx words true json).failure? = none) : ∃ current saved c,
      ctx.load = .ok (current, saved) ∧
      Configuration.ofCommand (lineOfArguments words) current = .ok c ∧
      write ctx.files ctx.stateFile c = (.ok (), (takeOverLine ctx words true json).files) ∧
      (takeOverLine ctx words true json).output = Program.takenOverView ctx c true json := by
  rw [takeOverLine] at h ⊢
  split
  next failure hload =>
    rw [hload] at h
    exact absurd h nofun
  next current saved hload =>
    simp only [hload] at h
    split
    next e hparse =>
      rw [hparse] at h
      exact absurd h nofun
    next c hparse =>
      simp only [hparse, if_true] at h ⊢
      split
      next failure files hsave =>
        rw [hsave] at h
        exact absurd h nofun
      next files hsave =>
        refine ⟨current, saved, c, hload, hparse, ?_, rfl⟩
        rw [Context.save] at hsave
        split at hsave
        next files' hwrite =>
          obtain rfl : files' = files := congrArg Prod.snd hsave
          exact hwrite
        next e files' hwrite => exact absurd (congrArg Prod.fst hsave) nofun

/-- **The path keeps the configurations that are written to it.** -/
structure Faithful (path : String) : Prop where
  /-- What is read behind a write is the repair of what was written. -/
  reads : ∀ t t' c, write t path c = (.ok (), t') → read t' path = .ok c.repaired
  /-- A repair is not repaired any further. -/
  settles : ∀ c : Configuration, c.repaired.repaired = c.repaired
  /-- What was read, written and read again is the same configuration. -/
  again : ∀ t t' t'' c c', write t path c = (.ok (), t') → read t' path = .ok c' →
    write t' path c' = (.ok (), t'') → read t'' path = .ok c'
  /-- What a command line describes needs no repair. -/
  command : ∀ line current c, Configuration.ofCommand line current = .ok c → c.repaired = c
  /-- What a command that takes over a line and saves it reports is the configuration that the
  line describes, and every later command finds and reports the same. -/
  reports : ∀ (ctx : Context) words, ctx.stateFile = path →
    (takeOverLine ctx words true true).failure? = none → ∃ current saved c,
      ctx.load = .ok (current, saved) ∧
      Configuration.ofCommand (lineOfArguments words) current = .ok c ∧
      (takeOverLine ctx words true true).output =
        configurationAnswer c [("saved", .bool true)] ∧
      ∀ later : Context, later.stateFile = path →
        later.files = (takeOverLine ctx words true true).files →
        later.load = .ok (c, true) ∧
        (showPipeline later true).output =
          configurationAnswer c [("saved", .bool true), ("path", .string path)]

/-- **Every path that does not name a YAML file is faithful.** -/
theorem faithful_of_not_holdsYaml (hjson : holdsYaml path = false) : Faithful path where
  reads _ _ _ hwrite := read_of_write hjson hwrite
  settles c := c.repaired_repaired
  again t t' t'' c c' hwrite hread hagain := by
    obtain rfl : c.repaired = c' := Except.ok.inj ((read_of_write hjson hwrite).symm.trans hread)
    rw [read_of_write hjson hagain, c.repaired_repaired]
  command _ _ _ hparse := (Configuration.isTidy_of_ofCommand hparse).repaired_eq
  reports ctx words hstate hdone := by
    obtain ⟨current, saved, c, hload, hparse, hwrite, houtput⟩ := takeOverLine_save_cases hdone
    refine ⟨current, saved, c, hload, hparse, houtput, fun later hlater hfiles => ?_⟩
    have hrepaired : c.repaired = c := (Configuration.isTidy_of_ofCommand hparse).repaired_eq
    have hread : read later.files later.stateFile = .ok c := by
      rw [hstate] at hwrite
      rw [hfiles, hlater, read_of_write hjson hwrite, hrepaired]
    have hfound := load_of_read hread
    refine ⟨hfound, ?_⟩
    simp only [showPipeline, hfound, hlater, Program.Ending.printing, if_true]

/-- A path with letters beyond ASCII, and a configuration with quotes, backslashes and control
characters that is written to it. -/
theorem faithful_accented :
    holdsYaml "zustände/yaml.json" = false ∧ Faithful "zustände/yaml.json" ∧
      (write Files.Tree.empty "zustände/yaml.json"
        { fieldSeparator := "\"\\\x01", options := "ß\n", steps := [⟨"cat '\t'", false⟩] }).1.toBool
          = true :=
  ⟨by decide +kernel, faithful_of_not_holdsYaml (by decide +kernel), by decide +kernel⟩

end StateFile

end Pipewright
