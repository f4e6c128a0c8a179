import Pipewright.Program
import Pipewright.Proofs.StateFile.Write

/-!
# A Failed Command Leaves the Saved State Alone

Every command but live editing writes at most one configuration, and only as its last act:
to the state file or, when the state is exported, to the file that is named. So a command
that fails has written nothing or has failed in writing, and what a failed write leaves is
known: new directories on the way to the file, and perhaps the neighbouring file that was to
take its place. The directory for logs may be new besides. Log files themselves are left aside, and
so is a state path that names one; the tool is taken to write no files.

The state file is none of these places, with one exception: the neighbouring file of an
export may be the state file itself. A state path that leads up again may come to lead
somewhere, through a directory that the command made; what it finds there is as it was.

## Main definitions

* `Task.written?`: the path to which a command writes a configuration.
* `Disturbs`: what a failed command may have done at a place.
* `KeepsState`: what holds of the files after a failed command.

## Main results

* `Task.spares`: a command that fails has written nothing or has failed in writing.
* `keepsState_of_status_ne_zero`: a failed command leaves the saved state alone.
-/

namespace Pipewright.Program

open Files (Tree Place Entry)
open Files.Tree (KeepsDirectories GrowsTo openParts)

variable {t t₁ t' : Tree}

/-! ### What a command that fails has written -/

/-- The command does not fail, or it leaves the files as they were, or it fails in writing a
configuration to the path that it writes to. -/
inductive Spares (c : Context) (written? : Option String) (e : Ending) : Prop
  /-- There is no failure. -/
  | done (h : e.failure? = none)
  /-- Nothing was written. -/
  | untouched (h : e.files = c.files)
  /-- The configuration could not be written. -/
  | unwritten {path : String} (hwritten : written? = some path)
    (hfails : StateFile.WriteFails c.files path e.files)

/-- An error that is shown changes no files. -/
theorem shownError_files (files : Tree) (style : Display.Style) (json : Bool)
    (title message : String) : (shownError files style json title message).files = files := by
  rw [shownError]
  split <;> rfl

/-- A save that fails has failed in writing the state file. -/
theorem writeFails_of_save {c : Context} {configuration : Configuration} {failure : Failure}
    (h : c.save configuration = (.error failure, t')) :
    StateFile.WriteFails c.files c.stateFile t' := by
  rw [Context.save] at h
  split at h
  · exact absurd (congrArg Prod.fst h) nofun
  next hwrite =>
    obtain rfl := congrArg Prod.snd h
    exact StateFile.writeFails hwrite

namespace Spares

variable {c : Context}

/-- Showing the saved pipeline writes nothing. -/
theorem showPipeline (json : Bool) : Spares c none (showPipeline c json) := by
  rw [Program.showPipeline]
  split
  next => exact .untouched rfl
  next => exact .done rfl

/-- Taking over a line writes nothing but the state file, and that only if it is saved. -/
theorem takeOverLine (words : List String) (save json : Bool) :
    Spares c (if save then some c.stateFile else none) (takeOverLine c words save json) := by
  generalize hwritten : (if save then some c.stateFile else none) = written?
  rw [Program.takeOverLine]
  split
  next => exact .untouched rfl
  next current _ _ =>
    split
    next => exact .untouched rfl
    next configuration _ =>
      split
      next hsave =>
        rw [if_pos hsave] at hwritten
        split
        next failure files hfailed => exact .unwritten hwritten.symm (writeFails_of_save hfailed)
        next => exact .done rfl
      next => exact .done rfl

/-- A preview writes nothing unless it succeeds. -/
theorem previewPipeline (task : PreviewTask) : Spares c none (previewPipeline c task) := by
  rw [Program.previewPipeline]
  split
  next => exact .untouched rfl
  next saved _ _ =>
    split
    next => exact .untouched (shownError_files _ _ _ _ _)
    next configuration _ =>
      split
      next => exact .untouched rfl
      next bench _ =>
        rw [previewOnce]
        cases bench.isReady with
        | false => exact .done rfl
        | true =>
            cases Preview.cycle c.files (previewBounds task.lines?) (c.runTool previewLimit)
              bench with
            | ok success => exact .done rfl
            | error e => exact .untouched rfl

/-- Delivering the output writes no configuration. -/
theorem deliver (output? : Option String) (reply : Preview.ToolReply) :
    Spares c none (deliver c output? reply) := by
  cases output? with
  | none => exact .done rfl
  | some path =>
      cases hwrite : c.files.writeBytes path (Text.encode reply.output) with
      | ok files => exact .done (by simp [Program.deliver, hwrite])
      | error cause => exact .untouched (by simp [Program.deliver, hwrite])

/-- Running writes no configuration, and the output only if the tool did well. -/
theorem runPipeline (task : RunTask) : Spares c none (runPipeline c task) := by
  rw [Program.runPipeline]
  split
  next => exact .untouched rfl
  next configuration _ =>
    split
    next => exact .untouched (shownError_files _ _ _ _ _)
    next =>
      split
      next => exact .untouched rfl
      next request _ =>
        split
        next => exact .untouched rfl
        next reply _ =>
          split
          next => exact .deliver task.output? reply
          next => exact .untouched (shownError_files _ _ _ _ _)

/-- An export writes nothing but its file. -/
theorem exportState (path : String) : Spares c (some path) (exportState c path) := by
  rw [Program.exportState]
  split
  next => exact .untouched rfl
  next configuration _ _ =>
    split
    next e files hwrite => exact .unwritten rfl (StateFile.writeFails hwrite)
    next => exact .done rfl

/-- An import writes nothing but the state file. -/
theorem importState (path : String) : Spares c (some c.stateFile) (importState c path) := by
  rw [Program.importState]
  split
  next => exact .untouched rfl
  next configuration _ =>
    split
    next failure files hsave => exact .unwritten rfl (writeFails_of_save hsave)
    next => exact .done rfl

end Spares

/-- The path to which a command writes a configuration. -/
def Task.written? (stateFile : String) : Task → Option String
  | .parse _ save _ => if save then some stateFile else none
  | .exportState path => some path
  | .importState _ => some stateFile
  | .show _ | .preview _ | .run _ | .watch _ => none

/-- **A command that fails has written nothing or has failed in writing.** -/
theorem Task.spares (c : Context) : ∀ task : Task, (∀ w, task ≠ .watch w) →
    Spares c (task.written? c.stateFile) (task.perform c)
  | .show json, _ => .showPipeline json
  | .parse words save json, _ => .takeOverLine words save json
  | .preview task, _ => .previewPipeline task
  | .run task, _ => .runPipeline task
  | .watch task, hwatch => absurd rfl (hwatch task)
  | .exportState path, _ => .exportState path
  | .importState path, _ => .importState path

/-! ### The directory for logs -/

/-- The path of the directory for logs, if one is named. -/
def Common.logPath? (common : Common) (environment : Environment) : Option String :=
  common.logDirectory?.or (environment.filled? logDirectoryVariable)

/-- The place is on the way of the directory for logs. -/
def OnLogWay (t : Tree) (log? : Option String) (place : Place) : Prop :=
  ∃ path, log? = some path ∧ t.Passes path (openParts path) place

/-- **Making the directory for logs** changes nothing of the host but the files, and these get
new directories on its way only. -/
theorem openLog_cases (host : Host) (common : Common) : ∃ files, (openLog host common).2 =
    { host with files } ∧ host.files.GrowsTo files
      (OnLogWay files (common.logPath? host.environment)) := by
  rw [openLog]
  split
  next => exact ⟨host.files, rfl, .refl _ _⟩
  next path hlog =>
    have hgrown := (GrowsTo.makeDirectories path host.files).mono fun place hway =>
      (⟨path, hlog, hway⟩ : OnLogWay _ (common.logPath? host.environment) place)
    split
    next files hmade => exact ⟨files, rfl, by rwa [hmade] at hgrown⟩
    next cause files hmade => exact ⟨files, rfl, by rwa [hmade] at hgrown⟩

/-! ### What a failed command may have done -/

/-- What a failed command may have done at a place that is not as it was. -/
inductive Disturbs (t t' : Tree) (written? log? : Option String) (place : Place) : Prop
  /-- A new directory on the way of the directory for logs. -/
  | logDirectory (hway : OnLogWay t' log? place) (hnone : t.entry? place = none)
    (hnew : t'.entry? place = some .directory)
  /-- A new directory on the way to the file that was to be written. -/
  | parent {path : String} (hwritten : written? = some path)
    (hway : StateFile.OnTheWay t' path place) (hnone : t.entry? place = none)
    (hnew : t'.entry? place = some .directory)
  /-- The file that was written beside it. -/
  | temporary {path : String} {bytes : List UInt8} (hwritten : written? = some path)
    (hplace : t'.locate (StateFile.temporary path) = .ok place)
    (hold : t.entry? place ≠ some .directory) (hnew : t'.entry? place = some (.file bytes))

/-- Nothing has changed but what a failed command may do. -/
def IsFrame (t t' : Tree) (written? log? : Option String) : Prop :=
  ∀ place, t'.entry? place = t.entry? place ∨ Disturbs t t' written? log? place

/-- What is written beside the file that was to be written is not written to the state file. It
never is if the two are one file. -/
def IsApart (t' : Tree) (stateFile : String) (written? : Option String) : Prop :=
  ∀ path place, written? = some path → path ≠ stateFile →
    t'.locate (StateFile.temporary path) = .ok place → t'.locate stateFile ≠ .ok place

/-- What holds of the files after a failed command: `t` were there before, a configuration was
to be written to `written?`, if to any path, and logs to the directory at `log?`. -/
structure KeepsState (t t' : Tree) (stateFile : String) (written? log? : Option String) :
    Prop where
  /-- Nothing has changed but what a failed command may do. -/
  frame : IsFrame t t' written? log?
  /-- The state path leads where it led. -/
  leads : ∀ place, t.locate stateFile = .ok place → t'.locate stateFile = .ok place
  /-- The place of the state path holds the file that it held, or still none. -/
  content : IsApart t' stateFile written? → ∀ place, t'.locate stateFile = .ok place →
    ∀ bytes, t'.entry? place = some (.file bytes) ↔ t.entry? place = some (.file bytes)
  /-- The saved state is read as before. -/
  saved : IsApart t' stateFile written? → ∀ bytes, t.readBytes stateFile = .ok bytes →
    t'.readBytes stateFile = .ok bytes
  /-- No saved state is found that was not found before, unless the state path leads through a
  new directory. -/
  absent : IsApart t' stateFile written? → ∀ bytes, t'.readBytes stateFile = .ok bytes →
    t.readBytes stateFile = .ok bytes ∨
      ∃ passed, t'.Passes stateFile (Files.parts stateFile) passed ∧
        t.entry? passed = none ∧ t'.entry? passed = some .directory

variable {written? log? : Option String} {path stateFile : String} {place : Place}

/-- No directory is disturbed. -/
theorem Disturbs.entry?_ne_directory (h : Disturbs t t' written? log? place) :
    t.entry? place ≠ some .directory := by
  cases h with
  | logDirectory hway hnone hnew => simp [hnone]
  | parent hwritten hway hnone hnew => simp [hnone]
  | temporary hwritten hplace hold hnew => exact hold

/-- A new directory stands where nothing was. -/
theorem Disturbs.entry?_eq_none (h : Disturbs t t' written? log? place)
    (hnew : t'.entry? place = some .directory) : t.entry? place = none := by
  cases h with
  | logDirectory hway hnone => exact hnone
  | parent hwritten hway hnone => exact hnone
  | temporary hwritten hplace hold hfile =>
      rw [hnew] at hfile
      exact absurd hfile nofun

/-- A file that is new or has changed is the one that was written beside another. -/
theorem Disturbs.exists_temporary (h : Disturbs t t' written? log? place) {bytes : List UInt8}
    (hfile : t'.entry? place = some (.file bytes) ∨ t.entry? place = some (.file bytes)) :
    ∃ path, written? = some path ∧ t'.locate (StateFile.temporary path) = .ok place := by
  cases h with
  | logDirectory hway hnone hnew => simp [hnone, hnew] at hfile
  | parent hwritten hway hnone hnew => simp [hnone, hnew] at hfile
  | temporary hwritten hplace hold hnew => exact ⟨_, hwritten, hplace⟩

/-- All directories stay. -/
theorem IsFrame.keepsDirectories (h : IsFrame t t' written? log?) : KeepsDirectories t t' := by
  intro place hdirectory
  rcases h place with hsame | hdisturbs
  · rw [hsame, hdirectory]
  · exact absurd hdirectory hdisturbs.entry?_ne_directory

/-- **The place of the state path holds the file that it held.** -/
theorem IsFrame.content (h : IsFrame t t' written? log?) (hapart : IsApart t' stateFile written?)
    (hplace : t'.locate stateFile = .ok place) (bytes : List UInt8) :
    t'.entry? place = some (.file bytes) ↔ t.entry? place = some (.file bytes) := by
  rcases h place with hsame | hdisturbs
  · rw [hsame]
  · have hnot : ¬ (t'.entry? place = some (.file bytes) ∨
        t.entry? place = some (.file bytes)) := by
      intro hfile
      obtain ⟨path, hwritten, hbeside⟩ := hdisturbs.exists_temporary hfile
      by_cases hpath : path = stateFile
      · subst hpath
        exact Tree.locate_beside_ne StateFile.isEnding_temporary hplace hbeside rfl
      · exact hapart path place hwritten hpath hbeside hplace
    rw [not_or] at hnot
    exact iff_of_false hnot.1 hnot.2

/-- **The saved state is kept** if nothing has changed but what a failed command may do. -/
theorem KeepsState.of_frame (h : IsFrame t t' written? log?) (stateFile : String) :
    KeepsState t t' stateFile written? log? where
  frame := h
  leads place hplace := h.keepsDirectories.walk_eq hplace
  content hapart place hplace bytes := h.content hapart hplace bytes
  saved hapart bytes hbytes := by
    obtain ⟨place, hplace, hentry⟩ := Tree.lookAt_eq_ok_iff.mp (Tree.readBytes_eq_ok_iff.mp hbytes)
    have hplace' : t'.locate stateFile = .ok place := h.keepsDirectories.walk_eq hplace
    refine Tree.readBytes_eq_ok_iff.mpr (Tree.lookAt_eq_ok_iff.mpr ⟨place, hplace', ?_⟩)
    exact (h.content hapart hplace' bytes).mpr hentry
  absent hapart bytes hbytes := by
    obtain ⟨place, hplace, hentry⟩ := Tree.lookAt_eq_ok_iff.mp (Tree.readBytes_eq_ok_iff.mp hbytes)
    rcases Tree.walk_or_missing (t := t) hplace with hbefore | ⟨passed, hpassed, hnew, hmissing⟩
    · refine .inl (Tree.readBytes_eq_ok_iff.mpr (Tree.lookAt_eq_ok_iff.mpr ⟨place, hbefore, ?_⟩))
      exact (h.content hapart hplace bytes).mp hentry
    · rcases h passed with hsame | hdisturbs
      · exact absurd (hsame ▸ hnew) hmissing
      · exact .inr ⟨passed, hpassed, hdisturbs.entry?_eq_none hnew, hnew⟩

/-! ### Failed commands -/

/-- What a failed write may have done. -/
theorem isFrame_of_writeFails (h : StateFile.WriteFails t path t')
    (hwritten : written? = some path) : IsFrame t t' written? log? := by
  intro place
  cases h with
  | unprepared hgrown =>
      exact (hgrown place).imp_right fun ⟨hway, hnone, hnew⟩ => .parent hwritten hway hnone hnew
  | @unmoved t₁ beside bytes hgrown hplace hbeside =>
      have hkeeps := Tree.keepsDirectories_put hbeside (.file bytes)
      by_cases hother : place = beside
      · subst hother
        have hfile : Tree.entry? (t₁.put place (.file bytes)) place = some (.file bytes) := by
          rw [Tree.entry?_put, Tree.isAnchor_eq_false hbeside]
          simp
        refine .inr (.temporary hwritten (hkeeps.walk_eq hplace) ?_ hfile)
        exact fun hdirectory => hbeside (hgrown.keepsDirectories place hdirectory)
      · rw [Tree.entry?_put_of_ne _ _ hother]
        refine (hgrown place).imp_right fun ⟨hway, hnone, hnew⟩ => ?_
        refine .parent hwritten (hway.mono hkeeps) hnone ?_
        rw [Tree.entry?_put_of_ne _ _ hother, hnew]

/-- What a failed command may have done after the directory for logs was made. -/
theorem IsFrame.of_growsTo (hgrown : t.GrowsTo t₁ (OnLogWay t₁ log?))
    (h : IsFrame t₁ t' written? log?) : IsFrame t t' written? log? := by
  intro place
  rcases h place with hsame | hdisturbs
  · rw [hsame]
    refine (hgrown place).imp_right fun ⟨⟨path, hlog, hway⟩, hnone, hnew⟩ => ?_
    exact .logDirectory ⟨path, hlog, hway.mono h.keepsDirectories⟩ hnone (hsame.trans hnew)
  · -- the log was made elsewhere, since it would have put a directory here
    have hsame : t₁.entry? place = t.entry? place :=
      (hgrown place).resolve_right fun hnew => hdisturbs.entry?_ne_directory hnew.2.2
    refine .inr ?_
    cases hdisturbs with
    | logDirectory hway hnone hnew => exact .logDirectory hway (hsame ▸ hnone) hnew
    | parent hwritten hway hnone hnew => exact .parent hwritten hway (hsame ▸ hnone) hnew
    | temporary hwritten hplace hold hnew => exact .temporary hwritten hplace (hsame ▸ hold) hnew

/-- A command that spares the files and fails may have done no more than a failed command may. -/
theorem Spares.isFrame {c : Context} {e : Ending} (h : Spares c written? e)
    (hfailure : e.failure? ≠ none) : IsFrame c.files e.files written? log? := by
  cases h with
  | done hdone => exact absurd hdone hfailure
  | untouched hsame => exact fun place => .inl (by rw [hsame])
  | unwritten hwritten hfails => exact isFrame_of_writeFails hfails hwritten

/-- The files at the end are those of the ending. -/
theorem Ending.finish_files (e : Ending) : e.finish.files = e.files := by
  unfold Ending.finish
  split <;> rfl

/-- A program that ends with another status than zero has failed. -/
theorem Ending.failure?_ne_none {e : Ending} (h : e.finish.status ≠ 0) : e.failure? ≠ none := by
  intro hnone
  rw [finish, hnone] at h
  exact h rfl

/-- What a failed command may have done, from the directory for logs on. -/
theorem isFrame_perform {host : Host} {invocation : Invocation}
    (hwatch : ∀ w, invocation.task ≠ .watch w)
    (hfailure : (perform host invocation).failure? ≠ none) :
    IsFrame host.files (perform host invocation).files
      (invocation.task.written? (Context.settle host invocation.common).stateFile)
      (invocation.common.logPath? host.environment) := by
  obtain ⟨files, hhost, hgrown⟩ := openLog_cases host invocation.common
  refine .of_growsTo hgrown ?_
  rw [perform] at hfailure ⊢
  split
  next failure host' hlog =>
    obtain rfl : host' = { host with files } := by rw [← hhost, hlog]
    exact fun place => .inl rfl
  next host' hlog =>
    obtain rfl : host' = { host with files } := by rw [← hhost, hlog]
    rw [hlog] at hfailure
    exact (invocation.task.spares (.settle { host with files } invocation.common) hwatch).isFrame
      hfailure

/-- **A failed command leaves the saved state alone.** Words that are refused leave all files as
they were. A command other than live editing that fails has changed nothing but what a failed
command may do, and unless it wrote the neighbouring file of another file over it, the state
file is as it was. -/
theorem keepsState_of_status_ne_zero {host : Host} {words : List String}
    (hstatus : (run host words).status ≠ 0) :
    (∀ stop, Invocation.read words = .error stop → (run host words).files = host.files) ∧
    ∀ invocation, Invocation.read words = .ok invocation →
      (∀ w, invocation.task ≠ .watch w) →
      KeepsState host.files (run host words).files
        (Context.settle host invocation.common).stateFile
        (invocation.task.written? (Context.settle host invocation.common).stateFile)
        (invocation.common.logPath? host.environment) := by
  constructor
  · intro stop hread
    rw [run, hread]
    cases stop <;> rfl
  · intro invocation hread hwatch
    rw [run, hread] at hstatus ⊢
    show KeepsState _ (perform host invocation).finish.files _ _ _
    rw [Ending.finish_files]
    exact .of_frame (isFrame_perform hwatch (Ending.failure?_ne_none hstatus)) _

/-- A host with the files and with a tool that says nothing. -/
def quietHost (files : Tree) : Host where
  files := files
  toolbox _ _ := .ok {}

/-- The tree with a saved state, and with a directory in the place of the file that is written
beside it. -/
def blockedTree : Tree :=
  ((Tree.empty.put ["work"] .directory).put ["work", "state.json"]
    (.file (Text.encode "{}"))).put ["work", "state.json.tmp"] .directory

/-- A line that cannot be saved leaves the saved state alone. -/
theorem keepsState_of_status_ne_zero_blocked :
    (run (quietHost blockedTree) ["--state", "work/state.json", "--log-dir", "logs", "parse",
      "--save", "--", "mlr", "cat"]).status ≠ 0 ∧
    KeepsState blockedTree (run (quietHost blockedTree) ["--state", "work/state.json",
      "--log-dir", "logs", "parse", "--save", "--", "mlr", "cat"]).files
      "work/state.json" (some "work/state.json") (some "logs") :=
  have hstatus : (run (quietHost blockedTree) ["--state", "work/state.json", "--log-dir",
      "logs", "parse", "--save", "--", "mlr", "cat"]).status ≠ 0 := by decide +kernel
  ⟨hstatus, (keepsState_of_status_ne_zero hstatus).2
    ⟨{ stateFile? := some "work/state.json", logDirectory? := some "logs" },
      .parse ["mlr", "cat"] true false⟩ (by decide +kernel) nofun⟩

/-- The tree with a directory at `report`, and with a saved state beside it. -/
def neighbouringTree : Tree :=
  (Tree.empty.put ["report"] .directory).put ["report.tmp"] (.file (Text.encode "{}"))

/-- The tree with a file that holds no configuration. -/
def draftTree : Tree :=
  Tree.empty.put ["draft"] (.file (Text.encode "mlr cat"))

/-- Where a failed command reaches the saved state: an export to a directory writes over a state
file that is the neighbouring file of its target, and a state path through the directory for
logs leads to a file only after that directory was made. -/
theorem failedCommand_reaches_state :
    ((run (quietHost neighbouringTree)
        ["--state", "report.tmp", "state", "export", "report"]).status = 1 ∧
      neighbouringTree.readText "report.tmp" = .ok "{}" ∧
      (run (quietHost neighbouringTree)
        ["--state", "report.tmp", "state", "export", "report"]).files.readText "report.tmp" ≠
          .ok "{}") ∧
    ((run (quietHost draftTree)
        ["--state", "logs/../draft", "--log-dir", "logs", "show"]).status = 1 ∧
      draftTree.readText "logs/../draft" = .error .notFound ∧
      (run (quietHost draftTree)
        ["--state", "logs/../draft", "--log-dir", "logs", "show"]).files.readText
          "logs/../draft" = .ok "mlr cat") := by
  decide +kernel

end Pipewright.Program
