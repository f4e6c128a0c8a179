import Pipewright.Proofs.Files.Tree
import Pipewright.StateFile

/-!
# Writing a State File Is All or Nothing

A state file is written beside its place first and moved there then. Making the directories
above it, writing and moving may each fail, and each leaves what is at the place of the path
as it was. The three steps are told apart by the places that they can change: directories on
the way to the place, the place of the neighbouring file, and the place itself.

## Main definitions

* `StateFile.IsAbove`: a place on the way to another.
* `StateFile.AllOrNothing`: what holds of writing a configuration to a path.

## Main results

* `StateFile.writeEnds`: where writing to a plain path stops, and what the tree is there.
* `StateFile.writeFails`: what a failed write to any path leaves.
* `StateFile.allOrNothing`: writing to a plain path is all or nothing.
-/

namespace Pipewright.StateFile

open Files (Place Entry IsPlain placeOf)
open Files.Tree (KeepsDirectories)

variable {t t' : Files.Tree} {path : String} {c : Configuration}

/-- The place is on the way to the other one. -/
def IsAbove (place other : Place) : Prop :=
  place <+: other ∧ place ≠ other

/-- The ending of the neighbouring file names a file beside a path. -/
theorem isEnding_temporary : Files.IsEnding ".tmp" where
  slash := by decide
  letter := ⟨'t', by decide⟩

/-- The way is prepared by making the directory above the path, if there is one to make. -/
theorem prepareParent_cases (t : Files.Tree) (path : String) : (prepareParent t path).2 = t ∨
    ∃ parent, Files.parent? path = some parent ∧ parent ≠ "" ∧
      (prepareParent t path).2 = (t.makeDirectories parent).2 := by
  rw [prepareParent]
  split
  next => exact .inl rfl
  next parent hparent =>
    split
    next => exact .inl rfl
    next hne =>
      refine .inr ⟨parent, hparent, by simpa using hne, ?_⟩
      split
      next t' hmade => rw [hmade]
      next e t' hmade => rw [hmade]

/-- **Preparing the way** to a plain path makes directories above its place only. -/
theorem growsTo_prepareParent_of_isPlain (hplain : IsPlain path) (t : Files.Tree) :
    t.GrowsTo (prepareParent t path).2 (IsAbove · (placeOf path)) := by
  rcases prepareParent_cases t path with hsame | ⟨parent, hparent, hne, hmade⟩
  · rw [hsame]
    exact .refl t _
  · obtain ⟨hparentPlain, name, hname⟩ := hplain.of_parent? hparent hne
    rw [hmade]
    refine (Files.Tree.GrowsTo.makeDirectories_of_isPlain hparentPlain t).mono
      fun place hplace => ?_
    rw [hname]
    refine ⟨hplace.trans (List.prefix_append _ _), fun heq => ?_⟩
    have hlength := hplace.length_le
    rw [heq, List.length_append, List.length_singleton] at hlength
    omega

/-- The place is on the way to the directory that holds the last part of the path. -/
def OnTheWay (t : Files.Tree) (path : String) (place : Place) : Prop :=
  t.Passes path (Files.trimIdle (Files.parts path)).dropLast place

/-- **Preparing the way** to any path makes directories on the way only. -/
theorem growsTo_prepareParent (t : Files.Tree) (path : String) :
    t.GrowsTo (prepareParent t path).2 (OnTheWay (prepareParent t path).2 path) := by
  rcases prepareParent_cases t path with hsame | ⟨parent, hparent, hne, hmade⟩
  · rw [hsame]
    exact .refl t _
  · obtain ⟨habsolute, hbegins⟩ := Files.openParts_of_parent? hparent hne
    rw [hmade]
    exact (Files.Tree.GrowsTo.makeDirectories parent t).mono fun place hplace =>
      hplace.of_isPrefix habsolute hbegins

/-- The octets that are written to a path for a configuration. -/
def octets (path : String) (c : Configuration) : List UInt8 :=
  Text.encode (encode path c)

/-- The tree with the neighbouring file of a path. -/
def withTemporary (t : Files.Tree) (path : String) (c : Configuration) : Files.Tree :=
  t.put (placeOf (temporary path)) (.file (octets path c))

/-- How writing a configuration to a plain path ends, and the tree that is left. -/
inductive WriteEnds (t : Files.Tree) (path : String) (c : Configuration) :
    Except StateFileError Unit → Files.Tree → Prop
  /-- The way cannot be prepared, or the neighbouring file cannot be written. -/
  | unprepared {t₁ : Files.Tree} (e : StateFileError)
    (hgrown : t.GrowsTo t₁ (IsAbove · (placeOf path))) : WriteEnds t path c (.error e) t₁
  /-- The neighbouring file cannot be moved. -/
  | unmoved {t₁ : Files.Tree} (e : StateFileError)
    (hgrown : t.GrowsTo t₁ (IsAbove · (placeOf path)))
    (hbeside : t₁.entry? (placeOf (temporary path)) ≠ some .directory) :
    WriteEnds t path c (.error e) (withTemporary t₁ path c)
  /-- The file is in its place. -/
  | moved {t₁ : Files.Tree} (hgrown : t.GrowsTo t₁ (IsAbove · (placeOf path)))
    (hplace : t₁.entry? (placeOf path) ≠ some .directory) :
    WriteEnds t path c (.ok ())
      (((withTemporary t₁ path c).erase (placeOf (temporary path))).put (placeOf path)
        (.file (octets path c)))

/-- The neighbouring file has another place than the path. -/
theorem placeOf_temporary_ne (path : String) : placeOf path ≠ placeOf (temporary path) := by
  intro heq
  have hsame : placeOf (Files.beside path ".tmp") = placeOf path := heq.symm
  exact isEnding_temporary.not_prefix_placeOf path ⟨[], by rw [hsame, List.append_nil]⟩

/-- **Writing ends in one of three ways.** -/
theorem writeEnds (hplain : IsPlain path) (t : Files.Tree) (c : Configuration) :
    WriteEnds t path c (write t path c).1 (write t path c).2 := by
  have hgrown := growsTo_prepareParent_of_isPlain hplain t
  have htemporary : IsPlain (temporary path) := isEnding_temporary.isPlain_beside hplain
  rw [write]
  split
  next e t₁ hprepared =>
    rw [hprepared] at hgrown
    exact .unprepared e hgrown
  next t₁ hprepared =>
    rw [hprepared] at hgrown
    rw [replaceFile]
    split
    next cause hwrite => exact .unprepared _ hgrown
    next t₂ hwrite =>
      obtain ⟨place, hplace, hbeside, ht₂⟩ := Files.Tree.exists_put_of_writeBytes hwrite
      obtain rfl := Files.Tree.locate_eq_of_isPlain htemporary hplace
      replace ht₂ : t₂ = withTemporary t₁ path c := ht₂
      subst ht₂
      split
      next cause hrename => exact .unmoved _ hgrown hbeside
      next t₃ hrename =>
        obtain ⟨fromPlace, toPlace, bytes, hfrom, hto, hbytes, hdirectory, rfl⟩ :=
          Files.Tree.exists_put_of_rename hrename
        obtain rfl := Files.Tree.locate_eq_of_isPlain htemporary hfrom
        obtain rfl := Files.Tree.locate_eq_of_isPlain hplain hto
        -- what is moved is what was written, and the place of the path was not touched before
        have hanchor := isEnding_temporary.isAnchor_eq_false path
        rw [withTemporary, temporary, Files.Tree.entry?_put, hanchor] at hbytes
        simp only [Bool.false_eq_true, if_false, if_true, Option.some.injEq,
          Entry.file.injEq] at hbytes
        subst hbytes
        rw [withTemporary, Files.Tree.entry?_put_of_ne _ _ (placeOf_temporary_ne path)]
          at hdirectory
        exact .moved hgrown hdirectory

/-- What is left outside the places of the path and of its neighbouring file: nothing has
changed, and directories on the way may be new. -/
theorem WriteEnds.entry?_eq {r : Except StateFileError Unit} (h : WriteEnds t path c r t')
    {place : Place} (hplace : place ≠ placeOf path)
    (htemporary : place ≠ placeOf (temporary path)) :
    t'.entry? place = t.entry? place ∨ (IsAbove place (placeOf path) ∧
      t.entry? place = none ∧ t'.entry? place = some .directory) := by
  cases h with
  | unprepared e hgrown => exact hgrown place
  | unmoved e hgrown hbeside =>
      rw [withTemporary, Files.Tree.entry?_put_of_ne _ _ htemporary]
      exact hgrown place
  | moved hgrown hdirectory =>
      rw [Files.Tree.entry?_put_of_ne _ _ hplace, Files.Tree.entry?_erase_of_ne _ htemporary,
        withTemporary, Files.Tree.entry?_put_of_ne _ _ htemporary]
      exact hgrown place

/-- A tree that grew on the way to a place holds there what it held. -/
theorem entry?_eq_of_growsTo {other : Place} (h : t.GrowsTo t' (IsAbove · other)) :
    t'.entry? other = t.entry? other :=
  (h other).resolve_right fun habove => habove.1.2 rfl

/-- After a failure, the place of the path holds what it held. -/
theorem WriteEnds.entry?_placeOf {e : StateFileError} (h : WriteEnds t path c (.error e) t') :
    t'.entry? (placeOf path) = t.entry? (placeOf path) := by
  cases h with
  | unprepared e hgrown => exact entry?_eq_of_growsTo hgrown
  | unmoved e hgrown hbeside =>
      rw [withTemporary, Files.Tree.entry?_put_of_ne _ _ (placeOf_temporary_ne path)]
      exact entry?_eq_of_growsTo hgrown

/-- After a failure, all directories are still there. -/
theorem WriteEnds.keepsDirectories {e : StateFileError} (h : WriteEnds t path c (.error e) t') :
    KeepsDirectories t t' := by
  cases h with
  | unprepared e hgrown => exact hgrown.keepsDirectories
  | unmoved e hgrown hbeside =>
      intro place hplace
      exact Files.Tree.keepsDirectories_put hbeside _ place (hgrown.keepsDirectories place hplace)

/-- After a success, the path holds the written text, and there is no neighbouring file. -/
theorem WriteEnds.entry?_of_ok (h : WriteEnds t path c (.ok ()) t') :
    t'.entry? (placeOf path) = some (.file (octets path c)) ∧
      t'.entry? (placeOf (temporary path)) = none := by
  cases h with
  | moved hgrown hdirectory =>
      rename_i t₁
      have hanchor : Files.Tree.isAnchor (placeOf path) = false :=
        Files.Tree.isAnchor_eq_false hdirectory
      have htemporary : Files.Tree.isAnchor (placeOf (temporary path)) = false :=
        isEnding_temporary.isAnchor_eq_false path
      constructor
      · rw [Files.Tree.entry?_put, hanchor]
        simp
      · rw [Files.Tree.entry?_put_of_ne _ _ (placeOf_temporary_ne path).symm,
          Files.Tree.entry?_erase, htemporary]
        simp

/-- **What was written is what is read**, whatever the path is. -/
theorem readBytes_of_write (h : write t path c = (.ok (), t')) :
    t'.readBytes path = .ok (octets path c) := by
  rw [write] at h
  split at h
  next e t₁ hprepared => exact absurd (congrArg Prod.fst h) nofun
  next t₁ hprepared =>
    rw [replaceFile] at h
    split at h
    next cause hwrite => exact absurd (congrArg Prod.fst h) nofun
    next t₂ hwrite =>
      split at h
      next cause hrename => exact absurd (congrArg Prod.fst h) nofun
      next t₃ hrename =>
        obtain rfl : t₃ = t' := congrArg Prod.snd h
        rw [← Files.Tree.readBytes_of_rename hrename]
        exact Files.Tree.readBytes_of_writeBytes hwrite

/-! ### Failed writes to any path -/

/-- The tree that a failed write to a path leaves. -/
inductive WriteFails (t : Files.Tree) (path : String) : Files.Tree → Prop
  /-- The way cannot be prepared, or the neighbouring file cannot be written. -/
  | unprepared {t₁ : Files.Tree} (hgrown : t.GrowsTo t₁ (OnTheWay t₁ path)) :
    WriteFails t path t₁
  /-- The neighbouring file cannot be moved. -/
  | unmoved {t₁ : Files.Tree} {place : Place} (bytes : List UInt8)
    (hgrown : t.GrowsTo t₁ (OnTheWay t₁ path))
    (hplace : t₁.locate (temporary path) = .ok place)
    (hbeside : t₁.entry? place ≠ some .directory) :
    WriteFails t path (t₁.put place (.file bytes))

/-- **A write that fails** leaves new directories on the way, and perhaps the neighbouring
file. -/
theorem writeFails {e : StateFileError} (h : write t path c = (.error e, t')) :
    WriteFails t path t' := by
  have hgrown := growsTo_prepareParent t path
  rw [write] at h
  split at h
  next e' t₁ hprepared =>
    obtain rfl : t₁ = t' := congrArg Prod.snd h
    rw [hprepared] at hgrown
    exact .unprepared hgrown
  next t₁ hprepared =>
    rw [hprepared] at hgrown
    rw [replaceFile] at h
    split at h
    next cause hwrite =>
      obtain rfl : t₁ = t' := congrArg Prod.snd h
      exact .unprepared hgrown
    next t₂ hwrite =>
      obtain ⟨place, hplace, hbeside, rfl⟩ := Files.Tree.exists_put_of_writeBytes hwrite
      split at h
      next cause hrename =>
        obtain rfl := congrArg Prod.snd h
        exact .unmoved _ hgrown hplace hbeside
      next t₃ hrename => exact absurd (congrArg Prod.fst h) nofun

/-! ### All or nothing -/

/-- **Writing a configuration to a path is all or nothing.** -/
structure AllOrNothing (t : Files.Tree) (path : String) (c : Configuration) : Prop where
  /-- After a failure, the place of the path holds what it held. -/
  untouched : ∀ e t', write t path c = (.error e, t') →
    t'.entry? (placeOf path) = t.entry? (placeOf path)
  /-- After a failure, whatever the path led to it leads to still. -/
  readable : ∀ e t', write t path c = (.error e, t') → ∀ entry, t.lookAt path = .ok entry →
    t'.lookAt path = .ok entry
  /-- After a failure, nothing else has changed but the neighbouring file, and directories on
  the way may be new. -/
  frame : ∀ e t', write t path c = (.error e, t') → ∀ place, place ≠ placeOf (temporary path) →
    t'.entry? place = t.entry? place ∨ (IsAbove place (placeOf path) ∧
      t.entry? place = none ∧ t'.entry? place = some .directory)
  /-- After a success, the path holds the written text. -/
  written : ∀ t', write t path c = (.ok (), t') →
    t'.entry? (placeOf path) = some (.file (octets path c)) ∧
      t'.readBytes path = .ok (octets path c)
  /-- After a success, there is no neighbouring file. -/
  cleared : ∀ t', write t path c = (.ok (), t') → t'.entry? (placeOf (temporary path)) = none
  /-- After a success, nothing else has changed, and directories on the way may be new. -/
  kept : ∀ t', write t path c = (.ok (), t') → ∀ place, place ≠ placeOf path →
    place ≠ placeOf (temporary path) →
    t'.entry? place = t.entry? place ∨ (IsAbove place (placeOf path) ∧
      t.entry? place = none ∧ t'.entry? place = some .directory)

/-- A path that led to something leads to it still, if its place and all directories are as they
were. -/
theorem lookAt_eq (hplain : IsPlain path) (hkeeps : KeepsDirectories t t')
    (hsame : t'.entry? (placeOf path) = t.entry? (placeOf path)) {entry : Entry}
    (h : t.lookAt path = .ok entry) : t'.lookAt path = .ok entry := by
  obtain ⟨place, hplace, hentry⟩ := Files.Tree.lookAt_eq_ok_iff.mp h
  obtain rfl := Files.Tree.locate_eq_of_isPlain hplain hplace
  refine Files.Tree.lookAt_eq_ok_iff.mpr ⟨placeOf path, hkeeps.walk_eq hplace, ?_⟩
  rw [hsame, hentry]

/-- **Writing to a plain path is all or nothing**, whatever the tree holds. -/
theorem allOrNothing (hplain : IsPlain path) (t : Files.Tree) (c : Configuration) :
    AllOrNothing t path c := by
  have hends {r : Except StateFileError Unit} {t' : Files.Tree} (h : write t path c = (r, t')) :
      WriteEnds t path c r t' := by
    have hwrite := writeEnds hplain t c
    rwa [h] at hwrite
  constructor
  case untouched => exact fun e t' h => (hends h).entry?_placeOf
  case readable =>
    intro e t' h entry hentry
    exact lookAt_eq hplain (hends h).keepsDirectories (hends h).entry?_placeOf hentry
  case frame =>
    intro e t' h place htemporary
    by_cases hplace : place = placeOf path
    · subst hplace
      exact .inl (hends h).entry?_placeOf
    · exact (hends h).entry?_eq hplace htemporary
  case written => exact fun t' h => ⟨(hends h).entry?_of_ok.1, readBytes_of_write h⟩
  case cleared => exact fun t' h => (hends h).entry?_of_ok.2
  case kept => exact fun t' h place hplace htemporary => (hends h).entry?_eq hplace htemporary

/-- The tree with a directory in the place of a state file. -/
def occupied : Files.Tree :=
  (Files.Tree.empty.put ["work"] .directory).put ["work", "state.json"] .directory

/-- Writing to an empty tree is done, and writing to a tree with a directory in the place of the
file fails after the neighbouring file was written. -/
theorem allOrNothing_nested :
    IsPlain "work/./state.json" ∧
      (AllOrNothing Files.Tree.empty "work/./state.json" {} ∧
        (write Files.Tree.empty "work/./state.json" {}).1.toBool = true) ∧
      (AllOrNothing occupied "work/./state.json" {} ∧
        (write occupied "work/./state.json" {}).1.toBool = false) :=
  ⟨by decide +kernel, ⟨allOrNothing (by decide +kernel) _ _, by decide +kernel⟩,
    ⟨allOrNothing (by decide +kernel) _ _, by decide +kernel⟩⟩

end Pipewright.StateFile
