import Pipewright.Proofs.Files.Path
import Pipewright.Proofs.Outcome
import Pipewright.Proofs.Text.Utf8

/-!
# What the Operations on Files Leave Alone

Each operation that changes a tree changes it at one place or two. All other places hold what
they held, and where directories stay directories, every path that led somewhere leads there
still. So what was written is what is read, and what an operation may change is told by places.

## Main definitions

* `Tree.KeepsDirectories`: every directory of a tree is one of another.
* `Tree.Passes`: the way of a path passes through a place.
* `Tree.GrowsTo`: a tree has new directories at some places and is else the same.

## Main results

* `Tree.locate_eq_of_isPlain`: a plain path leads to its place or nowhere.
* `Tree.KeepsDirectories.walk_eq`: a path leads where it led.
* `Tree.readBytes_of_writeBytes`, `Tree.readBytes_of_rename`: what was written is what is read.
* `Tree.GrowsTo.makeDirectories`: what making directories changes.
-/

namespace Pipewright.Files.Tree

variable {t t' t'' : Tree} {place other : Place} {entry : Entry}

/-! ### Entries -/

/-- Entries of other places are found without those of a place. -/
theorem lookup_filter_ne (entries : List (Place × Entry)) (place other : Place) :
    (entries.filter (·.1 != place)).lookup other =
      if other = place then none else entries.lookup other := by
  induction entries with
  | nil => simp
  | cons e entries ih =>
      obtain ⟨at', entry⟩ := e
      by_cases hother : other = at'
      · subst hother
        by_cases hplace : other = place
        · subst hplace
          rw [if_pos rfl] at ih ⊢
          rw [List.filter_cons_of_neg (by simp), ih]
        · rw [List.filter_cons_of_pos (by simp [hplace]), if_neg hplace, List.lookup_cons_self,
            List.lookup_cons_self]
      · have hskip (l : List (Place × Entry)) :
            ((at', entry) :: l).lookup other = l.lookup other := by
          rw [List.lookup_cons, beq_eq_false_iff_ne.mpr hother]
        rw [List.filter_cons, hskip, ← ih]
        split
        · exact hskip _
        · rfl

/-- A place holds the entry that was put there, and all others hold what they held. -/
theorem entry?_put (t : Tree) (place : Place) (entry : Entry) (other : Place) :
    entry? (t.put place entry) other =
      if isAnchor other then some .directory
      else if other = place then some entry else t.entry? other := by
  rw [ entry?, entry?]
  by_cases hanchor : isAnchor other = true
  · rw [if_pos hanchor, if_pos hanchor]
  · rw [if_neg hanchor, if_neg hanchor, if_neg hanchor, put, List.lookup_cons]
    by_cases hother : other = place
    · rw [if_pos hother, beq_iff_eq.mpr hother]
    · rw [if_neg hother, beq_eq_false_iff_ne.mpr hother, lookup_filter_ne, if_neg hother]

/-- A place holds nothing after it was emptied, and all others hold what they held. -/
theorem entry?_erase (t : Tree) (place other : Place) :
    entry? (t.erase place) other =
      if isAnchor other then some .directory
      else if other = place then none else t.entry? other := by
  rw [ entry?, entry?]
  by_cases hanchor : isAnchor other = true
  · rw [if_pos hanchor, if_pos hanchor]
  · rw [if_neg hanchor, if_neg hanchor, if_neg hanchor, erase, lookup_filter_ne]

/-- What is always there are directories. -/
theorem entry?_of_isAnchor (t : Tree) (h : isAnchor place = true) :
    t.entry? place = some .directory := by
  rw [ entry?, if_pos h]

/-- A place that holds something else than a directory is none that is always there. -/
theorem isAnchor_eq_false (h : t.entry? place ≠ some .directory) : isAnchor place = false :=
  Bool.eq_false_iff.mpr fun hanchor => h (t.entry?_of_isAnchor hanchor)

/-- All other places hold what they held before an entry was put. -/
theorem entry?_put_of_ne (t : Tree) (entry : Entry) (h : other ≠ place) :
    entry? (t.put place entry) other = t.entry? other := by
  rw [entry?_put, if_neg h]
  split
  next hanchor => exact (t.entry?_of_isAnchor hanchor).symm
  next => rfl

/-- All other places hold what they held before a place was emptied. -/
theorem entry?_erase_of_ne (t : Tree) (h : other ≠ place) :
    entry? (t.erase place) other = t.entry? other := by
  rw [entry?_erase, if_neg h]
  split
  next hanchor => exact (t.entry?_of_isAnchor hanchor).symm
  next => rfl

/-! ### The way of a path -/

/-- Every directory of a tree is one of another. -/
def KeepsDirectories (t t' : Tree) : Prop :=
  ∀ place, t.entry? place = some .directory → t'.entry? place = some .directory

/-- Putting an entry where no directory is keeps all directories. -/
theorem keepsDirectories_put (h : t.entry? place ≠ some .directory) (entry : Entry) :
    KeepsDirectories t (t.put place entry) := by
  intro other hother
  have hne : other ≠ place := by
    rintro rfl
    exact h hother
  rw [entry?_put_of_ne t entry hne]
  exact hother

/-- Emptying a place where no directory is keeps all directories. -/
theorem keepsDirectories_erase (h : t.entry? place ≠ some .directory) :
    KeepsDirectories t (t.erase place) := by
  intro other hother
  have hne : other ≠ place := by
    rintro rfl
    exact h hother
  rw [entry?_erase_of_ne t hne]
  exact hother

/-- A step is possible in a directory only. -/
theorem entry?_of_enter {part : String} (h : t.enter place part = .ok other) :
    t.entry? place = some .directory := by
  rw [enter] at h
  split at h
  · exact absurd h nofun
  · exact absurd h nofun
  · assumption

/-- A step leads to the same place in every tree that has the directory. -/
theorem enter_eq_of_directory {part : String} (h : t.enter place part = .ok other)
    (hdirectory : t'.entry? place = some .directory) : t'.enter place part = .ok other := by
  rw [enter, entry?_of_enter h] at h
  rw [enter, hdirectory]
  exact h

/-- A step leads where it led if the directory is still there. -/
theorem KeepsDirectories.enter_eq (hkeeps : KeepsDirectories t t') {part : String}
    (h : t.enter place part = .ok other) : t'.enter place part = .ok other :=
  enter_eq_of_directory h (hkeeps place (entry?_of_enter h))

/-- A way leads where it led if all directories are still there. -/
theorem KeepsDirectories.foldlM_enter_eq (hkeeps : KeepsDirectories t t') {ps : List String}
    {start : Place} (h : ps.foldlM t.enter start = .ok place) :
    ps.foldlM t'.enter start = .ok place := by
  induction ps generalizing start with
  | nil => exact h
  | cons part ps ih =>
      rw [List.foldlM_cons, bind_eq_ok_iff] at h ⊢
      obtain ⟨next, hnext, hrest⟩ := h
      exact ⟨next, hkeeps.enter_eq hnext, ih hrest⟩

/-- The path is one that the system takes: it is not empty, holds no NUL and is not too long. -/
structure IsTaken (path : String) : Prop where
  /-- There is a path. -/
  ne_empty : ¬ path.isEmpty = true
  /-- There is no NUL. -/
  nul : ¬ path.toList.contains '\x00' = true
  /-- The path is not too long. -/
  size : ¬ pathLimit ≤ path.utf8ByteSize

/-- A path that the system takes leads along its parts, and no other path leads anywhere. -/
theorem walk_eq_ok_iff {path : String} {ps : List String} : t.walk path ps = .ok place ↔
    IsTaken path ∧ ps.foldlM t.enter (origin path) = .ok place := by
  rw [walk]
  constructor
  · intro h
    split at h
    · exact absurd h error_ne_ok
    next hempty =>
      split at h
      · exact absurd h error_ne_ok
      next hnul =>
        split at h
        · exact absurd h error_ne_ok
        next hsize => exact ⟨⟨hempty, hnul, hsize⟩, h⟩
  · rintro ⟨htaken, h⟩
    rw [if_neg htaken.ne_empty, if_neg htaken.nul, if_neg htaken.size]
    exact h

/-- **A path leads where it led** if all directories are still there. -/
theorem KeepsDirectories.walk_eq (hkeeps : KeepsDirectories t t') {path : String}
    {ps : List String} (h : t.walk path ps = .ok place) : t'.walk path ps = .ok place := by
  obtain ⟨htaken, hsteps⟩ := walk_eq_ok_iff.mp h
  exact walk_eq_ok_iff.mpr ⟨htaken, hkeeps.foldlM_enter_eq hsteps⟩

/-- The way of a path along the given parts passes through the place, or ends there. -/
def Passes (t : Tree) (path : String) (ps : List String) (place : Place) : Prop :=
  ∃ qs, qs <+: ps ∧ qs.foldlM t.enter (origin path) = .ok place

/-- A path passes where it passed if all directories are still there. -/
theorem Passes.mono {path : String} {ps : List String} (h : t.Passes path ps place)
    (hkeeps : KeepsDirectories t t') : t'.Passes path ps place := by
  obtain ⟨qs, hqs, hway⟩ := h
  exact ⟨qs, hqs, hkeeps.foldlM_enter_eq hway⟩

/-- A path that starts alike passes where the first parts of its way lead. -/
theorem Passes.of_isPrefix {path above : String} {ps qs : List String}
    (h : t.Passes above qs place) (habsolute : isAbsolute above = isAbsolute path)
    (hqs : qs <+: ps) : t.Passes path ps place := by
  obtain ⟨rs, hrs, hway⟩ := h
  rw [origin, habsolute] at hway
  exact ⟨rs, hrs.trans hqs, hway⟩

/-- A path passes through the place that it leads to. -/
theorem passes_of_walk {path : String} {ps : List String} (h : t.walk path ps = .ok place) :
    t.Passes path ps place :=
  ⟨ps, List.prefix_rfl, (walk_eq_ok_iff.mp h).2⟩

/-- A way that exists in another tree exists, or one of the directories on it is missing. -/
theorem foldlM_enter_or_missing {ps : List String} {start : Place}
    (h : ps.foldlM t'.enter start = .ok place) : ps.foldlM t.enter start = .ok place ∨
      ∃ qs passed, qs <+: ps ∧ qs.foldlM t'.enter start = .ok passed ∧
        t'.entry? passed = some .directory ∧ t.entry? passed ≠ some .directory := by
  induction ps generalizing start with
  | nil => exact .inl h
  | cons part ps ih =>
      rw [List.foldlM_cons, bind_eq_ok_iff] at h ⊢
      obtain ⟨next, hnext, hrest⟩ := h
      by_cases hthere : t.entry? start = some .directory
      · rcases ih hrest with hsame | ⟨qs, passed, hqs, hpassed, hmissing⟩
        · exact .inl ⟨next, enter_eq_of_directory hnext hthere, hsame⟩
        · refine .inr ⟨part :: qs, passed, List.cons_prefix_cons.mpr ⟨rfl, hqs⟩, ?_, hmissing⟩
          rw [List.foldlM_cons, bind_eq_ok_iff]
          exact ⟨next, hnext, hpassed⟩
      · exact .inr ⟨[], start, List.nil_prefix, rfl, entry?_of_enter hnext, hthere⟩

/-- **A path that leads somewhere in another tree** leads there, or passes through a directory
that is missing. -/
theorem walk_or_missing {path : String} {ps : List String} (h : t'.walk path ps = .ok place) :
    t.walk path ps = .ok place ∨ ∃ passed, t'.Passes path ps passed ∧
      t'.entry? passed = some .directory ∧ t.entry? passed ≠ some .directory := by
  obtain ⟨htaken, hway⟩ := walk_eq_ok_iff.mp h
  rcases foldlM_enter_or_missing (t := t) hway with hsame | ⟨qs, passed, hqs, hpassed, hmissing⟩
  · exact .inl (walk_eq_ok_iff.mpr ⟨htaken, hsame⟩)
  · exact .inr ⟨passed, ⟨qs, hqs, hpassed⟩, hmissing⟩

/-- A step that does not lead up either stays or goes on by the part. -/
theorem enter_eq_ok {part : String} (hpart : part ≠ "..") (h : t.enter place part = .ok other) :
    other = place ++ [part].filter (!isIdle ·) := by
  have hdirectory := entry?_of_enter h
  rw [enter, hdirectory] at h
  cases hidle : isIdle part with
  | true =>
      rw [hidle] at h
      obtain rfl := Except.ok.inj h
      simp [hidle]
  | false =>
      simp only [hidle, Bool.false_eq_true, if_false, beq_iff_eq, hpart] at h
      split at h
      · exact absurd h nofun
      · obtain rfl := Except.ok.inj h
        simp [hidle]

/-- A way that never leads up goes on by its parts that mean something. -/
theorem foldlM_enter_eq_ok {ps : List String} (hplain : ".." ∉ ps) {start : Place}
    (h : ps.foldlM t.enter start = .ok place) : place = start ++ ps.filter (!isIdle ·) := by
  induction ps generalizing start with
  | nil =>
      obtain rfl := Except.ok.inj h
      exact (List.append_nil _).symm
  | cons part ps ih =>
      rw [List.foldlM_cons, bind_eq_ok_iff] at h
      obtain ⟨next, hnext, hrest⟩ := h
      obtain ⟨hpart, hps⟩ := List.ne_and_not_mem_of_not_mem_cons hplain
      rw [ih hps hrest, enter_eq_ok hpart.symm hnext, List.append_assoc, ← List.filter_append,
        List.singleton_append]

/-- **A way that never leads up** leads to the place of its parts or nowhere. -/
theorem walk_eq_ok {path : String} {ps : List String} (hplain : ".." ∉ ps)
    (h : t.walk path ps = .ok place) : place = origin path ++ ps.filter (!isIdle ·) :=
  foldlM_enter_eq_ok hplain (walk_eq_ok_iff.mp h).2

/-- A name leads to its place in the directory. -/
theorem enter_eq_ok_of_name {part : String} (hidle : isIdle part = false) (hpart : part ≠ "..")
    (h : t.enter place part = .ok other) : other = place ++ [part] := by
  simpa [hidle] using enter_eq_ok hpart h

/-- One directory up is not where a name leads. -/
theorem up_ne_append {part : String} (hpart : part ≠ "..") (place : Place) :
    up place ≠ place ++ [part] := by
  intro heq
  have hlength := congrArg List.length heq
  rw [up] at heq hlength
  split at heq
  next hroot => simp [hroot] at hlength
  next hroot =>
    rw [if_neg hroot] at hlength
    split at heq
    · exact hpart (by simpa using heq.symm)
    next hup =>
      rw [if_neg hup, List.length_dropLast, List.length_append, List.length_singleton] at hlength
      omega

/-- A path leads where its last part leads from the directory that the parts in front name. -/
theorem foldlM_enter_concat {ps : List String} {part : String} {start : Place} :
    (ps ++ [part]).foldlM t.enter start = .ok place ↔
      ∃ directory, ps.foldlM t.enter start = .ok directory ∧
        t.enter directory part = .ok place := by
  rw [List.foldlM_append, bind_eq_ok_iff]
  simp [List.foldlM]

/-- **The file beside a path** is not at the place to which the path leads. -/
theorem locate_beside_ne {path ending : String} (hending : IsEnding ending)
    (hplace : t.locate path = .ok place) (hother : t.locate (beside path ending) = .ok other) :
    place ≠ other := by
  obtain ⟨front, last, hparts⟩ := exists_parts_eq path
  have hname : last ++ ending ≠ ".." := hending.append_ne last (by simp)
  rw [locate, walk_eq_ok_iff, hparts, foldlM_enter_concat] at hplace
  rw [locate, walk_eq_ok_iff, parts_beside hparts hending.slash, foldlM_enter_concat, origin,
    hending.isAbsolute_beside, ← origin] at hother
  -- both ways lead through the directory that the parts in front name
  obtain ⟨-, directory, hdirectory, hlast⟩ := hplace
  obtain ⟨-, directory', hdirectory', hbeside⟩ := hother
  obtain rfl := Except.ok.inj (hdirectory.symm.trans hdirectory')
  obtain rfl := enter_eq_ok_of_name (hending.isIdle_append last) hname hbeside
  by_cases hup : last = ".."
  · subst hup
    rw [enter, entry?_of_enter hlast] at hlast
    obtain rfl : up directory = place := by simpa [isIdle] using hlast
    exact up_ne_append hname directory
  · obtain rfl := enter_eq_ok hup hlast
    intro heq
    exact hending.not_prefix_filter last (List.append_cancel_left heq ▸ List.prefix_rfl)

/-! ### The operations -/

variable {path source target : String} {bytes : List UInt8}

/-- **Writing a file** puts it at the place of its path, where no directory is. -/
theorem exists_put_of_writeBytes (h : t.writeBytes path bytes = .ok t') : ∃ place,
    t.locate path = .ok place ∧ t.entry? place ≠ some .directory ∧
      t' = t.put place (.file bytes) := by
  rw [writeBytes, bind_eq_ok_iff] at h
  obtain ⟨place, hplace, h⟩ := h
  obtain ⟨hslash, h⟩ := throw_if_eq_ok_iff.mp h
  rw [openParts_eq (Bool.eq_false_iff.mpr hslash)] at hplace
  refine ⟨place, hplace, ?_⟩
  dsimp only at h
  split at h
  · exact absurd h nofun
  next hdirectory => exact ⟨hdirectory, (Except.ok.inj h).symm⟩

/-- **Moving a file** takes it from the place of the one path and puts it at that of the other,
where no directory is. -/
theorem exists_put_of_rename (h : t.rename source target = .ok t') : ∃ fromPlace toPlace bytes,
    t.locate source = .ok fromPlace ∧ t.locate target = .ok toPlace ∧
      t.entry? fromPlace = some (.file bytes) ∧ t.entry? toPlace ≠ some .directory ∧
      t' = (t.erase fromPlace).put toPlace (.file bytes) := by
  rw [rename, bind_eq_ok_iff] at h
  obtain ⟨fromPlace, hfrom, h⟩ := h
  rw [bind_eq_ok_iff] at h
  obtain ⟨toPlace, hto, h⟩ := h
  obtain ⟨-, h⟩ := throw_if_eq_ok_iff.mp h
  dsimp only at h
  split at h
  · exact absurd h nofun
  · exact absurd h nofun
  next bytes hbytes =>
    obtain ⟨hslash, h⟩ := throw_if_eq_ok_iff.mp h
    rw [openParts_eq (Bool.eq_false_iff.mpr hslash)] at hto
    split at h
    · exact absurd h nofun
    next hdirectory =>
      exact ⟨fromPlace, toPlace, bytes, hfrom, hto, hbytes, hdirectory, (Except.ok.inj h).symm⟩

/-- **Making a directory** puts it where nothing is. -/
theorem exists_put_of_makeDirectory (h : t.makeDirectory path = .ok t') : ∃ place,
    t.walk path (openParts path) = .ok place ∧ t.entry? place = none ∧
      t' = t.put place .directory := by
  rw [makeDirectory, bind_eq_ok_iff] at h
  obtain ⟨place, hplace, h⟩ := h
  refine ⟨place, hplace, ?_⟩
  split at h
  · exact absurd h nofun
  next hnone => exact ⟨hnone, (Except.ok.inj h).symm⟩

/-- A path leads to what its place holds. -/
theorem lookAt_eq_ok_iff : t.lookAt path = .ok entry ↔
    ∃ place, t.locate path = .ok place ∧ t.entry? place = some entry := by
  rw [lookAt, bind_eq_ok_iff]
  refine exists_congr fun place => and_congr_right fun _ => ?_
  cases t.entry? place with
  | none => simp [throw, throwThe, MonadExceptOf.throw]
  | some e => simp [pure, Except.pure]

/-- The octets of a path are those of the file that it leads to. -/
theorem readBytes_eq_ok_iff : t.readBytes path = .ok bytes ↔
    t.lookAt path = .ok (.file bytes) := by
  rw [readBytes, bind_eq_ok_iff]
  constructor
  · rintro ⟨entry, hentry, h⟩
    cases entry with
    | directory => exact absurd h nofun
    | file content =>
        obtain rfl := Except.ok.inj h
        exact hentry
  · exact fun h => ⟨.file bytes, h, rfl⟩

/-- A file with the form of a text is read as the text. -/
theorem readText_of_readBytes {text : String} (h : t.readBytes path = .ok (Text.encode text)) :
    t.readText path = .ok text := by
  rw [readText, h]
  simp only [bind, Except.bind, Text.decode?_encode]
  rfl

/-- A file that was put at the place of a path is what the path leads to. -/
theorem readBytes_put (hplace : t.locate path = .ok place) (hkeeps : KeepsDirectories t t')
    (hentry : t'.entry? place ≠ some .directory) :
    (t'.put place (.file bytes)).readBytes path = .ok bytes := by
  refine readBytes_eq_ok_iff.mpr (lookAt_eq_ok_iff.mpr ⟨place, ?_, ?_⟩)
  · exact (keepsDirectories_put hentry _).walk_eq (hkeeps.walk_eq hplace)
  · rw [entry?_put, isAnchor_eq_false hentry]
    simp

/-- **What was written is what is read.** -/
theorem readBytes_of_writeBytes (h : t.writeBytes path bytes = .ok t') :
    t'.readBytes path = .ok bytes := by
  obtain ⟨place, hplace, hentry, rfl⟩ := exists_put_of_writeBytes h
  exact readBytes_put hplace (fun _ => id) hentry

/-- **What was moved is what is read**, and it was there before. -/
theorem readBytes_of_rename (h : t.rename source target = .ok t') :
    t.readBytes source = t'.readBytes target := by
  obtain ⟨fromPlace, toPlace, bytes, hfrom, hto, hbytes, hentry, rfl⟩ := exists_put_of_rename h
  have hbefore : t.readBytes source = .ok bytes :=
    readBytes_eq_ok_iff.mpr (lookAt_eq_ok_iff.mpr ⟨fromPlace, hfrom, hbytes⟩)
  have hfile : t.entry? fromPlace ≠ some .directory := by
    rw [hbytes]
    simp
  have herased : entry? (t.erase fromPlace) toPlace ≠ some .directory := by
    by_cases hsame : toPlace = fromPlace
    · rw [hsame, entry?_erase, isAnchor_eq_false hfile]
      simp
    · rw [entry?_erase_of_ne t hsame]
      exact hentry
  rw [hbefore, readBytes_put hto (keepsDirectories_erase hfile) herased]

/-! ### Plain paths -/

/-- **A plain path** leads to its place or nowhere. -/
theorem locate_eq_of_isPlain (hplain : IsPlain path) (h : t.locate path = .ok place) :
    place = placeOf path :=
  walk_eq_ok hplain h

/-- The tree has new directories at some places with the property and is else the same. -/
def GrowsTo (t t' : Tree) (P : Place → Prop) : Prop :=
  ∀ place, t'.entry? place = t.entry? place ∨
    (P place ∧ t.entry? place = none ∧ t'.entry? place = some .directory)

namespace GrowsTo

variable {P Q : Place → Prop}

/-- Nothing has to be new. -/
theorem refl (t : Tree) (P : Place → Prop) : t.GrowsTo t P :=
  fun _ => .inl rfl

/-- What grows twice has grown. -/
theorem trans (h : t.GrowsTo t' P) (h' : t'.GrowsTo t'' P) : t.GrowsTo t'' P := by
  intro place
  rcases h' place with hsame | ⟨hP, hnone, hnew⟩
  · rw [hsame]
    exact h place
  · rcases h place with hsame | ⟨-, -, hdirectory⟩
    · exact .inr ⟨hP, hsame ▸ hnone, hnew⟩
    · rw [hnone] at hdirectory
      exact absurd hdirectory nofun

/-- What has the property has every weaker one. -/
theorem mono (h : t.GrowsTo t' P) (hPQ : ∀ place, P place → Q place) : t.GrowsTo t' Q :=
  fun place => (h place).imp_right fun ⟨hP, hrest⟩ => ⟨hPQ place hP, hrest⟩

/-- New directories leave the others alone. -/
theorem keepsDirectories (h : t.GrowsTo t' P) : KeepsDirectories t t' := by
  intro place hdirectory
  rcases h place with hsame | ⟨-, -, hnew⟩
  · rw [hsame, hdirectory]
  · exact hnew

/-- A new directory. -/
theorem put (hP : P place) (hnone : t.entry? place = none) :
    t.GrowsTo (t.put place .directory) P := by
  intro other
  by_cases hother : other = place
  · have hanchor : isAnchor place = false := isAnchor_eq_false (t := t) (by simp [hnone])
    rw [hother, entry?_put, hanchor]
    exact .inr ⟨hP, hnone, by simp⟩
  · exact .inl (t.entry?_put_of_ne .directory hother)

/-- Making a directory grows a tree at the place to which the path leads then. -/
theorem of_makeDirectory (h : t.makeDirectory path = .ok t') :
    t.GrowsTo t' fun place => t'.walk path (openParts path) = .ok place := by
  obtain ⟨place, hplace, hnone, rfl⟩ := exists_put_of_makeDirectory h
  have hkeeps : KeepsDirectories t (t.put place .directory) :=
    keepsDirectories_put (by simp [hnone]) .directory
  exact .put (hkeeps.walk_eq hplace) hnone

/-- Making a directory and those above it grows a tree at the places to which the paths lead
then. -/
theorem makeDirectoriesAt (paths : List String) (t : Tree) :
    t.GrowsTo (t.makeDirectoriesAt paths).2 fun place => ∃ p ∈ paths,
      (t.makeDirectoriesAt paths).2.walk p (openParts p) = .ok place := by
  induction paths generalizing t with
  | nil => exact .refl t _
  | cons path above ih =>
      have hself {t t' : Tree} (hmade : t.makeDirectory path = .ok t') :
          t.GrowsTo t' fun place => ∃ p ∈ path :: above, t'.walk p (openParts p) = .ok place :=
        (of_makeDirectory hmade).mono fun place hwalk => ⟨path, List.mem_cons_self, hwalk⟩
      -- what leads to a place still leads there when one more directory is made
      have hstill {t t' : Tree} (hkeeps : KeepsDirectories t t') (place : Place)
          (h : ∃ p ∈ above, t.walk p (openParts p) = .ok place) :
          ∃ p ∈ path :: above, t'.walk p (openParts p) = .ok place := by
        obtain ⟨p, hp, hwalk⟩ := h
        exact ⟨p, List.mem_cons_of_mem path hp, hkeeps.walk_eq hwalk⟩
      rw [Tree.makeDirectoriesAt]
      split
      next t' hmade => exact hself hmade
      next =>
        have habove := ih t
        split
        next e t' hfailed =>
          rw [hfailed] at habove
          exact habove.mono (hstill fun _ => id)
        next t' hdone =>
          rw [hdone] at habove
          split
          next t'' hmade =>
            have hnew := hself hmade
            exact (habove.mono (hstill hnew.keepsDirectories)).trans hnew
          next => exact habove.mono (hstill fun _ => id)
      next => exact .refl t _

/-- **Making directories** grows a tree on the way of the path. -/
theorem makeDirectories (path : String) (t : Tree) : t.GrowsTo (t.makeDirectories path).2
    ((t.makeDirectories path).2.Passes path (openParts path)) := by
  refine (makeDirectoriesAt _ t).mono fun place => ?_
  rintro ⟨above, habove, hwalk⟩
  obtain ⟨habsolute, hbegins⟩ := openParts_of_mem_ancestry above habove
  exact (passes_of_walk hwalk).of_isPrefix habsolute hbegins

/-- Making the directories of a plain path grows a tree on the way to its place. -/
theorem makeDirectories_of_isPlain (hplain : IsPlain path) (t : Tree) :
    t.GrowsTo (t.makeDirectories path).2 (· <+: placeOf path) := by
  refine (makeDirectories path t).mono fun place => ?_
  rintro ⟨qs, hqs, hway⟩
  have hqs' : ".." ∉ qs := fun hup => hplain ((hqs.trans (openParts_isPrefix path)).subset hup)
  rw [foldlM_enter_eq_ok hqs' hway, placeOf, List.prefix_append_right_inj]
  exact (hqs.trans (openParts_isPrefix path)).filter _

end GrowsTo

end Pipewright.Files.Tree
