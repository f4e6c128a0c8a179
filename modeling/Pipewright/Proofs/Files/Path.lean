import Mathlib.Data.List.DropRight
import Pipewright.Files.Tree

/-!
# Paths and the Places They Name

A path is its parts with slashes between them. A path that never leads a directory up names
one place, whatever the tree holds: its parts without those that mean nothing. The directory
above it and the file beside it have places that are told from that one.

## Main definitions

* `IsPlain`: a path that never leads a directory up.
* `placeOf`: the place that a plain path names.
* `IsEnding`: what may be put behind a path to name a file beside it.

## Main results

* `parts_intercalate`, `intercalate_parts`: a path and its parts.
* `openParts_of_mem_ancestry`: the directories above a path are named by its first parts.
* `IsEnding.not_prefix_placeOf`: the file beside a path is neither at its place nor on the way
  to it.
-/

namespace Pipewright.Files

/-! ### Parts -/

/-- There is always a first part. -/
theorem splitAt_ne_nil {α : Type} [BEq α] (sep : α) (l : List α) : splitAt sep l ≠ [] := by
  cases l with
  | nil => exact List.cons_ne_nil _ _
  | cons a as =>
      rw [splitAt]
      split
      · exact List.cons_ne_nil _ _
      · split
        · exact List.cons_ne_nil _ _
        · exact List.cons_ne_nil _ _

/-- Cutting at a separator is the library's cutting. -/
theorem splitAt_eq_splitOn {α : Type} [BEq α] (sep : α) (l : List α) :
    splitAt sep l = l.splitOn sep := by
  induction l with
  | nil => rw [splitAt, List.splitOn_nil]
  | cons a as ih =>
      have hcons := List.splitOnP_cons_eq_if_modifyHead (p := (· == sep)) a as
      obtain ⟨part, rest, hparts⟩ := List.exists_cons_of_ne_nil (splitAt_ne_nil sep as)
      rw [← List.splitOn, ← List.splitOn, ← ih, hparts] at hcons
      rw [hcons, splitAt, hparts, List.modifyHead_cons]

/-- No part holds the separator. -/
theorem not_mem_of_mem_splitAt {α : Type} [BEq α] [LawfulBEq α] {sep : α} {l : List α} :
    ∀ part ∈ splitAt sep l, sep ∉ part := by
  induction l with
  | nil => simp [splitAt]
  | cons a as ih =>
      rw [splitAt]
      split
      next => exact List.forall_mem_cons.mpr ⟨List.not_mem_nil, ih⟩
      next hne =>
        have ha : sep ≠ a := fun h => hne (by simp [h])
        split
        next hnil => simp [ha]
        next part rest hcons =>
          rw [hcons] at ih
          obtain ⟨hpart, hrest⟩ := List.forall_mem_cons.mp ih
          exact List.forall_mem_cons.mpr ⟨by simp [ha, hpart], hrest⟩

/-- A path has a part. -/
theorem parts_ne_nil (path : String) : parts path ≠ [] := by
  simpa [parts] using splitAt_ne_nil '/' path.toList

/-- No part holds a slash. -/
theorem slash_not_mem_of_mem_parts {path part : String} (h : part ∈ parts path) :
    '/' ∉ part.toList := by
  obtain ⟨cs, hcs, rfl⟩ := List.mem_map.mp h
  rw [String.toList_ofList]
  exact not_mem_of_mem_splitAt cs hcs

/-- A path is its parts with slashes between them. -/
theorem intercalate_parts (path : String) : "/".intercalate (parts path) = path := by
  have hslash : ("/").toList = ['/'] := rfl
  have hmap : (parts path).map String.toList = path.toList.splitOn '/' := by
    rw [parts, splitAt_eq_splitOn, List.map_map]
    exact (List.map_congr_left fun cs _ => String.toList_ofList).trans (List.map_id _)
  rw [← String.toList_inj, String.toList_intercalate, hslash, hmap, List.intercalate_splitOn]

/-- Texts without slashes are the parts of the path that they make up. -/
theorem parts_intercalate {ps : List String} (hne : ps ≠ []) (hfree : ∀ p ∈ ps, '/' ∉ p.toList) :
    parts ("/".intercalate ps) = ps := by
  have hslash : ("/").toList = ['/'] := rfl
  have hfree' : ∀ cs ∈ ps.map String.toList, '/' ∉ cs := by
    simpa using hfree
  rw [parts, String.toList_intercalate, hslash, splitAt_eq_splitOn,
    List.splitOn_intercalate '/' hfree' (by simpa using hne), List.map_map]
  exact (List.map_congr_left fun p _ => String.ofList_toList).trans (List.map_id _)

/-- A path has a last part. -/
theorem exists_parts_eq (path : String) : ∃ front last, parts path = front ++ [last] :=
  ⟨_, _, (List.dropLast_append_getLast (parts_ne_nil path)).symm⟩

/-- The last of several texts stands behind a separator. -/
theorem intercalate_concat (separator last : String) {front : List String} (h : front ≠ []) :
    separator.intercalate (front ++ [last]) = separator.intercalate front ++ separator ++ last := by
  induction front with
  | nil => exact absurd rfl h
  | cons p front ih =>
      cases front with
      | nil =>
          rw [List.singleton_append, String.intercalate_cons_cons, String.intercalate_singleton,
            String.intercalate_singleton]
      | cons q front =>
          have hrest := ih (List.cons_ne_nil q front)
          rw [List.cons_append, List.cons_append, String.intercalate_cons_cons,
            String.intercalate_cons_cons, ← List.cons_append, hrest]
          simp only [String.append_assoc]

/-- What is put behind a path is put behind its last part, if no slash is in it. -/
theorem parts_beside {path ending last : String} {front : List String}
    (h : parts path = front ++ [last]) (hending : '/' ∉ ending.toList) :
    parts (beside path ending) = front ++ [last ++ ending] := by
  have hfree : ∀ p ∈ front ++ [last], '/' ∉ p.toList := fun p hp =>
    slash_not_mem_of_mem_parts (h ▸ hp)
  have hpath : beside path ending = "/".intercalate (front ++ [last ++ ending]) := by
    have hwhole := intercalate_parts path
    rw [h] at hwhole
    rw [beside, ← hwhole]
    by_cases hfront : front = []
    · subst hfront
      simp only [List.nil_append, String.intercalate_singleton]
    · simp only [intercalate_concat _ _ hfront, String.append_assoc]
  rw [hpath]
  refine parts_intercalate (by simp) fun p hp => ?_
  rcases List.mem_append.mp hp with hfront | hlast
  · exact hfree p (List.mem_append_left _ hfront)
  · obtain rfl := List.mem_singleton.mp hlast
    rw [String.toList_append, List.mem_append, not_or]
    exact ⟨hfree last (by simp), hending⟩

/-- A path is absolute if its first part is empty and not its only one. -/
theorem isAbsolute_iff {path first : String} {rest : List String}
    (h : parts path = first :: rest) : isAbsolute path = true ↔ first = "" ∧ rest ≠ [] := by
  have hfree : '/' ∉ first.toList := slash_not_mem_of_mem_parts (h ▸ List.mem_cons_self)
  have hpath := intercalate_parts path
  rw [h] at hpath
  have hstart : isAbsolute path = true ↔ path.toList.head? = some '/' := by
    rw [isAbsolute, beq_iff_eq]
  rw [hstart, ← hpath]
  -- the first part is followed by nothing or by a slash
  by_cases hfirst : first = ""
  · subst hfirst
    cases rest with
    | nil => simp [String.intercalate_singleton]
    | cons p rest => simp [String.intercalate_cons_cons]
  · obtain ⟨c, cs, hcs⟩ := List.exists_cons_of_ne_nil (mt String.toList_eq_nil_iff.mp hfirst)
    have hc : c ≠ '/' := fun hc => hfree (by simp [hcs, hc])
    cases rest with
    | nil => simp [String.intercalate_singleton, hcs, hc, hfirst]
    | cons p rest => simp [String.intercalate_cons_cons, hcs, hc, hfirst]

/-- A path without a slash at its end keeps all its parts. -/
theorem openParts_eq {path : String} (h : Tree.hasTrailingSlash path = false) :
    Tree.openParts path = parts path := by
  obtain ⟨first, rest, hparts⟩ := List.exists_cons_of_ne_nil (parts_ne_nil path)
  have hlast : rest.rdropWhile String.isEmpty = rest := by
    refine List.rdropWhile_eq_self_iff.mpr fun hne hempty => ?_
    have hpath := intercalate_parts path
    rw [hparts, ← List.dropLast_append_getLast hne, ← List.cons_append,
      intercalate_concat _ _ (List.cons_ne_nil _ _), String.isEmpty_iff.mp hempty,
      String.append_empty] at hpath
    have hslash : path.toList.getLast? = some '/' := by
      rw [← hpath]
      simp
    rw [Tree.hasTrailingSlash, hslash] at h
    exact absurd h (by decide)
  rw [Tree.openParts, hparts]
  exact congrArg (first :: ·) hlast

/-! ### Plain paths -/

/-- The path never leads a directory up. -/
def IsPlain (path : String) : Prop :=
  ".." ∉ parts path

/-- Whether a path is plain can be decided. -/
instance (path : String) : Decidable (IsPlain path) :=
  inferInstanceAs (Decidable (¬ ".." ∈ parts path))

/-- The place that a plain path names. -/
def placeOf (path : String) : Place :=
  Tree.origin path ++ (parts path).filter (!isIdle ·)

/-- What is dropped at the end does not count. -/
theorem filter_rdropWhile {α : Type} (p : α → Bool) (l : List α) :
    (l.rdropWhile p).filter (!p ·) = l.filter (!p ·) := by
  have hdropped : (l.rtakeWhile p).filter (!p ·) = [] := by
    refine List.filter_eq_nil_iff.mpr fun a ha => ?_
    simp [List.mem_rtakeWhile_imp ha]
  calc (l.rdropWhile p).filter (!p ·)
      = (l.rdropWhile p).filter (!p ·) ++ (l.rtakeWhile p).filter (!p ·) := by
        rw [hdropped, List.append_nil]
    _ = l.filter (!p ·) := by
        rw [← List.filter_append, List.rdropWhile_append_rtakeWhile]

/-- An empty part means nothing. -/
theorem isIdle_of_isEmpty {part : String} (h : part.isEmpty = true) : isIdle part = true := by
  rw [isIdle, h, Bool.true_or]

/-- Dropping more at the end leaves less at the front. -/
theorem rdropWhile_prefix_rdropWhile {α : Type} {p q : α → Bool}
    (hpq : ∀ a, p a = true → q a = true) (l : List α) :
    l.rdropWhile q <+: l.rdropWhile p := by
  induction l using List.reverseRecOn with
  | nil => exact List.prefix_rfl
  | append_singleton l a ih =>
      rw [List.rdropWhile_concat, List.rdropWhile_concat]
      by_cases hp : p a = true
      · rw [if_pos hp, if_pos (hpq a hp)]
        exact ih
      · rw [if_neg hp]
        split
        · exact (List.rdropWhile_prefix q l).trans (List.prefix_append l [a])
        · exact List.prefix_rfl

/-- What a path keeps without the parts at its end that mean nothing. -/
theorem trimIdle_isPrefix (ps : List String) : trimIdle ps <+: ps := by
  cases ps with
  | nil => exact List.prefix_rfl
  | cons first rest =>
      exact List.cons_prefix_cons.mpr ⟨rfl, List.rdropWhile_prefix isIdle rest⟩

/-- The parts of a path without the slashes at its end come first in the path. -/
theorem openParts_isPrefix (path : String) : Tree.openParts path <+: parts path := by
  obtain ⟨first, rest, hparts⟩ := List.exists_cons_of_ne_nil (parts_ne_nil path)
  rw [Tree.openParts, hparts]
  exact List.cons_prefix_cons.mpr ⟨rfl, List.rdropWhile_prefix String.isEmpty rest⟩

/-- The slashes at the end of a path mean nothing. -/
theorem trimIdle_prefix_openParts (path : String) :
    trimIdle (parts path) <+: Tree.openParts path := by
  obtain ⟨first, rest, hparts⟩ := List.exists_cons_of_ne_nil (parts_ne_nil path)
  rw [Tree.openParts, hparts]
  exact List.cons_prefix_cons.mpr
    ⟨rfl, rdropWhile_prefix_rdropWhile (fun _ hempty => isIdle_of_isEmpty hempty) rest⟩

/-- Parts that start like those of a path make up a path again, the root if there is no other
part. -/
theorem parts_ofParts {absolute : Bool} {first : String} {qs : List String}
    (habsolute : absolute = true ↔ first = "") (hfree : ∀ p ∈ first :: qs, '/' ∉ p.toList) :
    isAbsolute (ofParts absolute (first :: qs)) = absolute ∧
      (parts (ofParts absolute (first :: qs)) = first :: qs ∨
        first :: qs = [""] ∧ parts (ofParts absolute (first :: qs)) = ["", ""]) := by
  by_cases hroot : absolute = true ∧ first :: qs = [""]
  · obtain ⟨rfl, hempty⟩ := hroot
    have hslash : ofParts true (first :: qs) = "/" := by
      rw [hempty]
      rfl
    rw [hslash]
    exact ⟨by decide, .inr ⟨hempty, by decide⟩⟩
  · have hpath : ofParts absolute (first :: qs) = "/".intercalate (first :: qs) := by
      rw [ofParts, if_neg (by simpa using hroot)]
    have hparts := parts_intercalate (List.cons_ne_nil first qs) hfree
    rw [hpath]
    refine ⟨Bool.eq_iff_iff.mpr ?_, .inl hparts⟩
    rw [isAbsolute_iff hparts, habsolute]
    refine ⟨And.left, fun hfirst => ⟨hfirst, fun hqs => ?_⟩⟩
    exact hroot ⟨habsolute.mpr hfirst, by rw [hfirst, hqs]⟩

/-- What the directory above a path is made of: the path has a last part that means something,
and the directory is made up from the parts in front of it. -/
theorem exists_of_parent? {path parent : String} (h : parent? path = some parent)
    (hne : parent ≠ "") : ∃ first qs last,
      parent = ofParts (isAbsolute path) (trimIdle (first :: qs)) ∧
      (isAbsolute path = true ↔ first = "") ∧
      trimIdle (parts path) = first :: qs ++ [last] ∧
      (parts path).filter (!isIdle ·) = (first :: qs).filter (!isIdle ·) ++ [last] := by
  obtain ⟨first, rest, hparts⟩ := List.exists_cons_of_ne_nil (parts_ne_nil path)
  have htrim : trimIdle (parts path) = first :: rest.rdropWhile isIdle := by
    rw [hparts]
    rfl
  rw [parent?, htrim] at h
  split at h
  next hnil => exact absurd hnil (List.cons_ne_nil _ _)
  next first' hsingle =>
    split at h
    · exact absurd h.symm (Option.some_ne_none parent)
    · exact absurd (Option.some.inj h).symm hne
  next hsingle =>
    have hmore : rest.rdropWhile isIdle ≠ [] := fun hnil => hsingle first (by rw [hnil])
    have hrest : rest ≠ [] := fun hnil => hmore (by rw [hnil, List.rdropWhile_nil])
    have hlast := List.rdropWhile_last_not isIdle rest hmore
    obtain ⟨qs, last, hqs⟩ : ∃ qs last, rest.rdropWhile isIdle = qs ++ [last] :=
      ⟨_, _, (List.dropLast_append_getLast hmore).symm⟩
    simp only [hqs, List.getLast_append_singleton, Bool.not_eq_true] at hlast
    have hkept : [last].filter (!isIdle ·) = [last] := by simp [hlast]
    rw [hqs, ← List.cons_append, List.dropLast_concat] at h
    refine ⟨first, qs, last, (Option.some.inj h).symm, ?_, ?_, ?_⟩
    · rw [isAbsolute_iff hparts]
      exact and_iff_left hrest
    · rw [htrim, hqs, List.cons_append]
    · rw [hparts, ← List.singleton_append, List.filter_append,
        ← filter_rdropWhile isIdle rest, hqs, List.filter_append, hkept,
        ← List.append_assoc, ← List.filter_append, List.singleton_append]

/-- **The directory above a plain path** is plain, and the path names something in it. -/
theorem IsPlain.of_parent? {path parent : String} (hplain : IsPlain path)
    (h : parent? path = some parent) (hne : parent ≠ "") :
    IsPlain parent ∧ ∃ name, placeOf path = placeOf parent ++ [name] := by
  obtain ⟨first, qs, last, rfl, habsolute, htrim, hpath⟩ := exists_of_parent? h hne
  have hfront : trimIdle (first :: qs) = first :: qs.rdropWhile isIdle := rfl
  have hkept : first :: qs.rdropWhile isIdle ⊆ first :: qs :=
    List.cons_subset_cons first (List.rdropWhile_prefix isIdle qs).subset
  have hsub : first :: qs ⊆ parts path := by
    have htrimmed := (trimIdle_isPrefix (parts path)).subset
    rw [htrim] at htrimmed
    exact fun p hp => htrimmed (List.mem_append_left _ hp)
  have hdrop : (first :: qs.rdropWhile isIdle).filter (!isIdle ·) =
      (first :: qs).filter (!isIdle ·) := by
    rw [List.filter_cons, List.filter_cons, filter_rdropWhile isIdle]
  rw [hfront]
  obtain ⟨habs, hparent⟩ := parts_ofParts habsolute fun p hp =>
    slash_not_mem_of_mem_parts (hsub (hkept hp))
  rw [IsPlain, placeOf, placeOf, Tree.origin, Tree.origin, habs, hpath]
  -- the root has one empty part more, which means nothing
  rcases hparent with heq | ⟨hroot, heq⟩
  · rw [heq, hdrop]
    exact ⟨fun hup => hplain (hsub (hkept hup)), last, (List.append_assoc _ _ _).symm⟩
  · rw [heq, ← hdrop, hroot]
    exact ⟨by decide, last, (List.append_assoc _ _ _).symm⟩

/-! ### The directories above a path -/

/-- **The directory above a path** starts where the path starts and is named by parts that come
before the last one. -/
theorem openParts_of_parent? {path parent : String} (h : parent? path = some parent)
    (hne : parent ≠ "") : isAbsolute parent = isAbsolute path ∧
      Tree.openParts parent <+: (trimIdle (parts path)).dropLast := by
  obtain ⟨first, qs, last, rfl, habsolute, htrim, -⟩ := exists_of_parent? h hne
  have htrimmed : trimIdle (first :: qs) = first :: qs.rdropWhile isIdle := rfl
  have hfront := trimIdle_isPrefix (first :: qs)
  rw [htrimmed] at hfront ⊢
  obtain ⟨habs, hparent⟩ := parts_ofParts habsolute fun p hp => by
    refine slash_not_mem_of_mem_parts ((trimIdle_isPrefix (parts path)).subset ?_)
    rw [htrim]
    exact List.mem_append_left [last] (hfront.subset hp)
  rw [htrim, List.dropLast_concat]
  refine ⟨habs, List.IsPrefix.trans ?_ hfront⟩
  -- the root has one empty part more, which is no part of the way
  rcases hparent with heq | ⟨hroot, heq⟩
  · have hopen := openParts_isPrefix (ofParts (isAbsolute path) (first :: qs.rdropWhile isIdle))
    rwa [heq] at hopen
  · rw [Tree.openParts, heq, hroot]
    exact List.prefix_rfl

/-- **The directories above a path** start where the path starts and are named by its first
parts. -/
theorem openParts_of_mem_ancestry {path : String} {bound : Nat} :
    ∀ above ∈ Tree.ancestry bound path,
      isAbsolute above = isAbsolute path ∧ Tree.openParts above <+: Tree.openParts path := by
  induction bound generalizing path with
  | zero => exact List.forall_mem_nil _
  | succ bound ih =>
      rw [Tree.ancestry]
      split
      next => exact List.forall_mem_nil _
      next =>
        split
        next => exact List.forall_mem_singleton.mpr ⟨rfl, List.prefix_rfl⟩
        next parent hparent =>
          refine List.forall_mem_cons.mpr ⟨⟨rfl, List.prefix_rfl⟩, fun above habove => ?_⟩
          by_cases hempty : parent = ""
          · -- nothing is above the empty path
            subst hempty
            cases bound <;> exact absurd habove List.not_mem_nil
          · obtain ⟨habsolute, hbegins⟩ := openParts_of_parent? hparent hempty
            obtain ⟨habsoluteAbove, hbeginsAbove⟩ := ih above habove
            have hfront : (trimIdle (parts path)).dropLast <+: Tree.openParts path :=
              (List.dropLast_prefix _).trans (trimIdle_prefix_openParts path)
            exact ⟨habsoluteAbove.trans habsolute, hbeginsAbove.trans (hbegins.trans hfront)⟩

/-! ### The file beside a path -/

/-- What may be put behind a path to name a file beside it: there is no slash in it, and not
all of it are dots. -/
structure IsEnding (ending : String) : Prop where
  /-- There is no slash. -/
  slash : '/' ∉ ending.toList
  /-- There is something else than dots. -/
  letter : ∃ c ∈ ending.toList, c ≠ '.'

variable {path ending last : String} {front : List String}

/-- What ends like that is more than dots and slashes. -/
theorem IsEnding.append_ne (h : IsEnding ending) (last : String) {s : String}
    (hs : ∀ c ∈ s.toList, c = '.' ∨ c = '/') : last ++ ending ≠ s := by
  rintro rfl
  obtain ⟨c, hc, hdot⟩ := h.letter
  rcases hs c (by simp [hc]) with rfl | rfl
  · exact hdot rfl
  · exact h.slash hc

/-- The last part of a path with such an ending is a name. -/
theorem IsEnding.isIdle_append (h : IsEnding ending) (last : String) :
    isIdle (last ++ ending) = false := by
  have hempty : last ++ ending ≠ "" := h.append_ne last (by simp)
  have hdot : last ++ ending ≠ "." := h.append_ne last (by simp)
  rw [isIdle, Bool.or_eq_false_iff, beq_eq_false_iff_ne]
  exact ⟨Bool.eq_false_iff.mpr (mt String.isEmpty_iff.mp hempty), hdot⟩

/-- The file beside a path starts where the path starts. -/
theorem IsEnding.isAbsolute_beside (h : IsEnding ending) (path : String) :
    isAbsolute (beside path ending) = isAbsolute path := by
  obtain ⟨front, last, hparts⟩ := exists_parts_eq path
  have hbeside := parts_beside hparts h.slash
  rw [Bool.eq_iff_iff]
  cases front with
  | nil =>
      rw [isAbsolute_iff hparts, isAbsolute_iff hbeside]
      simp
  | cons first front =>
      rw [isAbsolute_iff hparts, isAbsolute_iff hbeside]
      simp

/-- The file beside a path has the place of a name in a directory of the path. -/
theorem IsEnding.placeOf_beside (h : IsEnding ending) (hparts : parts path = front ++ [last]) :
    placeOf (beside path ending) =
      Tree.origin path ++ front.filter (!isIdle ·) ++ [last ++ ending] := by
  rw [placeOf, Tree.origin, Tree.origin, h.isAbsolute_beside, parts_beside hparts h.slash,
    List.filter_append, List.append_assoc]
  simp [h.isIdle_append last]

/-- The file beside a plain path has a plain path. -/
theorem IsEnding.isPlain_beside (h : IsEnding ending) (hplain : IsPlain path) :
    IsPlain (beside path ending) := by
  obtain ⟨front, last, hparts⟩ := exists_parts_eq path
  rw [IsPlain, parts_beside hparts h.slash, List.mem_append, not_or, List.mem_singleton]
  refine ⟨fun hup => hplain ?_, (h.append_ne last (by simp)).symm⟩
  rw [hparts]
  exact List.mem_append_left _ hup

/-- What the last part of a path means does not start with the name of the file beside it. -/
theorem IsEnding.not_prefix_filter (h : IsEnding ending) (last : String) :
    ¬ [last ++ ending] <+: [last].filter (!isIdle ·) := by
  intro hbegins
  cases hlast : isIdle last with
  | true =>
      have hnil : [last].filter (!isIdle ·) = [] := by simp [hlast]
      rw [hnil, List.prefix_nil] at hbegins
      exact List.cons_ne_nil _ _ hbegins
  | false =>
      have hkept : [last].filter (!isIdle ·) = [last] := by simp [hlast]
      rw [hkept] at hbegins
      have hsame : last ++ ending = last := (List.cons_prefix_cons.mp hbegins).1
      obtain ⟨c, hc, -⟩ := h.letter
      have hempty : ending.toList = [] := by simpa using congrArg String.toList hsame
      rw [hempty] at hc
      exact List.not_mem_nil hc

/-- **The file beside a path** is neither at its place nor on the way to it. -/
theorem IsEnding.not_prefix_placeOf (h : IsEnding ending) (path : String) :
    ¬ placeOf (beside path ending) <+: placeOf path := by
  obtain ⟨front, last, hparts⟩ := exists_parts_eq path
  rw [h.placeOf_beside hparts, placeOf, hparts, List.filter_append, ← List.append_assoc,
    List.prefix_append_right_inj]
  exact h.not_prefix_filter last

/-- The file beside a path is not one of the directories that are always there. -/
theorem IsEnding.isAnchor_eq_false (h : IsEnding ending) (path : String) :
    Tree.isAnchor (placeOf (beside path ending)) = false := by
  obtain ⟨front, last, hparts⟩ := exists_parts_eq path
  have hup : last ++ ending ≠ ".." := h.append_ne last (by simp)
  have hroot : last ++ ending ≠ "/" := h.append_ne last (by simp)
  rw [h.placeOf_beside hparts, Tree.isAnchor, Bool.or_eq_false_iff, beq_eq_false_iff_ne]
  constructor
  · simp [hup]
  · intro hsingle
    have hlast := congrArg List.getLast? hsingle
    simp [hroot] at hlast

end Pipewright.Files
