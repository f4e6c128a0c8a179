import Pipewright.Json.Container
import Pipewright.Proofs.Json.Values

/-!
# Written Containers Are Read Back

A list and an object are written with each entry on a line of its own. Behind the opening
bracket stand the entries, the first after a line start and each other one after a comma and a
line start; then a line start and the closing bracket. A reader that goes through the entries
with a state meets each of them in turn and stops in front of the bracket.

## Main definitions

* `entries`: the entries of a container as characters.
* `ItemsRead`, `MembersRead`: the states that a reader passes through.

## Main results

* `exists_toList_bracketed`: what a container looks like.
* `ItemsRead.readItems_eq`, `MembersRead.readMembers_eq`: the way through the entries.
* `reads_list`, `reads_object`: a container whose body is read back is read back.
-/

namespace Pipewright.Json

/-! ### What a container looks like -/

/-- The entries of a container; `first` says that none came before, and `start` begins a line. -/
def entries (start : List Char) : (first : Bool) → List (List Char) → List Char
  | _, [] => []
  | first, entry :: rest =>
    (if first then start else ',' :: start) ++ (entry ++ entries start false rest)

/-- A line start is blank. -/
theorem isSpace_of_mem_lineStart {depth : Nat} :
    ∀ c ∈ (lineStart depth).toList, isSpace c = true := by
  intro c hc
  rw [lineStart, String.toList_append, String.toList_ofList, List.mem_append] at hc
  rcases hc with hfeed | hblank
  · obtain rfl : c = '\n' := List.mem_singleton.mp hfeed
    rfl
  · rw [String.toList_ofList] at hblank
    obtain rfl : c = ' ' := (List.mem_replicate.mp hblank).2
    rfl

/-- Parts with separators between them are the first part and each other one behind a
separator. -/
theorem intercalate_cons {α : Type} (separator part : List α) (parts : List (List α)) :
    separator.intercalate (part :: parts) = part ++ parts.flatMap (separator ++ ·) := by
  induction parts generalizing part with
  | nil => simp [List.intercalate]
  | cons p parts ih =>
      have hcons : separator.intercalate (part :: p :: parts) =
          part ++ (separator ++ separator.intercalate (p :: parts)) := by
        simp [List.intercalate]
      rw [hcons, ih, List.flatMap_cons, List.append_assoc]

/-- The entries behind the first one. -/
theorem entries_false (start : List Char) (parts : List (List Char)) :
    entries start false parts = parts.flatMap ((',' :: start) ++ ·) := by
  induction parts with
  | nil => rfl
  | cons p parts ih => simp [entries, ih]

/-- **What a container looks like.** The entries stand between the brackets, with nothing but
blanks behind them. -/
theorem exists_toList_bracketed (opening closing : String) (depth : Nat) (parts : List String) :
    ∃ trail, (∀ c ∈ trail, isSpace c = true) ∧
      (bracketed opening closing depth parts).toList = opening.toList ++
        (entries (lineStart (depth + 1)).toList true (parts.map String.toList) ++
          (trail ++ closing.toList)) := by
  rw [bracketed]
  cases parts with
  | nil => exact ⟨[], nofun, by simp [entries]⟩
  | cons part parts =>
      refine ⟨(lineStart depth).toList, isSpace_of_mem_lineStart, ?_⟩
      have hseparator : ("," ++ lineStart (depth + 1)).toList =
          ',' :: (lineStart (depth + 1)).toList := by
        rw [String.toList_append]
        rfl
      simp only [List.isEmpty_cons, Bool.false_eq_true, if_false, String.toList_append,
        String.toList_intercalate, hseparator, List.map_cons, intercalate_cons, entries,
        entries_false, if_true, List.append_assoc]

/-! ### The way through the entries -/

/-- The next item of a list stands behind its line start. -/
theorem nextItem?_entry {first : Bool} {start : List Char}
    (hstart : ∀ c ∈ start, isSpace c = true) {c : Char} (hspace : isSpace c = false)
    (hend : c ≠ ']') (cs : List Char) :
    nextItem? first ((if first then start else ',' :: start) ++ c :: cs) = .ok (true, c :: cs) := by
  have hitem : skipSpace (start ++ c :: cs) = c :: cs := skipSpace_append hstart hspace cs
  cases first with
  | true =>
      rw [nextItem?, if_pos rfl, hitem]
      simp
  | false =>
      rw [nextItem?, if_neg Bool.false_ne_true, List.cons_append, skipSpace_cons (by decide)]
      simp only [Char.reduceEq, imp_self, Bool.false_eq_true, if_false, BEq.rfl, if_true, hitem]
      split
      next hnil => exact absurd hnil nofun
      next rest hcons => exact absurd (List.cons.inj hcons).1 hend
      next other => rfl

/-- The name of the next member stands behind its line start. -/
theorem nextName?_entry {first : Bool} {start : List Char}
    (hstart : ∀ c ∈ start, isSpace c = true) (name : String) (cs : List Char) :
    nextName? first ((if first then start else ',' :: start) ++
      ('"' :: (name.toList.flatMap escapeChar ++ '"' :: cs))) = .ok (some name, cs) := by
  have hname (rest : List Char) : skipSpace (start ++ '"' :: rest) = '"' :: rest :=
    skipSpace_append hstart (by decide) rest
  have hread : nextName?.name (name.toList.flatMap escapeChar ++ '"' :: cs) =
      .ok (some name, cs) := by
    rw [nextName?.name, readStringBody_quoted]
    rfl
  cases first with
  | true =>
      rw [nextName?, if_pos rfl, hname]
      simp [hread]
  | false =>
      rw [nextName?, if_neg Bool.false_ne_true, List.cons_append, skipSpace_cons (by decide)]
      simp [hname, hread]

/-- Behind the last item stands the closing bracket. -/
theorem nextItem?_end (first : Bool) {trail : List Char} (htrail : ∀ c ∈ trail, isSpace c = true)
    (rest : List Char) : nextItem? first (trail ++ ']' :: rest) = .ok (false, ']' :: rest) := by
  simp only [nextItem?, skipSpace_append htrail (show isSpace ']' = false from rfl)]

/-- Behind the last member stands the closing brace. -/
theorem nextName?_end (first : Bool) {trail : List Char} (htrail : ∀ c ∈ trail, isSpace c = true)
    (rest : List Char) :
    nextName? first (trail ++ '\x7d' :: rest) = .ok (none, '\x7d' :: rest) := by
  simp only [nextName?, skipSpace_append htrail (show isSpace '\x7d' = false from rfl)]

variable {σ : Type} {depth : Nat}

/-- The states that a reader of items passes through. Every item starts with a character that
is neither a blank nor the end of the list. -/
inductive ItemsRead (item : σ → Reader σ) : σ → List (List Char) → σ → Prop
  /-- There is no further item. -/
  | done (s : σ) : ItemsRead item s [] s
  /-- The reader takes an item. -/
  | item {s s' s'' : σ} {c : Char} {text : List Char} {items : List (List Char)}
    (hspace : isSpace c = false) (hend : c ≠ ']')
    (hitem : ∀ rest, item s (c :: text ++ rest) = .ok (s', rest))
    (hrest : ItemsRead item s' items s'') : ItemsRead item s ((c :: text) :: items) s''

/-- The states that a reader of members passes through. Every member is a name and what follows
it. -/
inductive MembersRead (member : String → σ → Reader σ) : σ → List (List Char) → σ → Prop
  /-- There is no further member. -/
  | done (s : σ) : MembersRead member s [] s
  /-- The reader takes a member. -/
  | member {s s' s'' : σ} {name : String} {text : List Char} {members : List (List Char)}
    (hmember : ∀ rest, member name s (text ++ rest) = .ok (s', rest))
    (hrest : MembersRead member s' members s'') :
    MembersRead member s (('"' :: (name.toList.flatMap escapeChar ++ '"' :: text)) :: members) s''

/-- There are no more entries than characters. -/
theorem length_le_length_entries (start : List Char) (first : Bool) {parts : List (List Char)}
    (h : ∀ part ∈ parts, part ≠ []) : parts.length ≤ (entries start first parts).length := by
  induction parts generalizing first with
  | nil => exact Nat.zero_le _
  | cons part parts ih =>
      have hpart := List.length_pos_iff.mpr (h part (by simp))
      have hrest := ih false fun p hp => h p (by simp [hp])
      simp only [entries, List.length_append, List.length_cons]
      omega

/-- **The way through a list** ends in front of its closing bracket. -/
theorem ItemsRead.readItems_eq {item : σ → Reader σ} {s s' : σ} {items : List (List Char)}
    (h : ItemsRead item s items s') {start trail : List Char}
    (hstart : ∀ c ∈ start, isSpace c = true) (htrail : ∀ c ∈ trail, isSpace c = true)
    {bound : Nat} (hbound : items.length < bound) (first : Bool) (rest : List Char) :
    readItems item bound first s (entries start first items ++ (trail ++ ']' :: rest)) =
      .ok (s', ']' :: rest) := by
  induction h generalizing bound first with
  | done s =>
      obtain ⟨bound, rfl⟩ := Nat.exists_eq_add_one_of_ne_zero (Nat.ne_zero_of_lt hbound)
      rw [readItems, entries, List.nil_append, nextItem?_end first htrail]
  | item hspace hend hitem hrest ih =>
      obtain ⟨bound, rfl⟩ := Nat.exists_eq_add_one_of_ne_zero (Nat.ne_zero_of_lt hbound)
      have hbound' := Nat.lt_of_succ_lt_succ hbound
      rw [readItems, entries, List.append_assoc, List.append_assoc, List.cons_append,
        nextItem?_entry hstart hspace hend]
      dsimp only
      rw [← List.cons_append, hitem]
      exact ih hbound' false

/-- **The way through an object** ends in front of its closing brace. -/
theorem MembersRead.readMembers_eq {member : String → σ → Reader σ} {s s' : σ}
    {members : List (List Char)} (h : MembersRead member s members s') {start trail : List Char}
    (hstart : ∀ c ∈ start, isSpace c = true) (htrail : ∀ c ∈ trail, isSpace c = true)
    {bound : Nat} (hbound : members.length < bound) (first : Bool) (rest : List Char) :
    readMembers member bound first s (entries start first members ++ (trail ++ '\x7d' :: rest)) =
      .ok (s', '\x7d' :: rest) := by
  induction h generalizing bound first with
  | done s =>
      obtain ⟨bound, rfl⟩ := Nat.exists_eq_add_one_of_ne_zero (Nat.ne_zero_of_lt hbound)
      rw [readMembers, entries, List.nil_append, nextName?_end first htrail]
  | member hmember hrest ih =>
      obtain ⟨bound, rfl⟩ := Nat.exists_eq_add_one_of_ne_zero (Nat.ne_zero_of_lt hbound)
      have hbound' := Nat.lt_of_succ_lt_succ hbound
      rw [readMembers, entries, List.append_assoc, List.append_assoc, List.cons_append,
        List.append_assoc, List.cons_append, nextName?_entry hstart]
      dsimp only
      rw [hmember]
      exact ih hbound' false

/-- No item is empty. -/
theorem ItemsRead.ne_nil {item : σ → Reader σ} {s s' : σ} {items : List (List Char)}
    (h : ItemsRead item s items s') : ∀ text ∈ items, text ≠ [] := by
  induction h with
  | done s => exact List.forall_mem_nil _
  | item hspace hend hitem hrest ih => exact List.forall_mem_cons.mpr ⟨List.cons_ne_nil _ _, ih⟩

/-- No member is empty. -/
theorem MembersRead.ne_nil {member : String → σ → Reader σ} {s s' : σ}
    {members : List (List Char)} (h : MembersRead member s members s') :
    ∀ text ∈ members, text ≠ [] := by
  induction h with
  | done s => exact List.forall_mem_nil _
  | member hmember hrest ih => exact List.forall_mem_cons.mpr ⟨List.cons_ne_nil _ _, ih⟩

/-- There are fewer entries than characters in the body of a container and its end. -/
theorem length_lt_length_body {start : List Char} {parts : List (List Char)}
    (h : ∀ part ∈ parts, part ≠ []) (trail : List Char) (closing : Char) (rest : List Char) :
    parts.length < (entries start true parts ++ (trail ++ closing :: rest)).length := by
  have hentries := length_le_length_entries start true h
  simp only [List.length_append, List.length_cons]
  omega

/-- The number of characters is enough of a bound on the number of items. -/
theorem ItemsRead.readItems_body {item : σ → Reader σ} {s s' : σ} {items : List (List Char)}
    (h : ItemsRead item s items s') (depth : Nat) {trail : List Char}
    (htrail : ∀ c ∈ trail, isSpace c = true) (rest : List Char) :
    let body := entries (lineStart depth).toList true items ++ (trail ++ ']' :: rest)
    readItems item body.length true s body = .ok (s', ']' :: rest) :=
  h.readItems_eq isSpace_of_mem_lineStart htrail (length_lt_length_body h.ne_nil trail _ rest) _ _

/-- The number of characters is enough of a bound on the number of members. -/
theorem MembersRead.readMembers_body {member : String → σ → Reader σ} {s s' : σ}
    {members : List (List Char)} (h : MembersRead member s members s') (depth : Nat)
    {trail : List Char} (htrail : ∀ c ∈ trail, isSpace c = true) (rest : List Char) :
    let body := entries (lineStart depth).toList true members ++ (trail ++ '\x7d' :: rest)
    readMembers member body.length true s body = .ok (s', '\x7d' :: rest) :=
  h.readMembers_eq isSpace_of_mem_lineStart htrail (length_lt_length_body h.ne_nil trail _ rest) _ _

/-! ### Members -/

/-- What a member looks like. -/
theorem toList_member (name : String) (value : Json) :
    (quote name ++ ": " ++ prettyAt depth value).toList =
      '"' :: (name.toList.flatMap escapeChar ++
        '"' :: (':' :: ' ' :: (prettyAt depth value).toList)) := by
  have hcolon : (": ").toList = [':', ' '] := rfl
  simp [quote, quoteChars, hcolon]

/-- The value of a member is read behind its colon. -/
theorem readMemberValue_of_reads {α : Type} {reader : Reader α} {a : α} {text : List Char}
    (h : Reads reader a text) (rest : List Char) :
    readMemberValue reader ((':' :: ' ' :: text) ++ rest) = .ok (a, rest) := by
  have hcolon : readColon ((':' :: ' ' :: text) ++ rest) = .ok (' ' :: (text ++ rest)) := by
    simp only [readColon, List.cons_append, skipSpace_cons (show isSpace ':' = false from rfl)]
  have hblank : ∀ c ∈ [' '], isSpace c = true := List.forall_mem_singleton.mpr rfl
  rw [readMemberValue, hcolon]
  exact h [' '] rest hblank

/-- A member in front of others. -/
theorem MembersRead.cons {member : String → σ → Reader σ} {s t u : σ} {name : String}
    {value : Json} {members : List (String × Json)}
    (hmember : ∀ rest,
      member name s ((':' :: ' ' :: (prettyAt depth value).toList) ++ rest) = .ok (t, rest))
    (hrest : MembersRead member t ((prettyMembers depth members).map String.toList) u) :
    MembersRead member s
      ((prettyMembers depth ((name, value) :: members)).map String.toList) u := by
  rw [prettyMembers, List.map_cons, toList_member]
  exact .member hmember hrest

/-! ### Containers -/

/-- **A list whose body is read back is read back.** -/
theorem reads_list {α : Type} {expected : String} {body : Reader α} {object : Option (Reader α)}
    {a : α} {parts : List String}
    (hbody : ∀ trail rest, (∀ c ∈ trail, isSpace c = true) →
      body (entries (lineStart (depth + 1)).toList true (parts.map String.toList) ++
        (trail ++ ']' :: rest)) = .ok (a, ']' :: rest)) :
    Reads (readContainer expected (some body) object) a
      (bracketed "[" "]" depth parts).toList := by
  intro blanks rest hblanks
  obtain ⟨trail, htrail, hshape⟩ := exists_toList_bracketed "[" "]" depth parts
  have hopen : ("[").toList = ['['] := rfl
  have hclose : ("]").toList = [']'] := rfl
  have hend : endList (']' :: rest) = .ok rest := by
    simp only [endList, skipSpace_cons (show isSpace ']' = false from rfl)]
  rw [hshape, hopen, hclose]
  simp only [readContainer, List.cons_append, List.nil_append, List.append_assoc,
    skipSpace_append hblanks (show isSpace '[' = false from rfl), hbody trail rest htrail,
    inContainer, hend, Except.map]

/-- **An object whose body is read back is read back.** -/
theorem reads_object {α : Type} {expected : String} {list : Option (Reader α)} {body : Reader α}
    {a : α} {parts : List String}
    (hbody : ∀ trail rest, (∀ c ∈ trail, isSpace c = true) →
      body (entries (lineStart (depth + 1)).toList true (parts.map String.toList) ++
        (trail ++ '\x7d' :: rest)) = .ok (a, '\x7d' :: rest)) :
    Reads (readContainer expected list (some body)) a
      (bracketed "\x7b" "\x7d" depth parts).toList := by
  intro blanks rest hblanks
  obtain ⟨trail, htrail, hshape⟩ := exists_toList_bracketed "\x7b" "\x7d" depth parts
  have hopen : ("\x7b").toList = ['\x7b'] := rfl
  have hclose : ("\x7d").toList = ['\x7d'] := rfl
  have hend : endObject ('\x7d' :: rest) = .ok rest := by
    simp only [endObject, skipSpace_cons (show isSpace '\x7d' = false from rfl)]
  rw [hshape, hopen, hclose]
  simp only [readContainer, List.cons_append, List.nil_append, List.append_assoc,
    skipSpace_append hblanks (show isSpace '\x7b' = false from rfl), hbody trail rest htrail,
    inContainer, hend, Except.map]

/-- A text that a reader takes for a value describes the value. -/
theorem readWhole_of_reads {α : Type} {reader : Reader α} {a : α} {input : String}
    (h : Reads reader a input.toList) : readWhole reader input = .ok a := by
  have hread : reader input.toList = .ok (a, []) := by
    have hempty := h [] [] (List.forall_mem_nil _)
    rwa [List.nil_append, List.append_nil] at hempty
  rw [readWhole, hread]
  rfl

end Pipewright.Json
