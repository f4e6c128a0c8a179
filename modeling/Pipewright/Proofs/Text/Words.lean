import Pipewright.Proofs.Text.Span

/-!
# Words of a Line

The first word of a line is what stands in front of its first blank, and the rest of the line is
what stands behind it, both without the blanks around them. A line that is put together from a
word, a blank and a rest is taken apart into just these.

## Main definitions

* `IsWord`: a text without blanks.
* `behindWords`: what stands behind some words of a line.

## Main results

* `trimChars_eq_nil_iff`, `trim_isEmpty`: nothing is left of a blank text only.
* `isWord_toString`: the digits of a number are a word.
* `cutWord_append`, `cutWord_intercalate`: a word in front of a blank is cut off.
* `trimmed_cutWord_snd`, `cutWord_snd_isSuffix`: the rest of a line is its trimmed end.
-/

namespace Pipewright.Text

/-! ### Trimming -/

/-- Nothing is left of a blank text, and something of any other. -/
theorem trimChars_eq_nil_iff {cs : List Char} :
    trimChars cs = [] ↔ ∀ c ∈ cs, isBlank c = true := by
  constructor
  · intro h c hc
    by_contra hblank
    exact trimChars_ne_nil hc (Bool.eq_false_iff.mpr hblank) h
  · intro h
    rw [trimChars, List.dropWhile_eq_nil_iff.mpr h]
    rfl

/-- A text is trimmed to the empty one exactly if it is blank. -/
theorem trim_isEmpty (s : String) : (trim s).isEmpty = isBlankText s := by
  rw [Bool.eq_iff_iff, String.isEmpty_iff, trim, ← String.toList_eq_nil_iff, String.toList_ofList,
    trimChars_eq_nil_iff, isBlankText, List.all_eq_true]

/-- Blanks in front of a text are trimmed. -/
theorem trimChars_cons {c : Char} (hc : isBlank c = true) (cs : List Char) :
    trimChars (c :: cs) = trimChars cs := by
  rw [trimChars, trimChars, List.dropWhile_cons_of_pos hc]

/-- What stands in front of a character that is no blank is not trimmed with what is behind it. -/
theorem trimEndChars_append_of_getLast? {front : List Char} {d : Char}
    (hd : front.getLast? = some d) (hblank : isBlank d = false) (cs : List Char) :
    trimEndChars (front ++ cs) = front ++ trimEndChars cs := by
  have hkept : front.reverse.dropWhile isBlank = front.reverse := by
    refine dropWhile_eq_self fun a ha => ?_
    rw [List.head?_reverse, hd] at ha
    exact Option.some.inj ha ▸ hblank
  rw [trimEndChars, trimEndChars, dropWhileEnd, dropWhileEnd, List.reverse_append,
    List.dropWhile_append, hkept]
  split
  next hnil => simp [List.isEmpty_iff.mp hnil]
  next => simp

/-- Blanks behind a text are trimmed. -/
theorem trimEndChars_append_of_forall (cs : List Char) {blanks : List Char}
    (h : ∀ c ∈ blanks, isBlank c = true) : trimEndChars (cs ++ blanks) = trimEndChars cs := by
  rw [trimEndChars, trimEndChars, dropWhileEnd, dropWhileEnd, List.reverse_append,
    List.dropWhile_append_of_pos fun c hc => h c (List.mem_reverse.mp hc)]

/-- Trimming a text at its end first makes no difference. -/
theorem trimChars_trimEndChars (cs : List Char) : trimChars (trimEndChars cs) = trimChars cs := by
  obtain ⟨blanks, hcs, hblanks⟩ := exists_trimEndChars_append cs
  conv_rhs => rw [hcs]
  rw [trimChars, trimChars, List.dropWhile_append]
  split
  next hnil => rw [List.isEmpty_iff.mp hnil, List.dropWhile_eq_nil_iff.mpr hblanks]
  next => rw [trimEndChars_append_of_forall _ hblanks]

/-! ### The first word -/

/-- The text is a word: it is not empty, and it has no blanks. -/
structure IsWord (w : List Char) : Prop where
  /-- There are characters. -/
  ne_nil : w ≠ []
  /-- None of them is a blank. -/
  isBlank_eq_false : ∀ c ∈ w, isBlank c = false

/-- A word in terms of its characters. -/
theorem isWord_iff {w : List Char} : IsWord w ↔ w ≠ [] ∧ ∀ c ∈ w, isBlank c = false :=
  ⟨fun h => ⟨h.1, h.2⟩, fun h => ⟨h.1, h.2⟩⟩

/-- Whether a text is a word can be decided. -/
instance (w : List Char) : Decidable (IsWord w) :=
  decidable_of_iff ((!w.isEmpty && w.all (!isBlank ·)) = true) (by simp [isWord_iff])

/-- A word has no blanks at its ends. -/
theorem IsWord.trimmed {w : List Char} (h : IsWord w) : Trimmed w where
  head c hc := h.isBlank_eq_false c (List.mem_of_head? hc)
  last c hc := h.isBlank_eq_false c (List.mem_of_getLast? hc)

/-- A digit is no blank. -/
theorem isBlank_of_isDigit {c : Char} (h : c.isDigit = true) : isBlank c = false := by
  have hcodes : ∀ n ∈ blankCodes, (Char.ofNat n).isDigit = false := by decide +kernel
  cases hblank : isBlank c with
  | false => rfl
  | true =>
      have hc := hcodes c.toNat (isBlank_iff_mem.mp hblank)
      rw [Char.ofNat_toNat, h] at hc
      exact absurd hc (by decide)

/-- The digits of a number are a word. -/
theorem isWord_toString (n : Nat) : IsWord (toString n).toList := by
  rw [Nat.toString_eq_ofList_toDigits, String.toList_ofList]
  exact ⟨Nat.toDigits_ne_nil, fun c hc =>
    isBlank_of_isDigit (Nat.isDigit_of_mem_toDigits (by decide) (by decide) hc)⟩

/-- A word in front of other text is not trimmed. -/
theorem IsWord.trimChars_append {w : List Char} (h : IsWord w) (cs : List Char) :
    trimChars (w ++ cs) = w ++ trimEndChars cs := by
  have hhead : ∀ c ∈ (w ++ cs).head?, isBlank c = false := by
    rw [List.head?_append_of_ne_nil _ h.ne_nil]
    exact h.trimmed.head
  have hlast := List.getLast?_eq_some_getLast h.ne_nil
  rw [trimChars_eq_trimEndChars hhead,
    trimEndChars_append_of_getLast? hlast (h.trimmed.last _ hlast)]

/-- **A word in front of a blank is cut off**, and so are the blanks around what is behind it. -/
theorem cutWord_append {w : List Char} (h : IsWord w) {b : Char} (hb : isBlank b = true)
    (rest : List Char) :
    cutWord (.ofList (w ++ b :: rest)) = (.ofList w, .ofList (trimChars rest)) := by
  -- what is left behind the word is empty, or the blank is still its first character
  have hends : ∀ c ∈ (trimEndChars (b :: rest)).head?, (!isBlank c) = false := by
    obtain ⟨blanks, hblanks, -⟩ := exists_trimEndChars_append (b :: rest)
    intro c hc
    obtain ⟨more, hmore⟩ := List.head?_eq_some_iff.mp hc
    rw [hmore, List.cons_append] at hblanks
    rw [← (List.cons.inj hblanks).1, hb]
    rfl
  have hword : ∀ c ∈ w, (!isBlank c) = true := fun c hc => by rw [h.isBlank_eq_false c hc]; rfl
  have hstop : (trimEndChars (b :: rest)).takeWhile (!isBlank ·) = [] := by
    cases hleft : trimEndChars (b :: rest) with
    | nil => rfl
    | cons c more =>
        rw [hleft] at hends
        rw [List.takeWhile_cons_of_neg (by simp [hends c rfl])]
  rw [cutWord, String.toList_ofList, h.trimChars_append, List.takeWhile_append_of_pos hword,
    hstop, List.dropWhile_append_of_pos hword, dropWhile_eq_self hends, trimChars_trimEndChars,
    trimChars_cons hb, List.append_nil]

/-- A word by itself is its own first word. -/
theorem cutWord_of_isWord {w : List Char} (h : IsWord w) :
    cutWord (.ofList w) = (.ofList w, "") := by
  have hword : ∀ c ∈ w, (!isBlank c) = true := fun c hc => by rw [h.isBlank_eq_false c hc]; rfl
  rw [cutWord, String.toList_ofList, h.trimmed.trimChars_eq, List.takeWhile_eq_self_iff.mpr hword,
    List.dropWhile_eq_nil_iff.mpr hword]
  rfl

/-- Trimming a line first makes no difference to its words. -/
@[simp] theorem cutWord_trim (s : String) : cutWord (trim s) = cutWord s := by
  rw [cutWord, cutWord, trim, String.toList_ofList, (trimmed_trimChars s.toList).trimChars_eq]

/-- The first of some words with blanks between them is cut off. -/
theorem cutWord_intercalate {w : String} (hw : IsWord w.toList) (ws : List String) :
    cutWord (" ".intercalate (w :: ws)) = (w, trim (" ".intercalate ws)) := by
  cases ws with
  | nil =>
      have hcut := cutWord_of_isWord hw
      rw [String.ofList_toList] at hcut
      rw [String.intercalate_singleton, hcut]
      rfl
  | cons v ws =>
      have hcut := cutWord_append hw (b := ' ') (by decide) (" ".intercalate (v :: ws)).toList
      have hline : " ".intercalate (w :: v :: ws) =
          .ofList (w.toList ++ ' ' :: (" ".intercalate (v :: ws)).toList) := by
        rw [String.intercalate_cons_cons, ← String.toList_inj]
        simp
      rw [hline, hcut, String.ofList_toList]
      rfl

/-! ### What is behind it -/

/-- What is behind the first word is trimmed. -/
theorem trimmed_cutWord_snd (s : String) : Trimmed (cutWord s).2.toList := by
  rw [cutWord, String.toList_ofList]
  exact trimmed_trimChars _

/-- A text without a blank at its end is trimmed in front only. -/
theorem trimChars_eq_dropWhile {cs : List Char} (h : ∀ c ∈ cs.getLast?, isBlank c = false) :
    trimChars cs = cs.dropWhile isBlank := by
  have hlast : ∀ c ∈ (cs.dropWhile isBlank).getLast?, isBlank c = false := by
    intro c hc
    obtain ⟨front, hfront⟩ := List.dropWhile_suffix isBlank (l := cs)
    refine h c ?_
    rw [← hfront, List.getLast?_append, Option.mem_def.mp hc]
    rfl
  rw [trimChars, trimEndChars, dropWhileEnd, dropWhile_eq_self (by rwa [List.head?_reverse]),
    List.reverse_reverse]

/-- **What is behind the first word** is an end of the trimmed line. -/
theorem cutWord_snd_isSuffix (s : String) : (cutWord s).2.toList <:+ trimChars s.toList := by
  have hrest := List.dropWhile_suffix (!isBlank ·) (l := trimChars s.toList)
  have hlast : ∀ c ∈ ((trimChars s.toList).dropWhile (!isBlank ·)).getLast?,
      isBlank c = false := by
    intro c hc
    obtain ⟨front, hfront⟩ := hrest
    refine (trimmed_trimChars s.toList).last c ?_
    rw [← hfront, List.getLast?_append, Option.mem_def.mp hc]
    rfl
  rw [cutWord, String.toList_ofList, trimChars_eq_dropWhile hlast]
  exact (List.dropWhile_suffix isBlank).trans hrest

/-- What stands behind the first words of a line. -/
def behindWords : Nat → String → String
  | 0, s => s
  | n + 1, s => behindWords n (cutWord s).2

/-- What stands behind one word or more is trimmed, and it is an end of the trimmed line. -/
theorem behindWords_succ (n : Nat) (s : String) :
    Trimmed (behindWords (n + 1) s).toList ∧
      (behindWords (n + 1) s).toList <:+ trimChars s.toList := by
  induction n generalizing s with
  | zero => exact ⟨trimmed_cutWord_snd s, cutWord_snd_isSuffix s⟩
  | succ n ih =>
      obtain ⟨htrimmed, hsuffix⟩ := ih (cutWord s).2
      rw [(trimmed_cutWord_snd s).trimChars_eq] at hsuffix
      exact ⟨htrimmed, hsuffix.trans (cutWord_snd_isSuffix s)⟩

end Pipewright.Text
