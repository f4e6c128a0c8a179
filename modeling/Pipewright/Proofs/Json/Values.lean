import Mathlib.Tactic.FinCases
import Pipewright.Json
import Pipewright.Json.Typed

/-!
# Written Values Are Read Back

The text of a value is read by the reader for its kind. Blanks may stand in front of it, as
they do behind a colon or at the start of a line, and the reader stops right behind it.

## Main definitions

* `Reads`: a reader takes a text for a value, whatever surrounds it.

## Main results

* `readStringBody_flatMap_escapeChar`: reading undoes escaping, for any characters at all.
* `reads_string`, `reads_bool`: texts and truth values are read back.
-/

namespace Pipewright.Json

/-! ### Blanks -/

/-- Behind blanks, a character that is none is the first that counts. -/
theorem skipSpace_append {blanks : List Char} (hblanks : ∀ c ∈ blanks, isSpace c = true) {c : Char}
    (hc : isSpace c = false) (cs : List Char) : skipSpace (blanks ++ c :: cs) = c :: cs := by
  rw [skipSpace, List.dropWhile_append_of_pos hblanks,
    List.dropWhile_cons_of_neg (by simp [hc])]

/-- A character that is no blank is the first that counts. -/
theorem skipSpace_cons {c : Char} (hc : isSpace c = false) (cs : List Char) :
    skipSpace (c :: cs) = c :: cs :=
  skipSpace_append (List.forall_mem_nil _) hc cs

/-- The reader takes the text for the value, with any blanks in front of it and anything behind
it. -/
def Reads {α : Type} (reader : Reader α) (value : α) (text : List Char) : Prop :=
  ∀ blanks rest, (∀ c ∈ blanks, isSpace c = true) →
    reader (blanks ++ (text ++ rest)) = .ok (value, rest)

/-! ### Texts -/

/-- The escape of a control character is read as its number. -/
theorem hexValue4?_hexDigit {n : Nat} (h : n < 0x20) :
    hexValue4? '0' '0' (hexDigit (n / 16)) (hexDigit (n % 16)) = some n := by
  have hall : ∀ n : Fin 0x20,
      hexValue4? '0' '0' (hexDigit (n / 16)) (hexDigit (n % 16)) = some n.val := by decide
  exact hall ⟨n, h⟩

/-- **One character.** Reading undoes the escape of a character. -/
theorem readStringBody_escapeChar (acc : String) (c : Char) (rest : List Char) :
    readStringBody acc (escapeChar c ++ rest) = readStringBody (acc.push c) rest := by
  -- the characters with an escape of their own, which the table of escapes undoes
  have hescape {letter : Char} (hletter : letter ≠ 'u') (hlookup : escaped? letter = some c) :
      readStringBody acc ('\\' :: letter :: rest) = readStringBody (acc.push c) rest := by
    rw [readStringBody.eq_5 acc letter rest (fun _ _ _ _ _ h => absurd h hletter) hletter, hlookup]
  by_cases hown : c ∈ ['"', '\\', '\x08', '\x0c', '\n', '\r', '\t']
  · fin_cases hown
    all_goals exact hescape (by decide) rfl
  have hne : ∀ d ∈ ['"', '\\', '\x08', '\x0c', '\n', '\r', '\t'], (c == d) = false :=
    fun d hd => beq_eq_false_iff_ne.mpr fun h => hown (h ▸ hd)
  simp only [List.mem_cons, List.not_mem_nil, or_false, forall_eq_or_imp, forall_eq] at hne
  obtain ⟨hquote, hback, hbs, hff, hlf, hcr, htab⟩ := hne
  simp only [escapeChar, hquote, hback, hbs, hff, hlf, hcr, htab, Bool.false_eq_true, if_false]
  by_cases hcontrol : c.toNat < 0x20
  · have hlow : isLowHalf c.toNat = false := by
      rw [isLowHalf, decide_eq_false (by omega), Bool.false_and]
    have hhigh : isHighHalf c.toNat = false := by
      rw [isHighHalf, decide_eq_false (by omega), Bool.false_and]
    rw [if_pos hcontrol]
    simp only [List.cons_append, List.nil_append, readStringBody, hexValue4?_hexDigit hcontrol,
      hlow, hhigh, Char.ofNat_toNat, Bool.false_eq_true, if_false]
  · have hq : c ≠ '"' := beq_eq_false_iff_ne.mp hquote
    have hb : c ≠ '\\' := beq_eq_false_iff_ne.mp hback
    rw [if_neg hcontrol, List.cons_append, List.nil_append, readStringBody.eq_7 acc c rest hq
      (fun _ _ _ _ _ h => absurd h hb) (fun _ h => absurd h hb) (fun _ _ h => absurd h hb)
      (fun h => absurd h hb), if_neg hcontrol]

/-- **Reading undoes escaping**, whatever the characters are. -/
theorem readStringBody_flatMap_escapeChar (acc : String) (cs rest : List Char) :
    readStringBody acc (cs.flatMap escapeChar ++ '"' :: rest) = .ok (acc ++ .ofList cs, rest) := by
  induction cs generalizing acc with
  | nil =>
      rw [List.flatMap_nil, List.nil_append, readStringBody, String.ofList_nil, String.append_empty]
  | cons c cs ih =>
      have hpush : acc.push c ++ .ofList cs = acc ++ .ofList (c :: cs) := by
        rw [← String.toList_inj]
        simp
      rw [List.flatMap_cons, List.append_assoc, readStringBody_escapeChar, ih, hpush]

/-- What follows the opening quote of a text is read as the text. -/
theorem readStringBody_quoted (s : String) (rest : List Char) :
    readStringBody "" (s.toList.flatMap escapeChar ++ '"' :: rest) = .ok (s, rest) := by
  rw [readStringBody_flatMap_escapeChar, String.empty_append, String.ofList_toList]

/-- A text between quotes is what its value looks like. -/
theorem toList_prettyAt_string (depth : Nat) (s : String) :
    (prettyAt depth (.string s)).toList = '"' :: (s.toList.flatMap escapeChar ++ ['"']) := by
  rw [prettyAt, quote, String.toList_ofList, quoteChars, List.cons_append]

/-- A text is read back. -/
theorem reads_string (depth : Nat) (s : String) :
    Reads readText s (prettyAt depth (.string s)).toList := by
  intro blanks rest hblanks
  rw [toList_prettyAt_string, List.cons_append, List.append_assoc, readText,
    skipSpace_append hblanks (by decide)]
  exact readStringBody_quoted s rest

/-! ### Truth values -/

/-- A literal is read letter by letter. -/
theorem readLetters_append (word rest : List Char) :
    readLetters word (word ++ rest) = .ok rest := by
  induction word with
  | nil => rfl
  | cons w word ih => rw [List.cons_append, readLetters, if_pos (beq_self_eq_true w), ih]

/-- A truth value is read back. -/
theorem reads_bool (depth : Nat) (b : Bool) :
    Reads readBool b (prettyAt depth (.bool b)).toList := by
  intro blanks rest hblanks
  cases b with
  | true =>
      have hshape : (prettyAt depth (.bool true)).toList = 't' :: ['r', 'u', 'e'] := by
        rw [prettyAt]
        rfl
      rw [hshape, List.cons_append, readBool, skipSpace_append hblanks (by decide)]
      simp only [readLetters_append, Except.map]
  | false =>
      have hshape : (prettyAt depth (.bool false)).toList = 'f' :: ['a', 'l', 's', 'e'] := by
        rw [prettyAt]
        rfl
      rw [hshape, List.cons_append, readBool, skipSpace_append hblanks (by decide)]
      simp only [readLetters_append, Except.map]

end Pipewright.Json
