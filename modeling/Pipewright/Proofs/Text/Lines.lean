import Mathlib.Data.List.TakeWhile
import Pipewright.Proofs.Text.Lossy
import Pipewright.Text.Line

/-!
# Lines of Texts and of Octets

A list is cut behind every element of one kind, so that it is a number of lines that each end in
such an element, and a last one that has none. Whatever is said about lines is proved along this
cut (`lines_induction`). Octets and the text that they are read as have the same lines, because
the octet of a line feed is a character by itself.

## Main definitions

* `unifyLineEnds`: a line feed in place of every carriage return and line feed.
* `endLastLine`: a text whose last line is ended too.

## Main results

* `lines_induction`: induction over the lines of a list.
* `linePieces_lossyChars`, `lossyChars_withoutLineEnd`: the lines of octets are those of the text.
* `unifyLineEnds_append`, `endLastLine_append`: both changes are made line by line.
-/

namespace Pipewright.Text

/-! ### The lines of a list -/

section Pieces

variable {α : Type} {p : α → Bool}

/-- **Induction over lines**: a list is empty, or a line that is not ended, or a line that is ended
and a list behind it. -/
theorem lines_induction {motive : List α → Prop} (nil : motive [])
    (last : ∀ l, l ≠ [] → (∀ a ∈ l, p a = false) → motive l)
    (line : ∀ body a rest, (∀ b ∈ body, p b = false) → p a = true → motive rest →
      motive (body ++ a :: rest)) (l : List α) : motive l := by
  induction h : l.length using Nat.strongRecOn generalizing l with
  | _ n ih =>
    obtain ⟨body, hbody⟩ : ∃ body, body = l.takeWhile (!p ·) := ⟨_, rfl⟩
    have hplain : ∀ b ∈ body, p b = false := by
      intro b hb
      have hkept : (!p b) = true := List.mem_takeWhile_imp (p := (!p ·)) (hbody ▸ hb)
      simpa using hkept
    have hsplit : body ++ l.dropWhile (!p ·) = l := by
      rw [hbody, List.takeWhile_append_dropWhile]
    cases hdrop : l.dropWhile (!p ·) with
    | nil =>
        rw [hdrop, List.append_nil] at hsplit
        rcases eq_or_ne l [] with rfl | hne
        · exact nil
        · exact last l hne (hsplit ▸ hplain)
    | cons a rest =>
        rw [hdrop] at hsplit
        have hend : p a = true := by
          simpa [hdrop] using List.head?_dropWhile_not (!p ·) l
        have hlength : rest.length < n := by
          rw [← h, ← hsplit, List.length_append, List.length_cons]
          omega
        exact hsplit ▸ line body a rest hplain hend (ih _ hlength rest rfl)

/-- There are no lines in nothing. -/
@[simp] theorem piecesBehind_nil : piecesBehind p [] = [] := rfl

/-- A line that is ended is cut off. -/
theorem piecesBehind_append_cons {body : List α} (hbody : ∀ b ∈ body, p b = false) {a : α}
    (ha : p a = true) (rest : List α) :
    piecesBehind p (body ++ a :: rest) = (body ++ [a]) :: piecesBehind p rest := by
  induction body with
  | nil => simp [piecesBehind, ha]
  | cons b body ih =>
      rw [List.cons_append, piecesBehind, ih fun c hc => hbody c (List.mem_cons_of_mem b hc)]
      simp [hbody b List.mem_cons_self]

/-- A line that is not ended is one piece. -/
theorem piecesBehind_of_forall {l : List α} (hne : l ≠ []) (h : ∀ a ∈ l, p a = false) :
    piecesBehind p l = [l] := by
  induction l with
  | nil => exact absurd rfl hne
  | cons a l ih =>
      have ha := h a List.mem_cons_self
      rcases eq_or_ne l [] with rfl | hl
      · simp [piecesBehind, ha]
      · rw [piecesBehind, ih hl fun b hb => h b (List.mem_cons_of_mem a hb)]
        simp [ha]

end Pieces

/-! ### The ends of lines -/

section LineEnd

variable {α : Type} [BEq α]

/-- What is cut off at the end of a list is not its first element, unless it is the only one. -/
theorem dropLast?_cons_of_ne_nil (last a : α) {l : List α} (h : l ≠ []) :
    dropLast? last (a :: l) = (dropLast? last l).map (a :: ·) := by
  simp only [dropLast?, List.getLast?_cons_of_ne_nil h, List.dropLast_cons_of_ne_nil h]
  split <;> rfl

variable [LawfulBEq α]

/-- A list that ends in the element is cut in front of it. -/
@[simp] theorem dropLast?_concat (last : α) (l : List α) :
    dropLast? last (l ++ [last]) = some l := by
  simp [dropLast?]

/-- A list that ends in another element is not cut. -/
theorem dropLast?_eq_none_iff {last : α} {l : List α} :
    dropLast? last l = none ↔ l.getLast? ≠ some last := by
  simp [dropLast?]

/-- What has no line feed at its end has no line end. -/
theorem withoutLineEnd_of_getLast?_ne {lineFeed carriageReturn : α} {piece : List α}
    (h : piece.getLast? ≠ some lineFeed) :
    withoutLineEnd lineFeed carriageReturn piece = piece := by
  rw [withoutLineEnd, dropLast?_eq_none_iff.mpr h]

/-- The line end is a line feed with or without a carriage return. -/
theorem withoutLineEnd_concat (lineFeed carriageReturn : α) (body : List α) :
    withoutLineEnd lineFeed carriageReturn (body ++ [lineFeed]) =
      (dropLast? carriageReturn body).getD body := by
  rw [withoutLineEnd, dropLast?_concat]

end LineEnd

/-! ### The lines of octets and of their text -/

/-- The lossy reading of nothing is empty. -/
@[simp] theorem lossyChars_nil : lossyChars [] = [] := by
  simp [lossyChars, pieces]

/-- The octet of a character at the end of octets is the character at the end of their text. -/
theorem dropLast?_lossyChars {b : UInt8} {c : Char} (h : IsSoleOctet b c) (bs : List UInt8) :
    dropLast? c (lossyChars bs) = (dropLast? b bs).map lossyChars := by
  by_cases hlast : bs.getLast? = some b
  · obtain ⟨front, rfl⟩ := List.getLast?_eq_some_iff.mp hlast
    rw [lossyChars_append_cons h, lossyChars_nil, dropLast?_concat, dropLast?_concat,
      Option.map_some]
  · have hchar : (lossyChars bs).getLast? ≠ some c :=
      fun hc => hlast ((getLast?_lossyChars_eq_iff h).mp hc)
    rw [dropLast?_eq_none_iff.mpr hlast, dropLast?_eq_none_iff.mpr hchar, Option.map_none]

/-- **A line loses the same end** before it is read and afterwards. -/
theorem lossyChars_withoutLineEnd (piece : List UInt8) :
    lossyChars (withoutLineEnd 0x0A 0x0D piece) = withoutLineEnd '\n' '\r' (lossyChars piece) := by
  rw [withoutLineEnd, withoutLineEnd, dropLast?_lossyChars isSoleOctet_lineFeed]
  cases dropLast? 0x0A piece with
  | none => rfl
  | some body =>
      rw [Option.map_some]
      dsimp only
      rw [dropLast?_lossyChars isSoleOctet_carriageReturn]
      cases dropLast? 0x0D body <;> rfl

/-- Octets without a line feed have no line feed in their text. -/
theorem not_mem_lossyChars {b : UInt8} {c : Char} (h : IsSoleOctet b c) {bs : List UInt8}
    (hbs : ∀ x ∈ bs, (x == b) = false) : ∀ d ∈ lossyChars bs, (d == c) = false := by
  intro d hd
  rw [beq_eq_false_iff_ne]
  rintro rfl
  exact absurd (hbs b (mem_of_mem_lossyChars h hd)) (by simp)

/-- **The lines of a text are those of its octets**, each read by itself. -/
theorem linePieces_lossyChars (bs : List UInt8) :
    linePieces (lossyChars bs) = (bytePieces bs).map lossyChars := by
  rw [linePieces, bytePieces]
  induction bs using lines_induction (p := fun b : UInt8 => b == 0x0A) with
  | nil => rw [lossyChars_nil]; rfl
  | last l hne hplain =>
      have hchars := not_mem_lossyChars isSoleOctet_lineFeed hplain
      rw [piecesBehind_of_forall hne hplain, List.map_singleton,
        piecesBehind_of_forall (lossyChars_ne_nil hne) hchars]
  | line body a rest hplain hend ih =>
      obtain rfl := eq_of_beq hend
      rw [lossyChars_append_cons isSoleOctet_lineFeed, piecesBehind_append_cons hplain hend,
        piecesBehind_append_cons (not_mem_lossyChars isSoleOctet_lineFeed hplain) rfl, ih,
        List.map_cons, lossyChars_append_cons isSoleOctet_lineFeed, lossyChars_nil]

/-! ### One form of line ends -/

/-- The text with a line feed in place of every carriage return and line feed. -/
def unifyLineEnds : List Char → List Char
  | '\r' :: '\n' :: cs => '\n' :: unifyLineEnds cs
  | c :: cs => c :: unifyLineEnds cs
  | [] => []

/-- The text with a line feed at its end, unless it is empty or has one. -/
def endLastLine (cs : List Char) : List Char :=
  if cs = [] ∨ cs.getLast? = some '\n' then cs else cs ++ ['\n']

/-- A text without a line feed has no line ends. -/
theorem unifyLineEnds_of_not_mem {cs : List Char} (h : ∀ c ∈ cs, (c == '\n') = false) :
    unifyLineEnds cs = cs := by
  induction cs using unifyLineEnds.induct with
  | case1 cs ih => exact absurd (h '\n' (by simp)) (by simp)
  | case2 c cs hpair ih =>
      rw [unifyLineEnds, ih fun d hd => h d (List.mem_cons_of_mem c hd)]
      exact hpair
  | case3 => rfl

/-- **Line ends are unified line by line**: the line gets a line feed for its end. -/
theorem unifyLineEnds_append {body : List Char} (hbody : ∀ c ∈ body, (c == '\n') = false)
    (rest : List Char) :
    unifyLineEnds (body ++ '\n' :: rest) =
      withoutLineEnd '\n' '\r' (body ++ ['\n']) ++ '\n' :: unifyLineEnds rest := by
  rw [withoutLineEnd_concat]
  induction body with
  | nil => rfl
  | cons c body ih =>
      rcases eq_or_ne body [] with rfl | hne
      · by_cases hc : c = '\r'
        · subst hc
          rfl
        · have hlast : dropLast? '\r' [c] = none := by simpa [dropLast?] using hc
          have hkept : unifyLineEnds (c :: '\n' :: rest) = c :: unifyLineEnds ('\n' :: rest) := by
            rw [unifyLineEnds]
            exact fun _ hreturn => absurd hreturn hc
          rw [hlast, List.singleton_append, hkept]
          rfl
      · -- what follows the first character is not the end of the line
        have hkept : unifyLineEnds (c :: (body ++ '\n' :: rest)) =
            c :: unifyLineEnds (body ++ '\n' :: rest) := by
          obtain ⟨d, body, rfl⟩ := List.exists_cons_of_ne_nil hne
          rw [List.cons_append, unifyLineEnds]
          rintro _ - ⟨⟩
          exact absurd (hbody '\n' (by simp)) (by simp)
        rw [List.cons_append, hkept, ih fun d hd => hbody d (List.mem_cons_of_mem c hd),
          dropLast?_cons_of_ne_nil _ _ hne]
        cases dropLast? '\r' body <;> rfl

/-- Nothing of a text without line ends of the other kind is changed. -/
theorem unifyLineEnds_eq_self {cs : List Char} (h : ¬ ['\r', '\n'] <:+: cs) :
    unifyLineEnds cs = cs := by
  induction cs using unifyLineEnds.induct with
  | case1 cs ih => exact absurd ⟨[], cs, rfl⟩ h
  | case2 c cs hpair ih =>
      rw [unifyLineEnds, ih fun hpiece => h (hpiece.trans (List.suffix_cons c cs).isInfix)]
      exact hpair
  | case3 => rfl

/-- The empty text has no last line. -/
@[simp] theorem endLastLine_nil : endLastLine [] = [] := rfl

/-- A last line that is not ended is ended. -/
theorem endLastLine_of_forall {cs : List Char} (hne : cs ≠ [])
    (h : ∀ c ∈ cs, (c == '\n') = false) : endLastLine cs = cs ++ ['\n'] := by
  refine if_neg ?_
  rintro (hnil | hlast)
  · exact hne hnil
  · exact absurd (h '\n' (List.mem_of_getLast? hlast)) (by simp)

/-- Only what is behind the last line feed may have to be ended. -/
theorem endLastLine_append (front rest : List Char) :
    endLastLine (front ++ '\n' :: rest) = front ++ '\n' :: endLastLine rest := by
  rcases eq_or_ne rest [] with rfl | hne
  · simp [endLastLine]
  · have hlast : (front ++ '\n' :: rest).getLast? = rest.getLast? := by
      rw [List.getLast?_append_cons, List.getLast?_cons_of_ne_nil hne]
    simp only [endLastLine, hlast, hne, List.append_eq_nil_iff, reduceCtorEq, and_false, false_or]
    split <;> simp

end Pipewright.Text
