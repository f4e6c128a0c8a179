import Mathlib.Data.List.Forall2
import Pipewright.Display.Style

/-!
# Texts Without Their Escape Sequences

The reader that leaves escape sequences out can be inside one when a text ends, and then swallows
what stands behind the text. So it does not commute with putting texts together in general. It does
for texts that show as something whatever stands behind them: those are closed under putting
together, a text without escape characters is one, and so is any text that is painted, since the
reset behind it ends a sequence that the text may have left open.

## Main definitions

* `Shows`: what a text shows as, whatever stands behind it.

## Main results

* `stripFrom_append_reset`: a reset ends whatever sequence is open in front of it.
* `stripEscapes_paint`: paint leaves nothing behind.
* `Shows.append`, `Shows.intercalate`: texts that are put together.
-/

namespace Pipewright.Display

/-! ### The reader, one character at a time -/

theorem stripFrom_nil (inside : Bool) : stripFrom inside [] = [] := by
  rw [stripFrom]

/-- Within a sequence a character is left out, and a letter ends the sequence. -/
theorem stripFrom_inside (c : Char) (cs : List Char) :
    stripFrom true (c :: cs) = stripFrom (!c.isAlpha) cs := by
  rw [stripFrom.eq_def]
  exact if_pos rfl

/-- Outside of sequences a character other than the escape character stays. -/
theorem stripFrom_outside {c : Char} (h : c ≠ '\x1b') (cs : List Char) :
    stripFrom false (c :: cs) = c :: stripFrom false cs := by
  rw [stripFrom.eq_def]
  simp [h]

/-- The escape character opens a sequence when a bracket follows it, and stays otherwise. -/
theorem stripFrom_escape (cs : List Char) :
    stripFrom false ('\x1b' :: cs) =
      if cs.head? = some '[' then stripFrom true cs else '\x1b' :: stripFrom false cs := by
  rw [stripFrom.eq_def]
  cases cs with
  | nil => simp
  | cons c rest =>
      by_cases hc : c = '['
      · subst hc
        simp [stripFrom_inside]
      · simp [hc]

/-- An escape character and a bracket open a sequence. -/
theorem stripFrom_opener (cs : List Char) :
    stripFrom false ('\x1b' :: '[' :: cs) = stripFrom true cs := by
  rw [stripFrom_escape, if_pos List.head?_cons, stripFrom_inside]
  rfl

/-- Within a sequence a text without letters is left out. -/
theorem stripFrom_inside_append {cs : List Char} (h : cs.all (!·.isAlpha) = true)
    (rest : List Char) : stripFrom true (cs ++ rest) = stripFrom true rest := by
  induction cs with
  | nil => rfl
  | cons c cs ih =>
      obtain ⟨hc, hcs⟩ : (!c.isAlpha) = true ∧ _ := Bool.and_eq_true_iff.mp h
      rw [List.cons_append, stripFrom_inside, hc, ih hcs]

/-- The sequence behind a painted text. -/
def resetChars : List Char :=
  ['\x1b', '[', '0', 'm']

/-- **A reset ends** whatever sequence is open in front of it. -/
theorem stripFrom_append_reset (inside : Bool) (cs rest : List Char) :
    stripFrom inside (cs ++ (resetChars ++ rest)) = stripFrom inside cs ++ stripFrom false rest := by
  induction cs generalizing inside with
  | nil =>
      have hzero : ['0'].all (!·.isAlpha) = true := by decide
      have hclosed : stripFrom true ('0' :: 'm' :: rest) = stripFrom false rest := by
        rw [← List.singleton_append, stripFrom_inside_append hzero, stripFrom_inside]
        rfl
      cases inside with
      | true =>
          -- the reset opens no sequence of its own, and its letter ends the open one
          rw [stripFrom_nil]
          show stripFrom true (['\x1b', '['] ++ '0' :: 'm' :: rest) = stripFrom false rest
          rw [stripFrom_inside_append (by decide), hclosed]
      | false =>
          rw [stripFrom_nil]
          exact (stripFrom_opener _).trans hclosed
  | cons c cs ih =>
      cases inside with
      | true => rw [List.cons_append, stripFrom_inside, stripFrom_inside, ih]
      | false =>
          by_cases hc : c = '\x1b'
          · subst hc
            -- the character behind the last one of the text is an escape character, no bracket
            have hhead : (cs ++ (resetChars ++ rest)).head? = some '[' ↔ cs.head? = some '[' := by
              cases cs with
              | nil => simp [resetChars]
              | cons => rfl
            rw [List.cons_append, stripFrom_escape, stripFrom_escape]
            by_cases hbracket : cs.head? = some '['
            · rw [if_pos hbracket, if_pos (hhead.mpr hbracket), ih]
            · rw [if_neg hbracket, if_neg (hhead.not.mpr hbracket), ih, List.cons_append]
          · rw [List.cons_append, stripFrom_outside hc, stripFrom_outside hc, ih,
              List.cons_append]

/-- The parameters of a role hold no letters. -/
theorem all_not_isAlpha_code (role : Role) : role.code.toList.all (!·.isAlpha) = true := by
  cases role <;> decide

/-- A text in colour stands between the sequence of its role and the reset. -/
theorem toList_paint (role : Role) (text : String) {style : Style} (h : style.color = true) :
    (paint role text style).toList =
      '\x1b' :: '[' :: (role.code.toList ++ 'm' :: (text.toList ++ resetChars)) := by
  have hopen : "\x1b[".toList = ['\x1b', '['] := by decide
  have hclose : "m".toList = ['m'] := by decide
  have hreset : "\x1b[0m".toList = resetChars := by decide
  simp only [paint, h, if_true, String.toList_append, hopen, hclose, hreset, List.append_assoc,
    List.cons_append, List.nil_append]

/-! ### What a text shows as -/

/-- The text `t` shows as `u`, whatever stands behind it. -/
def Shows (t u : String) : Prop :=
  ∀ rest, stripFrom false (t.toList ++ rest) = u.toList ++ stripFrom false rest

variable {t t' u u' : String}

theorem Shows.stripFrom_eq (h : Shows t u) : stripFrom false t.toList = u.toList := by
  have hnil := h []
  rwa [List.append_nil, stripFrom_nil, List.append_nil] at hnil

theorem Shows.stripEscapes_eq (h : Shows t u) : stripEscapes t = u := by
  rw [stripEscapes, h.stripFrom_eq, String.ofList_toList]

theorem Shows.visibleLength_eq (h : Shows t u) : visibleLength t = u.length := by
  rw [visibleLength, h.stripEscapes_eq]

/-- Texts that are put together show as what they show as. -/
theorem Shows.append (h : Shows t u) (h' : Shows t' u') : Shows (t ++ t') (u ++ u') := by
  intro rest
  rw [String.toList_append, List.append_assoc, h, h', String.toList_append, List.append_assoc]

/-- **A text without escape characters** shows as itself. -/
theorem shows_self (h : '\x1b' ∉ t.toList) : Shows t t := by
  intro rest
  generalize t.toList = cs at h
  induction cs with
  | nil => rfl
  | cons c cs ih =>
      obtain ⟨hc, hcs⟩ := not_or.mp (List.mem_cons.not.mp h)
      rw [List.cons_append, stripFrom_outside (Ne.symm hc), ih hcs, List.cons_append]

/-- The texts of a list without their escape sequences. -/
theorem map_stripFrom_of_shows {ts us : List String} (h : List.Forall₂ Shows ts us) :
    ts.map (stripFrom false ·.toList) = us.map String.toList := by
  induction h with
  | nil => rfl
  | cons hfirst _ ih => rw [List.map_cons, List.map_cons, hfirst.stripFrom_eq, ih]

/-- Texts that are joined show as what they show as. -/
theorem Shows.intercalate {sep : String} (hsep : '\x1b' ∉ sep.toList) {ts us : List String}
    (h : List.Forall₂ Shows ts us) : Shows (sep.intercalate ts) (sep.intercalate us) := by
  induction h with
  | nil => exact shows_self (by simp)
  | @cons t u ts us ht hrest ih =>
      cases hrest with
      | nil => simpa using ht
      | cons ht' hrest =>
          rw [String.intercalate_cons_cons, String.intercalate_cons_cons]
          exact (ht.append (shows_self hsep)).append ih

/-- **Paint** in colour: the text shows as itself without the sequences in it, be they finished or
not. -/
theorem shows_paint_of_color (role : Role) (text : String) {style : Style}
    (h : style.color = true) : Shows (paint role text style) (stripEscapes text) := by
  intro rest
  simp only [toList_paint role text h, List.cons_append, List.append_assoc]
  rw [stripFrom_opener, stripFrom_inside_append (all_not_isAlpha_code role), stripFrom_inside]
  exact (stripFrom_append_reset false text.toList rest).trans
    (congrArg (· ++ _) String.toList_ofList.symm)

/-- Paint leaves nothing behind. -/
theorem stripEscapes_paint (role : Role) (text : String) (style : Style) :
    stripEscapes (paint role text style) = stripEscapes text := by
  cases h : style.color with
  | true => exact (shows_paint_of_color role text h).stripEscapes_eq
  | false => simp [paint, h]

/-- A painted text without escape characters shows as itself. -/
theorem shows_paint (h : '\x1b' ∉ t.toList) (role : Role) (style : Style) :
    Shows (paint role t style) t := by
  cases hcolor : style.color with
  | true =>
      have hshows := shows_paint_of_color role t hcolor
      rwa [(shows_self h).stripEscapes_eq] at hshows
  | false =>
      rw [paint, if_neg (by simp [hcolor])]
      exact shows_self h

end Pipewright.Display
