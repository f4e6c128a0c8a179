import Mathlib.Data.List.Forall2

/-!
# Programs That May Fail

The readers of this library are programs that yield a result or an error. A program made
of steps yields a result exactly when each step does, and what the steps yielded makes up
the result. The readers are taken apart by these facts.

## Main results

* `bind_eq_ok_iff`: a step followed by a program.
* `bind_eq_error_iff`: where a step and a program behind it fail.
* `throw_if_eq_ok_iff`: a program behind a condition.
* `mapM_eq_ok_iff`: a program for each element of a list.
* `mapError_eq_ok_iff`, `mapError_eq_error_iff`: an error under another name.
* `Yields`: every result of a program has a property.
-/

namespace Pipewright

variable {ε ε' α β : Type}

/-- A result is no error. -/
theorem ok_ne_error {a : α} {e : ε} : (.ok a : Except ε α) ≠ .error e := nofun

/-- An error is no result. -/
theorem error_ne_ok {a : α} {e : ε} : (.error e : Except ε α) ≠ .ok a := nofun

/-- A step and a program behind it yield what the program makes of the step's result. -/
theorem bind_eq_ok_iff {x : Except ε α} {f : α → Except ε β} {b : β} :
    x >>= f = .ok b ↔ ∃ a, x = .ok a ∧ f a = .ok b := by
  cases x with
  | error e => simp [bind, Except.bind]
  | ok a => simp [bind, Except.bind]

/-- A step and a program behind it fail where the step does, and otherwise where the program
does. -/
theorem bind_eq_error_iff {x : Except ε α} {f : α → Except ε β} {e : ε} :
    x >>= f = .error e ↔ x = .error e ∨ ∃ a, x = .ok a ∧ f a = .error e := by
  cases x with
  | error e' => simp [bind, Except.bind]
  | ok a => simp [bind, Except.bind]

/-- A program behind a condition under which it is not run yields what it yields otherwise. -/
theorem throw_if_eq_ok_iff {b : Prop} [Decidable b] {e : ε} {f : Unit → Except ε α} {a : α} :
    (if b then (throw e : Except ε Unit) >>= f else f ()) = .ok a ↔ ¬ b ∧ f () = .ok a := by
  split
  next hb => exact ⟨fun h => absurd h nofun, fun h => absurd hb h.1⟩
  next hb => exact ⟨fun h => ⟨hb, h⟩, And.right⟩

/-- A program for each element of a list yields a list when it does for each element. -/
theorem mapM_eq_ok_iff {f : α → Except ε β} {l : List α} {bs : List β} :
    l.mapM f = .ok bs ↔ List.Forall₂ (fun a b => f a = .ok b) l bs := by
  induction l generalizing bs with
  | nil =>
      rw [List.mapM_nil, List.forall₂_nil_left_iff]
      exact ⟨fun h => (Except.ok.inj h).symm, fun h => h ▸ rfl⟩
  | cons a l ih =>
      rw [List.mapM_cons, bind_eq_ok_iff, List.forall₂_cons_left_iff]
      constructor
      · rintro ⟨b, hb, h⟩
        obtain ⟨bs', hbs', hpure⟩ := bind_eq_ok_iff.mp h
        exact ⟨b, bs', hb, ih.mp hbs', (Except.ok.inj hpure).symm⟩
      · rintro ⟨b, bs', hb, hrest, rfl⟩
        exact ⟨b, hb, bind_eq_ok_iff.mpr ⟨bs', ih.mpr hrest, rfl⟩⟩

/-- A program for each element of a list does the same for a list with other elements for which
it does the same. -/
theorem mapM_congr_of_forall₂ {f : α → Except ε β} {l l' : List α}
    (h : List.Forall₂ (fun a a' => f a' = f a) l l') : l'.mapM f = l.mapM f := by
  induction h with
  | nil => rfl
  | cons hab _ ih => rw [List.mapM_cons, List.mapM_cons, hab, ih]

/-- An error under another name is still an error, and a result stays one. -/
theorem mapError_eq_ok_iff {x : Except ε α} {f : ε → ε'} {a : α} :
    x.mapError f = .ok a ↔ x = .ok a := by
  cases x <;> simp [Except.mapError]

/-- An error under another name stands for the error. -/
theorem mapError_eq_error_iff {x : Except ε α} {f : ε → ε'} {e : ε'} :
    x.mapError f = .error e ↔ ∃ e', x = .error e' ∧ f e' = e := by
  cases x <;> simp [Except.mapError]

/-! ### What every result is like -/

/-- Every result of the program has the property. -/
def Yields (x : Except ε α) (P : α → Prop) : Prop :=
  ∀ a, x = .ok a → P a

namespace Yields

variable {P : α → Prop} {Q : β → Prop}

/-- The result that is returned. -/
theorem pure {a : α} (h : P a) : Yields (.ok a : Except ε α) P
  | _, rfl => h

/-- An error is no result. -/
theorem throw (e : ε) : Yields (.error e : Except ε α) P
  | _, h => nomatch h

/-- A step and a program behind it. -/
theorem bind {x : Except ε α} {f : α → Except ε β} (h : ∀ a, x = .ok a → Yields (f a) Q) :
    Yields (x >>= f) Q := by
  intro b hb
  obtain ⟨a, ha, hf⟩ := bind_eq_ok_iff.mp hb
  exact h a ha b hf

/-- A choice between two programs. -/
theorem ite {b : Prop} [Decidable b] {x y : Except ε α} (hx : b → Yields x P)
    (hy : ¬ b → Yields y P) : Yields (if b then x else y) P := by
  split
  next hb => exact hx hb
  next hb => exact hy hb

end Yields

end Pipewright
