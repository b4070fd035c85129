import Mathlib.Logic.Basic

/-!
# Outcomes of fallible steps

A step either yields a value or stops the program with a reason.  `Avoids` says
that it does not stop for a bad reason.
-/

namespace Outcome

variable {ε α β : Type}

theorem bind_eq_ok {x : Except ε α} {f : α → Except ε β} {b : β} :
    (x >>= f) = .ok b ↔ ∃ a, x = .ok a ∧ f a = .ok b := by
  cases x <;> simp [bind, Except.bind]

theorem bind_eq_error {x : Except ε α} {f : α → Except ε β} {e : ε} :
    (x >>= f) = .error e ↔ x = .error e ∨ ∃ a, x = .ok a ∧ f a = .error e := by
  cases x <;> simp [bind, Except.bind]

theorem toOption_eq_some {x : Except ε α} {a : α} : x.toOption = some a ↔ x = .ok a := by
  cases x <;> simp [Except.toOption]

theorem toOption_eq_none {x : Except ε α} : x.toOption = none ↔ ∃ e, x = .error e := by
  cases x <;> simp [Except.toOption]

theorem ok_bind (a : α) (f : α → Except ε β) : (Except.ok a >>= f) = f a := rfl

/-- What always stops also stops after another step. -/
theorem bind_stops {x : Except ε α} {f : α → Except ε β} (stops : ∀ a, ∃ e, f a = .error e) :
    ∃ e, (x >>= f) = .error e := by
  cases x with
  | ok a => exact stops a
  | error e => exact ⟨e, rfl⟩

/-- If the step stops, it is not for a bad reason. -/
def Avoids (bad : ε → Prop) (x : Except ε α) : Prop := ∀ e, x = .error e → ¬bad e

variable {bad : ε → Prop} {x : Except ε α}

theorem Avoids.ok (a : α) : Avoids bad (.ok a : Except ε α) := by
  simp [Avoids]

theorem Avoids.error {e : ε} (good : ¬bad e) : Avoids bad (.error e : Except ε α) := by
  rintro e' stopped
  obtain rfl := Except.error.inj stopped
  exact good

theorem Avoids.of_ok {a : α} (isOk : x = .ok a) : Avoids bad x := by
  subst isOk
  exact .ok a

theorem Avoids.ite {c : Prop} [Decidable c] {y : Except ε α} (first : Avoids bad x)
    (second : Avoids bad y) : Avoids bad (if c then x else y) := by
  split
  · exact first
  · exact second

/-- Sequencing: the second step may rely on what the first one did. -/
theorem Avoids.bind {f : α → Except ε β} (first : Avoids bad x)
    (next : ∀ a, x = .ok a → Avoids bad (f a)) : Avoids bad (x >>= f) := by
  cases x with
  | ok a => exact next a rfl
  | error e => exact .error (first e rfl)

/-- A step that does not stop for any reason yields a value. -/
theorem Avoids.exists_ok (never : Avoids (fun _ => True) x) : ∃ a, x = .ok a := by
  cases x with
  | ok a => exact ⟨a, rfl⟩
  | error e => exact absurd trivial (never e rfl)

end Outcome
