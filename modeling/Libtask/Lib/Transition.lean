import Mathlib.Logic.Basic

/-!
# Labelled transition systems

A system has initial states, and in each state a set of enabled actions, each of
which leads to one next state or stops the run.  `Reachable` follows the runs
whose steps all satisfy a discipline `allowed`, such as a protocol that the
actions of the environment keep.
-/

namespace Transition

/-- States `σ`, actions `α`, and reasons `ε` for which a run stops. -/
structure System (σ α ε : Type) where
  init : σ → Prop
  enabled : σ → α → Prop
  step : σ → α → Except ε σ

variable {σ α ε : Type}

/-- The discipline that allows every action. -/
def anyAction : σ → α → Prop := fun _ _ => True

/-- States reached by runs whose steps all satisfy `allowed`. -/
inductive Reachable (system : System σ α ε) (allowed : σ → α → Prop) : σ → Prop where
  | init {s : σ} : system.init s → Reachable system allowed s
  | step {s s' : σ} {a : α} : Reachable system allowed s → system.enabled s a →
      allowed s a → system.step s a = .ok s' → Reachable system allowed s'

variable {system : System σ α ε} {allowed allowed' : σ → α → Prop}

/-- The induction rule for invariants: what holds initially, and is preserved by
every allowed step out of a reachable state, holds of every reachable state. -/
theorem Reachable.invariant (inv : σ → Prop) {s : σ}
    (reachable : Reachable system allowed s)
    (initially : ∀ s, system.init s → inv s)
    (preserved : ∀ s a s', Reachable system allowed s → inv s → system.enabled s a →
      allowed s a → system.step s a = .ok s' → inv s') : inv s := by
  induction reachable with
  | init start => exact initially _ start
  | step before enabled kept stepped ih =>
      exact preserved _ _ _ before ih enabled kept stepped

theorem Reachable.any {s : σ} (reachable : Reachable system allowed s) :
    Reachable system anyAction s := by
  induction reachable with
  | init start => exact .init start
  | step _ enabled _ stepped ih => exact ih.step enabled trivial stepped

/-- States reached in a number of steps. -/
inductive ReachableIn (system : System σ α ε) (allowed : σ → α → Prop) : Nat → σ → Prop where
  | init {s : σ} : system.init s → ReachableIn system allowed 0 s
  | step {k : Nat} {s s' : σ} {a : α} : ReachableIn system allowed k s → system.enabled s a →
      allowed s a → system.step s a = .ok s' → ReachableIn system allowed (k + 1) s'

theorem ReachableIn.reachable {k : Nat} {s : σ} (reached : ReachableIn system allowed k s) :
    Reachable system allowed s := by
  induction reached with
  | init start => exact .init start
  | step _ enabled kept stepped ih => exact ih.step enabled kept stepped

theorem Reachable.exists_count {s : σ} (reachable : Reachable system allowed s) :
    ∃ k, ReachableIn system allowed k s := by
  induction reachable with
  | init start => exact ⟨0, .init start⟩
  | step _ enabled kept stepped ih =>
      obtain ⟨k, reached⟩ := ih
      exact ⟨k + 1, reached.step enabled kept stepped⟩

/-- States reached in `k` steps, in `m` of which what `view` shows of the state changes. -/
inductive ReachableMoving {β : Type} (system : System σ α ε) (allowed : σ → α → Prop)
    (view : σ → β) : Nat → Nat → σ → Prop where
  | init {s : σ} : system.init s → ReachableMoving system allowed view 0 0 s
  | rest {k m : Nat} {s s' : σ} {a : α} : ReachableMoving system allowed view k m s →
      system.enabled s a → allowed s a → system.step s a = .ok s' → view s' = view s →
      ReachableMoving system allowed view (k + 1) m s'
  | move {k m : Nat} {s s' : σ} {a : α} : ReachableMoving system allowed view k m s →
      system.enabled s a → allowed s a → system.step s a = .ok s' → view s' ≠ view s →
      ReachableMoving system allowed view (k + 1) (m + 1) s'

theorem ReachableMoving.reachable {β : Type} {view : σ → β} {k m : Nat} {s : σ}
    (reached : ReachableMoving system allowed view k m s) : Reachable system allowed s := by
  induction reached with
  | init start => exact .init start
  | rest _ enabled kept stepped _ ih => exact ih.step enabled kept stepped
  | move _ enabled kept stepped _ ih => exact ih.step enabled kept stepped

theorem ReachableIn.exists_moving {β : Type} (view : σ → β) {k : Nat} {s : σ}
    (reached : ReachableIn system allowed k s) :
    ∃ m, ReachableMoving system allowed view k m s := by
  induction reached with
  | init start => exact ⟨0, .init start⟩
  | @step k s s' a _ enabled kept stepped ih =>
      obtain ⟨m, moving⟩ := ih
      by_cases same : view s' = view s
      · exact ⟨m, moving.rest enabled kept stepped same⟩
      · exact ⟨m + 1, moving.move enabled kept stepped same⟩

/-- States that a run leads to from a given one. -/
inductive Reaches (system : System σ α ε) (allowed : σ → α → Prop) (s : σ) : σ → Prop where
  | refl : Reaches system allowed s s
  | step {s₁ s₂ : σ} {a : α} : Reaches system allowed s s₁ → system.enabled s₁ a →
      allowed s₁ a → system.step s₁ a = .ok s₂ → Reaches system allowed s s₂

theorem Reaches.trans {s₁ s₂ s₃ : σ} (first : Reaches system allowed s₁ s₂)
    (second : Reaches system allowed s₂ s₃) : Reaches system allowed s₁ s₃ := by
  induction second with
  | refl => exact first
  | step _ enabled kept stepped ih => exact ih.step enabled kept stepped

theorem Reaches.reachable {s s' : σ} (reaches : Reaches system allowed s s')
    (reachable : Reachable system allowed s) : Reachable system allowed s' := by
  induction reaches with
  | refl => exact reachable
  | step _ enabled kept stepped ih => exact ih.step enabled kept stepped

/-- What is preserved by every allowed step is kept from a reachable state on. -/
theorem Reaches.invariant (inv : σ → Prop) {s s' : σ}
    (reaches : Reaches system allowed s s') (reachable : Reachable system allowed s)
    (now : inv s)
    (preserved : ∀ s a s', Reachable system allowed s → inv s → system.enabled s a →
      allowed s a → system.step s a = .ok s' → inv s') : inv s' := by
  induction reaches with
  | refl => exact now
  | step before enabled kept stepped ih =>
      exact preserved _ _ _ (before.reachable reachable) ih enabled kept stepped

section Execution

variable (system allowed)
variable [∀ s a, Decidable (system.enabled s a)] [∀ s a, Decidable (allowed s a)]

/-- Run a list of actions, as long as each is enabled, allowed and does not stop
the run. -/
def exec (s : σ) : List α → Option σ
  | [] => some s
  | a :: rest =>
      if system.enabled s a ∧ allowed s a then
        match system.step s a with
        | .ok s' => exec s' rest
        | .error _ => none
      else none

variable {system allowed}

theorem exec_cons {s s' : σ} {a : α} {rest : List α}
    (executed : exec system allowed s (a :: rest) = some s') :
    system.enabled s a ∧ allowed s a ∧
      ∃ next, system.step s a = .ok next ∧ exec system allowed next rest = some s' := by
  simp only [exec] at executed
  split at executed
  next legal =>
    cases stepEq : system.step s a with
    | ok next =>
        rw [stepEq] at executed
        exact ⟨legal.1, legal.2, next, rfl, executed⟩
    | error reason => simp [stepEq] at executed
  next => simp at executed

theorem reaches_exec {s s' : σ} {actions : List α}
    (executed : exec system allowed s actions = some s') :
    Reaches system allowed s s' := by
  induction actions generalizing s with
  | nil =>
      obtain rfl : s = s' := by simpa [exec] using executed
      exact .refl
  | cons a rest ih =>
      obtain ⟨enabled, kept, next, stepped, executed⟩ := exec_cons executed
      exact (Reaches.refl.step enabled kept stepped).trans (ih executed)

/-- The form in which a concrete run is evaluated: it suffices that it goes
through. -/
theorem exists_reachable_exec {s : σ} {actions : List α} {check : σ → Bool}
    (reachable : Reachable system allowed s)
    (executed : (exec system allowed s actions).any check = true) :
    ∃ s', exec system allowed s actions = some s' ∧ check s' = true ∧
      Reachable system allowed s' := by
  cases result : exec system allowed s actions with
  | none => simp [result] at executed
  | some s' =>
      rw [result] at executed
      exact ⟨s', rfl, by simpa using executed, (reaches_exec result).reachable reachable⟩

end Execution

end Transition
