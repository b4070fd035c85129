import Mathlib.Data.List.Induction

/-!
# Replaying event logs

A machine says in which states an event may happen and what it does.  A log is
accepted if replaying it from the initial state goes through; the result is the
state that the log leads to.
-/

namespace Replay

/-- An acceptor for event logs. -/
structure Machine (σ ε : Type) where
  init : σ
  apply : σ → ε → Option σ

/-- A history extracted from a log grows by what the last event contributes. -/
theorem filterMap_snoc {ε α : Type} (f : ε → Option α) (log : List ε) (e : ε) :
    (log ++ [e]).filterMap f = log.filterMap f ++ (f e).toList := by
  rw [List.filterMap_append]
  cases valueEq : f e <;> simp [valueEq]

namespace Machine

variable {σ ε : Type}

/-- Continue from state `s` with the events of a log. -/
def resume (machine : Machine σ ε) (s : σ) : List ε → Option σ
  | [] => some s
  | e :: rest => (machine.apply s e).bind fun s' => machine.resume s' rest

def replay (machine : Machine σ ε) (log : List ε) : Option σ :=
  machine.resume machine.init log

variable {machine : Machine σ ε}

theorem resume_append (s : σ) (before after : List ε) :
    machine.resume s (before ++ after) =
      (machine.resume s before).bind fun s' => machine.resume s' after := by
  induction before generalizing s with
  | nil => rfl
  | cons e rest ih =>
      simp only [List.cons_append, resume]
      cases machine.apply s e with
      | none => rfl
      | some next => exact ih next

/-- The state between two parts of an accepted log. -/
theorem replay_append {before after : List ε} {s : σ}
    (accepted : machine.replay (before ++ after) = some s) :
    ∃ middle, machine.replay before = some middle ∧
      machine.resume middle after = some s := by
  rw [replay, resume_append] at accepted
  cases middleEq : machine.resume machine.init before with
  | none => simp [middleEq] at accepted
  | some middle => exact ⟨middle, middleEq, by simpa [middleEq] using accepted⟩

theorem replay_snoc {log : List ε} {s s' : σ} {e : ε}
    (accepted : machine.replay log = some s) (applied : machine.apply s e = some s') :
    machine.replay (log ++ [e]) = some s' := by
  rw [replay, resume_append]
  rw [replay] at accepted
  simp [accepted, resume, applied]

/-- Induction along a resumed log, one event at a time from the front, where
`motive` speaks about the events so far and the state they lead to. -/
theorem resume_induction {motive : List ε → σ → Prop} {start : σ}
    (nil : motive [] start)
    (snoc : ∀ log s e s', machine.resume start log = some s → motive log s →
      machine.apply s e = some s' → motive (log ++ [e]) s')
    {log : List ε} {s : σ} (accepted : machine.resume start log = some s) :
    motive log s := by
  induction log using List.reverseRecOn generalizing s with
  | nil =>
      obtain rfl : start = s := by simpa [resume] using accepted
      exact nil
  | append_singleton log e ih =>
      rw [resume_append] at accepted
      cases middleEq : machine.resume start log with
      | none => simp [middleEq] at accepted
      | some middle =>
          cases applyEq : machine.apply middle e with
          | none => simp [middleEq, resume, applyEq] at accepted
          | some last =>
              obtain rfl : last = s := by simpa [middleEq, resume, applyEq] using accepted
              exact snoc log middle e last middleEq (ih middleEq) applyEq

/-- Induction along an accepted log. -/
theorem replay_induction {motive : List ε → σ → Prop} (nil : motive [] machine.init)
    (snoc : ∀ log s e s', machine.replay log = some s → motive log s →
      machine.apply s e = some s' → motive (log ++ [e]) s')
    {log : List ε} {s : σ} (accepted : machine.replay log = some s) : motive log s :=
  resume_induction nil snoc accepted

end Machine

end Replay
