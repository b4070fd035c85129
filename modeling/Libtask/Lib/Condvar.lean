import Libtask.Lib.Replay
import Mathlib.Data.List.Nodup

/-!
# A condition variable with a queue of sleepers

The variable as a machine over its events: a task goes to sleep, a wake-up selects some
sleepers from the front of the queue, and a selected task returns.  The state carries its
invariant: a task sleeps once, or is on its way back once.
-/

namespace Condvar

variable {τ : Type} [DecidableEq τ]

inductive CvEvent (τ : Type) where
  | sleep (t : τ)
  | wake (selected : List τ)
  | ret (t : τ)

structure CvState (τ : Type) where
  waiting : List τ
  /-- selected, and not yet returned -/
  woken : List τ
  nodup : (waiting ++ woken).Nodup

def cvInit : CvState τ where
  waiting := []
  woken := []
  nodup := List.nodup_nil

omit [DecidableEq τ] in
theorem nodup_sleep {waiting woken : List τ} {t : τ} (nodup : (waiting ++ woken).Nodup)
    (fresh : t ∉ waiting ++ woken) : ((waiting ++ [t]) ++ woken).Nodup := by
  have moved : ((waiting ++ [t]) ++ woken).Perm (t :: (waiting ++ woken)) := by
    rw [List.append_assoc]
    exact List.perm_middle
  exact moved.nodup_iff.mpr (List.nodup_cons.mpr ⟨fresh, nodup⟩)

omit [DecidableEq τ] in
theorem nodup_wake {waiting woken selected : List τ} (front : selected <+: waiting)
    (nodup : (waiting ++ woken).Nodup) :
    (waiting.drop selected.length ++ (woken ++ selected)).Nodup := by
  obtain ⟨rest, rfl⟩ := front
  rw [List.drop_left]
  have moved : (rest ++ (woken ++ selected)).Perm ((selected ++ rest) ++ woken) := by
    rw [← List.append_assoc, List.append_assoc selected]
    exact List.perm_append_comm
  exact moved.nodup_iff.mpr nodup

theorem nodup_ret {waiting woken : List τ} (t : τ) (nodup : (waiting ++ woken).Nodup) :
    (waiting ++ woken.erase t).Nodup :=
  nodup.sublist ((List.erase_sublist).append_left waiting)

def cvApply (s : CvState τ) : CvEvent τ → Option (CvState τ)
  | .sleep t =>
      if fresh : t ∉ s.waiting ++ s.woken then
        some { s with waiting := s.waiting ++ [t], nodup := nodup_sleep s.nodup fresh }
      else none
  | .wake selected =>
      if front : selected <+: s.waiting then
        some
          { waiting := s.waiting.drop selected.length
            woken := s.woken ++ selected
            nodup := nodup_wake front s.nodup }
      else none
  | .ret t =>
      if t ∈ s.woken then
        some { s with woken := s.woken.erase t, nodup := nodup_ret t s.nodup }
      else none

def machine : Replay.Machine (CvState τ) (CvEvent τ) := ⟨cvInit, cvApply⟩

/-- What one event does to the state, with its guard. -/
theorem cvApply_cases {s s' : CvState τ} {e : CvEvent τ}
    (applied : machine.apply s e = some s') :
    (∃ t, e = .sleep t ∧ t ∉ s.waiting ∧ t ∉ s.woken ∧ s'.waiting = s.waiting ++ [t] ∧
      s'.woken = s.woken) ∨
    (∃ selected, e = .wake selected ∧ s.waiting = selected ++ s'.waiting ∧
      s'.woken = s.woken ++ selected) ∨
    (∃ t, e = .ret t ∧ t ∈ s.woken ∧ s'.waiting = s.waiting ∧ s'.woken = s.woken.erase t) := by
  cases e with
  | sleep t =>
      simp only [machine, cvApply] at applied
      split at applied
      next fresh =>
        obtain rfl := Option.some.inj applied
        simp only [List.mem_append, not_or] at fresh
        exact Or.inl ⟨t, rfl, fresh.1, fresh.2, rfl, rfl⟩
      next => cases applied
  | wake selected =>
      simp only [machine, cvApply] at applied
      split at applied
      next front =>
        obtain rfl := Option.some.inj applied
        obtain ⟨rest, waitingEq⟩ := front
        refine Or.inr (Or.inl ⟨selected, rfl, ?_, rfl⟩)
        simp [← waitingEq]
      next => cases applied
  | ret t =>
      simp only [machine, cvApply, Option.ite_none_right_eq_some] at applied
      obtain ⟨member, applied⟩ := applied
      obtain rfl := Option.some.inj applied
      exact Or.inr (Or.inr ⟨t, rfl, member, rfl, rfl⟩)

/-! Events that may happen. -/

theorem apply_sleep {s : CvState τ} {t : τ} (awake : t ∉ s.waiting ∧ t ∉ s.woken) :
    ∃ s', machine.apply s (.sleep t) = some s' ∧ s'.waiting = s.waiting ++ [t] ∧
      s'.woken = s.woken := by
  have fresh : t ∉ s.waiting ++ s.woken := by simpa using awake
  simp only [machine, cvApply, dif_pos fresh]
  exact ⟨_, rfl, rfl, rfl⟩

theorem apply_wake {s : CvState τ} {selected : List τ} (front : selected <+: s.waiting) :
    ∃ s', machine.apply s (.wake selected) = some s' ∧
      s'.waiting = s.waiting.drop selected.length ∧ s'.woken = s.woken ++ selected := by
  simp only [machine, cvApply, dif_pos front]
  exact ⟨_, rfl, rfl, rfl⟩

theorem apply_ret {s : CvState τ} {t : τ} (woken : t ∈ s.woken) :
    ∃ s', machine.apply s (.ret t) = some s' ∧ s'.waiting = s.waiting ∧
      s'.woken = s.woken.erase t := by
  simp only [machine, cvApply, if_pos woken]
  exact ⟨_, rfl, rfl, rfl⟩

/-! ## Histories -/

def CvEvent.sleeper : CvEvent τ → Option τ
  | .sleep t => some t
  | _ => none

def CvEvent.selected : CvEvent τ → List τ
  | .wake selected => selected
  | _ => []

def CvEvent.returner : CvEvent τ → Option τ
  | .ret t => some t
  | _ => none

def sleeps (log : List (CvEvent τ)) : List τ := log.filterMap CvEvent.sleeper

def selections (log : List (CvEvent τ)) : List τ := log.flatMap CvEvent.selected

def returns (log : List (CvEvent τ)) : List τ := log.filterMap CvEvent.returner

omit [DecidableEq τ] in
@[simp] theorem sleeps_snoc (log : List (CvEvent τ)) (e : CvEvent τ) :
    sleeps (log ++ [e]) = sleeps log ++ e.sleeper.toList :=
  Replay.filterMap_snoc _ log e

omit [DecidableEq τ] in
@[simp] theorem selections_snoc (log : List (CvEvent τ)) (e : CvEvent τ) :
    selections (log ++ [e]) = selections log ++ e.selected := by
  simp [selections]

omit [DecidableEq τ] in
@[simp] theorem returns_snoc (log : List (CvEvent τ)) (e : CvEvent τ) :
    returns (log ++ [e]) = returns log ++ e.returner.toList :=
  Replay.filterMap_snoc _ log e

/-- Sleepers are selected in the order in which they went to sleep. -/
theorem sleeps_eq {log : List (CvEvent τ)} {s : CvState τ}
    (accepted : machine.replay log = some s) : sleeps log = selections log ++ s.waiting := by
  refine Replay.Machine.replay_induction
    (motive := fun log s => sleeps log = selections log ++ s.waiting) rfl ?_ accepted
  intro log s e s' _ ih applied
  rw [sleeps_snoc, selections_snoc, ih]
  rcases cvApply_cases applied with
    ⟨t, rfl, -, -, waitingEq, -⟩ | ⟨selected, rfl, waitingEq, -⟩ | ⟨t, rfl, -, waitingEq, -⟩
  · simp [waitingEq, CvEvent.sleeper, CvEvent.selected]
  · simp [waitingEq, CvEvent.sleeper, CvEvent.selected]
  · simp [waitingEq, CvEvent.sleeper, CvEvent.selected]

/-- What was selected has returned, or is on its way back. -/
theorem selections_perm {log : List (CvEvent τ)} {s : CvState τ}
    (accepted : machine.replay log = some s) :
    (selections log).Perm (returns log ++ s.woken) := by
  refine Replay.Machine.replay_induction
    (motive := fun log s => (selections log).Perm (returns log ++ s.woken)) (List.Perm.refl _)
    ?_ accepted
  intro log s e s' _ ih applied
  rw [returns_snoc, selections_snoc]
  rcases cvApply_cases applied with
    ⟨t, rfl, -, -, -, wokenEq⟩ | ⟨selected, rfl, -, wokenEq⟩ | ⟨t, rfl, member, -, wokenEq⟩
  · simpa [wokenEq, CvEvent.returner, CvEvent.selected] using ih
  · rw [wokenEq]
    simpa [CvEvent.returner, CvEvent.selected] using ih.append_right selected
  · rw [wokenEq]
    simp only [CvEvent.returner, CvEvent.selected, List.append_nil, Option.toList_some,
      List.append_assoc, List.singleton_append]
    exact ih.trans ((List.perm_cons_erase member).append_left _)

/-- Going to sleep, being selected and returning alternate for every task. -/
theorem alternates {log : List (CvEvent τ)} {s : CvState τ}
    (accepted : machine.replay log = some s) (t : τ) :
    (returns log).count t ≤ (selections log).count t ∧
      (selections log).count t ≤ (sleeps log).count t ∧
      (sleeps log).count t ≤ (returns log).count t + 1 := by
  have once := List.nodup_iff_count_le_one.mp s.nodup t
  rw [sleeps_eq accepted, List.count_append, (selections_perm accepted).count_eq,
    List.count_append]
  rw [List.count_append] at once
  omega

/-- A sleeper waits until it is selected. -/
theorem waits_until_selected {before after : List (CvEvent τ)} {t : τ} {s : CvState τ}
    (accepted : machine.replay (before ++ .sleep t :: after) = some s)
    (unselected : t ∉ selections after) : t ∈ s.waiting := by
  obtain ⟨start, -, resumed⟩ := Replay.Machine.replay_append accepted
  obtain ⟨first, firstEq, resumed⟩ := Option.bind_eq_some_iff.mp resumed
  refine Replay.Machine.resume_induction
    (motive := fun log s => t ∉ selections log → t ∈ s.waiting) ?_ ?_ resumed unselected
  · intro _
    rcases cvApply_cases firstEq with ⟨u, isSleep, -, -, waitingEq, -⟩ | ⟨_, h, -⟩ | ⟨_, h, -⟩
    · cases isSleep
      simp [waitingEq]
    · cases h
    · cases h
  · intro log s e s' _ ih applied unselected
    simp only [selections_snoc, List.mem_append, not_or] at unselected
    have waits := ih unselected.1
    rcases cvApply_cases applied with
      ⟨u, rfl, -, -, waitingEq, -⟩ | ⟨selected, rfl, waitingEq, -⟩ | ⟨u, rfl, -, waitingEq, -⟩
    · simp [waitingEq, waits]
    · rw [waitingEq] at waits
      exact (List.mem_append.mp waits).resolve_left unselected.2
    · rw [waitingEq]
      exact waits

/-- A wake-up selects tasks that went to sleep before it. -/
theorem selects_earlier {before after : List (CvEvent τ)} {selected : List τ} {s : CvState τ}
    (accepted : machine.replay (before ++ .wake selected :: after) = some s) :
    selections before ++ selected <+: sleeps before := by
  obtain ⟨start, startAccepted, resumed⟩ := Replay.Machine.replay_append accepted
  obtain ⟨next, nextEq, -⟩ := Option.bind_eq_some_iff.mp resumed
  rw [sleeps_eq startAccepted]
  rcases cvApply_cases nextEq with ⟨_, h, -⟩ | ⟨selected', isWake, waitingEq, -⟩ | ⟨_, h, -⟩
  · cases h
  · cases isWake
    rw [waitingEq, ← List.append_assoc]
    exact List.prefix_append _ _
  · cases h

end Condvar
