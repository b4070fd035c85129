import Libtask.Lib.Replay

/-!
# A mutual-exclusion lock with FIFO hand-off

The lock as a machine over its events: a direct grant of the free lock, a caller
that blocks, and a release that hands the lock to the first waiting task.  The
results speak about all accepted logs.
-/

namespace FifoLock

variable {τ : Type} [DecidableEq τ]

inductive LockEvent (τ : Type) where
  | grant (t : τ)
  | block (t : τ)
  | release (t : τ) (next : Option τ)

/-- A lock is free only if nobody waits for it. -/
structure LockState (τ : Type) where
  owner : Option τ
  waiting : List τ
  free_idle : owner = none → waiting = []

def lockInit : LockState τ where
  owner := none
  waiting := []
  free_idle := fun _ => rfl

def lockApply (s : LockState τ) : LockEvent τ → Option (LockState τ)
  | .grant t =>
      if s.owner = none then
        some { owner := some t, waiting := s.waiting, free_idle := nofun }
      else none
  | .block t =>
      if held : s.owner ≠ none then
        some
          { owner := s.owner
            waiting := s.waiting ++ [t]
            free_idle := fun free => absurd free held }
      else none
  | .release t next =>
      if legal : s.owner = some t ∧ next = s.waiting.head? then
        some
          { owner := next
            waiting := s.waiting.tail
            free_idle := by
              intro free
              rw [legal.2] at free
              rw [List.head?_eq_none_iff.mp free, List.tail_nil] }
      else none

def machine : Replay.Machine (LockState τ) (LockEvent τ) := ⟨lockInit, lockApply⟩

/-! ## Histories -/

/-- Who blocks in an event. -/
def LockEvent.blocker : LockEvent τ → Option τ
  | .block t => some t
  | _ => none

/-- Who gets the lock by hand-off. -/
def LockEvent.heir : LockEvent τ → Option τ
  | .release _ next => next
  | _ => none

/-- Who gets the lock, directly or by hand-off. -/
def LockEvent.grantee : LockEvent τ → Option τ
  | .grant t => some t
  | .release _ next => next
  | .block _ => none

def LockEvent.releaser : LockEvent τ → Option τ
  | .release t _ => some t
  | _ => none

def blocked (log : List (LockEvent τ)) : List τ := log.filterMap LockEvent.blocker

def handed (log : List (LockEvent τ)) : List τ := log.filterMap LockEvent.heir

def granted (log : List (LockEvent τ)) : List τ := log.filterMap LockEvent.grantee

def released (log : List (LockEvent τ)) : List τ := log.filterMap LockEvent.releaser

/-- `t` was granted the lock more often than it released it. -/
def Holds (log : List (LockEvent τ)) (t : τ) : Prop :=
  (released log).count t < (granted log).count t

instance (log : List (LockEvent τ)) (t : τ) : Decidable (Holds log t) :=
  inferInstanceAs (Decidable (_ < _))

/-- What one event does to the state, with its guard. -/
theorem lockApply_cases {s s' : LockState τ} {e : LockEvent τ}
    (applied : machine.apply s e = some s') :
    (∃ t, e = .grant t ∧ s.owner = none ∧ s'.owner = some t ∧ s'.waiting = s.waiting) ∨
    (∃ t, e = .block t ∧ s.owner ≠ none ∧ s'.owner = s.owner ∧
      s'.waiting = s.waiting ++ [t]) ∨
    (∃ t, e = .release t s.waiting.head? ∧ s.owner = some t ∧
      s'.owner = s.waiting.head? ∧ s'.waiting = s.waiting.tail) := by
  cases e with
  | grant t =>
      simp only [machine, lockApply, Option.ite_none_right_eq_some] at applied
      obtain ⟨free, applied⟩ := applied
      obtain rfl := Option.some.inj applied
      exact Or.inl ⟨t, rfl, free, rfl, rfl⟩
  | block t =>
      simp only [machine, lockApply] at applied
      split at applied
      next held =>
        obtain rfl := Option.some.inj applied
        exact Or.inr (Or.inl ⟨t, rfl, held, rfl, rfl⟩)
      next => cases applied
  | release t next =>
      simp only [machine, lockApply] at applied
      split at applied
      next legal =>
        obtain rfl := Option.some.inj applied
        obtain ⟨ownerEq, rfl⟩ := legal
        exact Or.inr (Or.inr ⟨t, rfl, ownerEq, rfl, rfl⟩)
      next => cases applied

/-! Events that may happen. -/

theorem apply_grant {s : LockState τ} (t : τ) (free : s.owner = none) :
    ∃ s', machine.apply s (.grant t) = some s' ∧ s'.owner = some t ∧
      s'.waiting = s.waiting := by
  simp only [machine, lockApply, if_pos free]
  exact ⟨_, rfl, rfl, rfl⟩

theorem apply_block {s : LockState τ} (t : τ) (held : s.owner ≠ none) :
    ∃ s', machine.apply s (.block t) = some s' ∧ s'.owner = s.owner ∧
      s'.waiting = s.waiting ++ [t] := by
  simp only [machine, lockApply, dif_pos held]
  exact ⟨_, rfl, rfl, rfl⟩

theorem apply_release {s : LockState τ} {t : τ} {next : Option τ} (owner : s.owner = some t)
    (isNext : next = s.waiting.head?) :
    ∃ s', machine.apply s (.release t next) = some s' ∧ s'.owner = next ∧
      s'.waiting = s.waiting.tail := by
  have legal : s.owner = some t ∧ next = s.waiting.head? := ⟨owner, isNext⟩
  simp only [machine, lockApply, dif_pos legal]
  exact ⟨_, rfl, rfl, rfl⟩

/-- Blocked callers get the lock in the order in which they blocked. -/
theorem fifo {log : List (LockEvent τ)} {s : LockState τ}
    (accepted : machine.replay log = some s) : blocked log = handed log ++ s.waiting := by
  refine Replay.Machine.replay_induction
    (motive := fun log s => blocked log = handed log ++ s.waiting) rfl ?_ accepted
  intro log s e s' _ ih applied
  simp only [blocked, handed, Replay.filterMap_snoc] at ih ⊢
  rcases lockApply_cases applied with
    ⟨t, rfl, -, -, waitingEq⟩ | ⟨t, rfl, -, -, waitingEq⟩ | ⟨t, rfl, -, -, waitingEq⟩
  · simp [ih, waitingEq, LockEvent.blocker, LockEvent.heir]
  · simp [ih, waitingEq, LockEvent.blocker, LockEvent.heir]
  · rw [ih, waitingEq]
    cases s.waiting <;> simp [LockEvent.blocker, LockEvent.heir]

/-- Grants and releases alternate: what was granted and not yet released is the
owner. -/
theorem exclusive {log : List (LockEvent τ)} {s : LockState τ}
    (accepted : machine.replay log = some s) :
    granted log = released log ++ s.owner.toList := by
  refine Replay.Machine.replay_induction
    (motive := fun log s => granted log = released log ++ s.owner.toList) rfl ?_ accepted
  intro log s e s' _ ih applied
  simp only [granted, released, Replay.filterMap_snoc] at ih ⊢
  rcases lockApply_cases applied with
    ⟨t, rfl, free, ownerEq, -⟩ | ⟨t, rfl, -, ownerEq, -⟩ | ⟨t, rfl, held, ownerEq, -⟩
  · simp [ih, free, ownerEq, LockEvent.grantee, LockEvent.releaser]
  · simp [ih, ownerEq, LockEvent.grantee, LockEvent.releaser]
  · simp [ih, held, ownerEq, LockEvent.grantee, LockEvent.releaser]

/-- The holder of the lock is its owner. -/
theorem holds_iff {log : List (LockEvent τ)} {s : LockState τ}
    (accepted : machine.replay log = some s) (t : τ) :
    Holds log t ↔ s.owner = some t := by
  rw [Holds, exclusive accepted, List.count_append]
  cases s.owner with
  | none => simp
  | some owner =>
      by_cases same : owner = t
      · simp [same]
      · simp [same]

/-- A task that waits for the lock or owns it keeps its claim until it releases the
lock itself. -/
theorem claim_kept {s s' : LockState τ} {e : LockEvent τ} {t : τ}
    (applied : machine.apply s e = some s') (notReleased : e.releaser ≠ some t)
    (claim : t ∈ s.waiting ∨ s.owner = some t) : t ∈ s'.waiting ∨ s'.owner = some t := by
  rcases lockApply_cases applied with
    ⟨u, rfl, free, ownerEq, waitingEq⟩ | ⟨u, rfl, held, ownerEq, waitingEq⟩ |
      ⟨u, rfl, held, ownerEq, waitingEq⟩
  · rw [s.free_idle free, free] at claim
    simp at claim
  · rw [waitingEq, ownerEq]
    exact claim.imp (List.mem_append_left _) id
  · rw [waitingEq, ownerEq]
    rcases claim with waits | owns
    · cases waitingIs : s.waiting with
      | nil => simp [waitingIs] at waits
      | cons first rest =>
          rw [waitingIs] at waits
          rcases List.mem_cons.mp waits with rfl | behind
          · exact Or.inr rfl
          · exact Or.inl behind
    · exact absurd (held.symm.trans owns) notReleased

/-- A direct grant overtakes nobody: whoever had blocked before has got the
lock. -/
theorem direct_grant_overtakes_none {before after : List (LockEvent τ)} {t : τ}
    {s : LockState τ} (accepted : machine.replay (before ++ .grant t :: after) = some s) :
    blocked before = handed before := by
  obtain ⟨middle, beforeAccepted, rest⟩ := Replay.Machine.replay_append accepted
  have free : middle.owner = none := by
    by_contra held
    simp [Replay.Machine.resume, machine, lockApply, held] at rest
  rw [fifo beforeAccepted, middle.free_idle free, List.append_nil]

end FifoLock
