import Libtask.FdtaskStep

/-!
# fdtask polls only when nothing else is to be done

`fdtask` gets to its `poll` when its `taskyield` found no other task ready, and so no task is
ready then.  The timeout ends no later than the first sleeper has to be woken.
-/

namespace Libtask

open Function (update update_self update_of_ne)
open Outcome (bind_eq_ok)
open Transition

variable {s s₁ : St} {t u : TaskPtr} {code : Code}

/-- A yielding task at the head of the run queue has nobody in front of it. -/
theorem Yielding.front {pc : Pc} {n : BitVec 32} {passed before : List TaskPtr}
    (yielding : Yielding t pc n passed before s)
    (isHead : (s.seq .taskrunqueue).head? = some t) : before = [] := by
  obtain ⟨new, queue, -⟩ := yielding.queue
  have nodup := yielding.nodup
  cases before with
  | nil => rfl
  | cons v rest =>
      rw [queue] at isHead
      obtain rfl : v = t := Option.some.inj isHead
      simp at nodup

/-- At the moment of a `poll` the run queue is empty. -/
theorem PollCall.idle_queue {allowed : St → Act → Prop}
    (few : ∀ s a, allowed s a → FewTasks s a) (reachable : Reachable allowed s)
    (called : PollCall s t s₁) : s.seq .taskrunqueue = [t] ∧ s₁.seq .taskrunqueue = [] := by
  obtain ⟨-, isHead, lists, s₁Eq, -, seqEq, -⟩ := taskscheduler_ok called.scheduled
  obtain ⟨n, stopped, polls⟩ := called.called
  rw [taskscheduler_pc called.scheduled] at stopped
  have live := (Acts.dispatch called.idle isHead : Acts s (.dispatch {}) t _).live
    (reachable_inv reachable)
  obtain ⟨passed, before, yielding, bounded⟩ := reachable_inRound few reachable t live n stopped
  obtain rfl := yielding.front isHead
  have small : passed.length < 2 ^ 31 := by
    rcases bounded with rfl | bound
    · decide
    · exact bound
  obtain ⟨-, -, returned⟩ := yielding.returns small called.scheduled
  rw [returned] at polls
  have nobody : passed = [] := by
    apply List.eq_nil_of_length_eq_zero
    omega
  obtain ⟨new, queue, fresh⟩ := yielding.queue
  rw [(fresh nobody).1] at queue
  have alone : s.seq .taskrunqueue = [t] := queue
  refine ⟨alone, ?_⟩
  simp [s₁Eq, seqEq, alone]

/-- Where a turn of `fdtask` leaves it at the head of the run queue, it polls in its next turn, as
nobody ran since its `taskyield`. -/
theorem exists_pollCall {allowed : St → Act → Prop} {s' s₂ : St} {env env' : Env}
    (reachable : Reachable allowed s) (isEnabled : enabled s (.dispatch env))
    (acts : Acts s (.dispatch env) t code) (stepped : step s (.dispatch env) = .ok s')
    (isFdtask : (s.task t).pc.isFdtask = true) (isHead : (s'.seq .taskrunqueue).head? = some t)
    (isEnabled' : enabled s' (.dispatch env')) (stepped' : step s' (.dispatch env') = .ok s₂) :
    ∃ s₁, PollCall s' t s₁ := by
  obtain ⟨n, stopped⟩ := fdtask_yields isEnabled acts stepped isFdtask
  obtain ⟨qs, called⟩ := exists_yieldCall isEnabled acts stepped stopped
  obtain ⟨pc, m, yielding, -⟩ := called.yielding (reachable_inv reachable) isEnabled stepped
  obtain rfl := yielding.stopped.symm.trans stopped
  obtain rfl : n = m := Option.some.inj yielding.yields
  obtain rfl := yielding.front isHead
  cases step_shape isEnabled' stepped' with
  | dispatch idle scheduled =>
      obtain ⟨rfl, stopped', nobody⟩ := yielding.returns (by decide) scheduled
      exact ⟨_, idle, scheduled, n, stopped', by simp [nobody]⟩

/-- The timeout in unbounded numbers. -/
def exactTimeout (s : St) (now : Nat) : Int :=
  match (s.seq .sleeping).head? with
  | none => -1
  | some t => min ((s.alarmtime t - now) / 1000000 : Nat) 5000

/-- The computation of the timeout does not wrap, and the conversion to `int` keeps it. -/
theorem polltimeout_exact {now : Nat} (sane : now < 2 ^ 63) :
    polltimeout s now = exactTimeout s now := by
  unfold polltimeout exactTimeout
  rw [head_eq]
  cases headEq : (s.seq .sleeping).head? with
  | none => rfl
  | some t =>
      have noWrap : (now + 5 * 1000 * 1000 * 1000) % 2 ^ 64 = now + 5 * 1000 * 1000 * 1000 :=
        Nat.mod_eq_of_lt (by omega)
      simp only [noWrap, St.alarmtime]
      by_cases late : now ≥ (s.task t).alarmtime
      · rw [if_pos late]
        omega
      · rw [if_neg late]
        by_cases near : now + 5 * 1000 * 1000 * 1000 ≥ (s.task t).alarmtime
        · rw [if_pos near, toInt_ofNat_small (by omega)]
          omega
        · rw [if_neg near]
          omega

/-- While the clock stays below `2 ^ 63` and the number of tasks is an `int`: whenever `fdtask`
calls `poll`, no task is ready; the timeout is infinite exactly if no task sleeps, and
otherwise it is at most five seconds and ends no later than the alarm of any sleeper, or at
once; and the arithmetic is exact. -/
theorem poll_idle {allowed : St → Act → Prop} {s s₁ : St} {t : TaskPtr} {env : Env}
    (clock : ∀ s a, allowed s a → SaneClock s a) (few : ∀ s a, allowed s a → FewTasks s a)
    (reachable : Reachable allowed s) (kept : allowed s (.dispatch env))
    (called : PollCall s t s₁) :
    s₁.seq .taskrunqueue = [] ∧ (∀ u, (s₁.task u).ready = false) ∧
    (polltimeout s₁ env.now = -1 ↔ s₁.seq .sleeping = []) ∧
    (∀ u ∈ s₁.seq .sleeping, 0 ≤ polltimeout s₁ env.now ∧ polltimeout s₁ env.now ≤ 5000 ∧
      env.now + polltimeout s₁ env.now * 1000000 ≤ max env.now (s₁.alarmtime u)) ∧
    env.now + 5 * 1000 * 1000 * 1000 < 2 ^ 64 ∧
    polltimeout s₁ env.now = exactTimeout s₁ env.now := by
  have early : env.now < 2 ^ 63 := (clock s _ kept).1
  have empty := (called.idle_queue few reachable).2
  have inv := reachable_inv reachable
  rw [called.idle] at inv
  have inv₁ := inv.dispatch called.scheduled
  have sorted : Agenda.Sorted s₁.alarmtime (s₁.seq .sleeping) := by
    rw [called.before.1, called.before.2]
    exact reachable_sorted reachable
  rw [polltimeout_exact early]
  refine ⟨empty, fun u => ?_, ?_, fun u asleep => ?_, by omega, rfl⟩
  · rw [Bool.eq_false_iff]
    intro ready
    have queued := (mem_seq_iff s₁ u _).mpr ((inv₁.listed u).ready.mp ready)
    rw [empty] at queued
    cases queued
  · unfold exactTimeout
    cases headEq : (s₁.seq .sleeping).head? with
    | none => simpa using headEq
    | some v =>
        have someone : s₁.seq .sleeping ≠ [] := by
          rintro nobody
          rw [nobody] at headEq
          cases headEq
        simp only [someone, iff_false]
        omega
  · unfold exactTimeout
    cases headEq : (s₁.seq .sleeping).head? with
    | none =>
        rw [List.head?_eq_none_iff.mp headEq] at asleep
        cases asleep
    | some v =>
        have first := sorted.head_le headEq asleep
        dsimp only
        omega

/-- The clock and the number of tasks are in their ranges. -/
def InRange (s : St) (a : Act) : Prop := SaneClock s a ∧ FewTasks s a

instance (s : St) (a : Act) : Decidable (InRange s a) := inferInstanceAs (Decidable (_ ∧ _))

/-- `fdtask` polls again after a `poll` that was interrupted, one millisecond into a sleep of
five. -/
theorem poll_idle_again : ∃ s s₁ : St, PollCall s 2 s₁ ∧ s.npollfd = 0 ∧
    dispatches s.trace = [1, 2, 2] ∧ s₁.seq .taskrunqueue = [] ∧
    polltimeout s₁ 1000000 = exactTimeout s₁ 1000000 := by
  obtain ⟨s, checked, reachable⟩ := exists_run InRange (fun _ => none)
    [.dispatch {}, .call (.taskdelay 5 0 (some 2)), .dispatch {}, .dispatch { poll := .eintr }]
    (fun s => decide (s.taskrunning = none) && decide (s.npollfd = 0) &&
      decide (dispatches s.trace = [1, 2, 2]) &&
      decide (InRange s (.dispatch { now := 1000000 })) &&
      match taskscheduler s with
      | .ok (s₁, t) => decide (t = 2) && decide ((s₁.task 2).pc = .fdtaskYield 3) &&
          decide (taskyieldReturn s₁ 3 ≤ 0)
      | .error _ => false)
    (by decide +kernel)
  simp only [Bool.and_eq_true, decide_eq_true_eq] at checked
  obtain ⟨⟨⟨⟨idle, noFd⟩, dispatched⟩, kept⟩, next⟩ := checked
  split at next
  next s₁ t scheduled =>
    simp only [Bool.and_eq_true, decide_eq_true_eq] at next
    obtain ⟨⟨rfl, stopped⟩, polls⟩ := next
    have called : PollCall s 2 s₁ := ⟨idle, scheduled, 3, stopped, polls⟩
    obtain ⟨empty, -, -, -, -, exact'⟩ := poll_idle (fun _ _ kept => kept.1)
      (fun _ _ kept => kept.2) reachable kept called
    exact ⟨s, s₁, called, noFd, dispatched, empty, exact'⟩
  next => cases next

end Libtask
