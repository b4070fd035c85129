import Libtask.ExitCorrect
import Libtask.PollIdle

/-!
# Whether a stalled program is reported

The scheduler reports a program of which all tasks are blocked by the run queue being empty.
Once `fdtask` was started it is always in the run queue, so the report is made only if no
`taskdelay` and no `fdwait` came before; otherwise `fdtask` polls nothing, without a timeout.
-/

namespace Libtask

open Function (update update_self update_of_ne)
open Outcome (bind_eq_ok)
open Transition

/-- The program is stalled: apart from `fdtask`, every task is blocked on a channel, a lock or
a Rendez, and one of them is not a system task. -/
structure Stalled (s : St) : Prop where
  idle : s.taskrunning = none
  blocked : ∀ t ∈ s.alltask, (s.task t).pc.isFdtask = false →
    (s.task t).ready = false ∧ ((s.task t).pc.part = .locks ∨ (s.task t).pc.part = .channels)
  ordinary : ∃ t ∈ s.alltask, (s.task t).pc.isFdtask = false ∧ (s.task t).system = false

/-- A stalled program is ended by the scheduler with its message, and `fdtask` does not poll
nothing without a timeout. -/
def Reported (s : St) : Prop :=
  (Stalled s → ∀ env, enabled s (.dispatch env) →
    step s (.dispatch env) = .error (.noRunnable s.taskcount)) ∧
  ∀ t s₁ (env : Env), PollCall s t s₁ → ¬(polltimeout s₁ env.now = -1 ∧ s₁.npollfd = 0)

variable {s s' s₁ : St} {self t u : TaskPtr} {flow : Flow} {a : Act} {code : Code}

/-! ## fdtask is a system task -/

theorem finish_system (done : finish self (s, flow) = .ok s') (u : TaskPtr) :
    (s'.task u).system = (s.task u).system := by
  have moved : ∀ pc, ((s.setPc self pc).task u).system = (s.task u).system := by
    intro pc
    by_cases same : u = self
    · simp [St.setTask, same]
    · simp [St.setTask, same]
  rcases finish_ok done with ⟨r, -, rfl⟩ | ⟨pc, -, ⟨-, rfl⟩ | ⟨-, reaped⟩⟩
  · exact moved (.user r)
  · exact moved pc
  · obtain ⟨last, -, -, rfl⟩ := taskreap_ok reaped
    rw [← moved pc]
    by_cases same : u = last
    · simp [same]
    · simp [same]

theorem taskscheduler_system (done : taskscheduler s = .ok (s', t)) (u : TaskPtr) :
    (s'.task u).system = (s.task u).system := by
  obtain ⟨-, -, lists, rfl, -⟩ := taskscheduler_ok done
  by_cases same : u = t
  · simp [same]
  · simp [same]

theorem tasksystem_system (s : St) (self : TaskPtr) :
    ((tasksystem s self).task self).system = true := by
  unfold tasksystem
  split
  next isSystem => exact isSystem
  next => simp [St.setTask]

theorem reachable_fdtaskSystem {allowed : St → Act → Prop} (reachable : Reachable allowed s) :
    ∀ t ∈ s.alltask, ∀ n, (s.task t).pc = .fdtaskYield n → (s.task t).system = true := by
  apply reachable.invariant fun s =>
    ∀ t ∈ s.alltask, ∀ n, (s.task t).pc = .fdtaskYield n → (s.task t).system = true
  · rintro s ⟨rendez, mem, m, started⟩ t live n stopped
    have user := (main_notFdtask started).2 t live
    rw [stopped] at user
    cases user
  · intro s a s' before ih isEnabled kept stepped u live' n stopped
    have inv := reachable_inv before
    obtain ⟨t, code, acts, turned⟩ := exists_turned inv isEnabled stepped
    have notNew : u ∈ s.alltask := by
      by_contra unborn
      cases step_born inv isEnabled stepped with
      | users _ users =>
          rw [users u live' unborn] at stopped
          cases stopped
      | fdtask _ _ _ _ starts only =>
          rw [only u live' unborn, starts] at stopped
          cases stopped
    by_cases isT : u = t
    · subst isT
      have same := step_isFdtask before isEnabled acts stepped
      rw [stopped] at same
      cases step_shape isEnabled stepped with
      | call running isLegal called finished =>
          obtain ⟨rfl, -⟩ := acts.unique (.call running)
          obtain ⟨r, user⟩ := running_user before u running
          rw [user] at same
          cases same
      | dispatch idle scheduled resumed finished =>
          rename_i env v s₁ s₂ flow
          obtain ⟨-, isHead, -⟩ := taskscheduler_ok scheduled
          obtain ⟨rfl, -⟩ := acts.unique (.dispatch idle isHead)
          rw [finish_system finished]
          rw [taskscheduler_pc scheduled] at resumed
          cases pcEq : (s.task u).pc with
          | fdtask =>
              rw [pcEq] at resumed
              rw [(taskready_keepsTasks (fdtaskYield_ok resumed).2).system]
              exact tasksystem_system s₁ u
          | fdtaskYield n' =>
              rw [pcEq] at resumed
              rw [(fdtaskPass_childless resumed).system, taskscheduler_system scheduled]
              exact ih u notNew n' pcEq
          | _ =>
              rw [pcEq] at same
              cases same
    · have same := (turned.others u notNew isT).2
      rw [same.system]
      exact ih u notNew n (same.pc.symm.trans stopped)

/-! ## Stalled programs -/

theorem Inv.fdtask_ready (inv : Inv s.taskrunning s) (idle : s.taskrunning = none)
    (live : t ∈ s.alltask) (isFdtask : (s.task t).pc.isFdtask = true) :
    t ∈ s.seq .taskrunqueue := by
  have listed := inv.listed t
  rw [mem_seq_iff]
  cases homeEq : s.home t with
  | none =>
      have stopped : Stopped s.taskrunning s t (s.task t).pc :=
        ⟨live, by simp [idle], rfl⟩
      rcases listed.outside _ stopped homeEq with polls | ⟨a, base⟩
      · rw [polls] at isFdtask
        cases isFdtask
      · cases pcEq : (s.task t).pc <;> simp [pcEq, Pc.altbase, Pc.isFdtask] at base isFdtask
  | some l =>
      by_contra away
      have waits := listed.waits l homeEq fun onRun => away (by rw [onRun])
      cases pcEq : (s.task t).pc <;> simp [pcEq, Pc.waitlist, Pc.isFdtask] at waits isFdtask

/-- What the scheduler has to find for its report. -/
theorem taskscheduler_noRunnable {stalled : Int} :
    taskscheduler s = .error (.noRunnable stalled) ↔
      s.taskcount ≠ 0 ∧ s.seq .taskrunqueue = [] ∧ stalled = s.taskcount := by
  unfold taskscheduler
  by_cases none : s.taskcount = 0
  · simp [none]
  · rw [if_neg none, head_eq]
    cases headEq : (s.seq .taskrunqueue).head? with
    | none =>
        rw [List.head?_eq_none_iff] at headEq
        simp only [headEq, Except.error.injEq, Halt.noRunnable.injEq]
        exact ⟨fun same => ⟨none, trivial, same.symm⟩, fun found => found.2.2.symm⟩
    | some t =>
        have someone : s.seq .taskrunqueue ≠ [] := by
          intro nobody
          rw [nobody] at headEq
          cases headEq
        simp only [someone, false_and, and_false, iff_false]
        intro stopped
        rcases Outcome.bind_eq_error.mp stopped with failed | ⟨s₁, -, returned⟩
        · exact deltask_plain s _ _ _ failed (Or.inr trivial)
        · cases returned

/-- Only `fdtask` is ready in a stalled program. -/
theorem Stalled.ready (stalled : Stalled s) (inv : Inv s.taskrunning s)
    (member : t ∈ s.seq .taskrunqueue) : t ∈ s.alltask ∧ (s.task t).pc.isFdtask = true := by
  have live := (inv.listed t).live _ ((mem_seq_iff s t _).mp member)
  refine ⟨live, ?_⟩
  by_contra other
  have notReady := (stalled.blocked t live (by simpa using other)).1
  rw [(inv.ready_iff t).mpr member] at notReady
  cases notReady

/-- The timeout is infinite only if no task sleeps. -/
theorem polltimeout_infinite {now : Nat} (infinite : polltimeout s now = -1) :
    s.seq .sleeping = [] := by
  rw [← List.head?_eq_none_iff, ← head_eq]
  unfold polltimeout at infinite
  cases headEq : head s .sleeping with
  | none => rfl
  | some t =>
      simp only [headEq] at infinite
      split at infinite
      next => cases infinite
      next early =>
        split at infinite
        next near =>
          have sum := Nat.mod_le (now + 5 * 1000 * 1000 * 1000) (2 ^ 64)
          rw [toInt_ofNat_small (by omega)] at infinite
          omega
        next => cases infinite

/-- When `fdtask` polls nothing without a timeout, the program is stalled. -/
theorem PollCall.stalled {allowed : St → Act → Prop} (few : ∀ s a, allowed s a → FewTasks s a)
    (reachable : Reachable allowed s) (called : PollCall s t s₁)
    (noSleeper : s.seq .sleeping = []) (noFd : s.npollfd = 0) :
    Stalled s ∧ s.startedfdtask = true := by
  have inv := reachable_inv reachable
  have alone := (called.idle_queue few reachable).1
  obtain ⟨n, stopped, -⟩ := called.called
  rw [taskscheduler_pc called.scheduled] at stopped
  have ready : ∀ u, u ∈ s.seq .taskrunqueue ↔ u = t := by simp [alone]
  have live : t ∈ s.alltask :=
    (inv.listed t).live _ ((mem_seq_iff s t _).mp ((ready t).mpr rfl))
  have isFdtask : (s.task t).pc.isFdtask = true := by rw [stopped]; rfl
  refine ⟨⟨called.idle, fun u live' other => ?_, ?_⟩,
    (reachable_started reachable).mpr ⟨t, live, isFdtask⟩⟩
  · have isOther : u ≠ t := by
      rintro rfl
      rw [isFdtask] at other
      cases other
    have notReady : (s.task u).ready = false := by
      rw [Bool.eq_false_iff]
      exact fun isReady => isOther ((ready u).mp ((inv.ready_iff u).mp isReady))
    refine ⟨notReady, ?_⟩
    have idle : s.taskrunning ≠ some u := by simp [called.idle]
    have listed := inv.listed u
    cases homeEq : s.home u with
    | none =>
        rcases listed.outside _ ⟨live', idle, rfl⟩ homeEq with polls | ⟨a, base⟩
        · obtain ⟨i, inside, -⟩ := inv.polled.entry u ⟨live', idle, polls⟩ homeEq
          omega
        · cases pcEq : (s.task u).pc <;> simp [pcEq, Pc.altbase] at base
          all_goals exact Or.inr rfl
    | some l =>
        have queued := (mem_seq_iff s u l).mpr homeEq
        have waits := listed.waits l homeEq fun onRun => isOther ((ready u).mp (onRun ▸ queued))
        have awake : l ≠ .sleeping := by
          rintro rfl
          rw [noSleeper] at queued
          cases queued
        cases pcEq : (s.task u).pc <;> simp [pcEq, Pc.waitlist] at waits
        case taskdelay now => exact absurd waits.symm awake
        all_goals exact Or.inl rfl
  · obtain ⟨working, -⟩ := taskscheduler_ok called.scheduled
    have counted := (reachable_counted reachable).taskcount_eq_zero inv
    obtain ⟨u, live', ordinary⟩ : ∃ u ∈ s.alltask, (s.task u).system = false := by
      by_contra none
      refine working (counted.mpr fun u live' => ?_)
      by_contra isOrdinary
      exact none ⟨u, live', by simpa using isOrdinary⟩
    refine ⟨u, live', ?_, ordinary⟩
    by_contra inFdtask
    have isFdtask' : (s.task u).pc.isFdtask = true := by simpa using inFdtask
    obtain rfl := (ready u).mp (inv.fdtask_ready called.idle live' isFdtask')
    rw [reachable_fdtaskSystem reachable u live' n stopped] at ordinary
    cases ordinary

/-- A stalled program is reported exactly if `fdtask` was not started before. -/
theorem stall_reported {allowed : St → Act → Prop} {s : St}
    (few : ∀ s a, allowed s a → FewTasks s a) (reachable : Reachable allowed s) :
    Reported s ↔ ¬(Stalled s ∧ s.startedfdtask = true) := by
  have inv := reachable_inv reachable
  constructor
  · rintro ⟨reports, -⟩ ⟨stalled, started⟩
    obtain ⟨t, live, isFdtask⟩ := (reachable_started reachable).mp started
    have ready := inv.fdtask_ready stalled.idle live isFdtask
    have stopped := reports stalled {} ⟨stalled.idle, by decide, by decide⟩
    obtain ⟨-, nobody, -⟩ := taskscheduler_noRunnable.mp (step_ends stopped trivial).1
    rw [nobody] at ready
    cases ready
  · intro never
    refine ⟨fun stalled env _ => ?_, ?_⟩
    · have nobody : s.seq .taskrunqueue = [] := by
        rw [List.eq_nil_iff_forall_not_mem]
        intro t member
        exact never ⟨stalled, (reachable_started reachable).mpr ⟨t, stalled.ready inv member⟩⟩
      have working : s.taskcount ≠ 0 := by
        intro none
        obtain ⟨t, live, -, ordinary⟩ := stalled.ordinary
        rw [((reachable_counted reachable).taskcount_eq_zero inv).mp none t live] at ordinary
        cases ordinary
      have reports := taskscheduler_noRunnable.mpr ⟨working, nobody, rfl⟩
      simp only [step, reports]
      rfl
    · rintro t s₁ env called ⟨infinite, noFd⟩
      have noSleeper : s.seq .sleeping = [] :=
        called.before.1.symm.trans (polltimeout_infinite infinite)
      obtain ⟨-, -, lists, s₁Eq, -⟩ := taskscheduler_ok called.scheduled
      rw [s₁Eq] at noFd
      exact never (called.stalled few reachable noSleeper noFd)

/-- A task sleeps once, and then receives from a channel that nobody sends to. -/
def sleepThenReceive : List Act :=
  [.dispatch {}, .call (.chancreate (some 7) 4 0 fun _ => 0), .call (.taskdelay 5 0 (some 2)),
    .dispatch {}, .dispatch { poll := .ready fun _ => 0, nowAfter := 5000000 },
    .dispatch { now := 6000000 }, .call (.chanop 7 .chanrcv (some 100) true 20 0 0),
    .dispatch {}]

/-- The program is stalled, and `fdtask` polls nothing without a timeout. -/
theorem stall_polls : ∃ s s' : St, Reachable InRange s ∧ Stalled s ∧
    step s (.dispatch {}) = .ok s' ∧
    s'.trace = s.trace ++ [.dispatch 2, .poll (-1) 0] ∧ ¬Reported s := by
  obtain ⟨s, checked, reachable⟩ := exists_run InRange (fun _ => none) sleepThenReceive
    (fun s => decide (s.taskrunning = none) && decide (s.alltask = [1, 2]) &&
      decide ((s.task 1).pc = .chanop 20) && !(s.task 1).ready && !(s.task 1).system &&
      decide ((s.task 2).pc = .fdtaskYield 5) && s.startedfdtask &&
      match step s (.dispatch {}) with
      | .ok s' => decide (s'.trace = s.trace ++ [.dispatch 2, .poll (-1) 0])
      | .error _ => false)
    (by decide +kernel)
  simp only [Bool.and_eq_true, Bool.not_eq_true', decide_eq_true_eq] at checked
  obtain ⟨⟨⟨⟨⟨⟨⟨idle, live⟩, blocked⟩, notReady⟩, ordinary⟩, isFdtask⟩, started⟩, next⟩ := checked
  have stalled : Stalled s := by
    refine ⟨idle, ?_, 1, ?_⟩
    · simp [live, blocked, notReady, isFdtask, Pc.isFdtask, Pc.part]
    · simp [live, blocked, ordinary, Pc.isFdtask]
  cases stepped : step s (.dispatch {}) with
  | error why =>
      rw [stepped] at next
      cases next
  | ok s' =>
      simp only [stepped, decide_eq_true_eq] at next
      refine ⟨s, s', reachable, stalled, stepped, next, ?_⟩
      rintro ⟨reports, -⟩
      have stopped := reports stalled {} ⟨idle, by decide, by decide⟩
      rw [stepped] at stopped
      cases stopped

/-- Without a sleep before, the same stall is reported. -/
theorem stall_reported_unstarted : ∃ s : St, Stalled s ∧ Reported s := by
  obtain ⟨s, checked, reachable⟩ := exists_run InRange (fun _ => none)
    [.dispatch {}, .call (.chancreate (some 7) 4 0 fun _ => 0),
      .call (.chanop 7 .chanrcv (some 100) true 20 0 0)]
    (fun s => decide (s.taskrunning = none) && decide (s.alltask = [1]) &&
      decide ((s.task 1).pc = .chanop 20) && !(s.task 1).ready && !(s.task 1).system &&
      !s.startedfdtask)
    (by decide +kernel)
  simp only [Bool.and_eq_true, Bool.not_eq_true', decide_eq_true_eq] at checked
  obtain ⟨⟨⟨⟨⟨idle, live⟩, blocked⟩, notReady⟩, ordinary⟩, unstarted⟩ := checked
  refine ⟨s, ⟨idle, ?_, 1, ?_⟩, (stall_reported (fun _ _ kept => kept.2) reachable).mpr ?_⟩
  · simp [live, blocked, notReady, Pc.part]
  · simp [live, blocked, ordinary, Pc.isFdtask]
  · simp [unstarted]

end Libtask
