import Libtask.Frame

/-!
# Effects of the operations on tasks

What each function of `task.c` and of `fd.c` does when it goes through, and that
none of them touches locks or channels.
-/

namespace Libtask

open Function (update)
open Outcome (bind_eq_ok)

variable {s s' : St} {self : TaskPtr} {flow : Flow}

/-! ## Creation -/

/-- The new task at `t₀` enters the table and the run queue. -/
theorem taskcreate_ok {m : Alloc} {pc : Pc} {id : Int}
    (done : taskcreate s m pc = .ok (s', id)) :
    ∃ t₀ lists cap, m.malloc = some t₀ ∧ s.home t₀ = none ∧
      cap = (if s.alltask.length % 64 = 0 then s.alltask.length + 64 else s.alltaskcap) ∧
      s.alltask.length < cap ∧
      s' = { s with
        lists
        taskidgen := (s.taskidgen + 1) % 2 ^ 32
        taskcount := s.taskcount + 1
        alltaskcap := cap
        alltask := s.alltask ++ [t₀]
        task := update s.task t₀
          { id := (s.taskidgen + 1) % 2 ^ 32, pc
            alltaskslot := s.alltask.length, ready := true } } ∧
      lists.seq = update s.seq .taskrunqueue (s.seq .taskrunqueue ++ [t₀]) ∧
      lists.home = update s.home t₀ (some .taskrunqueue) := by
  obtain ⟨⟨s₁, t₁⟩, allocated, rest⟩ := bind_eq_ok.mp done
  unfold taskalloc at allocated
  cases isTask : m.malloc with
  | none =>
      rw [isTask] at allocated
      cases allocated
  | some t₀ =>
      simp only [isTask] at allocated
      split at allocated
      next => cases allocated
      next lists cleared =>
        obtain ⟨rfl, rfl⟩ := Prod.mk.inj (Except.ok.inj allocated)
        obtain ⟨free, seqEq, homeEq⟩ := Dlist.Dlists.clear?_eq_some cleared
        simp only at rest
        generalize capEq : (if s.alltask.length % 64 = 0 then s.alltask.length + 64
          else s.alltaskcap) = cap at rest
        split at rest
        next => cases rest
        split at rest
        next room =>
          obtain ⟨s₂, readied, returned⟩ := bind_eq_ok.mp rest
          obtain ⟨rfl, -⟩ := Prod.mk.inj (Except.ok.inj returned)
          obtain ⟨lists', -, rfl, seqEq', homeEq'⟩ := taskready_ok readied
          refine ⟨t₀, lists', cap, rfl, free, rfl, room, ?_, ?_, ?_⟩
          · simp [St.setTask]
          · simpa [St.setTask, seqEq] using seqEq'
          · simpa [St.setTask, homeEq] using homeEq'
        next => cases rest

/-! ## Scheduling -/

theorem taskyield_ok {n : BitVec 32} (done : taskyield s self = .ok (s', n)) :
    taskready s self = .ok s' := by
  obtain ⟨s₁, readied, returned⟩ := bind_eq_ok.mp done
  obtain ⟨rfl, -⟩ := Prod.mk.inj (Except.ok.inj returned)
  exact readied

/-- The scheduler takes the head of the run queue. -/
theorem taskscheduler_ok {t : TaskPtr} (done : taskscheduler s = .ok (s', t)) :
    s.taskcount ≠ 0 ∧ (s.seq .taskrunqueue).head? = some t ∧ ∃ lists : Tasklists,
      s' = { s with
        lists
        task := update s.task t { s.task t with ready := false }
        taskrunning := some t
        tasknswitch := s.tasknswitch + 1
        trace := s.trace ++ [.dispatch t] } ∧
      s.home t = some .taskrunqueue ∧
      lists.seq = update s.seq .taskrunqueue (s.seq .taskrunqueue).tail ∧
      lists.home = update s.home t none := by
  unfold taskscheduler at done
  split at done
  next => cases done
  next working =>
    simp only [head_eq] at done
    split at done
    next => cases done
    next u headEq =>
      obtain ⟨s₁, removed, returned⟩ := bind_eq_ok.mp done
      obtain ⟨lists, rfl, held, seqEq, homeEq⟩ := deltask_ok removed
      obtain ⟨rfl, rfl⟩ := Prod.mk.inj (Except.ok.inj returned)
      refine ⟨working, headEq, lists, rfl, held, ?_, homeEq⟩
      obtain ⟨rest, split⟩ := List.head?_eq_some_iff.mp headEq
      simp [seqEq, split]

/-- The last entry of the table takes the place of the task that is gone. -/
theorem taskreap_ok {t : TaskPtr} (done : taskreap s t = .ok s') :
    ∃ last, s.alltask.getLast? = some last ∧ (s.task t).alltaskslot < s.alltask.length ∧
      s' = { s with
        taskcount := if (s.task t).system then s.taskcount else s.taskcount - 1
        alltask := (s.alltask.set (s.task t).alltaskslot last).dropLast
        task := update s.task last
          { s.task last with alltaskslot := (s.task t).alltaskslot } } := by
  unfold taskreap at done
  cases system : (s.task t).system
  all_goals
    simp only [system, if_true, Bool.false_eq_true, if_false] at done ⊢
    split at done
    next => cases done
    next last lastEq =>
      split at done
      next inRange => exact ⟨last, lastEq, inRange, (Except.ok.inj done).symm⟩
      next => cases done

/-- Where the caller of a library function is afterwards. -/
def Flow.pc : Flow → Pc
  | .ret r => .user r
  | .switch pc => pc

/-- The task goes on, or it gives up the CPU, or it is gone. -/
theorem finish_ok (done : finish self (s, flow) = .ok s') :
    (∃ r, flow = .ret r ∧ s' = s.setTask self fun task => { task with pc := .user r }) ∨
    ∃ pc, flow = .switch pc ∧
      (((s.task self).exiting = false ∧
        s' = { s.setTask self (fun task => { task with pc }) with taskrunning := none }) ∨
      ((s.task self).exiting = true ∧
        taskreap { s.setTask self (fun task => { task with pc }) with taskrunning := none }
          self = .ok s')) := by
  cases flow with
  | ret r => exact Or.inl ⟨r, rfl, (Except.ok.inj done).symm⟩
  | switch pc =>
      refine Or.inr ⟨pc, rfl, ?_⟩
      simp only [finish, taskschedulerBack] at done
      split at done
      next exiting => exact Or.inr ⟨by simpa [St.setTask] using exiting, done⟩
      next staying =>
        exact Or.inl ⟨by simpa [St.setTask] using staying, (Except.ok.inj done).symm⟩

/-! ## Timers and polling -/

theorem startfdtask_ok {m : Alloc} (done : startfdtask s m = .ok s') :
    (s.startedfdtask = true ∧ s' = s) ∨
    (s.startedfdtask = false ∧
      ∃ id, taskcreate { s with startedfdtask := true } m .fdtask = .ok (s', id)) := by
  unfold startfdtask at done
  cases started : s.startedfdtask with
  | true =>
      simp only [started, if_true] at done
      exact Or.inl ⟨rfl, (Except.ok.inj done).symm⟩
  | false =>
      simp only [started, Bool.false_eq_true, if_false] at done
      obtain ⟨⟨s₁, id⟩, created, returned⟩ := bind_eq_ok.mp done
      obtain rfl := Except.ok.inj returned
      exact Or.inr ⟨rfl, id, created⟩

theorem taskdelay_ok {ms now : Nat} {m : Alloc}
    (done : taskdelay s self ms now m = .ok (s', flow)) :
    flow = .switch (.taskdelay now) ∧ ∃ s₁ due position, ∃ lists : Tasklists,
      startfdtask s m = .ok s₁ ∧ s₁.home self = none ∧
      lists.seq = update s₁.seq .sleeping (Dlist.insertAt self position (s₁.seq .sleeping)) ∧
      lists.home = update s₁.home self (some .sleeping) ∧
      s' = { s₁ with
        lists
        task := update s₁.task self { s₁.task self with alarmtime := due }
        taskcount :=
          if (s₁.task self).system = false ∧ s₁.sleepingcounted = 0 then s₁.taskcount + 1
          else s₁.taskcount
        sleepingcounted :=
          if (s₁.task self).system then s₁.sleepingcounted else s₁.sleepingcounted + 1 } := by
  obtain ⟨s₁, started, rest⟩ := bind_eq_ok.mp done
  simp only at rest
  split at rest
  next => cases rest
  next lists inserted =>
    obtain ⟨free, seqEq, homeEq⟩ := Dlist.Dlists.insert?_eq_some inserted
    obtain ⟨stateEq, rfl⟩ := Prod.mk.inj (Except.ok.inj rest)
    refine ⟨rfl, s₁, (now + ms * 1000000) % 2 ^ 64, _, lists, started, free, seqEq, homeEq,
      stateEq.symm.trans ?_⟩
    cases system : (s₁.task self).system <;> simp [St.setTask, system]

theorem fdwait_ok {fd : Int} {rw : Char} {m : Alloc}
    (done : fdwait s self fd rw m = .ok (s', flow)) :
    flow = .switch .fdwait ∧ ∃ s₁, startfdtask s m = .ok s₁ ∧ s₁.npollfd < maxfd ∧
      s' = { s₁ with
        polltask := update s₁.polltask s₁.npollfd self
        pollfd := update s₁.pollfd s₁.npollfd { fd, events := fdbits rw, revents := 0 }
        npollfd := s₁.npollfd + 1 } := by
  obtain ⟨s₁, started, rest⟩ := bind_eq_ok.mp done
  simp only at rest
  split at rest
  next => cases rest
  next room =>
    obtain ⟨rfl, rfl⟩ := Prod.mk.inj (Except.ok.inj rest)
    exact ⟨rfl, s₁, started, by omega, rfl⟩

theorem fdtaskYield_ok (done : fdtaskYield s self = .ok (s', flow)) :
    (∃ n, flow = .switch (.fdtaskYield n)) ∧ taskready s self = .ok s' := by
  obtain ⟨⟨s₁, n⟩, yielded, returned⟩ := bind_eq_ok.mp done
  obtain ⟨rfl, rfl⟩ := Prod.mk.inj (Except.ok.inj returned)
  exact ⟨⟨n, rfl⟩, taskyield_ok yielded⟩

/-- One turn of the loop over the poll table: the task of entry `i` becomes ready,
and the last entry takes its place. -/
theorem pollwakeWhile_induction {i : Nat} {motive : St → Prop}
    (turn : ∀ s s' : St, motive s → i < s.npollfd → s.npollfd ≤ maxfd →
      taskready s (s.polltask i) = .ok s' →
      motive { s' with
        npollfd := s'.npollfd - 1
        pollfd := update s'.pollfd i (s'.pollfd (s'.npollfd - 1))
        polltask := update s'.polltask i (s'.polltask (s'.npollfd - 1)) })
    {fuel : Nat} (initially : motive s) (done : pollwakeWhile i fuel s = .ok s') :
    motive s' := by
  induction fuel generalizing s with
  | zero =>
      unfold pollwakeWhile at done
      split at done
      next => cases done
      next =>
        obtain rfl := Except.ok.inj done
        exact initially
  | succ fuel ih =>
      unfold pollwakeWhile at done
      split at done
      next going =>
        simp only at done
        split at done
        next => cases done
        next inRange =>
          obtain ⟨s₁, readied, rest⟩ := bind_eq_ok.mp done
          exact ih (turn s s₁ initially going.1 (by omega) readied) rest
      next =>
        obtain rfl := Except.ok.inj done
        exact initially

theorem pollwake_induction {motive : St → Prop}
    (turn : ∀ (s s' : St) (i : Nat), motive s → i < s.npollfd → s.npollfd ≤ maxfd →
      taskready s (s.polltask i) = .ok s' →
      motive { s' with
        npollfd := s'.npollfd - 1
        pollfd := update s'.pollfd i (s'.pollfd (s'.npollfd - 1))
        polltask := update s'.polltask i (s'.polltask (s'.npollfd - 1)) })
    {fuel i : Nat} (initially : motive s) (done : pollwake fuel i s = .ok s') : motive s' := by
  induction fuel generalizing s i with
  | zero =>
      unfold pollwake at done
      split at done
      next => cases done
      next =>
        obtain rfl := Except.ok.inj done
        exact initially
  | succ fuel ih =>
      unfold pollwake at done
      split at done
      next =>
        obtain ⟨s₁, inner, rest⟩ := bind_eq_ok.mp done
        have middle := pollwakeWhile_induction (fun s s' => turn s s' i) initially inner
        exact ih middle rest
      next =>
        obtain rfl := Except.ok.inj done
        exact initially

/-- The two counters after an ordinary sleeper has left the list. -/
def countWaking (s : St) (t : TaskPtr) : St :=
  if (s.task t).system then s
  else
    { s with
      taskcount := if s.sleepingcounted - 1 = 0 then s.taskcount - 1 else s.taskcount
      sleepingcounted := s.sleepingcounted - 1 }

/-- One turn of the loop over the sleepers: the first one leaves the list, is
counted out and becomes ready. -/
theorem alarmwake_induction {now : Nat} {motive : St → List TaskPtr → Prop}
    (turn : ∀ (s s₁ s₂ : St) (t : TaskPtr) (woken : List TaskPtr), motive s woken →
      (s.seq .sleeping).head? = some t → deltask s .sleeping t = .ok s₁ →
      taskready (countWaking s₁ t) t = .ok s₂ → motive s₂ (woken ++ [t]))
    {fuel : Nat} {woken : List TaskPtr} (before : List TaskPtr) (initially : motive s before)
    (done : alarmwake now fuel s = .ok (s', woken)) : motive s' (before ++ woken) := by
  induction fuel generalizing s before woken with
  | zero =>
      unfold alarmwake at done
      split at done
      next =>
        obtain ⟨rfl, rfl⟩ := Prod.mk.inj (Except.ok.inj done)
        simpa using initially
      next =>
        split at done
        next => cases done
        next =>
          obtain ⟨rfl, rfl⟩ := Prod.mk.inj (Except.ok.inj done)
          simpa using initially
  | succ fuel ih =>
      unfold alarmwake at done
      split at done
      next =>
        obtain ⟨rfl, rfl⟩ := Prod.mk.inj (Except.ok.inj done)
        simpa using initially
      next t headEq =>
        split at done
        next =>
          obtain ⟨s₁, removed, rest⟩ := bind_eq_ok.mp done
          obtain ⟨s₂, readied, rest⟩ := bind_eq_ok.mp rest
          obtain ⟨⟨s₃, woken'⟩, looped, returned⟩ := bind_eq_ok.mp rest
          obtain ⟨rfl, rfl⟩ := Prod.mk.inj (Except.ok.inj returned)
          have middle := turn s s₁ s₂ t before initially (by simpa using headEq) removed
            readied
          simpa using ih (before ++ [t]) middle looped
        next =>
          obtain ⟨rfl, rfl⟩ := Prod.mk.inj (Except.ok.inj done)
          simpa using initially

/-- A pass of `fdtask` ends in its `taskyield`; before that it may have polled. -/
theorem fdtaskPass_ok {n : BitVec 32} {env : Env}
    (done : fdtaskPass s self n env = .ok (s', flow)) :
    fdtaskYield s self = .ok (s', flow) ∨
    fdtaskYield (s.log (.poll (polltimeout s env.now) s.npollfd)) self = .ok (s', flow) ∨
    ∃ revents s₁ s₂ woken, env.poll = .ready revents ∧
      pollwake s.npollfd 0 { s.log (.poll (polltimeout s env.now) s.npollfd) with
        pollfd := fun i =>
          if i < s.npollfd then { s.pollfd i with revents := revents i } else s.pollfd i } =
        .ok s₁ ∧
      alarmwake env.nowAfter (s₁.seq .sleeping).length s₁ = .ok (s₂, woken) ∧
      fdtaskYield (s₂.log (.alarm env.nowAfter woken)) self = .ok (s', flow) := by
  unfold fdtaskPass at done
  split at done
  next => exact Or.inl done
  next =>
    simp only at done
    split at done
    next => exact Or.inr (Or.inl done)
    next => cases done
    next revents pollEq =>
      obtain ⟨s₁, polled, rest⟩ := bind_eq_ok.mp done
      obtain ⟨⟨s₂, woken⟩, alarmed, yielded⟩ := bind_eq_ok.mp rest
      exact Or.inr (Or.inr ⟨revents, s₁, s₂, woken, pollEq, polled, alarmed, yielded⟩)

end Libtask
