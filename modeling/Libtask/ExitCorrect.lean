import Libtask.LockAborts

/-!
# How the program ends

`taskcount` counts the live tasks that are not system tasks, and it counts one more while
such a task sleeps.  So it is zero exactly when no such task is left, and then the scheduler
ends the program with the status of the last `taskexit`.
-/

namespace Libtask

open Function (update update_self update_of_ne)
open Outcome (bind_eq_ok)
open Transition

/-- The arguments of `taskexit`, in order. -/
def exits (trace : List Event) : List Int :=
  trace.filterMap fun
    | .exit _ val => some val
    | _ => none

/-- The argument of the last `taskexit`, or zero. -/
def lastExit (trace : List Event) : Int := (exits trace).getLast?.getD 0

/-- The number of tasks of a list that are not system tasks. -/
def St.ordinary (s : St) (ts : List TaskPtr) : Nat := ts.countP fun t => !(s.task t).system

/-- What the counters of the scheduler say. -/
structure Counted (s : St) : Prop where
  sleeping : s.sleepingcounted = s.ordinary (s.seq .sleeping)
  count : s.taskcount = s.ordinary s.alltask + if 0 < s.sleepingcounted then 1 else 0
  status : s.taskexitval = lastExit s.trace

/-! ## Counting -/

variable {s s' : St} {self : TaskPtr} {flow : Flow} {ts : List TaskPtr}

theorem ordinary_congr (system : ∀ t ∈ ts, (s'.task t).system = (s.task t).system) :
    s'.ordinary ts = s.ordinary ts := by
  apply List.countP_congr
  intro t member
  rw [system t member]

theorem ordinary_perm {us : List TaskPtr} (perm : ts.Perm us) : s.ordinary ts = s.ordinary us :=
  perm.countP_eq _

theorem ordinary_cons (s : St) (t : TaskPtr) (ts : List TaskPtr) :
    s.ordinary (t :: ts) = s.ordinary ts + if (s.task t).system then 0 else 1 := by
  rw [St.ordinary, List.countP_cons]
  cases (s.task t).system <;> rfl

theorem ordinary_eq_zero : s.ordinary ts = 0 ↔ ∀ t ∈ ts, (s.task t).system = true := by
  simp [St.ordinary, List.countP_eq_zero]

/-- A task of the list is counted if it is not a system task. -/
theorem ordinary_erase {t : TaskPtr} (member : t ∈ ts) :
    s.ordinary ts = s.ordinary (ts.erase t) + if (s.task t).system then 0 else 1 := by
  rw [ordinary_perm (List.perm_cons_erase member), ordinary_cons]

theorem insertAt_perm (t : TaskPtr) (position : Option TaskPtr) (nodes : List TaskPtr) :
    (Dlist.insertAt t position nodes).Perm (t :: nodes) := by
  induction nodes with
  | nil => exact .refl _
  | cons u rest ih =>
      unfold Dlist.insertAt
      split
      · exact .refl _
      · exact (ih.cons u).trans (.swap t u rest)

/-! ## Functions that leave the counters alone -/

/-- Two states agree on what is counted and on the counters. -/
structure SameCounts (s s' : St) : Prop where
  taskcount : s'.taskcount = s.taskcount
  sleepingcounted : s'.sleepingcounted = s.sleepingcounted
  taskexitval : s'.taskexitval = s.taskexitval
  alltask : s'.alltask = s.alltask
  sleeping : s'.seq .sleeping = s.seq .sleeping
  system : ∀ t, (s'.task t).system = (s.task t).system
  exits : lastExit s'.trace = lastExit s.trace

theorem Counted.congr (counted : Counted s) (same : SameCounts s s') : Counted s' := by
  constructor
  · rw [same.sleepingcounted, same.sleeping, ordinary_congr fun t _ => same.system t]
    exact counted.sleeping
  · rw [same.taskcount, same.sleepingcounted, same.alltask,
      ordinary_congr fun t _ => same.system t]
    exact counted.count
  · rw [same.taskexitval, same.exits]
    exact counted.status

/-- No event about locks or channels is an exit. -/
theorem lastExit_events (s : St) : lastExit (s.events .tasks) = lastExit s.trace := by
  simp only [lastExit, exits, St.events, List.filterMap_filter]
  congr 2
  apply List.filterMap_congr
  intro e _
  cases e <;> simp [Event.part]

theorem lastExit_log (s : St) {e : Event} (notExit : exits [e] = []) :
    lastExit (s.log e).trace = lastExit s.trace := by
  have split : exits (s.log e).trace = exits s.trace ++ exits [e] := by
    simp [exits, St.log]
  rw [lastExit, split, notExit, List.append_nil, lastExit]

theorem KeepsTasks.sameCounts (keeps : KeepsTasks s s') : SameCounts s s' where
  taskcount := congrArg Globals.taskcount keeps.globals
  sleepingcounted := congrArg Globals.sleepingcounted keeps.globals
  taskexitval := congrArg Globals.taskexitval keeps.globals
  alltask := keeps.alltask
  sleeping := keeps.sleeping
  system := keeps.system
  exits := by rw [← lastExit_events, keeps.events, lastExit_events]

theorem Counted.keeps (counted : Counted s) (keeps : KeepsTasks s s') : Counted s' :=
  counted.congr keeps.sameCounts

theorem taskready_counted {t : TaskPtr} (counted : Counted s)
    (done : taskready s t = .ok s') : Counted s' :=
  counted.keeps (taskready_keepsTasks done)

theorem log_counted {e : Event} (counted : Counted s) (notExit : exits [e] = []) :
    Counted (s.log e) :=
  counted.congr ⟨rfl, rfl, rfl, rfl, rfl, fun _ => rfl, lastExit_log s notExit⟩

theorem pollwake_counted {fuel i : Nat} (counted : Counted s)
    (done : pollwake fuel i s = .ok s') : Counted s' := by
  refine pollwake_induction (motive := Counted) ?_ counted done
  intro s₁ s₂ i before _ _ readied
  exact (taskready_counted before readied).congr
    ⟨rfl, rfl, rfl, rfl, rfl, fun _ => rfl, rfl⟩

theorem taskscheduler_counted {t : TaskPtr} (counted : Counted s)
    (done : taskscheduler s = .ok (s', t)) : Counted s' := by
  obtain ⟨-, -, lists, rfl, -, seqEq, -⟩ := taskscheduler_ok done
  refine counted.congr ⟨rfl, rfl, rfl, rfl, by simp [seqEq], fun u => ?_, ?_⟩
  · by_cases same : u = t
    · simp [same]
    · simp [same]
  · simp [lastExit, exits]

/-! ## Functions that adjust the counters -/

/-- A new task is counted. -/
theorem taskcreate_counted {m : Alloc} {pc : Pc} {id : Int}
    (fresh : freshTask s m = true) (counted : Counted s)
    (done : taskcreate s m pc = .ok (s', id)) : Counted s' := by
  obtain ⟨t₀, lists, cap, isTask, free, -, -, rfl, seqEq, -⟩ := taskcreate_ok done
  have isNew : t₀ ∉ s.alltask := by simpa [freshTask, isTask] using fresh
  have awake : t₀ ∉ s.seq .sleeping := by simp [mem_seq_iff, free]
  constructor
  · simp only [St.seq, seqEq, update_of_ne (show ListId.sleeping ≠ .taskrunqueue by simp)]
    rw [ordinary_congr (s := s)]
    · exact counted.sleeping
    · intro u member
      have other : u ≠ t₀ := fun same => awake (same ▸ member)
      simp [other]
  · have count := counted.count
    simp only [ordinary_perm (List.perm_append_singleton t₀ s.alltask), ordinary_cons,
      update_self]
    rw [ordinary_congr (s := s)]
    · simp only [Bool.false_eq_true, if_false]
      push_cast
      omega
    · intro u member
      have other : u ≠ t₀ := fun same => isNew (same ▸ member)
      simp [other]
  · exact counted.status

/-- One task more is a system task. -/
theorem ordinary_mark (nodup : ts.Nodup) (member : self ∈ ts)
    (before : (s.task self).system = false) (after : (s'.task self).system = true)
    (others : ∀ t, t ≠ self → (s'.task t).system = (s.task t).system) :
    s.ordinary ts = s'.ordinary ts + 1 := by
  rw [ordinary_erase member, ordinary_erase (s := s') member, before, after]
  rw [ordinary_congr (s := s) fun t inRest => others t (nodup.mem_erase_iff.mp inRest).1]
  rfl

/-- The running task becomes a system task: it is not counted any more. -/
theorem tasksystem_counted (inv : Inv (some self) s) (counted : Counted s) :
    Counted (tasksystem s self) := by
  unfold tasksystem
  cases system : (s.task self).system with
  | true => simpa [system] using counted
  | false =>
      have awake : self ∉ s.seq .sleeping := by simp [mem_seq_iff, inv.free]
      simp only [Bool.false_eq_true, if_false]
      generalize marked : (s.setTask self fun task => { task with system := true }) = s₁
      have others : ∀ t, t ≠ self → (s₁.task t).system = (s.task t).system := by
        intro t other
        simp [← marked, St.setTask, other]
      have isSystem : (s₁.task self).system = true := by simp [← marked, St.setTask]
      have fewer := ordinary_mark inv.table.nodup inv.live system isSystem others
      obtain ⟨sleeping, count, status⟩ := counted
      rw [fewer] at count
      have sameSleepers : s₁.ordinary (s.seq .sleeping) = s.ordinary (s.seq .sleeping) :=
        ordinary_congr fun t member => others t fun same => awake (same ▸ member)
      rw [← sameSleepers] at sleeping
      subst marked
      refine ⟨sleeping, ?_, status⟩
      push_cast at count
      simp only [St.setTask, St.ordinary] at count ⊢
      omega

theorem taskexit_counted {val : Int} (counted : Counted s) :
    Counted (taskexit s self val) := by
  have system : ∀ u, ((taskexit s self val).task u).system = (s.task u).system := by
    intro u
    by_cases same : u = self
    · simp [taskexit, St.setTask, St.log, same]
    · simp [taskexit, St.setTask, St.log, same]
  constructor
  · rw [ordinary_congr (s := s) fun u _ => system u]
    exact counted.sleeping
  · rw [ordinary_congr (s := s) fun u _ => system u]
    exact counted.count
  · simp [taskexit, St.setTask, St.log, lastExit, exits]

theorem startfdtask_counted {m : Alloc} (fresh : freshTask s m = true)
    (counted : Counted s) (done : startfdtask s m = .ok s') : Counted s' := by
  rcases startfdtask_ok done with ⟨-, rfl⟩ | ⟨-, id, created⟩
  · exact counted
  · have started : Counted { s with startedfdtask := true } :=
      counted.congr ⟨rfl, rfl, rfl, rfl, rfl, fun _ => rfl, rfl⟩
    exact taskcreate_counted (s := { s with startedfdtask := true }) fresh started created

/-- A sleeper is counted, and the first one once more. -/
theorem taskdelay_counted {ms now : Nat} {m : Alloc}
    (fresh : freshTask s m = true) (counted : Counted s)
    (done : taskdelay s self ms now m = .ok (s', flow)) : Counted s' := by
  obtain ⟨-, s₁, due, position, lists, started, -, seqEq, -, rfl⟩ := taskdelay_ok done
  obtain ⟨sleeping, count, status⟩ := startfdtask_counted fresh counted started
  have system : ∀ u, (update s₁.task self { s₁.task self with alarmtime := due } u).system =
      (s₁.task u).system := by
    intro u
    by_cases same : u = self
    · simp [same]
    · simp [same]
  constructor
  · simp only [St.seq, seqEq, update_self, ordinary_perm (insertAt_perm _ _ _)]
    rw [ordinary_congr (s := s₁) fun u _ => system u, ordinary_cons]
    cases isSystem : (s₁.task self).system <;> simp [sleeping]
  · rw [ordinary_congr (s := s₁) fun u _ => system u]
    cases isSystem : (s₁.task self).system with
    | true => simpa using count
    | false =>
        simp only [true_and, Bool.false_eq_true, if_false]
        rw [count]
        split <;> split <;> split <;> omega
  · exact status

theorem fdwait_counted {fd : Int} {rw : Char} {m : Alloc}
    (fresh : freshTask s m = true) (counted : Counted s)
    (done : fdwait s self fd rw m = .ok (s', flow)) : Counted s' := by
  obtain ⟨-, s₁, started, -, rfl⟩ := fdwait_ok done
  exact (startfdtask_counted fresh counted started).congr
    ⟨rfl, rfl, rfl, rfl, rfl, fun _ => rfl, rfl⟩

/-- A sleeper that wakes is not counted any more, and the last one is counted out twice. -/
theorem countWaking_counted {t : TaskPtr} (counted : Counted s)
    (asleep : (s.seq .sleeping).head? = some t) (done : deltask s .sleeping t = .ok s') :
    Counted (countWaking s' t) := by
  obtain ⟨lists, rfl, -, seqEq, -⟩ := deltask_ok done
  obtain ⟨sleeping, count, status⟩ := counted
  have member := List.mem_of_head? asleep
  rw [ordinary_erase member] at sleeping
  unfold countWaking
  cases isSystem : (s.task t).system with
  | true =>
      simp only [isSystem, if_true] at sleeping ⊢
      refine ⟨?_, count, status⟩
      simpa [seqEq, St.ordinary] using sleeping
  | false =>
      simp only [isSystem, Bool.false_eq_true, if_false] at sleeping ⊢
      refine ⟨?_, ?_, status⟩
      · simp only [St.seq, seqEq, update_self]
        have same : s.sleepingcounted - 1 = s.ordinary ((s.seq .sleeping).erase t) := by
          push_cast at sleeping
          omega
        exact same
      · have same : (if s.sleepingcounted - 1 = 0 then s.taskcount - 1 else s.taskcount) =
            s.ordinary s.alltask + if 0 < s.sleepingcounted - 1 then 1 else 0 := by
          push_cast at sleeping
          rw [count]
          split <;> split <;> split <;> omega
        exact same

theorem alarmwake_counted {now fuel : Nat} {woken : List TaskPtr} (counted : Counted s)
    (done : alarmwake now fuel s = .ok (s', woken)) : Counted s' := by
  refine alarmwake_induction (motive := fun s₁ _ => Counted s₁) ?_ [] counted done
  intro s₁ s₂ s₃ t woken before asleep removed readied
  exact taskready_counted (countWaking_counted before asleep removed) readied

theorem fdtaskPass_counted {n : BitVec 32} {env : Env} (counted : Counted s)
    (done : fdtaskPass s self n env = .ok (s', flow)) : Counted s' := by
  rcases fdtaskPass_ok done with
    yielded | yielded | ⟨revents, s₁, s₂, woken, -, polled, alarmed, yielded⟩
  · exact taskready_counted counted (fdtaskYield_ok yielded).2
  · exact taskready_counted (log_counted counted rfl) (fdtaskYield_ok yielded).2
  · have stored : Counted { s.log (.poll (polltimeout s env.now) s.npollfd) with
        pollfd := fun i =>
          if i < s.npollfd then { s.pollfd i with revents := revents i } else s.pollfd i } :=
      (log_counted counted rfl).congr ⟨rfl, rfl, rfl, rfl, rfl, fun _ => rfl, rfl⟩
    have woke := alarmwake_counted (pollwake_counted stored polled) alarmed
    exact taskready_counted (log_counted woke rfl) (fdtaskYield_ok yielded).2

/-- A task that ends itself is not counted any more. -/
theorem taskreap_counted {t : TaskPtr} (counted : Counted s)
    (atSlot : s.alltask[(s.task t).alltaskslot]? = some t)
    (done : taskreap s t = .ok s') : Counted s' := by
  obtain ⟨last, lastEq, inside, rfl⟩ := taskreap_ok done
  obtain ⟨sleeping, count, status⟩ := counted
  have system : ∀ u, (update s.task last
      { s.task last with alltaskslot := (s.task t).alltaskslot } u).system =
      (s.task u).system := by
    intro u
    by_cases same : u = last
    · simp [same]
    · simp [same]
  have perm := SwapRemove.cons_swapRemove_perm inside
  rw [List.getElem?_eq_getElem inside, Option.some.injEq] at atSlot
  rw [atSlot, show SwapRemove.swapRemove s.alltask (s.task t).alltaskslot =
    (s.alltask.set (s.task t).alltaskslot last).dropLast by
      simp [SwapRemove.swapRemove, lastEq]] at perm
  rw [← ordinary_perm perm, ordinary_cons] at count
  constructor
  · rw [ordinary_congr (s := s) fun u _ => system u]
    exact sleeping
  · rw [ordinary_congr (s := s) fun u _ => system u, count]
    cases (s.task t).system with
    | true => simp
    | false =>
        simp only [Bool.false_eq_true, if_false]
        push_cast
        omega
  · exact status

theorem finish_counted (counted : Counted s) (slot : (s.task self).exiting = true →
      s.alltask[(s.task self).alltaskslot]? = some self)
    (done : finish self (s, flow) = .ok s') : Counted s' := by
  have moved : ∀ pc run, SameCounts s { s.setPc self pc with taskrunning := run } := by
    intro pc run
    refine ⟨rfl, rfl, rfl, rfl, rfl, fun u => ?_, rfl⟩
    by_cases same : u = self
    · simp [St.setTask, same]
    · simp [St.setTask, same]
  rcases finish_ok done with ⟨r, -, rfl⟩ | ⟨pc, -, ⟨-, rfl⟩ | ⟨exiting, reaped⟩⟩
  · exact counted.congr (moved (.user r) s.taskrunning)
  · exact counted.congr (moved pc none)
  · refine taskreap_counted (counted.congr (moved pc none)) ?_ reaped
    simpa [St.setTask] using slot exiting

/-! ## Steps -/

theorem call_counted {c : Call} (inv : Inv (some self) s) (isLegal : legal s c = true)
    (counted : Counted s) (done : call s self c = .ok (s', flow)) : Counted s' := by
  by_cases other : c.part ≠ .tasks
  · exact counted.keeps (call_keepsTasks other done)
  have tasks : c.part = .tasks := not_not.mp other
  cases c <;> simp only [Call.part, reduceCtorEq] at tasks
  case taskcreate m =>
    obtain ⟨⟨s₁, id⟩, created, returned⟩ := bind_eq_ok.mp done
    obtain ⟨rfl, -⟩ := Prod.mk.inj (Except.ok.inj returned)
    exact taskcreate_counted isLegal counted created
  case tasksystem =>
    obtain ⟨rfl, -⟩ := Prod.mk.inj (Except.ok.inj done)
    exact tasksystem_counted inv counted
  case taskyield =>
    obtain ⟨⟨s₁, n⟩, yielded, returned⟩ := bind_eq_ok.mp done
    obtain ⟨rfl, -⟩ := Prod.mk.inj (Except.ok.inj returned)
    exact taskready_counted counted (taskyield_ok yielded)
  case taskexit val =>
    obtain ⟨rfl, -⟩ := Prod.mk.inj (Except.ok.inj done)
    exact taskexit_counted counted
  case taskreturn =>
    obtain ⟨rfl, -⟩ := Prod.mk.inj (Except.ok.inj done)
    exact taskexit_counted counted
  case taskexitall val => cases done
  case anyready =>
    obtain ⟨rfl, -⟩ := Prod.mk.inj (Except.ok.inj done)
    exact counted
  case taskdelay ms now m =>
    simp only [legal, Bool.and_eq_true] at isLegal
    exact taskdelay_counted isLegal.2 counted done
  case fdwait fd rw m => exact fdwait_counted isLegal counted done

theorem resume_counted {pc : Pc} {env : Env} (inv : Inv (some self) s) (counted : Counted s)
    (done : resume s self env pc = .ok (s', flow)) : Counted s' := by
  by_cases other : pc.part ≠ .tasks
  · exact counted.keeps (resume_keepsTasks other done)
  have tasks : pc.part = .tasks := not_not.mp other
  cases pc <;> simp only [Pc.part, reduceCtorEq] at tasks
  case fdtask =>
    exact taskready_counted (tasksystem_counted inv counted) (fdtaskYield_ok done).2
  case fdtaskYield n => exact fdtaskPass_counted counted done
  all_goals
    obtain ⟨rfl, -⟩ := Prod.mk.inj (Except.ok.inj done)
    exact counted

theorem step_counted {a : Act} (inv : Inv s.taskrunning s) (isEnabled : enabled s a)
    (counted : Counted s) (stepped : step s a = .ok s') : Counted s' := by
  cases step_shape isEnabled stepped with
  | call running isLegal called finished =>
      rw [running] at inv
      exact finish_counted (call_counted inv isLegal counted called)
        (call_slot inv isLegal called) finished
  | dispatch idle scheduled resumed finished =>
      rw [idle] at inv
      have inv₁ := inv.dispatch scheduled
      have after := resume_after inv₁ (dispatch_going inv scheduled) resumed
      refine finish_counted (resume_counted inv₁ (taskscheduler_counted counted scheduled)
        resumed) ?_ finished
      intro exiting
      rw [after.staying] at exiting
      cases exiting

theorem main_counted {rendez : RendezPtr → Option QLockPtr} {mem : Bytes.Memory}
    {t : TaskPtr} (started : main rendez mem t = .ok s) : Counted s := by
  obtain ⟨id, created⟩ := main_ok started
  have zero : Counted (St.zero rendez mem) := ⟨rfl, rfl, rfl⟩
  exact taskcreate_counted (by simp [freshTask, St.zero]) zero created

/-- The counters are right throughout every run. -/
theorem reachable_counted {allowed : St → Act → Prop} (reachable : Reachable allowed s) :
    Counted s := by
  apply reachable.invariant Counted
  · rintro s ⟨rendez, mem, t, started⟩
    exact main_counted started
  · intro s a s' before counted isEnabled _ stepped
    exact step_counted (reachable_inv before) isEnabled counted stepped

/-! ## The exit -/

/-- A sleeper is a live task, so no task at all is counted if `taskcount` is zero. -/
theorem Counted.taskcount_eq_zero (counted : Counted s) (inv : Inv s.taskrunning s) :
    s.taskcount = 0 ↔ ∀ t ∈ s.alltask, (s.task t).system = true := by
  rw [counted.count, ← ordinary_eq_zero]
  constructor
  · intro none
    split at none <;> omega
  · intro none
    have noSleeper : s.ordinary (s.seq .sleeping) = 0 := by
      rw [ordinary_eq_zero] at none ⊢
      intro t member
      exact none t ((inv.listed t).live _ ((mem_seq_iff s t _).mp member))
    simp [none, counted.sleeping, noSleeper]

theorem taskscheduler_exits {val : Int} :
    taskscheduler s = .error (.taskexitval val) ↔ s.taskcount = 0 ∧ val = s.taskexitval := by
  constructor
  · intro stopped
    unfold taskscheduler at stopped
    split at stopped
    next zero =>
      have same := Except.error.inj stopped
      exact ⟨zero, (Halt.taskexitval.inj same).symm⟩
    next =>
      split at stopped
      · cases stopped
      · rcases Outcome.bind_eq_error.mp stopped with failed | ⟨s₁, -, returned⟩
        · exact absurd (Or.inr trivial) (deltask_plain s _ _ _ failed)
        · cases returned
  · rintro ⟨zero, rfl⟩
    rw [taskscheduler, if_pos zero]

/-- `taskcount` and `sleepingcounted` count the live and the sleeping tasks that are not
system tasks; the program makes `exit(taskexitval)` exactly when the scheduler finds no live
task of that kind, with the status of the last `taskexit`; and a task whose exit leaves none
gives the status itself. -/
theorem exit_exact {allowed : St → Act → Prop} {s : St} (reachable : Reachable allowed s) :
    s.sleepingcounted = (s.seq .sleeping).countP (fun t => !(s.task t).system) ∧
    s.taskcount = s.alltask.countP (fun t => !(s.task t).system) +
      (if 0 < s.sleepingcounted then 1 else 0) ∧
    (∀ a val, enabled s a → (step s a = .error (.taskexitval val) ↔
      (∃ env, a = .dispatch env) ∧ (∀ t ∈ s.alltask, (s.task t).system = true) ∧
        val = lastExit s.trace)) ∧
    ∀ self c val s', s.taskrunning = some self → enabled s (.call c) → c.exits = some val →
      step s (.call c) = .ok s' → (s.task self).system = false →
      (∀ t ∈ s'.alltask, (s'.task t).system = true) →
      ∀ env, step s' (.dispatch env) = .error (.taskexitval val) := by
  have counted := reachable_counted reachable
  have inv := reachable_inv reachable
  have dispatched : ∀ (s : St) env, Counted s → Inv s.taskrunning s →
      (∀ t ∈ s.alltask, (s.task t).system = true) →
      step s (.dispatch env) = .error (.taskexitval (lastExit s.trace)) := by
    intro s env counted inv none
    have exits := taskscheduler_exits.mpr
      ⟨(counted.taskcount_eq_zero inv).mpr none, counted.status.symm⟩
    simp only [step, exits]
    rfl
  refine ⟨counted.sleeping, counted.count, fun a val isEnabled => ⟨?_, ?_⟩, ?_⟩
  · intro stopped
    obtain ⟨exits, isDispatch⟩ := step_ends stopped trivial
    obtain ⟨zero, rfl⟩ := taskscheduler_exits.mp exits
    exact ⟨isDispatch, (counted.taskcount_eq_zero inv).mp zero, counted.status⟩
  · rintro ⟨⟨env, rfl⟩, none, rfl⟩
    exact dispatched s env counted inv none
  · intro self c val s' running isEnabled ends stepped _ none env
    have last : lastExit s'.trace = val := by
      cases step_shape isEnabled stepped with
      | call running' _ called finished =>
          obtain ⟨rfl, rfl⟩ := call_exits ends called
          rw [(finish_globals finished).1]
          simp [taskexit, St.setTask, St.log, lastExit, exits]
    rw [← last]
    exact dispatched s' env (step_counted inv isEnabled counted stepped)
      (step_inv inv isEnabled stepped) none

/-- The main task sleeps and is woken while a second one ends; when it ends too, only
`fdtask` is left. -/
theorem exit_exact_sleeper : ∃ s : St, s.alltask = [3] ∧
    step s (.dispatch {}) = .error (.taskexitval 9) := by
  obtain ⟨s, checked, reachable⟩ := exists_run anyAction (fun _ => none)
    [.dispatch {}, .call (.taskcreate (some 2)), .call (.taskdelay 5 0 (some 3)),
      .dispatch {}, .call (.taskexit 4), .dispatch {},
      .dispatch { poll := .ready fun _ => 0, nowAfter := 5000000 },
      .dispatch { now := 6000000 }, .call (.taskexit 9)]
    (fun s => decide (s.alltask = [3]) && (s.task 3).system && decide (lastExit s.trace = 9) &&
      decide (enabled s (.dispatch {})))
    (by decide +kernel)
  simp only [Bool.and_eq_true, decide_eq_true_eq] at checked
  obtain ⟨⟨⟨live, system⟩, last⟩, isEnabled⟩ := checked
  refine ⟨s, live, ((exit_exact reachable).2.2.1 _ 9 isEnabled).mpr ⟨⟨{}, rfl⟩, ?_, last.symm⟩⟩
  simpa [live] using system

end Libtask
