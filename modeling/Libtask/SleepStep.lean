import Libtask.Lib.Agenda
import Libtask.YieldRound

/-!
# What a step does to the sleeping list

The sleeping list is an agenda whose deadlines are the `alarmtime` fields.  `taskdelay`
enters the running task, a pass of `fdtask` that gets past its `poll` takes what is due, and
nothing else changes the list.
-/

namespace Libtask

open Function (update update_self update_of_ne)
open Outcome (bind_eq_ok)
open Transition

/-- The deadline of each task. -/
def St.alarmtime (s : St) (t : TaskPtr) : Nat := (s.task t).alarmtime

/-- The clock readings of `fdtask` after `poll`, with the tasks that it woke for them. -/
def alarms (trace : List Event) : List (Nat × List TaskPtr) :=
  trace.filterMap fun
    | .alarm now woken => some (now, woken)
    | _ => none

/-- In the turn of the scheduler from `s` the task `t`, which is `fdtask`, calls `poll` in
state `s₁`. -/
structure PollCall (s : St) (t : TaskPtr) (s₁ : St) : Prop where
  idle : s.taskrunning = none
  scheduled : taskscheduler s = .ok (s₁, t)
  called : ∃ n, (s₁.task t).pc = .fdtaskYield n ∧ taskyieldReturn s₁ n ≤ 0

variable {s s' s₁ : St} {self t : TaskPtr} {flow : Flow}

/-! ## Functions that leave the list alone -/

/-- The sleeping list and what was done to it. -/
structure KeepsSleep (s s' : St) : Prop where
  sleeping : s'.seq .sleeping = s.seq .sleeping
  alarms : alarms s'.trace = alarms s.trace

theorem KeepsSleep.refl (s : St) : KeepsSleep s s := ⟨rfl, rfl⟩

theorem KeepsSleep.trans {s₁ s₂ s₃ : St} (first : KeepsSleep s₁ s₂) (second : KeepsSleep s₂ s₃) :
    KeepsSleep s₁ s₃ :=
  ⟨second.sleeping.trans first.sleeping, second.alarms.trans first.alarms⟩

/-- No event about locks or channels is an alarm. -/
theorem alarms_events (s : St) : alarms (s.events .tasks) = alarms s.trace := by
  simp only [alarms, St.events, List.filterMap_filter]
  apply List.filterMap_congr
  intro e _
  cases e <;> simp [Event.part]

theorem KeepsTasks.keepsSleep (keeps : KeepsTasks s s') : KeepsSleep s s' :=
  ⟨keeps.sleeping, by rw [← alarms_events, keeps.events, alarms_events]⟩

theorem alarms_log (s : St) (e : Event) :
    alarms (s.log e).trace = alarms s.trace ++ alarms [e] := by
  simp [alarms, St.log]

theorem log_keepsSleep (s : St) {e : Event} (notAlarm : alarms [e] = []) :
    KeepsSleep s (s.log e) :=
  ⟨rfl, by rw [alarms_log, notAlarm, List.append_nil]⟩

theorem taskready_keepsSleep (done : taskready s t = .ok s') : KeepsSleep s s' :=
  (taskready_keepsTasks done).keepsSleep

theorem taskcreate_keepsSleep {m : Alloc} {pc : Pc} {id : Int}
    (done : taskcreate s m pc = .ok (s', id)) : KeepsSleep s s' := by
  obtain ⟨t₀, lists, cap, -, -, -, -, rfl, seqEq, -⟩ := taskcreate_ok done
  exact ⟨by simp [seqEq], rfl⟩

theorem tasksystem_keepsSleep (s : St) (self : TaskPtr) : KeepsSleep s (tasksystem s self) := by
  unfold tasksystem
  split
  · exact .refl s
  · exact ⟨rfl, rfl⟩

theorem taskexit_keepsSleep (s : St) (self : TaskPtr) (val : Int) :
    KeepsSleep s (taskexit s self val) :=
  ⟨rfl, by simp [taskexit, St.log, St.setTask, Libtask.alarms]⟩

theorem startfdtask_keepsSleep {m : Alloc} (done : startfdtask s m = .ok s') :
    KeepsSleep s s' := by
  rcases startfdtask_ok done with ⟨-, rfl⟩ | ⟨-, id, created⟩
  · exact .refl _
  · have kept := taskcreate_keepsSleep created
    exact ⟨kept.sleeping, kept.alarms⟩

theorem fdwait_keepsSleep {fd : Int} {rw : Char} {m : Alloc}
    (done : fdwait s self fd rw m = .ok (s', flow)) : KeepsSleep s s' := by
  obtain ⟨-, s₁, started, -, rfl⟩ := fdwait_ok done
  have kept := startfdtask_keepsSleep started
  exact ⟨kept.sleeping, kept.alarms⟩

theorem pollwake_keepsSleep {fuel i : Nat} (done : pollwake fuel i s = .ok s') :
    KeepsSleep s s' := by
  refine pollwake_induction (motive := KeepsSleep s) ?_ (.refl s) done
  intro s₁ s₂ i before _ _ readied
  have kept := before.trans (taskready_keepsSleep readied)
  exact ⟨kept.sleeping, kept.alarms⟩

theorem taskscheduler_keepsSleep (done : taskscheduler s = .ok (s', t)) : KeepsSleep s s' := by
  obtain ⟨-, -, lists, rfl, -, seqEq, -⟩ := taskscheduler_ok done
  exact ⟨by simp [seqEq], by simp [Libtask.alarms]⟩

theorem finish_keepsSleep (done : finish self (s, flow) = .ok s') : KeepsSleep s s' :=
  ⟨by simp only [St.seq, finish_lists done], by rw [(finish_globals done).1]⟩

/-! ## Falling asleep -/

/-- `taskdelay` enters the running task in the agenda. -/
theorem taskdelay_sleeps {ms now : Nat} {m : Alloc}
    (done : taskdelay s self ms now m = .ok (s', flow)) :
    flow = .switch (.taskdelay now) ∧ s'.alarmtime self = (now + ms * 1000000) % 2 ^ 64 ∧
      s'.seq .sleeping = Agenda.enter s'.alarmtime self (s.seq .sleeping) ∧
      alarms s'.trace = alarms s.trace := by
  obtain ⟨s₁, started, rest⟩ := bind_eq_ok.mp done
  have kept := startfdtask_keepsSleep started
  simp only at rest
  split at rest
  next => cases rest
  next lists inserted =>
    generalize dueEq : (now + ms * 1000000) % 2 ^ 64 = due at rest inserted
    rw [head_eq, delayPosition_eq [] _ rfl (Nat.le_refl _)] at inserted
    obtain ⟨free, seqEq, -⟩ := Dlist.Dlists.insert?_eq_some inserted
    obtain ⟨stateEq, rfl⟩ := Prod.mk.inj (Except.ok.inj rest)
    have effect : s'.task = update s₁.task self { s₁.task self with alarmtime := due } ∧
        s'.lists = lists ∧ s'.trace = s₁.trace := by
      rw [← stateEq]
      cases system : (s₁.task self).system <;> simp [St.setTask, system]
    obtain ⟨task, listsEq, trace⟩ := effect
    refine ⟨rfl, ?_, ?_, ?_⟩
    · simp [St.alarmtime, task]
    · have absent : self ∉ s₁.seq .sleeping := by simp [mem_seq_iff, free]
      rw [← kept.sleeping, St.seq, listsEq, seqEq, update_self,
        Dlist.insertAt_dropWhile self _ (s₁.lists.nodup .sleeping)]
      symm
      apply Agenda.enter_eq
      intro u member
      have other : u ≠ self := fun same => absent (same ▸ member)
      simp [St.alarmtime, task, other]
    · rw [trace, kept.alarms]

/-! ## Waking -/

theorem taskready_alarmtime (done : taskready s t = .ok s') : s'.alarmtime = s.alarmtime := by
  funext u
  exact ((taskready_keepsTasks done).sameTask u).alarmtime

/-- One turn of the loop over the sleepers. -/
theorem wake_first {rest : List TaskPtr} {s₂ : St} (asleep : s.seq .sleeping = t :: rest)
    (removed : deltask s .sleeping t = .ok s₁)
    (readied : taskready (countWaking s₁ t) t = .ok s₂) :
    s₂.seq .sleeping = rest ∧ s₂.seq .taskrunqueue = s.seq .taskrunqueue ++ [t] ∧
      s₂.alarmtime = s.alarmtime ∧ alarms s₂.trace = alarms s.trace := by
  obtain ⟨lists, rfl, -, seqEq, -⟩ := deltask_ok removed
  have counted : ∀ s : St, (countWaking s t).lists = s.lists ∧
      (countWaking s t).task = s.task ∧ (countWaking s t).trace = s.trace := by
    intro s
    unfold countWaking
    split
    · exact ⟨rfl, rfl, rfl⟩
    · exact ⟨rfl, rfl, rfl⟩
  obtain ⟨listsEq, taskEq, traceEq⟩ := counted { s with lists }
  have kept := taskready_keepsSleep readied
  have alarmtimeEq := taskready_alarmtime readied
  obtain ⟨lists', -, s₂Eq, queueEq, -⟩ := taskready_ok readied
  refine ⟨?_, ?_, ?_, ?_⟩
  · rw [kept.sleeping, St.seq, listsEq]
    simp [seqEq, asleep]
  · simp only [s₂Eq, St.seq, queueEq, update_self, listsEq]
    simp [seqEq]
  · rw [alarmtimeEq]
    funext u
    simp [St.alarmtime, taskEq]
  · rw [kept.alarms, traceEq]

/-- The loop over the sleepers takes what is due, in order. -/
theorem alarmwake_takes {now fuel : Nat} {woken : List TaskPtr}
    (done : alarmwake now fuel s = .ok (s', woken)) :
    woken = Agenda.due s.alarmtime now (s.seq .sleeping) ∧
      s'.seq .sleeping = Agenda.later s.alarmtime now (s.seq .sleeping) ∧
      s'.seq .taskrunqueue = s.seq .taskrunqueue ++ woken ∧
      alarms s'.trace = alarms s.trace := by
  induction fuel generalizing s woken with
  | zero =>
      unfold alarmwake at done
      split at done
      next headEq =>
        obtain ⟨rfl, rfl⟩ := Prod.mk.inj (Except.ok.inj done)
        have empty : s.seq .sleeping = [] := by simpa using headEq
        simp [empty, Agenda.due, Agenda.later]
      next t headEq =>
        split at done
        next => cases done
        next early =>
          obtain ⟨rfl, rfl⟩ := Prod.mk.inj (Except.ok.inj done)
          obtain ⟨rest, split⟩ := List.head?_eq_some_iff.mp ((head_eq s _).symm.trans headEq)
          simp [split, Agenda.due, Agenda.later, St.alarmtime, early]
  | succ fuel ih =>
      unfold alarmwake at done
      split at done
      next headEq =>
        obtain ⟨rfl, rfl⟩ := Prod.mk.inj (Except.ok.inj done)
        have empty : s.seq .sleeping = [] := by simpa using headEq
        simp [empty, Agenda.due, Agenda.later]
      next t headEq =>
        obtain ⟨rest, split⟩ := List.head?_eq_some_iff.mp ((head_eq s _).symm.trans headEq)
        split at done
        next isDue =>
          obtain ⟨s₁, removed, done⟩ := bind_eq_ok.mp done
          obtain ⟨s₂, readied, done⟩ := bind_eq_ok.mp done
          obtain ⟨⟨s₃, woken'⟩, looped, returned⟩ := bind_eq_ok.mp done
          obtain ⟨rfl, rfl⟩ := Prod.mk.inj (Except.ok.inj returned)
          obtain ⟨wokenEq, sleeping, queue, alarmsEq⟩ := ih looped
          obtain ⟨asleep, ready, alarmtimeEq, alarmsEq'⟩ := wake_first split removed readied
          have dueFirst : s.alarmtime t ≤ now := isDue
          rw [alarmtimeEq, asleep] at wokenEq sleeping
          refine ⟨?_, ?_, ?_, ?_⟩
          · rw [wokenEq, split]
            simp [Agenda.due, dueFirst]
          · rw [sleeping, split]
            simp [Agenda.later, dueFirst]
          · rw [queue, ready, List.append_assoc]
            rfl
          · rw [alarmsEq, alarmsEq']
        next early =>
          obtain ⟨rfl, rfl⟩ := Prod.mk.inj (Except.ok.inj done)
          simp [split, Agenda.due, Agenda.later, St.alarmtime, early]

theorem pollwake_alarmtime {fuel i : Nat} (done : pollwake fuel i s = .ok s') :
    s'.alarmtime = s.alarmtime := by
  refine pollwake_induction (motive := fun s₁ => s₁.alarmtime = s.alarmtime) ?_ rfl done
  intro s₁ s₂ i before _ _ readied
  exact (taskready_alarmtime readied).trans before

theorem taskscheduler_alarmtime (done : taskscheduler s = .ok (s', t)) :
    s'.alarmtime = s.alarmtime := by
  obtain ⟨-, -, lists, rfl, -⟩ := taskscheduler_ok done
  funext u
  by_cases same : u = t
  · simp [St.alarmtime, same]
  · simp [St.alarmtime, same]

theorem finish_alarmtime (done : finish self (s, flow) = .ok s') :
    s'.alarmtime = s.alarmtime := by
  have moved : ∀ pc, (s.setPc self pc).alarmtime = s.alarmtime := by
    intro pc
    funext u
    by_cases same : u = self
    · simp [St.alarmtime, St.setTask, same]
    · simp [St.alarmtime, St.setTask, same]
  rcases finish_ok done with ⟨r, -, rfl⟩ | ⟨pc, -, ⟨-, rfl⟩ | ⟨-, reaped⟩⟩
  · exact moved (.user r)
  · exact moved pc
  · obtain ⟨last, -, -, rfl⟩ := taskreap_ok reaped
    rw [← moved pc]
    funext u
    by_cases same : u = last
    · simp [St.alarmtime, same]
    · simp [St.alarmtime, same]

/-! ## Passes -/

/-- A pass of `fdtask`, with the conditions of its branches. -/
theorem fdtaskPass_cases {n : BitVec 32} {env : Env}
    (done : fdtaskPass s self n env = .ok (s', flow)) :
    (taskyieldReturn s n > 0 ∧ fdtaskYield s self = .ok (s', flow)) ∨
    taskyieldReturn s n ≤ 0 ∧
      ((env.poll = .eintr ∧ fdtaskYield (s.log (.poll (polltimeout s env.now) s.npollfd)) self =
        .ok (s', flow)) ∨
      ∃ revents s₁ s₂ woken, env.poll = .ready revents ∧
        pollwake s.npollfd 0 { s.log (.poll (polltimeout s env.now) s.npollfd) with
          pollfd := fun i =>
            if i < s.npollfd then { s.pollfd i with revents := revents i } else s.pollfd i } =
          .ok s₁ ∧
        alarmwake env.nowAfter (s₁.seq .sleeping).length s₁ = .ok (s₂, woken) ∧
        fdtaskYield (s₂.log (.alarm env.nowAfter woken)) self = .ok (s', flow)) := by
  unfold fdtaskPass at done
  split at done
  next busy => exact Or.inl ⟨busy, done⟩
  next idle =>
    refine Or.inr ⟨by omega, ?_⟩
    simp only at done
    split at done
    next pollEq => exact Or.inl ⟨pollEq, done⟩
    next => cases done
    next revents pollEq =>
      obtain ⟨s₁, polled, rest⟩ := bind_eq_ok.mp done
      obtain ⟨⟨s₂, woken⟩, alarmed, yielded⟩ := bind_eq_ok.mp rest
      exact Or.inr ⟨revents, s₁, s₂, woken, pollEq, polled, alarmed, yielded⟩

theorem fdtaskYield_appends (done : fdtaskYield s self = .ok (s', flow)) :
    s'.seq .taskrunqueue = s.seq .taskrunqueue ++ [self] ∧ KeepsSleep s s' := by
  have readied := (fdtaskYield_ok done).2
  obtain ⟨lists, -, s'Eq, seqEq, -⟩ := taskready_ok readied
  exact ⟨by simp [s'Eq, seqEq], taskready_keepsSleep readied⟩

/-- What a pass does that gets past its `poll`, with `polled` the tasks that are woken for
what `poll` found. -/
structure SleepPass (t : TaskPtr) (now : Nat) (polled : List TaskPtr) (s s' : St) : Prop where
  sleeping : s'.seq .sleeping = Agenda.later s.alarmtime now (s.seq .sleeping)
  queue : s'.seq .taskrunqueue = s.seq .taskrunqueue ++ polled ++
    Agenda.due s.alarmtime now (s.seq .sleeping) ++ [t]
  alarms : alarms s'.trace =
    alarms s.trace ++ [(now, Agenda.due s.alarmtime now (s.seq .sleeping))]

theorem fdtaskPass_sleeps {n : BitVec 32} {env : Env} {revents : Nat → Nat}
    (polls : taskyieldReturn s n ≤ 0) (success : env.poll = .ready revents)
    (done : fdtaskPass s self n env = .ok (s', flow)) :
    ∃ s₁ s₂ woken polled,
      pollwake s.npollfd 0 { s.log (.poll (polltimeout s env.now) s.npollfd) with
        pollfd := fun i =>
          if i < s.npollfd then { s.pollfd i with revents := revents i } else s.pollfd i } =
        .ok s₁ ∧
      alarmwake env.nowAfter (s₁.seq .sleeping).length s₁ = .ok (s₂, woken) ∧
      fdtaskYield (s₂.log (.alarm env.nowAfter woken)) self = .ok (s', flow) ∧
      s₁.seq .taskrunqueue = s.seq .taskrunqueue ++ polled ∧
      SleepPass self env.nowAfter polled s s' := by
  rcases fdtaskPass_cases done with
    ⟨busy, -⟩ | ⟨-, ⟨interrupted, -⟩ | ⟨revents', s₁, s₂, woken, ready, polled, alarmed, yielded⟩⟩
  · omega
  · rw [interrupted] at success
    cases success
  · obtain rfl := PollResult.ready.inj (ready.symm.trans success)
    refine ⟨s₁, s₂, woken, ?_⟩
    have alarmtimeEq := pollwake_alarmtime polled
    have kept := pollwake_keepsSleep polled
    have quiet : alarms s₁.trace = alarms s.trace :=
      kept.alarms.trans (log_keepsSleep s rfl).alarms
    have grown : Grows self _ s₁ := pollwake_grows polled
    obtain ⟨tasks, queue⟩ := grown.queue
    obtain ⟨rfl, sleeping, ready, alarmsEq⟩ := alarmwake_takes alarmed
    obtain ⟨appended, still⟩ := fdtaskYield_appends yielded
    have alarmtimes : s₁.alarmtime = s.alarmtime := alarmtimeEq
    have asleep : s₁.seq .sleeping = s.seq .sleeping := kept.sleeping
    rw [alarmtimes, asleep] at sleeping ready still
    refine ⟨tasks, polled, alarmed, yielded, queue.symm, still.sleeping.trans sleeping, ?_, ?_⟩
    · have readyBefore : s.seq .taskrunqueue ++ tasks = s₁.seq .taskrunqueue := queue
      have readyAfter : s'.seq .taskrunqueue = s₂.seq .taskrunqueue ++ [self] := appended
      rw [readyAfter, ready, ← readyBefore]
    · rw [still.alarms, alarms_log, alarmsEq, quiet]
      rfl

/-- The step that dispatches the task runs one pass. -/
theorem PollCall.step_eq (called : PollCall s t s₁) (env : Env) :
    ∃ n, taskyieldReturn s₁ n ≤ 0 ∧
      step s (.dispatch env) = fdtaskPass s₁ t n env >>= finish t := by
  obtain ⟨n, stopped, polls⟩ := called.called
  refine ⟨n, polls, ?_⟩
  rw [step, called.scheduled, Outcome.ok_bind]
  simp only [stopped, resume]

/-- A pass that gets past its `poll`, as a step. -/
theorem PollCall.sleeps {env : Env} {revents : Nat → Nat} (called : PollCall s t s₁)
    (success : env.poll = .ready revents) (stepped : step s (.dispatch env) = .ok s') :
    ∃ polled, SleepPass t env.nowAfter polled s₁ s' := by
  obtain ⟨n, polls, runsPass⟩ := called.step_eq env
  rw [runsPass] at stepped
  obtain ⟨⟨s₃, flow⟩, resumed, finished⟩ := bind_eq_ok.mp stepped
  obtain ⟨-, -, -, polled, -, -, -, -, pass⟩ := fdtaskPass_sleeps polls success resumed
  have still := finish_keepsSleep finished
  refine ⟨polled, still.sleeping.trans pass.sleeping, ?_, still.alarms.trans pass.alarms⟩
  rw [← pass.queue]
  simp only [St.seq, finish_lists finished]

/-! ## Steps -/

/-- What a step in which `t` ran did to the sleeping list. -/
inductive SleepTurn (t : TaskPtr) (s s' : St) : Act → Prop where
  | quiet {a : Act} : (∀ ms now m, a ≠ .call (.taskdelay ms now m)) → KeepsSleep s s' →
      SleepTurn t s s' a
  | delay {ms now : Nat} {m : Alloc} : (s'.task t).pc = .taskdelay now →
      s'.alarmtime t = (now + ms * 1000000) % 2 ^ 64 →
      s'.seq .sleeping = Agenda.enter s'.alarmtime t (s.seq .sleeping) →
      alarms s'.trace = alarms s.trace → SleepTurn t s s' (.call (.taskdelay ms now m))
  | pass {env : Env} {s₁ : St} {revents : Nat → Nat} {polled : List TaskPtr} :
      PollCall s t s₁ → env.poll = .ready revents → SleepPass t env.nowAfter polled s₁ s' →
      SleepTurn t s s' (.dispatch env)

theorem call_keepsSleep {c : Call} (awake : ∀ ms now m, c ≠ .taskdelay ms now m)
    (done : call s self c = .ok (s', flow)) : KeepsSleep s s' := by
  by_cases other : c.part ≠ .tasks
  · exact (call_keepsTasks other done).keepsSleep
  have tasks : c.part = .tasks := not_not.mp other
  cases c <;> simp only [Call.part, reduceCtorEq] at tasks
  case taskcreate m =>
    obtain ⟨⟨s₁, id⟩, created, returned⟩ := bind_eq_ok.mp done
    obtain ⟨rfl, -⟩ := Prod.mk.inj (Except.ok.inj returned)
    exact taskcreate_keepsSleep created
  case tasksystem =>
    obtain ⟨rfl, -⟩ := Prod.mk.inj (Except.ok.inj done)
    exact tasksystem_keepsSleep s self
  case taskyield =>
    obtain ⟨⟨s₁, n⟩, yielded, returned⟩ := bind_eq_ok.mp done
    obtain ⟨rfl, -⟩ := Prod.mk.inj (Except.ok.inj returned)
    exact taskready_keepsSleep (taskyield_ok yielded)
  case taskexit val =>
    obtain ⟨rfl, -⟩ := Prod.mk.inj (Except.ok.inj done)
    exact taskexit_keepsSleep s self val
  case taskreturn =>
    obtain ⟨rfl, -⟩ := Prod.mk.inj (Except.ok.inj done)
    exact taskexit_keepsSleep s self 0
  case taskexitall val => cases done
  case anyready =>
    obtain ⟨rfl, -⟩ := Prod.mk.inj (Except.ok.inj done)
    exact .refl _
  case taskdelay ms now m => exact absurd rfl (awake ms now m)
  case fdwait fd rw m => exact fdwait_keepsSleep done

theorem resume_keepsSleep {pc : Pc} {env : Env} (other : ∀ n, pc ≠ .fdtaskYield n)
    (done : resume s self env pc = .ok (s', flow)) : KeepsSleep s s' := by
  by_cases part : pc.part ≠ .tasks
  · exact (resume_keepsTasks part done).keepsSleep
  have tasks : pc.part = .tasks := not_not.mp part
  cases pc <;> simp only [Pc.part, reduceCtorEq] at tasks
  case fdtask => exact (tasksystem_keepsSleep s self).trans (fdtaskYield_appends done).2
  case fdtaskYield n => exact absurd rfl (other n)
  all_goals
    obtain ⟨rfl, -⟩ := Prod.mk.inj (Except.ok.inj done)
    exact .refl _

theorem step_sleeps {a : Act} {code : Code} (isEnabled : enabled s a) (acts : Acts s a t code)
    (stepped : step s a = .ok s') : SleepTurn t s s' a := by
  cases step_shape isEnabled stepped with
  | call running isLegal called finished =>
      rename_i c self s₂ flow
      obtain ⟨rfl, -⟩ := acts.unique (.call running)
      by_cases delays : ∃ ms now m, c = .taskdelay ms now m
      · obtain ⟨ms, now, m, rfl⟩ := delays
        obtain ⟨rfl, due, sleeping, alarmsEq⟩ := taskdelay_sleeps called
        have still := finish_keepsSleep finished
        refine .delay ?_ ?_ ?_ (still.alarms.trans alarmsEq)
        · simp [finish_pc finished t, Flow.pc]
        · rw [finish_alarmtime finished, due]
        · rw [still.sleeping, finish_alarmtime finished, sleeping]
      · refine .quiet ?_ ((call_keepsSleep ?_ called).trans (finish_keepsSleep finished))
        · exact fun ms now m isDelay => delays ⟨ms, now, m, Act.call.inj isDelay⟩
        · exact fun ms now m isDelay => delays ⟨ms, now, m, isDelay⟩
  | dispatch idle scheduled resumed finished =>
      rename_i env u s₁ s₂ flow
      have scheduledSleep := taskscheduler_keepsSleep scheduled
      have finishedSleep := finish_keepsSleep finished
      obtain ⟨-, isHead, -⟩ := taskscheduler_ok scheduled
      obtain ⟨rfl, -⟩ := acts.unique (.dispatch idle isHead)
      by_cases passes : ∃ n, (s₁.task t).pc = .fdtaskYield n
      · obtain ⟨n, stopped⟩ := passes
        rw [stopped] at resumed
        rcases fdtaskPass_cases resumed with
          ⟨-, yielded⟩ | ⟨polls, ⟨-, yielded⟩ | ⟨revents, -, -, -, success, -⟩⟩
        · exact .quiet (by simp) ((scheduledSleep.trans (fdtaskYield_appends yielded).2).trans
            finishedSleep)
        · have logged : KeepsSleep s₁ (s₁.log (.poll (polltimeout s₁ env.now) s₁.npollfd)) :=
            log_keepsSleep s₁ rfl
          exact .quiet (by simp) (((scheduledSleep.trans logged).trans
            (fdtaskYield_appends yielded).2).trans finishedSleep)
        · have called : PollCall s t s₁ := ⟨idle, scheduled, n, stopped, polls⟩
          obtain ⟨polled, pass⟩ := called.sleeps success stepped
          exact .pass called success pass
      · have kept := resume_keepsSleep (fun n stopped => passes ⟨n, stopped⟩) resumed
        exact .quiet (by simp) ((scheduledSleep.trans kept).trans finishedSleep)

end Libtask
