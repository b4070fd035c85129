import Libtask.SinglePlace

/-!
# What a step leaves of the other tasks

Whatever a task does while it runs, it only appends to the run queue and to the task
table, and of the other live tasks it changes nothing but which of them are ready.  Only
the scheduler takes a task off the run queue, and it takes the head.
-/

namespace Libtask

open Function (update update_self update_of_ne)
open Outcome (bind_eq_ok)
open Transition

/-- The tasks that were dispatched, in order. -/
def dispatches (trace : List Event) : List TaskPtr :=
  trace.filterMap fun
    | .dispatch t => some t
    | _ => none

/-- What no function does to a task that does not run. -/
structure SameTask (task task' : Task) : Prop where
  pc : task'.pc = task.pc
  alarmtime : task'.alarmtime = task.alarmtime
  system : task'.system = task.system

theorem SameTask.refl (task : Task) : SameTask task task := ⟨rfl, rfl, rfl⟩

theorem SameTask.trans {task₁ task₂ task₃ : Task} (first : SameTask task₁ task₂)
    (second : SameTask task₂ task₃) : SameTask task₁ task₃ :=
  ⟨second.pc.trans first.pc, second.alarmtime.trans first.alarmtime,
    second.system.trans first.system⟩

/-- What a library function of `self` does to the tasks. -/
structure Grows (t : TaskPtr) (s s' : St) : Prop where
  queue : s.seq .taskrunqueue <+: s'.seq .taskrunqueue
  alltask : s.alltask <+: s'.alltask
  tasknswitch : s'.tasknswitch = s.tasknswitch
  dispatches : dispatches s'.trace = dispatches s.trace
  pc : ∀ u ∈ s.alltask, (s'.task u).pc = (s.task u).pc
  others : ∀ u ∈ s.alltask, u ≠ t → SameTask (s.task u) (s'.task u)

variable {s s' : St} {self : TaskPtr} {flow : Flow}

theorem Grows.refl (s : St) : Grows self s s :=
  ⟨List.prefix_rfl, List.prefix_rfl, rfl, rfl, fun _ _ => rfl, fun _ _ _ => .refl _⟩

theorem Grows.trans {s₁ s₂ s₃ : St} (first : Grows self s₁ s₂) (second : Grows self s₂ s₃) :
    Grows self s₁ s₃ where
  queue := first.queue.trans second.queue
  alltask := first.alltask.trans second.alltask
  tasknswitch := second.tasknswitch.trans first.tasknswitch
  dispatches := second.dispatches.trans first.dispatches
  pc u live := (second.pc u (first.alltask.subset live)).trans (first.pc u live)
  others u live other :=
    (first.others u live other).trans (second.others u (first.alltask.subset live) other)

/-- Functions of which only the effect on other variables matters. -/
theorem grows_of_eq (lists : s'.lists = s.lists) (alltask : s'.alltask = s.alltask)
    (tasknswitch : s'.tasknswitch = s.tasknswitch)
    (trace : dispatches s'.trace = dispatches s.trace)
    (task : ∀ u, (s'.task u).pc = (s.task u).pc)
    (others : ∀ u, u ≠ self → SameTask (s.task u) (s'.task u)) : Grows self s s' := by
  refine ⟨?_, ?_, tasknswitch, trace, fun u _ => task u, fun u _ => others u⟩
  · simp [lists]
  · simp [alltask]

/-- No event about locks or channels is a dispatch. -/
theorem dispatches_events (s : St) : dispatches (s.events .tasks) = dispatches s.trace := by
  simp only [dispatches, St.events, List.filterMap_filter]
  apply List.filterMap_congr
  intro e _
  cases e <;> simp [Event.part]

theorem KeepsTasks.sameTask (keeps : KeepsTasks s s') (u : TaskPtr) :
    SameTask (s.task u) (s'.task u) where
  pc := keeps.pc u
  alarmtime := by simpa [Task.still] using congrArg Task.alarmtime (keeps.still u)
  system := keeps.system u

/-- For the functions about locks and channels only the run queue is to be looked at. -/
theorem KeepsTasks.grows (keeps : KeepsTasks s s')
    (queue : s.seq .taskrunqueue <+: s'.seq .taskrunqueue) : Grows self s s' where
  queue := queue
  alltask := by simp [keeps.alltask]
  tasknswitch := congrArg Globals.tasknswitch keeps.globals
  dispatches := by rw [← dispatches_events, keeps.events, dispatches_events]
  pc u _ := keeps.pc u
  others u _ _ := keeps.sameTask u

/-! ## Locks and condition variables -/

theorem Woken.queue {l : ListId} {woken : List TaskPtr} (woke : Woken s s' l woken) :
    s.seq .taskrunqueue <+: s'.seq .taskrunqueue := by
  rw [woke.run]
  exact List.prefix_append _ _

theorem addtask_queue {l : ListId} {t : TaskPtr} (done : addtask s l t = .ok s') :
    s.seq .taskrunqueue <+: s'.seq .taskrunqueue := by
  obtain ⟨lists, rfl, -, seqEq, -⟩ := addtask_ok done
  by_cases same : ListId.taskrunqueue = l
  · subst same
    simp [seqEq]
  · simp [seqEq, same]

theorem qlockImpl_queue {l : QLockPtr} {block : Bool} {pc : Pc}
    (done : qlockImpl s self l block pc = .ok (s', flow)) :
    s.seq .taskrunqueue <+: s'.seq .taskrunqueue := by
  rcases qlockImpl_ok done with ⟨-, rfl, -⟩ | ⟨-, -, rfl, -⟩ | ⟨-, -, -, s₁, added, rfl⟩
  · exact List.prefix_rfl
  · exact List.prefix_rfl
  · have queued := addtask_queue added
    exact queued

theorem qunlock_queue {l : QLockPtr} (done : qunlock s self l = .ok s') :
    s.seq .taskrunqueue <+: s'.seq .taskrunqueue := by
  obtain ⟨-, woke, -⟩ := qunlock_ok done
  exact woke.queue

theorem rlockImpl_queue {l : RWLockPtr} {block : Bool}
    (done : rlockImpl s self l block = .ok (s', flow)) :
    s.seq .taskrunqueue <+: s'.seq .taskrunqueue := by
  rcases rlockImpl_ok done with ⟨-, -, -, rfl⟩ | ⟨-, -, rfl, -⟩ | ⟨-, -, -, s₁, added, rfl⟩
  · exact List.prefix_rfl
  · exact List.prefix_rfl
  · have queued := addtask_queue added
    exact queued

theorem wlockImpl_queue {l : RWLockPtr} {block : Bool}
    (done : wlockImpl s self l block = .ok (s', flow)) :
    s.seq .taskrunqueue <+: s'.seq .taskrunqueue := by
  rcases wlockImpl_ok done with ⟨-, -, -, rfl⟩ | ⟨-, -, rfl, -⟩ | ⟨-, -, -, s₁, added, rfl⟩
  · exact List.prefix_rfl
  · exact List.prefix_rfl
  · have queued := addtask_queue added
    exact queued

theorem tasksleep_queue {r : RendezPtr} (done : tasksleep s self r = .ok (s', flow)) :
    s.seq .taskrunqueue <+: s'.seq .taskrunqueue := by
  obtain ⟨-, s₁, added, ⟨-, rfl⟩ | ⟨l, -, unlocked⟩⟩ := tasksleep_ok done
  · have queued := addtask_queue added
    exact queued
  · have unlockedQueue := qunlock_queue unlocked
    exact (addtask_queue added).trans unlockedQueue

theorem tasksleepResume_queue {r : RendezPtr}
    (done : tasksleepResume s self r = .ok (s', flow)) :
    s.seq .taskrunqueue <+: s'.seq .taskrunqueue := by
  rcases tasksleepResume_ok done with
    ⟨-, -, rfl⟩ | ⟨l, s₁, flow', -, locked, ⟨i, -, -, rfl⟩ | ⟨pc, -, -, rfl⟩⟩
  · exact List.prefix_rfl
  · have queued := qlockImpl_queue locked
    exact queued
  · exact qlockImpl_queue locked

theorem call_lock_queue {c : Call} (locks : c.part = .locks)
    (done : call s self c = .ok (s', flow)) :
    s.seq .taskrunqueue <+: s'.seq .taskrunqueue := by
  cases c <;> simp only [Call.part, reduceCtorEq] at locks
  case qlock l =>
    obtain ⟨flow', inner, -⟩ := qlock_ok done
    exact qlockImpl_queue inner
  case canqlock l => exact qlockImpl_queue done
  case qunlock l => exact qunlock_queue (returning_ok done).1
  case rlock l =>
    obtain ⟨flow', inner, -⟩ := rlock_ok done
    exact rlockImpl_queue inner
  case canrlock l => exact rlockImpl_queue done
  case runlock l =>
    obtain ⟨next, -, woke, -⟩ := runlock_ok (returning_ok done).1
    exact woke.queue
  case wlock l =>
    obtain ⟨flow', inner, -⟩ := wlock_ok done
    exact wlockImpl_queue inner
  case canwlock l => exact wlockImpl_queue done
  case wunlock l =>
    obtain ⟨-, -, next, -, ⟨s₁, readers, writer⟩, -⟩ := wunlock_ok (returning_ok done).1
    exact readers.queue.trans writer.queue
  case tasksleep r => exact tasksleep_queue done
  case taskwakeup r =>
    obtain ⟨-, woke, -⟩ := taskwakeupImpl_ok done
    exact woke.queue
  case taskwakeupall r =>
    obtain ⟨-, woke, -⟩ := taskwakeupImpl_ok done
    exact woke.queue

theorem resume_lock_queue {pc : Pc} {env : Env} (locks : pc.part = .locks)
    (done : resume s self env pc = .ok (s', flow)) :
    s.seq .taskrunqueue <+: s'.seq .taskrunqueue := by
  cases pc <;> simp only [Pc.part, reduceCtorEq] at locks
  case qlock l =>
    obtain ⟨-, rfl⟩ := qlockResume_ok (returning_ok done).1
    exact List.prefix_rfl
  case rlock l =>
    obtain ⟨rfl, -⟩ := Prod.mk.inj (Except.ok.inj done)
    exact List.prefix_rfl
  case wlock l =>
    obtain ⟨rfl, -⟩ := Prod.mk.inj (Except.ok.inj done)
    exact List.prefix_rfl
  case tasksleep r => exact tasksleepResume_queue done
  case tasksleepQlock r l =>
    obtain ⟨s₁, owned, returned⟩ := bind_eq_ok.mp done
    obtain ⟨-, rfl⟩ := qlockResume_ok owned
    obtain ⟨rfl, -⟩ := Prod.mk.inj (Except.ok.inj returned)
    exact List.prefix_rfl

/-! ## Channels -/

theorem taskready_queue {t : TaskPtr} (done : taskready s t = .ok s') :
    s.seq .taskrunqueue <+: s'.seq .taskrunqueue := by
  obtain ⟨lists, -, rfl, seqEq, -⟩ := taskready_ok done
  simp [seqEq]

theorem altexec_queue {p : AltPtr} {rand : Nat} (done : altexec s self p rand = .ok s') :
    s.seq .taskrunqueue <+: s'.seq .taskrunqueue := by
  obtain ⟨a, -, ⟨-, copied⟩ | ⟨other, o, s₁, s₂, -, -, copied, dequeued, -, readied⟩⟩ :=
    altexec_ok done
  · obtain ⟨mem, chan, trace, rfl⟩ := (altcopy_copied copied).rest
    exact List.prefix_rfl
  · obtain ⟨mem, chan, trace, rfl⟩ := (altcopy_copied copied).rest
    obtain ⟨chan', rfl, -⟩ := altalldequeueLoop_rest dequeued
    have queued := taskready_queue readied
    exact queued

theorem chanalt_queue {base rand1 rand2 : Nat} {pc : Pc}
    (done : chanalt s self base rand1 rand2 pc = .ok (s', flow)) :
    s.seq .taskrunqueue <+: s'.seq .taskrunqueue := by
  rcases chanalt_ok done with
    ⟨-, i, -, -, executed⟩ | ⟨-, -, -, rfl⟩ | ⟨-, -, -, s₁, looped, rfl⟩
  · have queued := altexec_queue executed
    exact queued
  · exact List.prefix_rfl
  · obtain ⟨chan, rfl, -⟩ := altqueueLoop_rest looped
    exact List.prefix_rfl

theorem call_channel_queue {c : Call} (channels : c.part = .channels)
    (done : call s self c = .ok (s', flow)) :
    s.seq .taskrunqueue <+: s'.seq .taskrunqueue := by
  cases c <;> simp only [Call.part, reduceCtorEq] at channels
  case chancreate c elemsize bufsize junk =>
    obtain ⟨c', -, rfl⟩ := chancreate_ok (returning_ok done).1
    exact List.prefix_rfl
  case chanalt a alts rand1 rand2 =>
    have queued := chanalt_queue done
    exact queued
  case chanop c op v canblock a rand1 rand2 =>
    obtain ⟨flow', inner, -⟩ := chanop_ok done
    have queued := chanalt_queue inner
    exact queued
  case store p bytes =>
    obtain ⟨rfl, -⟩ := Prod.mk.inj (Except.ok.inj done)
    exact List.prefix_rfl

theorem resume_channel_queue {pc : Pc} {env : Env} (channels : pc.part = .channels)
    (done : resume s self env pc = .ok (s', flow)) :
    s.seq .taskrunqueue <+: s'.seq .taskrunqueue := by
  cases pc <;> simp only [Pc.part, reduceCtorEq] at channels
  all_goals
    obtain ⟨⟨s₁, i⟩, resumed, returned⟩ := bind_eq_ok.mp done
    obtain ⟨rfl, -⟩ := Prod.mk.inj (Except.ok.inj returned)
    obtain ⟨first, -, -, -, rfl⟩ := chanaltResume_ok resumed
    exact List.prefix_rfl

/-! ## Tasks -/

theorem taskready_grows {t : TaskPtr} (done : taskready s t = .ok s') : Grows self s s' :=
  (taskready_keepsTasks done).grows (taskready_queue done)

theorem taskcreate_grows {m : Alloc} {pc : Pc} {id : Int}
    (fresh : freshTask s m = true) (done : taskcreate s m pc = .ok (s', id)) :
    Grows self s s' := by
  obtain ⟨t₀, lists, cap, isTask, -, -, -, rfl, seqEq, -⟩ := taskcreate_ok done
  have isNew : t₀ ∉ s.alltask := by simpa [freshTask, isTask] using fresh
  have kept : ∀ u ∈ s.alltask, u ≠ t₀ := fun u live same => isNew (same ▸ live)
  refine ⟨by simp [seqEq], List.prefix_append _ _, rfl, rfl, fun u live => ?_,
    fun u live _ => ?_⟩
  · simp [kept u live]
  · simpa [kept u live] using .refl (s.task u)

theorem setTask_grows (s : St) (t : TaskPtr) {f : Task → Task}
    (pc : (f (s.task t)).pc = (s.task t).pc) : Grows t s (s.setTask t f) := by
  refine grows_of_eq rfl rfl rfl rfl ?_ ?_
  · intro u
    by_cases same : u = t
    · simp [St.setTask, same, pc]
    · simp [St.setTask, same]
  · intro u other
    simpa [St.setTask, other] using .refl (s.task u)

theorem tasksystem_grows (s : St) (self : TaskPtr) : Grows self s (tasksystem s self) := by
  unfold tasksystem
  split
  · exact .refl s
  · have marked := setTask_grows s self (f := fun task => { task with system := true }) rfl
    exact ⟨marked.queue, marked.alltask, marked.tasknswitch, marked.dispatches, marked.pc,
      marked.others⟩

theorem taskexit_grows (s : St) (self : TaskPtr) (val : Int) :
    Grows self s (taskexit s self val) := by
  have exits := setTask_grows s self (f := fun task => { task with exiting := true }) rfl
  refine ⟨exits.queue, exits.alltask, exits.tasknswitch, ?_, exits.pc, exits.others⟩
  simp [taskexit, St.log, St.setTask, dispatches]

theorem startfdtask_grows {m : Alloc} (fresh : freshTask s m = true)
    (done : startfdtask s m = .ok s') : Grows self s s' := by
  rcases startfdtask_ok done with ⟨-, rfl⟩ | ⟨-, id, created⟩
  · exact .refl _
  · have grown : Grows self { s with startedfdtask := true } s' := taskcreate_grows fresh created
    exact ⟨grown.queue, grown.alltask, grown.tasknswitch, grown.dispatches, grown.pc,
      grown.others⟩

theorem taskdelay_grows {ms now : Nat} {m : Alloc} (fresh : freshTask s m = true)
    (done : taskdelay s self ms now m = .ok (s', flow)) : Grows self s s' := by
  obtain ⟨-, s₁, due, position, lists, started, -, seqEq, -, rfl⟩ := taskdelay_ok done
  refine (startfdtask_grows fresh started).trans ?_
  have timed := setTask_grows s₁ self (f := fun task => { task with alarmtime := due }) rfl
  refine ⟨?_, timed.alltask, timed.tasknswitch, timed.dispatches, timed.pc, timed.others⟩
  simp [seqEq]

theorem fdwait_grows {fd : Int} {rw : Char} {m : Alloc}
    (fresh : freshTask s m = true) (done : fdwait s self fd rw m = .ok (s', flow)) :
    Grows self s s' := by
  obtain ⟨-, s₁, started, -, rfl⟩ := fdwait_ok done
  refine (startfdtask_grows fresh started).trans ?_
  exact grows_of_eq rfl rfl rfl rfl (fun _ => rfl) fun u _ => .refl (s₁.task u)

theorem pollwake_grows {fuel i : Nat} (done : pollwake fuel i s = .ok s') :
    Grows self s s' := by
  refine pollwake_induction (motive := Grows self s) ?_ (.refl s) done
  intro s₁ s₂ i before _ _ readied
  refine (before.trans (taskready_grows readied)).trans ?_
  exact grows_of_eq rfl rfl rfl rfl (fun _ => rfl) fun u _ => .refl (s₂.task u)

theorem countWaking_grows (s : St) (t : TaskPtr) : Grows self s (countWaking s t) := by
  unfold countWaking
  split
  · exact .refl s
  · exact grows_of_eq rfl rfl rfl rfl (fun _ => rfl) fun u _ => .refl (s.task u)

theorem deltask_grows {l : ListId} {t : TaskPtr} (notRun : l ≠ .taskrunqueue)
    (done : deltask s l t = .ok s') : Grows self s s' := by
  obtain ⟨lists, rfl, -, seqEq, -⟩ := deltask_ok done
  refine ⟨?_, List.prefix_rfl, rfl, rfl, fun _ _ => rfl, fun u _ _ => .refl (s.task u)⟩
  simp [seqEq, Ne.symm notRun]

theorem alarmwake_grows {now fuel : Nat} {woken : List TaskPtr}
    (done : alarmwake now fuel s = .ok (s', woken)) : Grows self s s' := by
  refine alarmwake_induction (motive := fun s₁ _ => Grows self s s₁) ?_ [] (.refl s) done
  intro s₁ s₂ s₃ t woken before _ removed readied
  exact ((before.trans (deltask_grows (by simp) removed)).trans
    (countWaking_grows s₂ t)).trans (taskready_grows readied)

theorem log_grows (s : St) {e : Event} (notDispatch : dispatches [e] = []) :
    Grows self s (s.log e) := by
  refine grows_of_eq rfl rfl rfl ?_ (fun _ => rfl) fun u _ => .refl (s.task u)
  have split : dispatches (s.log e).trace = dispatches s.trace ++ dispatches [e] := by
    simp [dispatches, St.log]
  rw [split, notDispatch, List.append_nil]

theorem fdtaskPass_grows {n : BitVec 32} {env : Env}
    (done : fdtaskPass s self n env = .ok (s', flow)) : Grows self s s' := by
  rcases fdtaskPass_ok done with
    yielded | yielded | ⟨revents, s₁, s₂, woken, -, polled, alarmed, yielded⟩
  · exact taskready_grows (fdtaskYield_ok yielded).2
  · have logged : Grows self s (s.log (.poll (polltimeout s env.now) s.npollfd)) :=
      log_grows s rfl
    exact logged.trans (taskready_grows (fdtaskYield_ok yielded).2)
  · have logged : Grows self s (s.log (.poll (polltimeout s env.now) s.npollfd)) :=
      log_grows s rfl
    have stored : Grows self s s₁ := by
      have first : Grows self _ s₁ := pollwake_grows polled
      exact logged.trans ⟨first.queue, first.alltask, first.tasknswitch, first.dispatches,
        first.pc, first.others⟩
    have woke : Grows self s₂ (s₂.log (.alarm env.nowAfter woken)) := log_grows s₂ rfl
    exact ((stored.trans (alarmwake_grows alarmed)).trans woke).trans
      (taskready_grows (fdtaskYield_ok yielded).2)

/-! ## Calls -/

theorem call_grows {c : Call} (isLegal : legal s c = true)
    (done : call s self c = .ok (s', flow)) : Grows self s s' := by
  cases part : c.part with
  | locks => exact (call_keepsTasks (by simp [part]) done).grows (call_lock_queue part done)
  | channels =>
      exact (call_keepsTasks (by simp [part]) done).grows (call_channel_queue part done)
  | tasks =>
      cases c <;> simp only [Call.part, reduceCtorEq] at part
      case taskcreate m =>
        obtain ⟨⟨s₁, id⟩, created, returned⟩ := bind_eq_ok.mp done
        obtain ⟨rfl, -⟩ := Prod.mk.inj (Except.ok.inj returned)
        exact taskcreate_grows isLegal created
      case tasksystem =>
        obtain ⟨rfl, -⟩ := Prod.mk.inj (Except.ok.inj done)
        exact tasksystem_grows s self
      case taskyield =>
        obtain ⟨⟨s₁, n⟩, yielded, returned⟩ := bind_eq_ok.mp done
        obtain ⟨rfl, -⟩ := Prod.mk.inj (Except.ok.inj returned)
        exact taskready_grows (taskyield_ok yielded)
      case taskexit val =>
        obtain ⟨rfl, -⟩ := Prod.mk.inj (Except.ok.inj done)
        exact taskexit_grows s self val
      case taskreturn =>
        obtain ⟨rfl, -⟩ := Prod.mk.inj (Except.ok.inj done)
        exact taskexit_grows s self 0
      case taskexitall val => cases done
      case anyready =>
        obtain ⟨rfl, -⟩ := Prod.mk.inj (Except.ok.inj done)
        exact .refl _
      case taskdelay ms now m =>
        simp only [legal, Bool.and_eq_true] at isLegal
        exact taskdelay_grows isLegal.2 done
      case fdwait fd rw m => exact fdwait_grows isLegal done

theorem resume_grows {pc : Pc} {env : Env} (done : resume s self env pc = .ok (s', flow)) :
    Grows self s s' := by
  cases part : pc.part with
  | locks => exact (resume_keepsTasks (by simp [part]) done).grows (resume_lock_queue part done)
  | channels =>
      exact (resume_keepsTasks (by simp [part]) done).grows (resume_channel_queue part done)
  | tasks =>
      cases pc <;> simp only [Pc.part, reduceCtorEq] at part
      case fdtask =>
        exact (tasksystem_grows s self).trans (taskready_grows (fdtaskYield_ok done).2)
      case fdtaskYield n => exact fdtaskPass_grows done
      all_goals
        obtain ⟨rfl, -⟩ := Prod.mk.inj (Except.ok.inj done)
        exact .refl _

/-! ## Steps -/

/-- What the end of a turn leaves of the other tasks. -/
theorem finish_others (table : (s.task self).exiting = true →
      s.alltask[(s.task self).alltaskslot]? = some self)
    (done : finish self (s, flow) = .ok s') {u : TaskPtr} (live : u ∈ s.alltask)
    (other : u ≠ self) : u ∈ s'.alltask ∧ SameTask (s.task u) (s'.task u) := by
  rcases finish_ok done with ⟨r, -, rfl⟩ | ⟨pc, -, ⟨-, rfl⟩ | ⟨exiting, reaped⟩⟩
  · exact ⟨live, by simpa [St.setTask, other] using .refl (s.task u)⟩
  · exact ⟨live, by simpa [St.setTask, other] using .refl (s.task u)⟩
  · obtain ⟨last, lastEq, inside, rfl⟩ := taskreap_ok reaped
    have atSlot := table exiting
    simp only [St.setTask, update_self] at lastEq inside ⊢
    constructor
    · have perm := SwapRemove.cons_swapRemove_perm inside
      have isSwap : SwapRemove.swapRemove s.alltask (s.task self).alltaskslot =
          (s.alltask.set (s.task self).alltaskslot last).dropLast := by
        simp [SwapRemove.swapRemove, lastEq]
      rw [List.getElem?_eq_getElem inside, Option.some.injEq] at atSlot
      rw [isSwap, atSlot] at perm
      exact (List.mem_cons.mp (perm.mem_iff.mpr live)).resolve_left other
    · by_cases isLast : u = last
      · subst isLast
        simp only [update_self, update_of_ne other]
        exact ⟨rfl, rfl, rfl⟩
      · simpa [isLast, other] using .refl (s.task u)

/-- Which part of its code a task runs in a step: a call, or the rest of a call that gave
up the CPU at some place. -/
inductive Code where
  | call (c : Call)
  | resume (pc : Pc)

/-- The task that an action runs, and its code. -/
inductive Acts (s : St) : Act → TaskPtr → Code → Prop where
  | call {self : TaskPtr} {c : Call} : s.taskrunning = some self →
      Acts s (.call c) self (.call c)
  | dispatch {t : TaskPtr} {env : Env} : s.taskrunning = none →
      (s.seq .taskrunqueue).head? = some t → Acts s (.dispatch env) t (.resume (s.task t).pc)

theorem Acts.unique {a : Act} {t u : TaskPtr} {code code' : Code} (first : Acts s a t code)
    (second : Acts s a u code') : t = u ∧ code = code' := by
  cases first with
  | call running =>
      cases second with
      | call running' => exact ⟨Option.some.inj (running.symm.trans running'), rfl⟩
  | dispatch stopped isHead =>
      cases second with
      | dispatch _ isHead' =>
          obtain rfl := Option.some.inj (isHead.symm.trans isHead')
          exact ⟨rfl, rfl⟩

/-- The task that acts is live. -/
theorem Acts.live {a : Act} {t : TaskPtr} {code : Code} (acts : Acts s a t code)
    (inv : Inv s.taskrunning s) : t ∈ s.alltask := by
  cases acts with
  | call running => exact ((inv.listed t).running running).1
  | dispatch _ isHead =>
      exact (inv.listed t).live _ ((mem_seq_iff s t _).mp (List.mem_of_mem_head? isHead))

/-- The task that the scheduler takes off the run queue. -/
def Code.dispatched (t : TaskPtr) : Code → List TaskPtr
  | .call _ => []
  | .resume _ => [t]

/-- What a step in which `t` ran did to the tasks. -/
structure Turned (t : TaskPtr) (code : Code) (s s' : St) : Prop where
  live : (s'.task t).pc ≠ .taskexit → t ∈ s'.alltask
  others : ∀ u ∈ s.alltask, u ≠ t → u ∈ s'.alltask ∧ SameTask (s.task u) (s'.task u)
  running : ∀ u, s'.taskrunning = some u → u = t ∧ ∃ r, (s'.task t).pc = .user r
  queue : ∃ rest, s.seq .taskrunqueue = code.dispatched t ++ rest ∧
    rest <+: s'.seq .taskrunqueue
  dispatches : dispatches s'.trace = dispatches s.trace ++ code.dispatched t
  tasknswitch : s'.tasknswitch =
    s.tasknswitch + BitVec.ofNat 32 (code.dispatched t).length

theorem finish_running (done : finish self (s, flow) = .ok s')
    (running : s.taskrunning = some self) (u : TaskPtr) (goes : s'.taskrunning = some u) :
    u = self ∧ ∃ r, (s'.task self).pc = .user r := by
  rcases finish_taskrunning done running with ⟨r, rfl, still⟩ | ⟨pc, -, stopped⟩
  · rw [still] at goes
    refine ⟨(Option.some.inj goes).symm, r, ?_⟩
    simpa [Flow.pc] using finish_pc done self
  · rw [stopped] at goes
    cases goes

theorem finish_globals (done : finish self (s, flow) = .ok s') :
    s'.trace = s.trace ∧ s'.tasknswitch = s.tasknswitch := by
  rcases finish_ok done with ⟨r, -, rfl⟩ | ⟨pc, -, ⟨-, rfl⟩ | ⟨-, reaped⟩⟩
  · exact ⟨rfl, rfl⟩
  · exact ⟨rfl, rfl⟩
  · obtain ⟨last, -, -, rfl⟩ := taskreap_ok reaped
    exact ⟨rfl, rfl⟩

/-- A task that has not ended itself stays live. -/
theorem After.live (after : After self s flow) (done : finish self (s, flow) = .ok s') :
    self ∈ s'.alltask := by
  rcases finish_ok done with ⟨r, rfl, rfl⟩ | ⟨pc, rfl, ⟨-, rfl⟩ | ⟨exiting, -⟩⟩
  · have inv : Inv (some self) s := after
    exact inv.live
  · exact after.1
  · rw [after.staying] at exiting
    cases exiting

/-- The slot of a task that ends itself is its own. -/
theorem call_slot {c : Call} (inv : Inv (some self) s) (isLegal : legal s c = true)
    (done : call s self c = .ok (s', flow)) (exiting : (s'.task self).exiting = true) :
    s'.alltask[(s'.task self).alltaskslot]? = some self := by
  cases exits : c.exits with
  | none =>
      rw [(call_after inv isLegal exits done).staying] at exiting
      cases exiting
  | some val =>
      obtain ⟨rfl, -⟩ := call_exits exits done
      obtain ⟨i, inside, atSlot⟩ := List.getElem_of_mem inv.live
      have slotEq := inv.table.slot i self (by simp [inside, atSlot])
      simp [taskexit, St.setTask, St.log, slotEq, inside, atSlot]

theorem step_turned {a : Act} {t : TaskPtr} {code : Code} (inv : Inv s.taskrunning s)
    (isEnabled : enabled s a) (acts : Acts s a t code) (stepped : step s a = .ok s') :
    Turned t code s s' := by
  cases step_shape isEnabled stepped with
  | call running isLegal called finished =>
      rename_i c self s₂ flow
      obtain ⟨rfl, rfl⟩ := acts.unique (.call running)
      rw [running] at inv
      have grown := call_grows isLegal called
      obtain ⟨traceEq, nswitchEq⟩ := finish_globals finished
      have stillRuns := (call_taskrunning called).trans running
      constructor
      · intro going
        cases exits : c.exits with
        | none => exact (call_after inv isLegal exits called).live finished
        | some val =>
            obtain ⟨-, rfl⟩ := call_exits exits called
            rw [finish_pc finished, if_pos rfl] at going
            exact absurd rfl going
      · intro u live other
        obtain ⟨live', same⟩ := finish_others (call_slot inv isLegal called) finished
          (grown.alltask.subset live) other
        exact ⟨live', (grown.others u live other).trans same⟩
      · exact finish_running finished stillRuns
      · refine ⟨_, rfl, ?_⟩
        simp only [St.seq, finish_lists finished]
        exact grown.queue
      · rw [traceEq, grown.dispatches]
        simp [Code.dispatched]
      · rw [nswitchEq, grown.tasknswitch]
        simp [Code.dispatched]
  | dispatch idle scheduled resumed finished =>
      rename_i env t' s₁ s₂ flow
      rw [idle] at inv
      have inv₁ := inv.dispatch scheduled
      have after := resume_after inv₁ (dispatch_going inv scheduled) resumed
      have grown := resume_grows resumed
      obtain ⟨traceEq, nswitchEq⟩ := finish_globals finished
      obtain ⟨-, isHead, lists, rfl, -, seqEq, -⟩ := taskscheduler_ok scheduled
      obtain ⟨rfl, rfl⟩ := acts.unique (.dispatch idle isHead)
      have stillRuns := resume_taskrunning resumed
      obtain ⟨rest, queueEq⟩ := List.head?_eq_some_iff.mp isHead
      constructor
      · exact fun _ => after.live finished
      · intro u live other
        have unscheduled := grown.others u live other
        obtain ⟨live', same⟩ := finish_others
          (fun exiting => by rw [after.staying] at exiting; cases exiting) finished
          (grown.alltask.subset live) other
        simp only [update_of_ne other] at unscheduled
        exact ⟨live', unscheduled.trans same⟩
      · exact finish_running finished stillRuns
      · refine ⟨rest, queueEq, ?_⟩
        have grownQueue := grown.queue
        simp only [St.seq, finish_lists finished]
        simpa [seqEq, queueEq] using grownQueue
      · rw [traceEq, grown.dispatches]
        simp [dispatches, Code.dispatched]
      · rw [nswitchEq, grown.tasknswitch]
        rfl

/-- The step of a reachable state, with the task that ran. -/
theorem exists_turned {a : Act} (inv : Inv s.taskrunning s) (isEnabled : enabled s a)
    (stepped : step s a = .ok s') : ∃ t code, Acts s a t code ∧ Turned t code s s' := by
  have acts : ∃ t code, Acts s a t code := by
    cases step_shape isEnabled stepped with
    | call running => exact ⟨_, _, .call running⟩
    | dispatch idle scheduled =>
        obtain ⟨-, isHead, -⟩ := taskscheduler_ok scheduled
        exact ⟨_, _, .dispatch idle isHead⟩
  obtain ⟨t, code, acts⟩ := acts
  exact ⟨t, code, acts, step_turned inv isEnabled acts stepped⟩

/-- A task that runs is in its own code between two steps. -/
theorem running_user {allowed : St → Act → Prop} (reachable : Reachable allowed s) (u : TaskPtr)
    (running : s.taskrunning = some u) : ∃ r, (s.task u).pc = .user r := by
  revert u
  apply reachable.invariant fun s => ∀ u, s.taskrunning = some u → ∃ r, (s.task u).pc = .user r
  · rintro s ⟨rendez, mem, t, started⟩ u running
    rw [(main_inv started).1] at running
    cases running
  · intro s a s' before _ isEnabled _ stepped u running
    obtain ⟨t, code, -, turned⟩ := exists_turned (reachable_inv before) isEnabled stepped
    obtain ⟨rfl, r, pcEq⟩ := turned.running u running
    exact ⟨r, pcEq⟩

end Libtask
