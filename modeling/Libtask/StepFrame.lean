import Libtask.QlockEffect
import Libtask.TaskEffect
import Libtask.ChannelEffect

/-!
# Steps and the three parts of the state

A step of the runtime runs one library function of one task, between two moves of
the scheduler.  The functions fall into those about locks, those about channels
and those about tasks, and each leaves the other parts alone.
-/

namespace Libtask

open Function (update)
open Outcome (bind_eq_ok)

variable {s s' : St} {self : TaskPtr} {flow : Flow}

/-! ## Functions about tasks -/

/-- The operations on tasks leave locks and channels alone. -/
structure TaskFrame (s s' : St) : Prop where
  locks : KeepsLocks s s'
  channels : KeepsChannels s s'

theorem TaskFrame.refl (s : St) : TaskFrame s s := ⟨KeepsLocks.refl s, KeepsChannels.refl s⟩

theorem TaskFrame.trans {s₁ s₂ s₃ : St} (first : TaskFrame s₁ s₂) (second : TaskFrame s₂ s₃) :
    TaskFrame s₁ s₃ :=
  ⟨first.locks.trans second.locks, first.channels.trans second.channels⟩

theorem log_taskFrame (s : St) {e : Event} (tasks : e.part = .tasks) :
    TaskFrame s (s.log e) :=
  ⟨log_keepsLocks s (by simp [tasks]), log_keepsChannels s (by simp [tasks])⟩

theorem taskready_taskFrame {t : TaskPtr} (done : taskready s t = .ok s') : TaskFrame s s' :=
  ⟨taskready_keepsLocks done, taskready_keepsChannels done⟩

theorem update_waiting {seq : ListId → List TaskPtr} {l : ListId} {nodes : List TaskPtr}
    (notWaiting : l.isWaiting = false) :
    ∀ l', l'.isWaiting = true → update seq l nodes l' = seq l' := by
  intro l' isWaiting
  have different : l' ≠ l := by
    rintro rfl
    simp [notWaiting] at isWaiting
  simp [different]

theorem setTask_taskFrame (s : St) (t : TaskPtr) (f : Task → Task) :
    TaskFrame s (s.setTask t f) :=
  ⟨setTask_keepsLocks s t f, setTask_keepsChannels s t f⟩

theorem taskcreate_frame {m : Alloc} {pc : Pc} {id : Int}
    (done : taskcreate s m pc = .ok (s', id)) : TaskFrame s s' := by
  obtain ⟨t₀, lists, cap, -, -, -, -, rfl, seqEq, -⟩ := taskcreate_ok done
  refine ⟨⟨rfl, rfl, rfl, ?_, rfl⟩, rfl, rfl, rfl, rfl, rfl⟩
  simpa [seqEq] using update_waiting rfl

theorem tasksystem_frame (s : St) (self : TaskPtr) : TaskFrame s (tasksystem s self) := by
  unfold tasksystem
  split
  · exact .refl s
  · exact ⟨⟨rfl, rfl, rfl, fun _ _ => rfl, rfl⟩, rfl, rfl, rfl, rfl, rfl⟩

theorem taskexit_frame (s : St) (self : TaskPtr) (val : Int) :
    TaskFrame s (taskexit s self val) := by
  refine TaskFrame.trans ?_ (log_taskFrame _ rfl)
  exact ⟨⟨rfl, rfl, rfl, fun _ _ => rfl, rfl⟩, rfl, rfl, rfl, rfl, rfl⟩

theorem startfdtask_frame {m : Alloc} (done : startfdtask s m = .ok s') :
    TaskFrame s s' := by
  rcases startfdtask_ok done with ⟨-, rfl⟩ | ⟨-, id, created⟩
  · exact .refl s'
  · refine TaskFrame.trans ?_ (taskcreate_frame created)
    exact ⟨⟨rfl, rfl, rfl, fun _ _ => rfl, rfl⟩, rfl, rfl, rfl, rfl, rfl⟩

theorem taskdelay_frame {ms now : Nat} {m : Alloc}
    (done : taskdelay s self ms now m = .ok (s', flow)) : TaskFrame s s' := by
  obtain ⟨-, s₁, due, position, lists, started, -, seqEq, -, rfl⟩ := taskdelay_ok done
  refine (startfdtask_frame started).trans ?_
  refine ⟨⟨rfl, rfl, rfl, ?_, rfl⟩, rfl, rfl, rfl, rfl, rfl⟩
  simpa [seqEq] using update_waiting rfl

theorem fdwait_frame {fd : Int} {rw : Char} {m : Alloc}
    (done : fdwait s self fd rw m = .ok (s', flow)) : TaskFrame s s' := by
  obtain ⟨-, s₁, started, -, rfl⟩ := fdwait_ok done
  refine (startfdtask_frame started).trans ?_
  exact ⟨⟨rfl, rfl, rfl, fun _ _ => rfl, rfl⟩, rfl, rfl, rfl, rfl, rfl⟩

theorem pollwake_frame {fuel i : Nat} (done : pollwake fuel i s = .ok s') :
    TaskFrame s s' := by
  refine pollwake_induction (motive := TaskFrame s) ?_ (.refl s) done
  intro s₁ s₂ i before _ _ readied
  refine (before.trans (taskready_taskFrame readied)).trans ?_
  exact ⟨⟨rfl, rfl, rfl, fun _ _ => rfl, rfl⟩, rfl, rfl, rfl, rfl, rfl⟩

theorem countWaking_frame (s : St) (t : TaskPtr) : TaskFrame s (countWaking s t) := by
  unfold countWaking
  split
  · exact .refl s
  · exact ⟨⟨rfl, rfl, rfl, fun _ _ => rfl, rfl⟩, rfl, rfl, rfl, rfl, rfl⟩

theorem alarmwake_frame {now fuel : Nat} {woken : List TaskPtr}
    (done : alarmwake now fuel s = .ok (s', woken)) : TaskFrame s s' := by
  refine alarmwake_induction (motive := fun s₁ _ => TaskFrame s s₁) ?_ [] (.refl s) done
  intro s₁ s₂ s₃ t woken before _ removed readied
  have dequeued : TaskFrame s₁ s₂ :=
    ⟨deltask_keepsLocks removed rfl, deltask_keepsChannels removed⟩
  exact ((before.trans dequeued).trans (countWaking_frame s₂ t)).trans
    (taskready_taskFrame readied)

theorem fdtaskYield_frame (done : fdtaskYield s self = .ok (s', flow)) : TaskFrame s s' :=
  taskready_taskFrame (fdtaskYield_ok done).2

theorem fdtaskPass_frame {n : BitVec 32} {env : Env}
    (done : fdtaskPass s self n env = .ok (s', flow)) : TaskFrame s s' := by
  rcases fdtaskPass_ok done with
    yielded | yielded | ⟨revents, s₁, s₂, woken, -, polled, alarmed, yielded⟩
  · exact fdtaskYield_frame yielded
  · exact (log_taskFrame s rfl).trans (fdtaskYield_frame yielded)
  · have stored : TaskFrame (s.log (.poll (polltimeout s env.now) s.npollfd)) s₁ := by
      refine TaskFrame.trans ?_ (pollwake_frame polled)
      exact ⟨⟨rfl, rfl, rfl, fun _ _ => rfl, rfl⟩, rfl, rfl, rfl, rfl, rfl⟩
    exact ((((log_taskFrame s rfl).trans stored).trans (alarmwake_frame alarmed)).trans
      (log_taskFrame s₂ rfl)).trans (fdtaskYield_frame yielded)

theorem taskscheduler_frame {t : TaskPtr} (done : taskscheduler s = .ok (s', t)) :
    TaskFrame s s' := by
  obtain ⟨-, -, lists, rfl, -, seqEq, -⟩ := taskscheduler_ok done
  have switched : TaskFrame s { s with
      lists
      task := update s.task t { s.task t with ready := false }
      taskrunning := some t
      tasknswitch := s.tasknswitch + 1 } := by
    refine ⟨⟨rfl, rfl, rfl, ?_, rfl⟩, rfl, rfl, rfl, rfl, rfl⟩
    simpa [seqEq] using update_waiting rfl
  exact switched.trans (log_taskFrame _ rfl)

theorem taskreap_frame {t : TaskPtr} (done : taskreap s t = .ok s') : TaskFrame s s' := by
  obtain ⟨last, -, -, rfl⟩ := taskreap_ok done
  exact ⟨⟨rfl, rfl, rfl, fun _ _ => rfl, rfl⟩, rfl, rfl, rfl, rfl, rfl⟩

theorem finish_frame (done : finish self (s, flow) = .ok s') : TaskFrame s s' := by
  rcases finish_ok done with ⟨r, -, rfl⟩ | ⟨pc, -, ⟨-, rfl⟩ | ⟨-, reaped⟩⟩
  · exact setTask_taskFrame s self _
  · exact ⟨⟨rfl, rfl, rfl, fun _ _ => rfl, rfl⟩, rfl, rfl, rfl, rfl, rfl⟩
  · refine TaskFrame.trans ?_ (taskreap_frame reaped)
    exact ⟨⟨rfl, rfl, rfl, fun _ _ => rfl, rfl⟩, rfl, rfl, rfl, rfl, rfl⟩

/-! ## Library functions by what they are about -/

/-- The part of the library that a call is about. -/
def Call.part : Call → Part
  | .qlock _ | .canqlock _ | .qunlock _ => .locks
  | .rlock _ | .canrlock _ | .runlock _ => .locks
  | .wlock _ | .canwlock _ | .wunlock _ => .locks
  | .tasksleep _ | .taskwakeup _ | .taskwakeupall _ => .locks
  | .chancreate .. | .chanalt .. | .chanop .. | .store .. => .channels
  | _ => .tasks

/-- The part of the library in which a task gave up the CPU. -/
def Pc.part : Pc → Part
  | .qlock _ | .rlock _ | .wlock _ | .tasksleep _ | .tasksleepQlock _ _ => .locks
  | .chanalt _ | .chanop _ => .channels
  | _ => .tasks

attribute [local simp] Call.part Pc.part

theorem returning_ok {r : Option Int} {x : Except Halt St}
    (done : returning r x = .ok (s', flow)) : x = .ok s' ∧ flow = .ret r := by
  obtain ⟨s₁, inner, returned⟩ := bind_eq_ok.mp done
  obtain ⟨rfl, rfl⟩ := Prod.mk.inj (Except.ok.inj returned)
  exact ⟨inner, rfl⟩

/-- `chanop` is `chanalt` on its local array. -/
theorem chanop_ok {c : ChanPtr} {op : Op} {v : Option Nat} {canblock : Bool}
    {a rand1 rand2 : Nat}
    (done : call s self (.chanop c op v canblock a rand1 rand2) = .ok (s', flow)) :
    ∃ flow', chanalt { s with alts := update s.alts a (chanopAlts c op v canblock) } self a
        rand1 rand2 (.chanop a) = .ok (s', flow') ∧
      ((∃ r, flow' = .ret r ∧ flow = .ret (r.map chanopResult)) ∨
        ∃ pc, flow' = .switch pc ∧ flow = .switch pc) := by
  obtain ⟨⟨s₁, flow'⟩, inner, returned⟩ := bind_eq_ok.mp done
  cases flow' with
  | ret r =>
      obtain ⟨rfl, rfl⟩ := Prod.mk.inj (Except.ok.inj returned)
      exact ⟨.ret r, inner, Or.inl ⟨r, rfl, rfl⟩⟩
  | switch pc =>
      obtain ⟨rfl, rfl⟩ := Prod.mk.inj (Except.ok.inj returned)
      exact ⟨.switch pc, inner, Or.inr ⟨pc, rfl, rfl⟩⟩

theorem call_lockFrame {c : Call} (locks : c.part = .locks)
    (done : call s self c = .ok (s', flow)) : LockFrame s s' := by
  cases c <;> simp at locks
  case qlock l =>
    obtain ⟨flow', inner, -⟩ := qlock_ok done
    exact qlockImpl_frame inner
  case canqlock l => exact qlockImpl_frame done
  case qunlock l => exact qunlock_frame (returning_ok done).1
  case rlock l =>
    obtain ⟨flow', inner, -⟩ := rlock_ok done
    exact rlockImpl_frame inner
  case canrlock l => exact rlockImpl_frame done
  case runlock l => exact runlock_frame (returning_ok done).1
  case wlock l =>
    obtain ⟨flow', inner, -⟩ := wlock_ok done
    exact wlockImpl_frame inner
  case canwlock l => exact wlockImpl_frame done
  case wunlock l => exact wunlock_frame (returning_ok done).1
  case tasksleep r => exact tasksleep_frame done
  case taskwakeup r => exact taskwakeupImpl_frame done
  case taskwakeupall r => exact taskwakeupImpl_frame done

theorem call_channelFrame {c : Call} (channels : c.part = .channels)
    (done : call s self c = .ok (s', flow)) : ChannelFrame s s' := by
  cases c <;> simp at channels
  case chancreate c elemsize bufsize junk => exact chancreate_frame (returning_ok done).1
  case chanalt a alts rand1 rand2 =>
    exact (assign_channelFrame s s.chans s.chan _ s.mem).trans (chanalt_frame done)
  case chanop c op v canblock a rand1 rand2 =>
    obtain ⟨flow', inner, -⟩ := chanop_ok done
    exact (assign_channelFrame s s.chans s.chan _ s.mem).trans (chanalt_frame inner)
  case store p bytes =>
    obtain ⟨rfl, -⟩ := Prod.mk.inj (Except.ok.inj done)
    exact assign_channelFrame s s.chans s.chan s.alts _

theorem call_taskFrame {c : Call} (tasks : c.part = .tasks)
    (done : call s self c = .ok (s', flow)) : TaskFrame s s' := by
  cases c <;> simp at tasks
  case taskcreate m =>
    obtain ⟨⟨s₁, id⟩, created, returned⟩ := bind_eq_ok.mp done
    obtain ⟨rfl, -⟩ := Prod.mk.inj (Except.ok.inj returned)
    exact taskcreate_frame created
  case tasksystem =>
    obtain ⟨rfl, -⟩ := Prod.mk.inj (Except.ok.inj done)
    exact tasksystem_frame s self
  case taskyield =>
    obtain ⟨⟨s₁, n⟩, yielded, returned⟩ := bind_eq_ok.mp done
    obtain ⟨rfl, -⟩ := Prod.mk.inj (Except.ok.inj returned)
    exact taskready_taskFrame (taskyield_ok yielded)
  case taskexit val =>
    obtain ⟨rfl, -⟩ := Prod.mk.inj (Except.ok.inj done)
    exact taskexit_frame s self val
  case taskreturn =>
    obtain ⟨rfl, -⟩ := Prod.mk.inj (Except.ok.inj done)
    exact taskexit_frame s self 0
  case taskexitall val => cases done
  case anyready =>
    obtain ⟨rfl, -⟩ := Prod.mk.inj (Except.ok.inj done)
    exact .refl s
  case taskdelay ms now m => exact taskdelay_frame done
  case fdwait fd rw m => exact fdwait_frame done

theorem resume_lockFrame {pc : Pc} {env : Env} (locks : pc.part = .locks)
    (done : resume s self env pc = .ok (s', flow)) : LockFrame s s' := by
  cases pc <;> simp at locks
  case qlock l =>
    obtain ⟨-, rfl⟩ := qlockResume_ok (returning_ok done).1
    exact .refl _
  case rlock l =>
    obtain ⟨rfl, -⟩ := Prod.mk.inj (Except.ok.inj done)
    exact .refl _
  case wlock l =>
    obtain ⟨rfl, -⟩ := Prod.mk.inj (Except.ok.inj done)
    exact .refl _
  case tasksleep r => exact tasksleepResume_frame done
  case tasksleepQlock r l =>
    obtain ⟨s₁, owned, returned⟩ := bind_eq_ok.mp done
    obtain ⟨-, rfl⟩ := qlockResume_ok owned
    obtain ⟨rfl, -⟩ := Prod.mk.inj (Except.ok.inj returned)
    exact log_lockFrame _ rfl

theorem resume_channelFrame {pc : Pc} {env : Env} (channels : pc.part = .channels)
    (done : resume s self env pc = .ok (s', flow)) : ChannelFrame s s' := by
  cases pc <;> simp at channels
  all_goals
    obtain ⟨⟨s₁, i⟩, resumed, returned⟩ := bind_eq_ok.mp done
    obtain ⟨rfl, -⟩ := Prod.mk.inj (Except.ok.inj returned)
    exact chanaltResume_frame resumed

theorem resume_taskFrame {pc : Pc} {env : Env} (tasks : pc.part = .tasks)
    (done : resume s self env pc = .ok (s', flow)) : TaskFrame s s' := by
  cases pc <;> simp at tasks
  case fdtask => exact (tasksystem_frame s self).trans (fdtaskYield_frame done)
  case fdtaskYield n => exact fdtaskPass_frame done
  all_goals
    obtain ⟨rfl, -⟩ := Prod.mk.inj (Except.ok.inj done)
    exact .refl _

theorem call_keepsLocks {c : Call} (other : c.part ≠ .locks)
    (done : call s self c = .ok (s', flow)) : KeepsLocks s s' := by
  cases part : c.part with
  | locks => exact absurd part other
  | channels => exact (call_channelFrame part done).locks
  | tasks => exact (call_taskFrame part done).locks

theorem call_keepsChannels {c : Call} (other : c.part ≠ .channels)
    (done : call s self c = .ok (s', flow)) : KeepsChannels s s' := by
  cases part : c.part with
  | locks => exact (call_lockFrame part done).channels
  | channels => exact absurd part other
  | tasks => exact (call_taskFrame part done).channels

theorem call_keepsTasks {c : Call} (other : c.part ≠ .tasks)
    (done : call s self c = .ok (s', flow)) : KeepsTasks s s' := by
  cases part : c.part with
  | locks => exact (call_lockFrame part done).tasks
  | channels => exact (call_channelFrame part done).tasks
  | tasks => exact absurd part other

theorem resume_keepsLocks {pc : Pc} {env : Env} (other : pc.part ≠ .locks)
    (done : resume s self env pc = .ok (s', flow)) : KeepsLocks s s' := by
  cases part : pc.part with
  | locks => exact absurd part other
  | channels => exact (resume_channelFrame part done).locks
  | tasks => exact (resume_taskFrame part done).locks

theorem resume_keepsChannels {pc : Pc} {env : Env} (other : pc.part ≠ .channels)
    (done : resume s self env pc = .ok (s', flow)) : KeepsChannels s s' := by
  cases part : pc.part with
  | locks => exact (resume_lockFrame part done).channels
  | channels => exact absurd part other
  | tasks => exact (resume_taskFrame part done).channels

theorem resume_keepsTasks {pc : Pc} {env : Env} (other : pc.part ≠ .tasks)
    (done : resume s self env pc = .ok (s', flow)) : KeepsTasks s s' := by
  cases part : pc.part with
  | locks => exact (resume_lockFrame part done).tasks
  | channels => exact (resume_channelFrame part done).tasks
  | tasks => exact absurd part other

/-! ## Tasks that gave up the CPU -/

/-- No library function moves on a task that gave up the CPU in an operation on locks
or channels.  New tasks have not done so. -/
structure Unmoved (s s' : St) : Prop where
  taskrunning : s'.taskrunning = s.taskrunning
  pc : ∀ u, u ∈ s'.alltask → (s'.task u).pc.part ≠ .tasks →
    u ∈ s.alltask ∧ (s'.task u).pc = (s.task u).pc

theorem Unmoved.refl (s : St) : Unmoved s s := ⟨rfl, fun _ live _ => ⟨live, rfl⟩⟩

theorem Unmoved.trans {s₁ s₂ s₃ : St} (first : Unmoved s₁ s₂) (second : Unmoved s₂ s₃) :
    Unmoved s₁ s₃ where
  taskrunning := second.taskrunning.trans first.taskrunning
  pc u live blocked := by
    obtain ⟨live₂, pcEq⟩ := second.pc u live blocked
    obtain ⟨live₁, pcEq'⟩ := first.pc u live₂ (pcEq ▸ blocked)
    exact ⟨live₁, pcEq.trans pcEq'⟩

theorem unmoved_of_pc (taskrunning : s'.taskrunning = s.taskrunning)
    (alltask : s'.alltask = s.alltask) (pc : ∀ u, (s'.task u).pc = (s.task u).pc) :
    Unmoved s s' :=
  ⟨taskrunning, fun u live _ => ⟨alltask ▸ live, pc u⟩⟩

theorem KeepsTasks.unmoved (keeps : KeepsTasks s s') : Unmoved s s' :=
  unmoved_of_pc keeps.taskrunning keeps.alltask keeps.pc

theorem taskready_unmoved {t : TaskPtr} (done : taskready s t = .ok s') : Unmoved s s' :=
  (taskready_keepsTasks done).unmoved

theorem setTask_unmoved (s : St) (t : TaskPtr) {f : Task → Task}
    (pc : (f (s.task t)).pc = (s.task t).pc) : Unmoved s (s.setTask t f) := by
  refine unmoved_of_pc rfl rfl fun u => ?_
  by_cases same : u = t
  · simp [St.setTask, same, pc]
  · simp [St.setTask, same]

theorem taskcreate_unmoved {m : Alloc} {pc : Pc} {id : Int} (tasks : pc.part = .tasks)
    (done : taskcreate s m pc = .ok (s', id)) : Unmoved s s' := by
  obtain ⟨t₀, lists, cap, -, -, -, -, rfl, -⟩ := taskcreate_ok done
  refine ⟨rfl, fun u live blocked => ?_⟩
  by_cases same : u = t₀
  · subst same
    simp [-Pc.part, tasks] at blocked
  · simpa [same] using live

theorem tasksystem_unmoved (s : St) (self : TaskPtr) : Unmoved s (tasksystem s self) := by
  unfold tasksystem
  split
  · exact .refl s
  · have marked := setTask_unmoved s self (f := fun task => { task with system := true }) rfl
    exact ⟨marked.taskrunning, marked.pc⟩

theorem startfdtask_unmoved {m : Alloc} (done : startfdtask s m = .ok s') :
    Unmoved s s' := by
  rcases startfdtask_ok done with ⟨-, rfl⟩ | ⟨-, id, created⟩
  · exact .refl s'
  · have started : Unmoved s { s with startedfdtask := true } :=
      unmoved_of_pc rfl rfl fun _ => rfl
    exact started.trans (taskcreate_unmoved rfl created)

theorem pollwake_unmoved {fuel i : Nat} (done : pollwake fuel i s = .ok s') : Unmoved s s' := by
  refine pollwake_induction (motive := Unmoved s) ?_ (.refl s) done
  intro s₁ s₂ i before _ _ readied
  exact (before.trans (taskready_unmoved readied)).trans (unmoved_of_pc rfl rfl fun _ => rfl)

theorem countWaking_unmoved (s : St) (t : TaskPtr) : Unmoved s (countWaking s t) := by
  unfold countWaking
  split
  · exact .refl s
  · exact unmoved_of_pc rfl rfl fun _ => rfl

theorem alarmwake_unmoved {now fuel : Nat} {woken : List TaskPtr}
    (done : alarmwake now fuel s = .ok (s', woken)) : Unmoved s s' := by
  refine alarmwake_induction (motive := fun s₁ _ => Unmoved s s₁) ?_ [] (.refl s) done
  intro s₁ s₂ s₃ t woken before _ removed readied
  obtain ⟨lists, rfl, -⟩ := deltask_ok removed
  have unlinked : Unmoved s₁ { s₁ with lists } := unmoved_of_pc rfl rfl fun _ => rfl
  exact ((before.trans unlinked).trans (countWaking_unmoved _ t)).trans
    (taskready_unmoved readied)

theorem fdtaskPass_unmoved {n : BitVec 32} {env : Env}
    (done : fdtaskPass s self n env = .ok (s', flow)) : Unmoved s s' := by
  rcases fdtaskPass_ok done with
    yielded | yielded | ⟨revents, s₁, s₂, woken, -, polled, alarmed, yielded⟩
  · exact taskready_unmoved (fdtaskYield_ok yielded).2
  · have logged : Unmoved s (s.log (.poll (polltimeout s env.now) s.npollfd)) :=
      unmoved_of_pc rfl rfl fun _ => rfl
    exact logged.trans (taskready_unmoved (fdtaskYield_ok yielded).2)
  · have stored : Unmoved s s₁ := by
      have first := pollwake_unmoved polled
      exact ⟨first.taskrunning, first.pc⟩
    have woke : Unmoved s₂ (s₂.log (.alarm env.nowAfter woken)) :=
      unmoved_of_pc rfl rfl fun _ => rfl
    exact ((stored.trans (alarmwake_unmoved alarmed)).trans woke).trans
      (taskready_unmoved (fdtaskYield_ok yielded).2)

theorem call_unmoved {c : Call} (done : call s self c = .ok (s', flow)) : Unmoved s s' := by
  by_cases other : c.part ≠ .tasks
  · exact (call_keepsTasks other done).unmoved
  have tasks : c.part = .tasks := not_not.mp other
  cases c <;> simp at tasks
  case taskcreate m =>
    obtain ⟨⟨s₁, id⟩, created, returned⟩ := bind_eq_ok.mp done
    obtain ⟨rfl, -⟩ := Prod.mk.inj (Except.ok.inj returned)
    exact taskcreate_unmoved rfl created
  case tasksystem =>
    obtain ⟨rfl, -⟩ := Prod.mk.inj (Except.ok.inj done)
    exact tasksystem_unmoved s self
  case taskyield =>
    obtain ⟨⟨s₁, n⟩, yielded, returned⟩ := bind_eq_ok.mp done
    obtain ⟨rfl, -⟩ := Prod.mk.inj (Except.ok.inj returned)
    exact taskready_unmoved (taskyield_ok yielded)
  case taskexit val =>
    obtain ⟨rfl, -⟩ := Prod.mk.inj (Except.ok.inj done)
    have exits := setTask_unmoved s self (f := fun task => { task with exiting := true }) rfl
    exact ⟨exits.taskrunning, exits.pc⟩
  case taskreturn =>
    obtain ⟨rfl, -⟩ := Prod.mk.inj (Except.ok.inj done)
    have exits := setTask_unmoved s self (f := fun task => { task with exiting := true }) rfl
    exact ⟨exits.taskrunning, exits.pc⟩
  case taskexitall val => cases done
  case anyready =>
    obtain ⟨rfl, -⟩ := Prod.mk.inj (Except.ok.inj done)
    exact .refl _
  case taskdelay ms now m =>
    obtain ⟨-, s₁, due, position, lists, started, -, -, -, rfl⟩ := taskdelay_ok done
    have timed := setTask_unmoved s₁ self (f := fun task => { task with alarmtime := due }) rfl
    exact (startfdtask_unmoved started).trans ⟨timed.taskrunning, timed.pc⟩
  case fdwait fd rw m =>
    obtain ⟨-, s₁, started, -, rfl⟩ := fdwait_ok done
    exact (startfdtask_unmoved started).trans (unmoved_of_pc rfl rfl fun _ => rfl)

theorem resume_unmoved {pc : Pc} {env : Env}
    (done : resume s self env pc = .ok (s', flow)) : Unmoved s s' := by
  by_cases other : pc.part ≠ .tasks
  · exact (resume_keepsTasks other done).unmoved
  have tasks : pc.part = .tasks := not_not.mp other
  cases pc <;> simp at tasks
  case fdtask =>
    exact (tasksystem_unmoved s self).trans (taskready_unmoved (fdtaskYield_ok done).2)
  case fdtaskYield n => exact fdtaskPass_unmoved done
  all_goals
    obtain ⟨rfl, -⟩ := Prod.mk.inj (Except.ok.inj done)
    exact .refl _

theorem call_taskrunning {c : Call} (done : call s self c = .ok (s', flow)) :
    s'.taskrunning = s.taskrunning :=
  (call_unmoved done).taskrunning

theorem resume_taskrunning {pc : Pc} {env : Env}
    (done : resume s self env pc = .ok (s', flow)) : s'.taskrunning = s.taskrunning :=
  (resume_unmoved done).taskrunning

/-! ## Where tasks are in their code -/

/-- The places at which a call can give up the CPU. -/
def Call.Switches : Call → Pc → Prop
  | .taskyield, .taskyield _ => True
  | .taskexit _, .taskexit => True
  | .taskreturn, .taskexit => True
  | .taskdelay .., .taskdelay _ => True
  | .fdwait .., .fdwait => True
  | .qlock l, .qlock l' => l' = l
  | .rlock l, .rlock l' => l' = l
  | .wlock l, .wlock l' => l' = l
  | .tasksleep r, .tasksleep r' => r' = r
  | .chanalt a _ _ _, .chanalt a' => a' = a
  | .chanop _ _ _ _ a _ _, .chanop a' => a' = a
  | _, _ => False

/-- The places at which a call that is resumed can give up the CPU again. -/
def Pc.Switches : Pc → Pc → Prop
  | .tasksleep r, .tasksleepQlock r' _ => r' = r
  | .fdtask, .fdtaskYield _ => True
  | .fdtaskYield _, .fdtaskYield _ => True
  | .taskexit, .taskexit => True
  | _, _ => False

theorem void_eq_switch {flow : Flow} {pc : Pc} (switches : flow.void = .switch pc) :
    flow = .switch pc := by
  cases flow with
  | ret r => cases switches
  | switch pc' => exact switches

theorem qlockImpl_switch {l : QLockPtr} {block : Bool} {pc pc' : Pc}
    (done : qlockImpl s self l block pc = .ok (s', .switch pc')) : block = true ∧ pc' = pc := by
  rcases qlockImpl_ok done with ⟨-, -, isRet⟩ | ⟨-, -, -, isRet⟩ | ⟨-, blocks, isSwitch, -⟩
  · cases isRet
  · cases isRet
  · exact ⟨blocks, Flow.switch.inj isSwitch⟩

theorem rlockImpl_switch {l : RWLockPtr} {block : Bool} {pc : Pc}
    (done : rlockImpl s self l block = .ok (s', .switch pc)) : block = true ∧ pc = .rlock l := by
  rcases rlockImpl_ok done with ⟨-, -, isRet, -⟩ | ⟨-, -, -, isRet⟩ | ⟨-, blocks, isSwitch, -⟩
  · cases isRet
  · cases isRet
  · exact ⟨blocks, Flow.switch.inj isSwitch⟩

theorem wlockImpl_switch {l : RWLockPtr} {block : Bool} {pc : Pc}
    (done : wlockImpl s self l block = .ok (s', .switch pc)) : block = true ∧ pc = .wlock l := by
  rcases wlockImpl_ok done with ⟨-, -, isRet, -⟩ | ⟨-, -, -, isRet⟩ | ⟨-, blocks, isSwitch, -⟩
  · cases isRet
  · cases isRet
  · exact ⟨blocks, Flow.switch.inj isSwitch⟩

theorem chanalt_switch {base rand1 rand2 : Nat} {pc pc' : Pc}
    (done : chanalt s self base rand1 rand2 pc = .ok (s', .switch pc')) : pc' = pc := by
  rcases chanalt_ok done with ⟨-, i, isRet, -⟩ | ⟨-, -, isRet, -⟩ | ⟨-, -, isSwitch, -⟩
  · cases isRet
  · cases isRet
  · exact Flow.switch.inj isSwitch

theorem call_switches {c : Call} {pc : Pc} (done : call s self c = .ok (s', .switch pc)) :
    c.Switches pc := by
  cases c with
  | taskyield =>
      obtain ⟨⟨s₁, n⟩, -, returned⟩ := bind_eq_ok.mp done
      cases returned
      trivial
  | taskexit val =>
      cases done
      trivial
  | taskreturn =>
      cases done
      trivial
  | taskdelay ms now m =>
      obtain ⟨isSwitch, -⟩ := taskdelay_ok done
      cases isSwitch
      trivial
  | fdwait fd rw m =>
      obtain ⟨isSwitch, -⟩ := fdwait_ok done
      cases isSwitch
      trivial
  | qlock l =>
      obtain ⟨flow', inner, isVoid⟩ := qlock_ok done
      rw [void_eq_switch isVoid.symm] at inner
      obtain ⟨-, rfl⟩ := qlockImpl_switch inner
      rfl
  | canqlock l => cases (qlockImpl_switch done).1
  | rlock l =>
      obtain ⟨flow', inner, isVoid⟩ := rlock_ok done
      rw [void_eq_switch isVoid.symm] at inner
      obtain ⟨-, rfl⟩ := rlockImpl_switch inner
      rfl
  | canrlock l => cases (rlockImpl_switch done).1
  | wlock l =>
      obtain ⟨flow', inner, isVoid⟩ := wlock_ok done
      rw [void_eq_switch isVoid.symm] at inner
      obtain ⟨-, rfl⟩ := wlockImpl_switch inner
      rfl
  | canwlock l => cases (wlockImpl_switch done).1
  | tasksleep r =>
      obtain ⟨isSwitch, -⟩ := tasksleep_ok done
      cases isSwitch
      rfl
  | chanalt a alts rand1 rand2 =>
      obtain rfl := chanalt_switch done
      rfl
  | chanop c op v canblock a rand1 rand2 =>
      obtain ⟨flow', inner, ⟨r, -, isRet⟩ | ⟨pc', rfl, isSwitch⟩⟩ := chanop_ok done
      · cases isRet
      · obtain rfl := chanalt_switch inner
        obtain rfl := Flow.switch.inj isSwitch
        rfl
  | qunlock l => cases (returning_ok done).2
  | runlock l => cases (returning_ok done).2
  | wunlock l => cases (returning_ok done).2
  | chancreate c elemsize bufsize junk => cases (returning_ok done).2
  | taskwakeup r => cases (taskwakeupImpl_ok done).1
  | taskwakeupall r => cases (taskwakeupImpl_ok done).1
  | taskcreate m =>
      obtain ⟨⟨s₁, id⟩, -, returned⟩ := bind_eq_ok.mp done
      cases returned
  | taskexitall val => cases done
  | tasksystem => cases done
  | anyready => cases done
  | store p bytes => cases done

theorem fdtaskPass_switch {n : BitVec 32} {env : Env} {pc : Pc}
    (done : fdtaskPass s self n env = .ok (s', .switch pc)) : ∃ n', pc = .fdtaskYield n' := by
  rcases fdtaskPass_ok done with
    yielded | yielded | ⟨revents, s₁, s₂, woken, -, -, -, yielded⟩
  all_goals
    obtain ⟨⟨n', isSwitch⟩, -⟩ := fdtaskYield_ok yielded
    exact ⟨n', Flow.switch.inj isSwitch⟩

theorem resume_switches {pc pc' : Pc} {env : Env}
    (done : resume s self env pc = .ok (s', .switch pc')) : pc.Switches pc' := by
  cases pc with
  | tasksleep r =>
      obtain ⟨-, isRet, -⟩ | ⟨l, s₁, flow', -, locked, ⟨i, -, isRet, -⟩ | ⟨pc, rfl, isSwitch, -⟩⟩ :=
        tasksleepResume_ok done
      · cases isRet
      · cases isRet
      · obtain ⟨-, rfl⟩ := qlockImpl_switch locked
        obtain rfl := Flow.switch.inj isSwitch
        rfl
  | fdtask =>
      obtain ⟨⟨n', isSwitch⟩, -⟩ := fdtaskYield_ok done
      obtain rfl := Flow.switch.inj isSwitch
      trivial
  | fdtaskYield n =>
      obtain ⟨n', rfl⟩ := fdtaskPass_switch done
      trivial
  | taskexit =>
      cases done
      trivial
  | qlock l => cases (returning_ok done).2
  | tasksleepQlock r l =>
      obtain ⟨s₁, -, returned⟩ := bind_eq_ok.mp done
      cases returned
  | chanalt a =>
      obtain ⟨⟨s₁, i⟩, -, returned⟩ := bind_eq_ok.mp done
      cases returned
  | chanop a =>
      obtain ⟨⟨s₁, i⟩, -, returned⟩ := bind_eq_ok.mp done
      cases returned
  | user r => cases done
  | taskyield n => cases done
  | rlock l => cases done
  | wlock l => cases done
  | taskdelay now => cases done
  | fdwait => cases done

theorem taskscheduler_pc {t : TaskPtr} (done : taskscheduler s = .ok (s', t)) (u : TaskPtr) :
    (s'.task u).pc = (s.task u).pc := by
  obtain ⟨-, -, lists, rfl, -⟩ := taskscheduler_ok done
  by_cases same : u = t
  · simp [same]
  · simp [same]

theorem finish_lists (done : finish self (s, flow) = .ok s') : s'.lists = s.lists := by
  rcases finish_ok done with ⟨r, -, rfl⟩ | ⟨pc, -, ⟨-, rfl⟩ | ⟨-, reaped⟩⟩
  · rfl
  · rfl
  · obtain ⟨last, -, -, rfl⟩ := taskreap_ok reaped
    rfl

/-- Only the task that ran is somewhere else in its code. -/
theorem finish_pc (done : finish self (s, flow) = .ok s') (u : TaskPtr) :
    (s'.task u).pc = if u = self then flow.pc else (s.task u).pc := by
  rcases finish_ok done with ⟨r, rfl, rfl⟩ | ⟨pc, rfl, ⟨-, rfl⟩ | ⟨-, reaped⟩⟩
  · by_cases same : u = self
    · simp [St.setTask, same, Flow.pc]
    · simp [St.setTask, same]
  · by_cases same : u = self
    · simp [St.setTask, same, Flow.pc]
    · simp [St.setTask, same]
  · obtain ⟨last, -, -, rfl⟩ := taskreap_ok reaped
    by_cases same : u = self
    · by_cases isLast : u = last
      · subst isLast
        simp [St.setTask, same, Flow.pc]
      · rw [same] at isLast
        simp [St.setTask, same, isLast, Flow.pc]
    · by_cases isLast : u = last
      · subst isLast
        simp [St.setTask, same]
      · simp [St.setTask, same, isLast]

/-- Whether the task that ran goes on. -/
theorem finish_taskrunning (done : finish self (s, flow) = .ok s')
    (running : s.taskrunning = some self) :
    (∃ r, flow = .ret r ∧ s'.taskrunning = some self) ∨
      ∃ pc, flow = .switch pc ∧ s'.taskrunning = none := by
  rcases finish_ok done with ⟨r, rfl, rfl⟩ | ⟨pc, rfl, ⟨-, rfl⟩ | ⟨-, reaped⟩⟩
  · exact Or.inl ⟨r, rfl, running⟩
  · exact Or.inr ⟨pc, rfl, rfl⟩
  · obtain ⟨last, -, -, rfl⟩ := taskreap_ok reaped
    exact Or.inr ⟨pc, rfl, rfl⟩

theorem finish_alltask (done : finish self (s, flow) = .ok s') {u : TaskPtr}
    (live : u ∈ s'.alltask) : u ∈ s.alltask := by
  rcases finish_ok done with ⟨r, -, rfl⟩ | ⟨pc, -, ⟨-, rfl⟩ | ⟨-, reaped⟩⟩
  · exact live
  · exact live
  · obtain ⟨last, lastEq, -, rfl⟩ := taskreap_ok reaped
    rcases List.mem_or_eq_of_mem_set (List.dropLast_subset _ live) with old | rfl
    · exact old
    · exact List.mem_of_getLast? lastEq

/-! ## Steps -/

/-- A step is a turn of the scheduler or a call of the running task. -/
inductive StepShape (s s' : St) : Act → Prop where
  | dispatch {env : Env} {t : TaskPtr} {s₁ s₂ : St} {flow : Flow} :
      s.taskrunning = none → taskscheduler s = .ok (s₁, t) →
      resume s₁ t env (s₁.task t).pc = .ok (s₂, flow) → finish t (s₂, flow) = .ok s' →
      StepShape s s' (.dispatch env)
  | call {c : Call} {self : TaskPtr} {s₂ : St} {flow : Flow} :
      s.taskrunning = some self → legal s c = true →
      call s self c = .ok (s₂, flow) → finish self (s₂, flow) = .ok s' →
      StepShape s s' (.call c)

theorem step_shape {a : Act} (isEnabled : enabled s a) (stepped : step s a = .ok s') :
    StepShape s s' a := by
  cases a with
  | dispatch env =>
      obtain ⟨⟨s₁, t⟩, scheduled, rest⟩ := bind_eq_ok.mp stepped
      obtain ⟨⟨s₂, flow⟩, resumed, finished⟩ := bind_eq_ok.mp rest
      exact .dispatch isEnabled.1 scheduled resumed finished
  | call c =>
      obtain ⟨self, running⟩ := Option.isSome_iff_exists.mp isEnabled.1
      simp only [step, running] at stepped
      obtain ⟨⟨s₂, flow⟩, called, finished⟩ := bind_eq_ok.mp stepped
      exact .call running isEnabled.2 called finished

/-- A task that gave up the CPU in an operation on locks or channels, and does not run in
this step, stays where it is. -/
structure OthersStay (t : TaskPtr) (s s' : St) : Prop where
  pc : ∀ u, u ≠ t → u ∈ s'.alltask → (s'.task u).pc.part ≠ .tasks →
    u ∈ s.alltask ∧ (s'.task u).pc = (s.task u).pc

theorem finish_othersStay {s₁ : St} (moved : Unmoved s s₁)
    (done : finish self (s₁, flow) = .ok s') : OthersStay self s s' := by
  constructor
  intro u other live blocked
  have pcEq := finish_pc done u
  rw [if_neg other] at pcEq
  obtain ⟨live', pcEq'⟩ := moved.pc u (finish_alltask done live) (pcEq ▸ blocked)
  exact ⟨live', pcEq.trans pcEq'⟩

theorem taskscheduler_unmoved {t : TaskPtr} (done : taskscheduler s = .ok (s', t))
    {u : TaskPtr} (live : u ∈ s'.alltask) :
    u ∈ s.alltask ∧ (s'.task u).pc = (s.task u).pc := by
  refine ⟨?_, taskscheduler_pc done u⟩
  obtain ⟨-, -, lists, rfl, -⟩ := taskscheduler_ok done
  exact live

end Libtask
