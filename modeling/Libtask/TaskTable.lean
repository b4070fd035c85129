import Libtask.FdtaskStep

/-!
# The task table

Which tasks are live is a matter of the history: a task is live from its creation until the
scheduler frees it.  `alltask` lists exactly those tasks, each of them in its slot, and never
outgrows the capacity of the last `realloc`.
-/

namespace Libtask

open Function (update update_self update_of_ne)
open Outcome (bind_eq_ok)
open Transition

/-- The task that `taskcreate` makes in a step, if `fdtask` is started by it in particular. -/
def created (s : St) : Act → Option TaskPtr
  | .call (.taskcreate m) => m.malloc
  | .call (.taskdelay _ _ m) => if s.startedfdtask then none else m.malloc
  | .call (.fdwait _ _ m) => if s.startedfdtask then none else m.malloc
  | _ => none

/-- The task that the scheduler frees in a step. -/
def freed (s : St) : Act → Option TaskPtr
  | .call c => if c.exits.isSome then s.taskrunning else none
  | .dispatch _ => none

/-- A run to `s`, with the tasks that were created in it and not freed. -/
inductive Census (allowed : St → Act → Prop) : St → Set TaskPtr → Prop where
  | init {s : St} {rendez : RendezPtr → Option QLockPtr} {mem : Bytes.Memory} {t : TaskPtr} :
      main rendez mem t = .ok s → Census allowed s {t}
  | step {s s' : St} {live : Set TaskPtr} {a : Act} : Census allowed s live → enabled s a →
      allowed s a → step s a = .ok s' →
      Census allowed s' {t | (t ∈ live ∨ created s a = some t) ∧ freed s a ≠ some t}

variable {s s' s₁ : St} {self t : TaskPtr} {flow : Flow} {a : Act} {allowed : St → Act → Prop}
  {live : Set TaskPtr}

theorem Census.reachable (census : Census allowed s live) : Reachable allowed s := by
  induction census with
  | init started => exact .init ⟨_, _, _, started⟩
  | step _ isEnabled kept stepped ih => exact ih.step isEnabled kept stepped

theorem exists_census (reachable : Reachable allowed s) : ∃ live, Census allowed s live := by
  induction reachable with
  | init started =>
      obtain ⟨rendez, mem, t, started⟩ := started
      exact ⟨_, .init started⟩
  | step _ isEnabled kept stepped ih =>
      obtain ⟨live, census⟩ := ih
      exact ⟨_, census.step isEnabled kept stepped⟩

/-! ## Steps -/

theorem tasksystem_alltask (s : St) (self : TaskPtr) :
    (tasksystem s self).alltask = s.alltask := by
  unfold tasksystem
  split <;> rfl

theorem startfdtask_alltask {m : Alloc} (done : startfdtask s m = .ok s') :
    s'.alltask = s.alltask ++ (if s.startedfdtask then none else m.malloc).toList := by
  rcases startfdtask_ok done with ⟨started, rfl⟩ | ⟨unstarted, id, made⟩
  · simp [started]
  · obtain ⟨t₀, lists, cap, isTask, -, -, -, rfl, -⟩ := taskcreate_ok made
    simp [unstarted, isTask]

/-- A new task goes behind the others. -/
theorem call_alltask {c : Call} (done : call s self c = .ok (s', flow)) :
    s'.alltask = s.alltask ++ (created s (.call c)).toList := by
  by_cases other : c.part ≠ .tasks
  · rw [(call_keepsTasks other done).alltask]
    cases c <;> simp only [Call.part, ne_eq, not_true_eq_false] at other <;> simp [created]
  have tasks : c.part = .tasks := not_not.mp other
  cases c <;> simp only [Call.part, reduceCtorEq] at tasks
  case taskcreate m =>
    obtain ⟨⟨s₁, id⟩, made, returned⟩ := bind_eq_ok.mp done
    obtain ⟨rfl, -⟩ := Prod.mk.inj (Except.ok.inj returned)
    obtain ⟨t₀, lists, cap, isTask, -, -, -, rfl, -⟩ := taskcreate_ok made
    simp [created, isTask]
  case tasksystem =>
    obtain ⟨rfl, -⟩ := Prod.mk.inj (Except.ok.inj done)
    simp [created, tasksystem_alltask]
  case taskyield =>
    obtain ⟨⟨s₁, n⟩, yielded, returned⟩ := bind_eq_ok.mp done
    obtain ⟨rfl, -⟩ := Prod.mk.inj (Except.ok.inj returned)
    simp [created, (taskready_keepsTasks (taskyield_ok yielded)).alltask]
  case taskexitall val => cases done
  case taskdelay ms now m =>
    obtain ⟨-, s₁, due, position, lists, started, -, -, -, rfl⟩ := taskdelay_ok done
    have grown := startfdtask_alltask started
    exact grown
  case fdwait fd rw m =>
    obtain ⟨-, s₁, started, -, rfl⟩ := fdwait_ok done
    have grown := startfdtask_alltask started
    exact grown
  all_goals
    obtain ⟨rfl, -⟩ := Prod.mk.inj (Except.ok.inj done)
    simp [created, taskexit, St.log, St.setTask]

theorem resume_alltask {pc : Pc} {env : Env} (done : resume s self env pc = .ok (s', flow)) :
    s'.alltask = s.alltask := by
  by_cases part : pc.part ≠ .tasks
  · exact (resume_keepsTasks part done).alltask
  have tasks : pc.part = .tasks := not_not.mp part
  cases pc <;> simp only [Pc.part, reduceCtorEq] at tasks
  case fdtask =>
    rw [(taskready_keepsTasks (fdtaskYield_ok done).2).alltask, tasksystem_alltask]
  case fdtaskYield n => exact (fdtaskPass_childless done).alltask
  all_goals
    obtain ⟨rfl, -⟩ := Prod.mk.inj (Except.ok.inj done)
    rfl

/-- The exit branch takes the task out of the table, and it is reached by no other task. -/
theorem finish_mem_alltask (table : (s.task self).exiting = true →
      s.alltask.Nodup ∧ s.alltask[(s.task self).alltaskslot]? = some self)
    (stops : (s.task self).exiting = true → ∃ pc, flow = .switch pc)
    (done : finish self (s, flow) = .ok s') (t : TaskPtr) :
    t ∈ s'.alltask ↔ t ∈ s.alltask ∧ ((s.task self).exiting = true → t ≠ self) := by
  rcases finish_ok done with ⟨r, rfl, rfl⟩ | ⟨pc, rfl, ⟨staying, rfl⟩ | ⟨exiting, reaped⟩⟩
  · have staying : (s.task self).exiting = false := by
      rw [Bool.eq_false_iff]
      intro exiting
      obtain ⟨pc, isSwitch⟩ := stops exiting
      cases isSwitch
    simp [St.setTask, staying]
  · simp [St.setTask, staying]
  · obtain ⟨nodup, atSlot⟩ := table exiting
    obtain ⟨last, lastEq, inside, rfl⟩ := taskreap_ok reaped
    simp only [St.setTask, update_self] at lastEq inside ⊢
    have isSwap : SwapRemove.swapRemove s.alltask (s.task self).alltaskslot =
        (s.alltask.set (s.task self).alltaskslot last).dropLast := by
      simp [SwapRemove.swapRemove, lastEq]
    rw [List.getElem?_eq_getElem inside, Option.some.injEq] at atSlot
    rw [← isSwap, SwapRemove.mem_swapRemove_iff nodup inside, atSlot]
    simp [exiting]

/-- A step adds the created task and takes away the freed one. -/
theorem step_alltask (inv : Inv s.taskrunning s) (isEnabled : enabled s a)
    (stepped : step s a = .ok s') (t : TaskPtr) :
    t ∈ s'.alltask ↔ (t ∈ s.alltask ∨ created s a = some t) ∧ freed s a ≠ some t := by
  cases step_shape isEnabled stepped with
  | call running isLegal called finished =>
      rename_i c self s₁ flow
      have grown := call_alltask called
      have member : t ∈ s₁.alltask ↔ t ∈ s.alltask ∨ created s (.call c) = some t := by
        rw [grown, List.mem_append, Option.mem_toList]
      rw [running] at inv
      cases exits : c.exits with
      | none =>
          have staying := (call_after inv isLegal exits called).staying
          rw [finish_mem_alltask (by simp [staying]) (by simp [staying]) finished, member]
          simp [staying, freed, exits]
      | some val =>
          have atSlot := call_slot inv isLegal called
          obtain ⟨s₁Eq, rfl⟩ := call_exits exits called
          have exiting : (s₁.task self).exiting = true := by
            simp [s₁Eq, taskexit, St.log, St.setTask]
          have nodup : s₁.alltask.Nodup := by
            simpa [s₁Eq, taskexit, St.log, St.setTask] using inv.table.nodup
          rw [finish_mem_alltask (fun _ => ⟨nodup, atSlot exiting⟩) (fun _ => ⟨_, rfl⟩) finished,
            member]
          simp [exiting, freed, exits, running, eq_comm]
  | dispatch idle scheduled resumed finished =>
      rename_i env self s₁ s₂ flow
      rw [idle] at inv
      have staying := (resume_after (inv.dispatch scheduled) (dispatch_going inv scheduled)
        resumed).staying
      obtain ⟨-, -, lists, s₁Eq, -⟩ := taskscheduler_ok scheduled
      rw [finish_mem_alltask (by simp [staying]) (by simp [staying]) finished,
        resume_alltask resumed, s₁Eq]
      simp [staying, created, freed]

/-- The table lists the live tasks. -/
theorem Census.mem_alltask (census : Census allowed s live) (t : TaskPtr) :
    t ∈ s.alltask ↔ t ∈ live := by
  induction census generalizing t with
  | init started =>
      obtain ⟨id, made⟩ := main_ok started
      obtain ⟨t₀, lists, cap, isSome, -, -, -, rfl, -⟩ := taskcreate_ok made
      obtain rfl := Option.some.inj isSome
      simp [St.zero]
  | step census isEnabled _ stepped ih =>
      rw [step_alltask (reachable_inv census.reachable) isEnabled stepped, ih]
      rfl

/-- The writes to the table are inside of its capacity: `taskcreate` fills the first free slot,
and the last entry moves to the slot of the task that is freed. -/
structure InCapacity (s s' : St) (a : Act) : Prop where
  created : ∀ t, created s a = some t → s.alltask.length < s'.alltaskcap
  freed : ∀ t, freed s a = some t → (s.task t).alltaskslot < s.alltaskcap

/-- The slot of a live task is its own. -/
theorem Inv.atSlot {run : Option TaskPtr} (inv : Inv run s) (member : t ∈ s.alltask) :
    (s.task t).alltaskslot < s.alltask.length ∧
      s.alltask[(s.task t).alltaskslot]? = some t := by
  obtain ⟨i, inside, atIndex⟩ := List.getElem_of_mem member
  have here : s.alltask[i]? = some t := by simp [inside, atIndex]
  rw [inv.table.slot i t here]
  exact ⟨inside, here⟩

theorem step_inCapacity (inv : Inv s.taskrunning s) (inv' : Inv s'.taskrunning s')
    (isEnabled : enabled s a) (stepped : step s a = .ok s') : InCapacity s s' a := by
  constructor
  · intro t isCreated
    cases step_shape isEnabled stepped with
    | dispatch => cases isCreated
    | call running isLegal called finished =>
        rename_i c self s₁ flow
        have grown := call_alltask called
        rw [isCreated] at grown
        have stays : c.exits = none := by
          cases c <;> simp [created] at isCreated <;> rfl
        rw [running] at inv
        have staying := (call_after inv isLegal stays called).staying
        have room := inv'.table.room
        rcases finish_ok finished with ⟨r, -, rfl⟩ | ⟨pc, -, ⟨-, rfl⟩ | ⟨exiting, -⟩⟩
        · simp only [St.setTask, grown, Option.toList_some, List.length_append,
            List.length_singleton] at room ⊢
          exact room
        · simp only [St.setTask, grown, Option.toList_some, List.length_append,
            List.length_singleton] at room ⊢
          exact room
        · rw [staying] at exiting
          cases exiting
  · intro t isFreed
    cases a with
    | dispatch env => cases isFreed
    | call c =>
        simp only [freed, Option.ite_none_right_eq_some] at isFreed
        have inside := (inv.atSlot ((inv.listed t).running isFreed.2).1).1
        exact Nat.lt_of_lt_of_le inside inv.table.room

/-- Throughout every run `alltask` lists each live task exactly once, in the slot that the task
knows, and every access to it is inside of the capacity of the last `realloc`. -/
theorem task_table {allowed : St → Act → Prop} {s : St} {live : Set TaskPtr}
    (census : Census allowed s live) :
    s.alltask.Nodup ∧ (∀ t, t ∈ s.alltask ↔ t ∈ live) ∧
    (∀ t ∈ live, (s.task t).alltaskslot < s.alltask.length ∧
      s.alltask[(s.task t).alltaskslot]? = some t) ∧
    s.alltask.length ≤ s.alltaskcap ∧
    (∀ a, enabled s a → step s a ≠ .error (.fault .alltaskRange)) ∧
    ∀ a s', enabled s a → step s a = .ok s' → InCapacity s s' a := by
  have inv := reachable_inv census.reachable
  have listed := census.mem_alltask
  refine ⟨inv.table.nodup, listed, fun t isLive => inv.atSlot ((listed t).mpr isLive),
    inv.table.room, fun a isEnabled stopped => ?_, fun a s' isEnabled stepped => ?_⟩
  · exact step_not_corrupt inv isEnabled _ stopped trivial
  · exact step_inCapacity inv (step_inv inv isEnabled stepped) isEnabled stepped

/-- The main task creates two tasks and exits; the last entry takes its slot. -/
theorem task_table_exit : ∃ (s : St) (live : Set TaskPtr), Census anyAction s live ∧
    s.alltask = [3, 2] ∧ live = {2, 3} ∧ s.alltask[(s.task 3).alltaskslot]? = some 3 := by
  obtain ⟨s, checked, reachable⟩ := exists_run anyAction (fun _ => none)
    [.dispatch {}, .call (.taskcreate (some 2)), .call (.taskcreate (some 3)),
      .call (.taskexit 0)]
    (fun s => decide (s.alltask = [3, 2])) (by decide +kernel)
  have entries : s.alltask = [3, 2] := of_decide_eq_true checked
  obtain ⟨live, census⟩ := exists_census reachable
  obtain ⟨-, listed, atSlot, -⟩ := task_table census
  have liveEq : live = {2, 3} := by
    ext t
    rw [← listed t, entries]
    simp [or_comm]
  exact ⟨s, live, census, entries, liveEq, (atSlot 3 (by simp [liveEq])).2⟩

end Libtask
