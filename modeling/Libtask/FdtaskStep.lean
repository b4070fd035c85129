import Libtask.SleepQueue

/-!
# The life of fdtask

`fdtask` is created once, by the first `taskdelay` or `fdwait`, and from then on it is always
in the `taskyield` of its loop.  The counter that it saved there tells how many tasks were
ready when it called `taskyield`.
-/

namespace Libtask

open Function (update update_self update_of_ne)
open Outcome (bind_eq_ok)
open Transition

/-- In `fdtask` -/
def Pc.isFdtask : Pc → Bool
  | .fdtask | .fdtaskYield _ => true
  | _ => false

/-- The number of tasks is an `int`, which `nalltask` counts. -/
def FewTasks (s : St) (_ : Act) : Prop := s.alltask.length < 2 ^ 31

instance (s : St) (a : Act) : Decidable (FewTasks s a) := inferInstanceAs (Decidable (_ < _))

variable {s s' s₁ : St} {self t u : TaskPtr} {flow : Flow} {a : Act} {code : Code}

/-! ## New tasks -/

/-- Which tasks are new: those of `taskcreate`, and `fdtask` if it is started. -/
inductive Born (s s' : St) : Prop where
  | users : s'.startedfdtask = s.startedfdtask →
      (∀ u ∈ s'.alltask, u ∉ s.alltask → (s'.task u).pc = .user none) → Born s s'
  | fdtask {t₀ : TaskPtr} : s.startedfdtask = false → s'.startedfdtask = true →
      t₀ ∈ s'.alltask → t₀ ∉ s.alltask → (s'.task t₀).pc = .fdtask →
      (∀ u ∈ s'.alltask, u ∉ s.alltask → u = t₀) → Born s s'

theorem born_of_alltask (started : s'.startedfdtask = s.startedfdtask)
    (alltask : s'.alltask = s.alltask) : Born s s' :=
  .users started fun _ live isNew => absurd (alltask ▸ live) isNew

theorem KeepsTasks.born (keeps : KeepsTasks s s') : Born s s' :=
  born_of_alltask (congrArg Globals.startedfdtask keeps.globals) keeps.alltask

/-- What happens to other fields of the tasks does not matter. -/
theorem Born.congr (born : Born s s₁) (started : s'.startedfdtask = s₁.startedfdtask)
    (alltask : s'.alltask = s₁.alltask) (pc : ∀ u, (s'.task u).pc = (s₁.task u).pc) :
    Born s s' := by
  cases born with
  | users same users =>
      refine .users (started.trans same) fun u live isNew => ?_
      rw [pc]
      exact users u (alltask ▸ live) isNew
  | fdtask was now live isNew starts only =>
      refine .fdtask was (started.trans now) (alltask ▸ live) isNew ?_ (alltask ▸ only)
      rw [pc]
      exact starts

theorem startfdtask_born {m : Alloc} (fresh : freshTask s m = true)
    (done : startfdtask s m = .ok s') : Born s s' := by
  rcases startfdtask_ok done with ⟨-, rfl⟩ | ⟨was, id, created⟩
  · exact born_of_alltask rfl rfl
  · obtain ⟨t₀, lists, cap, isTask, -, -, -, rfl, -⟩ := taskcreate_ok created
    have isNew : t₀ ∉ s.alltask := by simpa [freshTask, isTask] using fresh
    refine .fdtask was rfl (by simp) isNew (by simp) fun u live unborn => ?_
    exact (List.mem_append.mp live).elim (fun old => absurd old unborn) List.mem_singleton.mp

theorem call_born {c : Call} (isLegal : legal s c = true)
    (done : call s self c = .ok (s', flow)) : Born s s' := by
  by_cases other : c.part ≠ .tasks
  · exact (call_keepsTasks other done).born
  have tasks : c.part = .tasks := not_not.mp other
  cases c <;> simp only [Call.part, reduceCtorEq] at tasks
  case taskcreate m =>
    obtain ⟨⟨s₁, id⟩, created, returned⟩ := bind_eq_ok.mp done
    obtain ⟨rfl, -⟩ := Prod.mk.inj (Except.ok.inj returned)
    obtain ⟨t₀, lists, cap, isTask, -, -, -, rfl, -⟩ := taskcreate_ok created
    refine .users rfl fun u live unborn => ?_
    obtain rfl : u = t₀ :=
      (List.mem_append.mp live).elim (fun old => absurd old unborn) List.mem_singleton.mp
    simp
  case tasksystem =>
    obtain ⟨rfl, -⟩ := Prod.mk.inj (Except.ok.inj done)
    unfold tasksystem
    split <;> exact born_of_alltask rfl rfl
  case taskyield =>
    obtain ⟨⟨s₁, n⟩, yielded, returned⟩ := bind_eq_ok.mp done
    obtain ⟨rfl, -⟩ := Prod.mk.inj (Except.ok.inj returned)
    exact (taskready_keepsTasks (taskyield_ok yielded)).born
  case taskexit val =>
    obtain ⟨rfl, -⟩ := Prod.mk.inj (Except.ok.inj done)
    exact born_of_alltask rfl rfl
  case taskreturn =>
    obtain ⟨rfl, -⟩ := Prod.mk.inj (Except.ok.inj done)
    exact born_of_alltask rfl rfl
  case taskexitall val => cases done
  case anyready =>
    obtain ⟨rfl, -⟩ := Prod.mk.inj (Except.ok.inj done)
    exact born_of_alltask rfl rfl
  case taskdelay ms now m =>
    obtain ⟨-, s₁, due, position, lists, started, -, -, -, rfl⟩ := taskdelay_ok done
    simp only [legal, Bool.and_eq_true] at isLegal
    refine (startfdtask_born isLegal.2 started).congr rfl rfl fun u => ?_
    by_cases same : u = self
    · simp [same]
    · simp [same]
  case fdwait fd rw m =>
    obtain ⟨-, s₁, started, -, rfl⟩ := fdwait_ok done
    exact (startfdtask_born isLegal started).congr rfl rfl fun _ => rfl

/-- A pass creates no task and leaves the flags of the tasks alone. -/
structure Childless (s s' : St) : Prop where
  started : s'.startedfdtask = s.startedfdtask
  alltask : s'.alltask = s.alltask
  system : ∀ u, (s'.task u).system = (s.task u).system

theorem Childless.trans {s₁ s₂ s₃ : St} (first : Childless s₁ s₂) (second : Childless s₂ s₃) :
    Childless s₁ s₃ where
  started := second.started.trans first.started
  alltask := second.alltask.trans first.alltask
  system u := (second.system u).trans (first.system u)

theorem KeepsTasks.childless (keeps : KeepsTasks s s') : Childless s s' :=
  ⟨congrArg Globals.startedfdtask keeps.globals, keeps.alltask, keeps.system⟩

theorem pollwake_childless {fuel i : Nat} (done : pollwake fuel i s = .ok s') :
    Childless s s' := by
  refine pollwake_induction (motive := Childless s) ?_ ⟨rfl, rfl, fun _ => rfl⟩ done
  intro s₁ s₂ i before _ _ readied
  have kept := before.trans (taskready_keepsTasks readied).childless
  exact ⟨kept.started, kept.alltask, kept.system⟩

theorem alarmwake_childless {now fuel : Nat} {woken : List TaskPtr}
    (done : alarmwake now fuel s = .ok (s', woken)) : Childless s s' := by
  refine alarmwake_induction (motive := fun s₁ _ => Childless s s₁) ?_ []
    ⟨rfl, rfl, fun _ => rfl⟩ done
  intro s₁ s₂ s₃ t woken before _ removed readied
  obtain ⟨lists, rfl, -⟩ := deltask_ok removed
  have counted : Childless s₁ (countWaking { s₁ with lists } t) := by
    unfold countWaking
    split <;> exact ⟨rfl, rfl, fun _ => rfl⟩
  exact (before.trans counted).trans (taskready_keepsTasks readied).childless

theorem fdtaskPass_childless {n : BitVec 32} {env : Env}
    (done : fdtaskPass s self n env = .ok (s', flow)) : Childless s s' := by
  rcases fdtaskPass_ok done with
    yielded | yielded | ⟨revents, s₁, s₂, woken, -, polled, alarmed, yielded⟩
  · exact (taskready_keepsTasks (fdtaskYield_ok yielded).2).childless
  · have kept := (taskready_keepsTasks (fdtaskYield_ok yielded).2).childless
    exact ⟨kept.started, kept.alltask, kept.system⟩
  · have stored := pollwake_childless polled
    have first : Childless s s₁ := ⟨stored.started, stored.alltask, stored.system⟩
    have last := (taskready_keepsTasks (fdtaskYield_ok yielded).2).childless
    exact (first.trans (alarmwake_childless alarmed)).trans
      ⟨last.started, last.alltask, last.system⟩

theorem resume_born {pc : Pc} {env : Env} (done : resume s self env pc = .ok (s', flow)) :
    Born s s' := by
  by_cases part : pc.part ≠ .tasks
  · exact (resume_keepsTasks part done).born
  have tasks : pc.part = .tasks := not_not.mp part
  cases pc <;> simp only [Pc.part, reduceCtorEq] at tasks
  case fdtask =>
    have yielded := (taskready_keepsTasks (fdtaskYield_ok done).2).childless
    have marked : (tasksystem s self).startedfdtask = s.startedfdtask ∧
        (tasksystem s self).alltask = s.alltask := by
      unfold tasksystem
      split <;> exact ⟨rfl, rfl⟩
    exact born_of_alltask (yielded.started.trans marked.1) (yielded.alltask.trans marked.2)
  case fdtaskYield n =>
    have kept := fdtaskPass_childless done
    exact born_of_alltask kept.started kept.alltask
  all_goals
    obtain ⟨rfl, -⟩ := Prod.mk.inj (Except.ok.inj done)
    exact born_of_alltask rfl rfl

theorem finish_startedfdtask (done : finish self (s, flow) = .ok s') :
    s'.startedfdtask = s.startedfdtask := by
  rcases finish_ok done with ⟨r, -, rfl⟩ | ⟨pc, -, ⟨-, rfl⟩ | ⟨-, reaped⟩⟩
  · rfl
  · rfl
  · obtain ⟨last, -, -, rfl⟩ := taskreap_ok reaped
    rfl

/-- The end of a turn, of which the task that ran was there before. -/
theorem Born.finish (born : Born s s₁) (live : self ∈ s.alltask)
    (table : (s₁.task self).exiting = true →
      s₁.alltask[(s₁.task self).alltaskslot]? = some self)
    (done : finish self (s₁, flow) = .ok s') : Born s s' := by
  have others : ∀ u, u ∉ s.alltask → (s'.task u).pc = (s₁.task u).pc := by
    intro u unborn
    rw [finish_pc done, if_neg]
    exact fun same => unborn (same ▸ live)
  cases born with
  | users same users =>
      refine .users ((finish_startedfdtask done).trans same) fun u live' unborn => ?_
      rw [others u unborn]
      exact users u (finish_alltask done live') unborn
  | fdtask was now live₀ unborn starts only =>
      refine .fdtask was ((finish_startedfdtask done).trans now) ?_ unborn
        ((others _ unborn).trans starts) fun u live' => only u (finish_alltask done live')
      exact (finish_others table done live₀ fun same => unborn (same ▸ live)).1

/-! ## Steps -/

theorem step_born (inv : Inv s.taskrunning s) (isEnabled : enabled s a)
    (stepped : step s a = .ok s') : Born s s' := by
  cases step_shape isEnabled stepped with
  | call running isLegal called finished =>
      rw [running] at inv
      exact (call_born isLegal called).finish inv.live (call_slot inv isLegal called) finished
  | dispatch idle scheduled resumed finished =>
      rename_i env t s₁ s₂ flow
      rw [idle] at inv
      have inv₁ := inv.dispatch scheduled
      have after := resume_after inv₁ (dispatch_going inv scheduled) resumed
      have born : Born s₁ s' := (resume_born resumed).finish inv₁.live
        (fun exiting => by rw [after.staying] at exiting; cases exiting) finished
      obtain ⟨-, -, lists, rfl, -⟩ := taskscheduler_ok scheduled
      cases born with
      | users same users => exact .users same users
      | fdtask was now live unborn starts only => exact .fdtask was now live unborn starts only

theorem call_switches_isFdtask {c : Call} {pc : Pc} (switches : c.Switches pc) :
    pc.isFdtask = false := by
  cases c <;> cases pc <;> first | rfl | exact switches.elim

theorem resume_switches_isFdtask {pc pc' : Pc} (switches : pc.Switches pc') :
    pc'.isFdtask = pc.isFdtask := by
  cases pc <;> cases pc' <;> first | rfl | exact switches.elim

/-- `fdtask` gives up the CPU in the `taskyield` of its loop only. -/
theorem resume_fdtask {pc : Pc} {env : Env} (isFdtask : pc.isFdtask = true)
    (resumed : resume s t env pc = .ok (s', flow)) : ∃ n, flow = .switch (.fdtaskYield n) := by
  cases pc with
  | fdtask => exact (fdtaskYield_ok resumed).1
  | fdtaskYield n =>
      rcases fdtaskPass_ok resumed with yielded | yielded | ⟨_, _, _, _, -, -, -, yielded⟩
      all_goals exact (fdtaskYield_ok yielded).1
  | _ => cases isFdtask

/-- `fdtask` never leaves its loop, and no other task gets there. -/
theorem step_isFdtask {allowed : St → Act → Prop} (reachable : Reachable allowed s)
    (isEnabled : enabled s a) (acts : Acts s a t code) (stepped : step s a = .ok s') :
    (s'.task t).pc.isFdtask = (s.task t).pc.isFdtask := by
  cases step_shape isEnabled stepped with
  | call running isLegal called finished =>
      rename_i c self s₂ flow
      obtain ⟨rfl, -⟩ := acts.unique (.call running)
      obtain ⟨r, user⟩ := running_user reachable t running
      rw [finish_pc finished, if_pos rfl, user]
      cases flow with
      | ret r => rfl
      | switch pc => exact call_switches_isFdtask (call_switches called)
  | dispatch idle scheduled resumed finished =>
      rename_i env u s₁ s₂ flow
      obtain ⟨-, isHead, -⟩ := taskscheduler_ok scheduled
      obtain ⟨rfl, -⟩ := acts.unique (.dispatch idle isHead)
      rw [taskscheduler_pc scheduled] at resumed
      rw [finish_pc finished, if_pos rfl]
      cases flow with
      | switch pc => exact resume_switches_isFdtask (resume_switches resumed)
      | ret r =>
          refine (Bool.eq_false_iff.mpr fun isFdtask => ?_).symm
          obtain ⟨n, isSwitch⟩ := resume_fdtask isFdtask resumed
          cases isSwitch

/-- After a turn of `fdtask` it is in the `taskyield` of its loop. -/
theorem fdtask_yields {env : Env} (isEnabled : enabled s (.dispatch env))
    (acts : Acts s (.dispatch env) t code) (stepped : step s (.dispatch env) = .ok s')
    (isFdtask : (s.task t).pc.isFdtask = true) : ∃ n, (s'.task t).pc = .fdtaskYield n := by
  cases step_shape isEnabled stepped with
  | dispatch idle scheduled resumed finished =>
      obtain ⟨rfl, -⟩ := acts.unique (.dispatch idle (taskscheduler_ok scheduled).2.1)
      rw [taskscheduler_pc scheduled] at resumed
      obtain ⟨n, rfl⟩ := resume_fdtask isFdtask resumed
      exact ⟨n, by rw [finish_pc finished, if_pos rfl]; rfl⟩

/-- A step makes no task of before to `fdtask`. -/
theorem kept_isFdtask {allowed : St → Act → Prop} (reachable : Reachable allowed s)
    (isEnabled : enabled s a) (stepped : step s a = .ok s') (live : u ∈ s.alltask) :
    (s'.task u).pc.isFdtask = (s.task u).pc.isFdtask := by
  obtain ⟨t, code, acts, turned⟩ := exists_turned (reachable_inv reachable) isEnabled stepped
  by_cases isT : u = t
  · rw [isT, step_isFdtask reachable isEnabled acts stepped]
  · rw [(turned.others u live isT).2.pc]

theorem main_notFdtask {rendez : RendezPtr → Option QLockPtr} {mem : Bytes.Memory}
    {m : TaskPtr} (started : main rendez mem m = .ok s) :
    s.startedfdtask = false ∧ ∀ t ∈ s.alltask, (s.task t).pc.isFdtask = false := by
  obtain ⟨id, created⟩ := main_ok started
  obtain ⟨t₀, lists, cap, -, -, -, -, rfl, -⟩ := taskcreate_ok created
  simp [St.zero, Pc.isFdtask]

/-- `startedfdtask` tells whether there is an `fdtask`. -/
theorem reachable_started {allowed : St → Act → Prop} (reachable : Reachable allowed s) :
    s.startedfdtask = true ↔ ∃ t ∈ s.alltask, (s.task t).pc.isFdtask = true := by
  apply reachable.invariant fun s =>
    s.startedfdtask = true ↔ ∃ t ∈ s.alltask, (s.task t).pc.isFdtask = true
  · rintro s ⟨rendez, mem, m, started⟩
    obtain ⟨notYet, users⟩ := main_notFdtask started
    simp +contextual [notYet, users]
  · intro s a s' before ih isEnabled _ stepped
    have inv := reachable_inv before
    obtain ⟨t, code, acts, turned⟩ := exists_turned inv isEnabled stepped
    have same := step_isFdtask before isEnabled acts stepped
    have kept := fun u (live : u ∈ s.alltask) => kept_isFdtask before isEnabled stepped live
    cases step_born inv isEnabled stepped with
    | users started users =>
        rw [started, ih]
        constructor
        · rintro ⟨u, live, isFdtask⟩
          refine ⟨u, ?_, (kept u live).trans isFdtask⟩
          by_cases isT : u = t
          · rw [isT] at isFdtask ⊢
            refine turned.live fun exits => ?_
            rw [← same, exits] at isFdtask
            cases isFdtask
          · exact (turned.others u live isT).1
        · rintro ⟨u, live', isFdtask⟩
          by_cases live : u ∈ s.alltask
          · exact ⟨u, live, (kept u live).symm.trans isFdtask⟩
          · rw [users u live' live] at isFdtask
            cases isFdtask
    | fdtask was now live₀ unborn starts only =>
        simp only [now, true_iff]
        exact ⟨_, live₀, by rw [starts]; rfl⟩

/-- There is one `fdtask` at most. -/
theorem reachable_fdtask_unique {allowed : St → Act → Prop} (reachable : Reachable allowed s) :
    ∀ t ∈ s.alltask, ∀ u ∈ s.alltask, (s.task t).pc.isFdtask = true →
      (s.task u).pc.isFdtask = true → t = u := by
  apply reachable.invariant fun s => ∀ t ∈ s.alltask, ∀ u ∈ s.alltask,
    (s.task t).pc.isFdtask = true → (s.task u).pc.isFdtask = true → t = u
  · rintro s ⟨rendez, mem, m, started⟩ t live u - isFdtask -
    rw [(main_notFdtask started).2 t live] at isFdtask
    cases isFdtask
  · intro s a s' before ih isEnabled _ stepped
    have inv := reachable_inv before
    have kept {u : TaskPtr} (live : u ∈ s.alltask) (isFdtask : (s'.task u).pc.isFdtask = true) :
        (s.task u).pc.isFdtask = true :=
      (kept_isFdtask before isEnabled stepped live).symm.trans isFdtask
    cases step_born inv isEnabled stepped with
    | users _ users =>
        have old {u : TaskPtr} (live' : u ∈ s'.alltask)
            (isFdtask : (s'.task u).pc.isFdtask = true) : u ∈ s.alltask := by
          by_contra unborn
          rw [users u live' unborn] at isFdtask
          cases isFdtask
        intro t liveT u liveU isFdtaskT isFdtaskU
        have oldT := old liveT isFdtaskT
        have oldU := old liveU isFdtaskU
        exact ih t oldT u oldU (kept oldT isFdtaskT) (kept oldU isFdtaskU)
    | @fdtask t₀ was now live₀ unborn starts only =>
        have isNew {u : TaskPtr} (live' : u ∈ s'.alltask)
            (isFdtask : (s'.task u).pc.isFdtask = true) : u = t₀ := by
          refine only u live' fun live => ?_
          have started := (reachable_started before).mpr ⟨u, live, kept live isFdtask⟩
          rw [was] at started
          cases started
        intro t liveT u liveU isFdtaskT isFdtaskU
        rw [isNew liveT isFdtaskT, isNew liveU isFdtaskU]

/-- At the end of each pass `fdtask` calls `taskyield`. -/
theorem exists_yieldCall {n : BitVec 32} (isEnabled : enabled s a) (acts : Acts s a t code)
    (stepped : step s a = .ok s') (stopped : (s'.task t).pc = .fdtaskYield n) :
    ∃ qs, YieldCall s t qs a := by
  cases step_shape isEnabled stepped with
  | call running isLegal called finished =>
      rename_i c self s₂ flow
      obtain ⟨rfl, -⟩ := acts.unique (.call running)
      rw [finish_pc finished, if_pos rfl] at stopped
      cases flow with
      | ret r => cases stopped
      | switch pc =>
          obtain rfl : pc = .fdtaskYield n := stopped
          cases call_switches_isFdtask (call_switches called)
  | dispatch idle scheduled resumed finished =>
      rename_i env u s₁ s₂ flow
      obtain ⟨-, isHead, -⟩ := taskscheduler_ok scheduled
      obtain ⟨rfl, -⟩ := acts.unique (.dispatch idle isHead)
      rw [finish_pc finished, if_pos rfl] at stopped
      cases flow with
      | ret r => cases stopped
      | switch pc =>
          obtain rfl : pc = .fdtaskYield n := stopped
          have switches := resume_switches resumed
          have yields : ∀ s₃, fdtaskYield s₃ t = .ok (s₂, .switch (.fdtaskYield n)) →
              ∃ qs, YieldCall s t qs (.dispatch env) := fun s₃ yielded =>
            ⟨_, .fdtask idle scheduled (resumed.trans yielded.symm) rfl⟩
          cases pcEq : (s₁.task t).pc with
          | fdtask =>
              rw [pcEq] at resumed
              exact yields _ resumed
          | fdtaskYield n' =>
              rw [pcEq] at resumed
              rcases fdtaskPass_ok resumed with yielded | yielded | ⟨_, _, _, _, -, -, -, yielded⟩
              all_goals exact yields _ yielded
          | _ =>
              rw [pcEq] at switches
              exact switches.elim

/-- Where `fdtask` is in a round of the run queue, of which fewer than `2 ^ 31` tasks were
ready when it began. -/
def InRound (s : St) : Prop :=
  ∀ t ∈ s.alltask, ∀ n, (s.task t).pc = .fdtaskYield n →
    ∃ passed before, Yielding t (.fdtaskYield n) n passed before s ∧
      (passed = [] ∨ passed.length + before.length < 2 ^ 31)

/-- The tasks in front of a yielding task are live. -/
theorem Yielding.length_lt {pc : Pc} {n : BitVec 32} {passed before : List TaskPtr}
    (yielding : Yielding t pc n passed before s) (inv : Inv s.taskrunning s) :
    before.length < s.alltask.length := by
  obtain ⟨new, queue, -⟩ := yielding.queue
  have live : before ++ [t] ⊆ s.alltask := by
    intro u member
    refine (inv.listed u).live _ ((mem_seq_iff s u .taskrunqueue).mp ?_)
    rw [queue, show before ++ t :: new = before ++ [t] ++ new by simp]
    exact List.mem_append_left _ member
  have short := (List.subperm_of_subset yielding.nodup live).length_le
  simp only [List.length_append, List.length_singleton] at short
  omega

theorem reachable_inRound {allowed : St → Act → Prop} (few : ∀ s a, allowed s a → FewTasks s a)
    (reachable : Reachable allowed s) : InRound s := by
  apply reachable.invariant InRound
  · rintro s ⟨rendez, mem, m, started⟩ t live n stopped
    have user := (main_notFdtask started).2 t live
    rw [stopped] at user
    cases user
  · intro s a s' before ih isEnabled kept stepped u live' n stopped
    have inv := reachable_inv before
    obtain ⟨t, code, acts, turned⟩ := exists_turned inv isEnabled stepped
    by_cases isT : u = t
    · subst isT
      obtain ⟨qs, called⟩ := exists_yieldCall isEnabled acts stepped stopped
      obtain ⟨pc, n', yielding, -⟩ := called.yielding inv isEnabled stepped
      obtain rfl := yielding.stopped.symm.trans stopped
      obtain rfl : n = n' := Option.some.inj yielding.yields
      exact ⟨[], qs, yielding, Or.inl rfl⟩
    · have live : u ∈ s.alltask := by
        by_contra unborn
        cases step_born inv isEnabled stepped with
        | users _ users =>
            rw [users u live' unborn] at stopped
            cases stopped
        | fdtask _ _ _ _ starts only =>
            rw [only u live' unborn, starts] at stopped
            cases stopped
      have same := (turned.others u live isT).2.pc
      obtain ⟨passed, front, yielding, bounded⟩ := ih u live n (same.symm.trans stopped)
      obtain ⟨rest, split, still⟩ := yielding.turn (Ne.symm isT) acts turned
      refine ⟨_, rest, still, Or.inr ?_⟩
      have total : passed.length + front.length < 2 ^ 31 := by
        rcases bounded with rfl | bound
        · have shorter := yielding.length_lt inv
          have limit : s.alltask.length < 2 ^ 31 := few s a kept
          simp only [List.length_nil]
          omega
        · exact bound
      rw [split] at total
      simp only [List.length_append] at total ⊢
      omega

end Libtask
