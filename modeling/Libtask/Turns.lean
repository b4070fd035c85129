import Libtask.ExactlyOne
import Libtask.StallReport

/-!
# Which turns go through

A call of a task goes through unless `malloc` fails or too many tasks poll, and a turn of the
scheduler unless `poll` fails or no task can run.  Only `fdtask` becomes a system task.
-/

namespace Libtask

open Function (update update_self)
open Outcome (Avoids bind_eq_error)

variable {s s' : St} {self t : TaskPtr}

/-! ## Calls that make tasks -/

theorem taskcreate_child {m : Alloc}
    (isEnabled : Libtask.enabled s (.call (.taskcreate m)))
    (stepped : Libtask.step s (.call (.taskcreate m)) = .ok s') :
    ∃ u, m.malloc = some u ∧ u ∉ s.alltask ∧
      (s.taskrunning ≠ some u → (s'.task u).pc = .user none) := by
  cases step_shape isEnabled stepped with
  | @call _ self _ _ running isLegal called finished =>
      obtain ⟨⟨s₁, id⟩, created, returned⟩ := Outcome.bind_eq_ok.mp called
      obtain ⟨rfl, rfl⟩ := Prod.mk.inj (Except.ok.inj returned)
      obtain ⟨u, lists, cap, isTask, -, -, -, rfl, -⟩ := taskcreate_ok created
      refine ⟨u, isTask, by simpa [legal, freshTask, isTask] using isLegal, fun other => ?_⟩
      have different : u ≠ self := fun same => other (same ▸ running)
      rw [finish_pc finished, if_neg different]
      simp

theorem startfdtask_started {m : Alloc} (started : startfdtask s m = .ok s') :
    s'.startedfdtask = true := by
  rcases startfdtask_ok started with ⟨already, rfl⟩ | ⟨-, id, created⟩
  · exact already
  · obtain ⟨t₀, lists, cap, -, -, -, -, rfl, -⟩ := taskcreate_ok created
    rfl

theorem taskdelay_startedfdtask {ms now : Nat} {m : Alloc}
    (isEnabled : Libtask.enabled s (.call (.taskdelay ms now m)))
    (stepped : Libtask.step s (.call (.taskdelay ms now m)) = .ok s') :
    s'.startedfdtask = true := by
  cases step_shape isEnabled stepped with
  | call running isLegal called finished =>
      obtain ⟨-, s₁, due, position, lists, started, -, -, -, rfl⟩ := taskdelay_ok called
      rw [finish_startedfdtask finished]
      have starts := startfdtask_started started
      exact starts

theorem fdwait_startedfdtask {fd : Int} {rw : Char} {m : Alloc}
    (isEnabled : Libtask.enabled s (.call (.fdwait fd rw m)))
    (stepped : Libtask.step s (.call (.fdwait fd rw m)) = .ok s') :
    s'.startedfdtask = true := by
  cases step_shape isEnabled stepped with
  | call running isLegal called finished =>
      obtain ⟨-, s₁, started, -, rfl⟩ := fdwait_ok called
      rw [finish_startedfdtask finished]
      have starts := startfdtask_started started
      exact starts

/-! ## Tasks that wait for fdtask -/

theorem Born.startedfdtask (born : Born s s') (started : s.startedfdtask = true) :
    s'.startedfdtask = true := by
  cases born with
  | users same => rw [same, started]
  | fdtask => assumption

/-- The places that only `fdtask` takes a task from. -/
def Pc.timed : Pc → Bool
  | .taskdelay _ | .fdwait => true
  | _ => false

/-- `fdtask` was started before the first task sleeps or polls. -/
theorem reachable_timed {allowed : St → Act → Prop} (reachable : Reachable allowed s) :
    ∀ t ∈ s.alltask, (s.task t).pc.timed = true → s.startedfdtask = true := by
  induction reachable with
  | init start =>
      obtain ⟨rendez, mem, m, started⟩ := start
      obtain ⟨id, created⟩ := main_ok started
      obtain ⟨t₀, lists, cap, -, -, -, -, rfl, -⟩ := taskcreate_ok created
      intro t live isPc
      obtain rfl : t = t₀ := by simpa [St.zero] using live
      simp [Pc.timed] at isPc
  | @step s s' a reachable isEnabled _ stepped ih =>
      intro u live isPc
      have inv := reachable_inv reachable
      have born := step_born inv isEnabled stepped
      obtain ⟨t, code, acts, turned⟩ := exists_turned inv isEnabled stepped
      by_cases isSelf : u = t
      · subst isSelf
        cases step_shape isEnabled stepped with
        | @call c self s₂ flow running isLegal called finished =>
            obtain ⟨rfl, rfl⟩ := acts.unique (.call running)
            rw [finish_pc finished, if_pos rfl] at isPc
            cases flow with
            | ret r => cases isPc
            | switch pc =>
                have isPc : pc.timed = true := isPc
                have switches := call_switches called
                cases c <;> cases pc <;> simp only [Call.Switches] at switches <;>
                  first
                  | exact taskdelay_startedfdtask isEnabled stepped
                  | exact fdwait_startedfdtask isEnabled stepped
                  | cases isPc
        | @dispatch env t' s₁ s₂ flow idle scheduled resumed finished =>
            obtain ⟨rfl, rfl⟩ := acts.unique (.dispatch idle (taskscheduler_ok scheduled).2.1)
            rw [finish_pc finished, if_pos rfl] at isPc
            cases flow with
            | ret r => cases isPc
            | switch pc =>
                have isPc : pc.timed = true := isPc
                have switches := resume_switches resumed
                cases pcEq : (s₁.task u).pc <;> rw [pcEq] at switches <;> cases pc <;>
                  first | exact switches.elim | cases isPc
      · by_cases old : u ∈ s.alltask
        · rw [(turned.others u old isSelf).2.pc] at isPc
          exact born.startedfdtask (ih u old isPc)
        · cases born with
          | users _ isUser =>
              rw [isUser u live old] at isPc
              cases isPc
          | fdtask _ started => exact started

/-- A task that cannot run is neither in its own code nor asleep. -/
theorem Inv.not_ready (inv : Inv s.taskrunning s) (idle : s.taskrunning = none)
    (notReady : t ∉ s.seq .taskrunqueue) (live : t ∈ s.alltask) :
    s.home t = none ∧ ((s.task t).pc = .fdwait ∨ ∃ a, (s.task t).pc.altbase = some a) ∨
      ∃ list, list ≠ .taskrunqueue ∧ s.home t = some list ∧
        (s.task t).pc.waitlist = some list := by
  have listed := inv.listed t
  have stopped : Stopped s.taskrunning s t (s.task t).pc := ⟨live, by simp [idle], rfl⟩
  cases home : s.home t with
  | none => exact Or.inl ⟨rfl, listed.outside _ stopped home⟩
  | some list =>
      have notRun : list ≠ .taskrunqueue := by
        rintro rfl
        exact notReady ((mem_seq_iff s t .taskrunqueue).mpr home)
      exact Or.inr ⟨list, notRun, rfl, listed.waits list home notRun⟩

/-- While a task sleeps or polls, some task is ready. -/
theorem not_timed {allowed : St → Act → Prop} (reachable : Reachable allowed s)
    (idle : s.taskrunning = none) (empty : s.seq .taskrunqueue = []) (live : t ∈ s.alltask) :
    (s.task t).pc.timed = false := by
  by_contra isTimed
  have started := reachable_timed reachable t live (by simpa using isTimed)
  obtain ⟨u, liveU, isFdtask⟩ := (reachable_started reachable).mp started
  have member := (reachable_inv reachable).fdtask_ready idle liveU isFdtask
  rw [empty] at member
  cases member

/-- When no task is ready, none is asleep. -/
theorem none_asleep {allowed : St → Act → Prop} (reachable : Reachable allowed s)
    (idle : s.taskrunning = none) (empty : s.seq .taskrunqueue = []) : t ∉ s.seq .sleeping := by
  intro member
  have listed := (reachable_inv reachable).listed t
  have home := (mem_seq_iff s t .sleeping).mp member
  have notTimed := not_timed reachable idle empty (listed.live _ home)
  have waits := listed.waits _ home (by simp)
  cases isPc : (s.task t).pc <;> simp [isPc, Pc.waitlist, Pc.timed] at waits notTimed

/-! ## Calls that go through -/

/-- A call goes through if it could fail only where the invariant does. -/
theorem call_total {c : Call} (inv : Inv s.taskrunning s) (running : s.taskrunning = some t)
    (isEnabled : enabled s (.call c)) (only : OnlyCorrupt (call s t c)) :
    ∃ s', step s (.call c) = .ok s' := by
  cases stepped : step s (.call c) with
  | ok s' => exact ⟨s', rfl⟩
  | error why =>
      refine absurd ?_ (step_not_corrupt inv isEnabled why stepped)
      simp only [step, running] at stepped
      rcases bind_eq_error.mp stepped with stopped | ⟨result, -, stopped⟩
      · exact not_not.mp (only why stopped)
      · exact not_not.mp (finish_onlyCorrupt t result why stopped)

/-- A call can stop a run only by itself. -/
theorem call_stops {c : Call} {why : Halt} (inv : Inv s.taskrunning s)
    (running : s.taskrunning = some t) (isEnabled : enabled s (.call c))
    (stopped : step s (.call c) = .error why) : call s t c = .error why ∧ ¬why.corrupt := by
  have notCorrupt := step_not_corrupt inv isEnabled why stopped
  simp only [step, running] at stopped
  rcases bind_eq_error.mp stopped with stopped | ⟨result, -, stopped⟩
  · exact ⟨stopped, notCorrupt⟩
  · exact absurd (not_not.mp (finish_onlyCorrupt t result why stopped)) notCorrupt

/-- How memory for a task cannot be had. -/
inductive AllocFails (s : St) (m : Alloc) : Abort → Prop where
  | taskalloc : m.malloc = none → AllocFails s m .taskallocMalloc
  /-- the table is full, and cannot be enlarged -/
  | taskcreate : s.alltask.length % 64 = 0 → m.realloc = false →
      AllocFails s m .taskcreateRealloc

theorem taskalloc_stops {m : Option TaskPtr} {pc : Pc} {why : Halt}
    (stopped : taskalloc s m pc = .error why) :
    why.corrupt ∨ why = .abort .taskallocMalloc ∧ m = none := by
  unfold taskalloc at stopped
  split at stopped
  next =>
    obtain rfl := Except.error.inj stopped
    exact Or.inr ⟨rfl, rfl⟩
  next =>
    split at stopped
    next =>
      obtain rfl := Except.error.inj stopped
      exact Or.inl trivial
    next => cases stopped

theorem taskalloc_alltask {m : Option TaskPtr} {pc : Pc}
    (allocated : taskalloc s m pc = .ok (s', t)) : s'.alltask = s.alltask := by
  unfold taskalloc at allocated
  split at allocated
  next => cases allocated
  next =>
    split at allocated
    next => cases allocated
    next =>
      obtain ⟨rfl, -⟩ := Prod.mk.inj (Except.ok.inj allocated)
      rfl

theorem taskcreate_stops {m : Alloc} {pc : Pc} {why : Halt}
    (stopped : taskcreate s m pc = .error why) :
    why.corrupt ∨ ∃ a, why = .abort a ∧ AllocFails s m a := by
  rcases bind_eq_error.mp stopped with stopped | ⟨⟨s₁, t₁⟩, allocated, stopped⟩
  · exact (taskalloc_stops stopped).imp_right fun ⟨isAbort, noTask⟩ =>
      ⟨_, isAbort, .taskalloc noTask⟩
  · dsimp only at stopped
    rw [taskalloc_alltask allocated] at stopped
    generalize (if s.alltask.length % 64 = 0 then s.alltask.length + 64
      else s₁.alltaskcap) = cap at stopped
    split at stopped
    next full =>
      obtain rfl := Except.error.inj stopped
      exact Or.inr ⟨_, rfl, .taskcreate full.1 full.2⟩
    next =>
      split at stopped
      next =>
        rcases bind_eq_error.mp stopped with stopped | ⟨s₂, -, returned⟩
        · exact Or.inl (not_not.mp (taskready_onlyCorrupt _ _ why stopped))
        · cases returned
      next =>
        obtain rfl := Except.error.inj stopped
        exact Or.inl trivial

theorem startfdtask_stops {m : Alloc} {why : Halt} (stopped : startfdtask s m = .error why) :
    why.corrupt ∨ s.startedfdtask = false ∧ ∃ a, why = .abort a ∧ AllocFails s m a := by
  unfold startfdtask at stopped
  split at stopped
  next => cases stopped
  next notStarted =>
    rcases bind_eq_error.mp stopped with stopped | ⟨result, -, returned⟩
    · exact (taskcreate_stops stopped).imp_right fun ⟨a, isAbort, fails⟩ =>
        ⟨by simpa using notStarted, a, isAbort, by cases fails <;> constructor <;> assumption⟩
    · cases returned

/-- `taskdelay` goes through if `fdtask` runs or can be started. -/
theorem taskdelay_stops {ms now : Nat} {m : Alloc} {why : Halt}
    (stopped : taskdelay s self ms now m = .error why) :
    why.corrupt ∨ s.startedfdtask = false ∧ ∃ a, why = .abort a ∧ AllocFails s m a := by
  rcases bind_eq_error.mp stopped with stopped | ⟨s₁, -, stopped⟩
  · exact startfdtask_stops stopped
  · dsimp only at stopped
    split at stopped
    next =>
      obtain rfl := Except.error.inj stopped
      exact Or.inl trivial
    next => cases stopped

/-- `fdtask` takes a place in the task table, but none in the poll table. -/
theorem startfdtask_npollfd {m : Alloc} (started : startfdtask s m = .ok s') :
    s'.npollfd = s.npollfd := by
  rcases startfdtask_ok started with ⟨-, rfl⟩ | ⟨-, id, created⟩
  · rfl
  · obtain ⟨t₀, lists, cap, -, -, -, -, rfl, -⟩ := taskcreate_ok created
    rfl

/-- `fdwait` goes through in addition while there is room in the poll table. -/
theorem fdwait_stops {fd : Int} {rw : Char} {m : Alloc} {why : Halt}
    (stopped : fdwait s self fd rw m = .error why) :
    why.corrupt ∨ (s.startedfdtask = false ∧ ∃ a, why = .abort a ∧ AllocFails s m a) ∨
      why = .abort .tooManyPollFds ∧ maxfd ≤ s.npollfd := by
  rcases bind_eq_error.mp stopped with stopped | ⟨s₁, started, stopped⟩
  · exact (startfdtask_stops stopped).imp_right Or.inl
  · rw [← startfdtask_npollfd started]
    dsimp only at stopped
    split at stopped
    next full =>
      obtain rfl := Except.error.inj stopped
      exact Or.inr (Or.inr ⟨rfl, full⟩)
    next => cases stopped

/-- A channel operation on a sound channel goes through. -/
theorem chanop_total {allowed : St → Act → Prop} {c : ChanPtr} {op : Op} {v : Option Nat}
    {canblock : Bool} {array rand1 rand2 : Nat} (reachable : Reachable allowed s)
    (running : s.taskrunning = some t) (sound : (s.chan c).Sound)
    (isEnabled : enabled s (.call (.chanop c op v canblock array rand1 rand2))) :
    ∃ s', step s (.call (.chanop c op v canblock array rand1 rand2)) = .ok s' := by
  have inv := reachable_inv reachable
  refine call_total inv running isEnabled fun why stopped _ => ?_
  rw [running] at inv
  have entering := entering_chanop inv isEnabled.2
  have known : c ∈ s.chans := by
    have isLegal := isEnabled.2
    simp only [legal, Bool.and_eq_true, decide_eq_true_eq] at isLegal
    exact isLegal.1.2
  have goes : Avoids (fun _ => True) (call s t (.chanop c op v canblock array rand1 rand2)) := by
    refine (chanalt_avoids entering.inv entering.isFree entering.isTerminated ?_).bind ?_
    · intro p a partner member can isPartner agrees
      obtain ⟨-, -, -, -, -, origin⟩ := enter_array t entering.isTerminated
      obtain ⟨b, inArray, -, channel⟩ := origin a member
      have isChan : a.c = c := by
        simp only [update_self, chanopAlts, List.mem_cons, List.not_mem_nil, or_false] at inArray
        rcases inArray with rfl | rfl <;> exact channel
      have fifo : Fifo (s.chan c).elemsize (s.chan c).bufsize (enter { s with
          alts := update s.alts array (chanopAlts c op v canblock) } t array) a.c := by
        rw [isChan]
        exact (reachable_fifo reachable known sound).congr known rfl rfl rfl
      exact fifo.copy_avoids sound.small sound.area _
        (entering.rendezvous (reachable_rendezvous reachable) a.c) can isPartner agrees
    · rintro ⟨s₁, flow⟩ -
      cases flow with
      | ret r => exact .ok _
      | switch pc => exact .ok _
  exact goes why stopped trivial

/-! ## Turns of the scheduler -/

theorem fdtaskPass_stops {n : BitVec 32} {env : Env} {why : Halt}
    (stopped : fdtaskPass s self n env = .error why) :
    why.corrupt ∨ why = .pollError ∧ env.poll = .error := by
  have avoids : Avoids (fun why => ¬(why.corrupt ∨ why = .pollError ∧ env.poll = .error))
      (fdtaskPass s self n env) := by
    have weaker {α : Type} {x : Except Halt α} (only : OnlyCorrupt x) :
        Avoids (fun why => ¬(why.corrupt ∨ why = .pollError ∧ env.poll = .error)) x :=
      fun why stopped bad => only why stopped fun corrupt => bad (Or.inl corrupt)
    unfold fdtaskPass
    split
    · exact weaker (fdtaskYield_onlyCorrupt s self)
    · dsimp only
      split
      · exact weaker (fdtaskYield_onlyCorrupt _ self)
      next polled => exact .error (not_not_intro (Or.inr ⟨rfl, polled⟩))
      · refine (weaker (pollwake_onlyCorrupt _ _ _)).bind fun _ _ => ?_
        exact (weaker (alarmwake_onlyCorrupt _ _ _)).bind fun _ _ =>
          weaker (fdtaskYield_onlyCorrupt _ self)
  exact not_not.mp (avoids why stopped)

theorem chanaltResume_onlyCorrupt (s : St) (self : TaskPtr) (base : Nat) :
    OnlyCorrupt (chanaltResume s self base) := by
  unfold chanaltResume
  split
  · exact Avoids.ite (.ok _) (.error (not_not_intro trivial))
  · exact .error (not_not_intro trivial)

/-- The places at which the tasks of a program give up the CPU. -/
def Pc.ofProgram : Pc → Bool
  | .user _ | .taskdelay _ | .chanop _ | .fdwait | .fdtask | .fdtaskYield _ => true
  | _ => false

theorem Pc.ofProgram_of_isFdtask {pc : Pc} (isFdtask : pc.isFdtask = true) :
    pc.ofProgram = true := by
  cases pc <;> first | rfl | cases isFdtask

theorem resume_stops {pc : Pc} {env : Env} {why : Halt} (isPc : pc.ofProgram = true)
    (stopped : resume s self env pc = .error why) :
    why.corrupt ∨ why = .pollError ∧ env.poll = .error ∧ pc.isFdtask = true := by
  cases pc with
  | chanop array =>
      rcases bind_eq_error.mp stopped with stopped | ⟨result, -, stopped⟩
      · exact Or.inl (not_not.mp (chanaltResume_onlyCorrupt s self array why stopped))
      · cases stopped
  | fdtask => exact Or.inl (not_not.mp (fdtaskYield_onlyCorrupt _ self why stopped))
  | fdtaskYield n =>
      rcases fdtaskPass_stops stopped with corrupt | polls
      · exact Or.inl corrupt
      · exact Or.inr ⟨polls.1, polls.2, rfl⟩
  | user | taskdelay | fdwait => cases stopped
  | _ => cases isPc

/-- Why a turn of the scheduler stops the run. -/
theorem dispatch_stops {env : Env} {why : Halt} (inv : Inv s.taskrunning s)
    (isEnabled : enabled s (.dispatch env))
    (places : ∀ t ∈ s.alltask, (s.task t).pc.ofProgram = true)
    (stopped : step s (.dispatch env) = .error why) :
    taskscheduler s = .error why ∧ why.ofScheduler ∨ why = .pollError ∧ env.poll = .error ∧
      ∃ t ∈ s.alltask, (s.task t).pc.isFdtask = true := by
  have notCorrupt := step_not_corrupt inv isEnabled why stopped
  rcases bind_eq_error.mp stopped with scheduled | ⟨⟨s₁, t⟩, scheduled, stopped⟩
  · refine Or.inl ⟨scheduled, ?_⟩
    unfold taskscheduler at scheduled
    split at scheduled
    · obtain rfl := Except.error.inj scheduled
      trivial
    · split at scheduled
      · obtain rfl := Except.error.inj scheduled
        trivial
      · rcases bind_eq_error.mp scheduled with removed | ⟨_, -, returned⟩
        · exact absurd (not_not.mp (deltask_onlyCorrupt s _ _ why removed)) notCorrupt
        · cases returned
  · have isHead := (taskscheduler_ok scheduled).2.1
    have acts : Acts s (.dispatch env) t (.resume (s.task t).pc) := .dispatch isEnabled.1 isHead
    have isPc := places t (acts.live inv)
    rw [← taskscheduler_pc scheduled t] at isPc
    rcases bind_eq_error.mp stopped with resumed | ⟨result, -, finished⟩
    · obtain ⟨polls, polled, isFdtask⟩ := (resume_stops isPc resumed).resolve_left notCorrupt
      rw [taskscheduler_pc scheduled t] at isFdtask
      exact Or.inr ⟨polls, polled, t, acts.live inv, isFdtask⟩
    · exact absurd (not_not.mp (finish_onlyCorrupt t result why finished)) notCorrupt

/-! ## System tasks -/

theorem resume_system {pc : Pc} {env : Env} {flow : Flow} (isPc : pc.ofProgram = true)
    (notFdtask : pc.isFdtask = false) (resumed : resume s self env pc = .ok (s', flow))
    (u : TaskPtr) : (s'.task u).system = (s.task u).system := by
  cases pc with
  | chanop array => exact (resume_keepsTasks (by simp [Pc.part]) resumed).system u
  | user | taskdelay | fdwait =>
      obtain ⟨rfl, -⟩ := Prod.mk.inj (Except.ok.inj resumed)
      rfl
  | fdtask | fdtaskYield => cases notFdtask
  | _ => cases isPc

theorem taskcreate_system {m : Alloc} {pc : Pc} {id : Int}
    (done : taskcreate s m pc = .ok (s', id)) (u : TaskPtr) :
    (s'.task u).system = if m.malloc = some u then false else (s.task u).system := by
  obtain ⟨t₀, lists, cap, isTask, -, -, -, rfl, -⟩ := taskcreate_ok done
  by_cases isNew : u = t₀
  · simp [isTask, isNew]
  · simp [isTask, isNew, Ne.symm isNew]

theorem startfdtask_system {m : Alloc} (started : startfdtask s m = .ok s')
    {u : TaskPtr} (live : u ∈ s.alltask) (fresh : freshTask s m = true) :
    (s'.task u).system = (s.task u).system := by
  rcases startfdtask_ok started with ⟨-, rfl⟩ | ⟨-, id, created⟩
  · rfl
  · rw [taskcreate_system created, if_neg]
    intro isTask
    simp [freshTask, isTask, live] at fresh

theorem taskdelay_system {ms now : Nat} {m : Alloc} {flow : Flow}
    (done : taskdelay s self ms now m = .ok (s', flow)) {u : TaskPtr} (live : u ∈ s.alltask)
    (fresh : freshTask s m = true) : (s'.task u).system = (s.task u).system := by
  obtain ⟨-, s₁, due, position, lists, started, -, -, -, rfl⟩ := taskdelay_ok done
  rw [← startfdtask_system started live fresh]
  by_cases isSelf : u = self <;> simp [isSelf]

theorem fdwait_system {fd : Int} {rw : Char} {m : Alloc} {flow : Flow}
    (done : fdwait s self fd rw m = .ok (s', flow)) {u : TaskPtr} (live : u ∈ s.alltask)
    (fresh : freshTask s m = true) : (s'.task u).system = (s.task u).system := by
  obtain ⟨-, s₁, started, -, rfl⟩ := fdwait_ok done
  exact startfdtask_system started live fresh

/-- The calls of a program, and those of other functions than `fd.c` and `task.c`. -/
def Call.ofProgram : Call → Bool
  | .taskcreate _ | .taskdelay .. | .fdwait .. | .taskreturn => true
  | c => decide (c.part ≠ .tasks)

/-- A call of a program leaves the tasks as they are that do not work for the system. -/
theorem call_system {c : Call} {flow : Flow} {u : TaskPtr} (isLegal : legal s c = true)
    (isCall : c.ofProgram = true) (done : call s self c = .ok (s', flow)) (live : u ∈ s.alltask) :
    (s'.task u).system = (s.task u).system := by
  cases c with
  | taskcreate m =>
      obtain ⟨⟨s₁, id⟩, created, returned⟩ := Outcome.bind_eq_ok.mp done
      obtain ⟨rfl, -⟩ := Prod.mk.inj (Except.ok.inj returned)
      rw [taskcreate_system created, if_neg]
      intro isTask
      simp [legal, freshTask, isTask, live] at isLegal
  | taskdelay ms now m =>
      simp only [legal, Bool.and_eq_true] at isLegal
      exact taskdelay_system done live isLegal.2
  | fdwait fd rw m => exact fdwait_system done live isLegal
  | taskreturn =>
      obtain ⟨rfl, -⟩ := Prod.mk.inj (Except.ok.inj done)
      by_cases isSelf : u = self <;> simp [taskexit, St.setTask, St.log, isSelf]
  | _ => exact (call_keepsTasks (by simpa [Call.ofProgram] using isCall) done).system u

end Libtask
