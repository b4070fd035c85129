import Libtask.LockStep

/-!
# Where a run can stop

Only three checks of the library can fail because of how locks are used: the one of a
resumed `qlock`, the one of `qunlock`, and those of `wunlock`.  The exits at the top of the
scheduler loop are made nowhere else.
-/

namespace Libtask

open Outcome (bind_eq_ok bind_eq_error Avoids)

/-- The aborts of `qlock.c`. -/
def Halt.ofLock : Halt → Prop
  | .abort (.qlockOops _) | .abort (.qunlockOwner _) => True
  | .abort (.wunlockNotLocked _) | .abort (.wunlockReaders _) => True
  | _ => False

/-- The step does not abort because of a lock. -/
abbrev LockSafe {α : Type} (x : Except Halt α) : Prop := Avoids Halt.ofLock x

/-- The exits of the scheduler. -/
def Halt.ofScheduler : Halt → Prop
  | .taskexitval _ | .noRunnable _ => True
  | _ => False

/-- Stops that only a few lines of the library can cause. -/
def Halt.special (why : Halt) : Prop := why.ofLock ∨ why.ofScheduler

/-- The step stops for no such reason. -/
abbrev Plain {α : Type} (x : Except Halt α) : Prop := Avoids Halt.special x

theorem not_special {why : Halt} (notLock : ¬why.ofLock) (notScheduler : ¬why.ofScheduler) :
    ¬why.special :=
  not_or.mpr ⟨notLock, notScheduler⟩

variable {s s' : St} {self : TaskPtr} {flow : Flow}

theorem fault_plain {α : Type} (why : Fault) : Plain (fault why : Except Halt α) :=
  .error (not_special id id)

/-! ## Functions that only move tasks -/

/-- The step stops only because of a corrupted list or table. -/
abbrev OnlyCorrupt {α : Type} (x : Except Halt α) : Prop := Avoids (fun why => ¬why.corrupt) x

theorem OnlyCorrupt.plain {α : Type} {x : Except Halt α} (only : OnlyCorrupt x) : Plain x := by
  rintro why stopped (ofLock | ofScheduler)
  · cases why with
    | abort reason => cases reason <;> first | exact ofLock | exact only _ stopped id
    | _ => exact ofLock
  · cases why with
    | taskexitval status => exact only _ stopped id
    | noRunnable stalled => exact only _ stopped id
    | _ => exact ofScheduler

theorem addtask_onlyCorrupt (s : St) (l : ListId) (t : TaskPtr) :
    OnlyCorrupt (addtask s l t) := by
  unfold addtask
  split
  · exact .ok _
  · exact .error (not_not_intro trivial)

theorem deltask_onlyCorrupt (s : St) (l : ListId) (t : TaskPtr) :
    OnlyCorrupt (deltask s l t) := by
  unfold deltask
  split
  · exact .ok _
  · exact .error (not_not_intro trivial)

theorem taskready_onlyCorrupt (s : St) (t : TaskPtr) : OnlyCorrupt (taskready s t) :=
  addtask_onlyCorrupt _ _ t

theorem fdtaskYield_onlyCorrupt (s : St) (self : TaskPtr) : OnlyCorrupt (fdtaskYield s self) :=
  ((taskready_onlyCorrupt s self).bind fun _ _ => .ok _).bind fun _ _ => .ok _

theorem pollwakeWhile_onlyCorrupt (i fuel : Nat) (s : St) :
    OnlyCorrupt (pollwakeWhile i fuel s) := by
  induction fuel generalizing s with
  | zero =>
      unfold pollwakeWhile
      split
      · exact .error (not_not_intro trivial)
      · exact .ok _
  | succ fuel ih =>
      unfold pollwakeWhile
      split
      · dsimp only
        split
        · exact .error (not_not_intro trivial)
        · exact (taskready_onlyCorrupt s _).bind fun _ _ => ih _
      · exact .ok _

theorem pollwake_onlyCorrupt (fuel i : Nat) (s : St) : OnlyCorrupt (pollwake fuel i s) := by
  induction fuel generalizing s i with
  | zero =>
      unfold pollwake
      split
      · exact .error (not_not_intro trivial)
      · exact .ok _
  | succ fuel ih =>
      unfold pollwake
      split
      · exact (pollwakeWhile_onlyCorrupt i _ s).bind fun _ _ => ih _ _
      · exact .ok _

theorem alarmwake_onlyCorrupt (now fuel : Nat) (s : St) : OnlyCorrupt (alarmwake now fuel s) := by
  induction fuel generalizing s with
  | zero =>
      unfold alarmwake
      split
      · exact .ok _
      · split
        · exact .error (not_not_intro trivial)
        · exact .ok _
  | succ fuel ih =>
      unfold alarmwake
      split
      · exact .ok _
      · split
        · refine (deltask_onlyCorrupt s _ _).bind fun _ _ => ?_
          refine (taskready_onlyCorrupt _ _).bind fun _ _ => ?_
          exact (ih _).bind fun _ _ => .ok _
        · exact .ok _

theorem finish_onlyCorrupt (self : TaskPtr) (result : St × Flow) :
    OnlyCorrupt (finish self result) := by
  obtain ⟨s, flow⟩ := result
  cases flow with
  | ret r => exact .ok _
  | switch pc =>
      simp only [finish, taskschedulerBack]
      split
      · unfold taskreap
        dsimp only
        split
        · exact .error (not_not_intro trivial)
        · apply Avoids.ite
          · exact .ok _
          · exact .error (not_not_intro trivial)
      · exact .ok _

/-! ## Functions that are not about locks -/

theorem deltask_plain (s : St) (l : ListId) (t : TaskPtr) : Plain (deltask s l t) :=
  (deltask_onlyCorrupt s l t).plain

theorem taskready_plain (s : St) (t : TaskPtr) : Plain (taskready s t) :=
  (taskready_onlyCorrupt s t).plain

theorem taskcreate_plain (s : St) (m : Alloc) (pc : Pc) :
    Plain (taskcreate s m pc) := by
  refine Avoids.bind ?_ fun _ _ => ?_
  · unfold taskalloc
    split
    · exact .error (not_special id id)
    · split
      · exact fault_plain _
      · exact .ok _
  · dsimp only
    refine Avoids.ite (.error (not_special id id)) (Avoids.ite ?_ (fault_plain _))
    exact (taskready_plain _ _).bind fun _ _ => .ok _

theorem startfdtask_plain (s : St) (m : Alloc) : Plain (startfdtask s m) := by
  unfold startfdtask
  split
  · exact .ok _
  · exact (taskcreate_plain _ m _).bind fun _ _ => .ok _

theorem taskdelay_plain (s : St) (self : TaskPtr) (ms now : Nat) (m : Alloc) :
    Plain (taskdelay s self ms now m) := by
  refine (startfdtask_plain s m).bind fun _ _ => ?_
  dsimp only
  split
  · exact fault_plain _
  · exact .ok _

theorem fdwait_plain (s : St) (self : TaskPtr) (fd : Int) (rw : Char)
    (m : Alloc) : Plain (fdwait s self fd rw m) := by
  refine (startfdtask_plain s m).bind fun _ _ => ?_
  split
  · exact .error (not_special id id)
  · exact .ok _

theorem fdtaskPass_plain (s : St) (self : TaskPtr) (n : BitVec 32) (env : Env) :
    Plain (fdtaskPass s self n env) := by
  unfold fdtaskPass
  split
  · exact (fdtaskYield_onlyCorrupt s self).plain
  · dsimp only
    split
    · exact (fdtaskYield_onlyCorrupt _ self).plain
    · exact .error (not_special id id)
    · refine (pollwake_onlyCorrupt _ _ _).plain.bind fun _ _ => ?_
      exact (alarmwake_onlyCorrupt _ _ _).plain.bind fun _ _ =>
        (fdtaskYield_onlyCorrupt _ self).plain

theorem altdequeue_plain (s : St) (p : AltPtr) (a : Alt) : Plain (altdequeue s p a) := by
  unfold altdequeue
  split
  · exact .error (not_special id id)
  · dsimp only
    split
    · exact .ok _
    · exact .error (not_special id id)

theorem altalldequeueLoop_plain (s : St) (p : AltPtr) (alts : List Alt) :
    Plain (altalldequeueLoop s p alts) := by
  induction alts generalizing s p with
  | nil => exact fault_plain _
  | cons a rest ih =>
      unfold altalldequeueLoop
      split
      · exact .ok _
      · split
        · exact ih _ _
        · exact (altdequeue_plain s p a).bind fun _ _ => ih _ _

theorem altcopyRecv_plain (s : St) (self : TaskPtr) (c : ChanPtr) (r : AltRef) :
    Plain (altcopyRecv s self c r) := by
  unfold altcopyRecv
  dsimp only
  split
  · exact fault_plain _
  · split
    · exact fault_plain _
    · exact .ok _

theorem altcopySend_plain (s : St) (self : TaskPtr) (c : ChanPtr) (x : AltRef) :
    Plain (altcopySend s self c x) := by
  unfold altcopySend
  dsimp only
  split
  · exact fault_plain _
  · split
    · exact fault_plain _
    · exact .ok _

theorem altcopyMove_plain (s : St) (self : TaskPtr) (c : ChanPtr) (x r : Option AltRef) :
    Plain (altcopyMove s self c x r) := by
  unfold altcopyMove
  split
  · split
    · exact .ok _
    · exact (altcopyRecv_plain s self c _).bind fun _ _ => altcopySend_plain _ self c _
  · exact altcopyRecv_plain s self c _
  · exact altcopySend_plain s self c _
  · exact .ok _

theorem altcopy_plain (s : St) (self : TaskPtr) (x : AltRef) (r : Option AltRef) :
    Plain (altcopy s self x r) := by
  unfold altcopy
  dsimp only
  split
  · split
    · exact altcopyMove_plain s self _ _ _
    · exact .error (not_special id id)
  · split
    · exact altcopyMove_plain s self _ _ _
    · exact .error (not_special id id)

theorem altexec_plain (s : St) (self : TaskPtr) (p : AltPtr) (rand : Nat) :
    Plain (altexec s self p rand) := by
  unfold altexec
  split
  · exact fault_plain _
  · split
    · exact altcopy_plain s self _ _
    · split
      · exact fault_plain _
      · refine (altcopy_plain s self _ _).bind fun _ _ => ?_
        refine (altalldequeueLoop_plain _ _ _).bind fun _ _ => ?_
        refine Avoids.bind ?_ fun _ _ => taskready_plain _ _
        unfold setAlt
        split
        · exact .ok _
        · exact fault_plain _

theorem altqueueLoop_plain (s : St) (p : AltPtr) (alts : List Alt) :
    Plain (altqueueLoop s p alts) := by
  induction alts generalizing s p with
  | nil => exact .ok _
  | cons a rest ih =>
      unfold altqueueLoop
      split
      · exact ih _ _
      · refine Avoids.bind ?_ fun _ _ => ih _ _
        unfold altqueue
        split
        · exact .ok _
        · exact fault_plain _

theorem chanalt_plain (s : St) (self : TaskPtr) (base rand1 rand2 : Nat) (pc : Pc) :
    Plain (chanalt s self base rand1 rand2 pc) := by
  unfold chanalt
  dsimp only
  split
  · exact fault_plain _
  · split
    · exact (altexec_plain _ self _ _).bind fun _ _ => .ok _
    · split
      · exact .ok _
      · exact (altqueueLoop_plain _ _ _).bind fun _ _ => .ok _

theorem chanaltResume_plain (s : St) (self : TaskPtr) (base : Nat) :
    Plain (chanaltResume s self base) := by
  unfold chanaltResume
  split
  · split
    · exact .ok _
    · exact fault_plain _
  · exact fault_plain _

theorem finish_plain (self : TaskPtr) (result : St × Flow) : Plain (finish self result) :=
  (finish_onlyCorrupt self result).plain

theorem plain_lockSafe {α : Type} {x : Except Halt α} (plain : Plain x) : LockSafe x :=
  fun why stopped ofLock => plain why stopped (Or.inl ofLock)

theorem taskscheduler_lockSafe (s : St) : LockSafe (taskscheduler s) := by
  unfold taskscheduler
  split
  · exact .error id
  · split
    · exact .error id
    · exact Avoids.bind (plain_lockSafe (deltask_plain s _ _)) fun _ _ => .ok _

/-! ## Functions about locks -/

theorem qlockImpl_plain (s : St) (self : TaskPtr) (l : QLockPtr) (block : Bool) (pc : Pc) :
    Plain (qlockImpl s self l block pc) := by
  unfold qlockImpl
  split
  · exact .ok _
  · apply Avoids.ite
    · exact ((addtask_onlyCorrupt s _ self).plain).bind fun _ _ => .ok _
    · exact .ok _

theorem rlockImpl_plain (s : St) (self : TaskPtr) (l : RWLockPtr) (block : Bool) :
    Plain (rlockImpl s self l block) := by
  unfold rlockImpl
  apply Avoids.ite
  · exact .ok _
  · apply Avoids.ite
    · exact ((addtask_onlyCorrupt s _ self).plain).bind fun _ _ => .ok _
    · exact .ok _

theorem wlockImpl_plain (s : St) (self : TaskPtr) (l : RWLockPtr) (block : Bool) :
    Plain (wlockImpl s self l block) := by
  unfold wlockImpl
  apply Avoids.ite
  · exact .ok _
  · apply Avoids.ite
    · exact ((addtask_onlyCorrupt s _ self).plain).bind fun _ _ => .ok _
    · exact .ok _

theorem handToWriter_plain (s : St) (l : RWLockPtr) : Plain (handToWriter s l) := by
  unfold handToWriter
  apply Avoids.ite
  · split
    · refine (deltask_plain s _ _).bind fun _ _ => ?_
      exact (taskready_plain _ _).bind fun _ _ => .ok _
    · exact .ok _
  · exact .ok _

theorem admitReaders_plain (l : RWLockPtr) (fuel : Nat) (s : St) :
    Plain (admitReaders l fuel s) := by
  induction fuel generalizing s with
  | zero =>
      unfold admitReaders
      split
      · exact .ok _
      · exact fault_plain _
  | succ fuel ih =>
      unfold admitReaders
      split
      · exact .ok _
      · refine (deltask_plain s _ _).bind fun _ _ => ?_
        refine (taskready_plain _ _).bind fun _ _ => ?_
        exact (ih _).bind fun _ _ => .ok _

theorem wakeLoop_plain (r : RendezPtr) (all : Bool) (fuel i : Nat) (s : St) :
    Plain (wakeLoop r all fuel i s) := by
  induction fuel generalizing s i with
  | zero =>
      unfold wakeLoop
      apply Avoids.ite
      · exact .ok _
      · split
        · exact .ok _
        · exact fault_plain _
  | succ fuel ih =>
      unfold wakeLoop
      apply Avoids.ite
      · exact .ok _
      · split
        · exact .ok _
        · refine (deltask_plain s _ _).bind fun _ _ => ?_
          refine (taskready_plain _ _).bind fun _ _ => ?_
          exact (ih _ _).bind fun _ _ => .ok _

theorem tasksleepResume_plain (s : St) (self : TaskPtr) (r : RendezPtr) :
    Plain (tasksleepResume s self r) := by
  unfold tasksleepResume
  split
  · refine (qlockImpl_plain s self _ _ _).bind ?_
    rintro ⟨s₁, flow⟩ -
    cases flow <;> exact .ok _
  · exact .ok _

/-- `qunlock` aborts if the lock has no owner. -/
theorem qunlock_abort {l : QLockPtr} {why : Halt} (stopped : qunlock s self l = .error why)
    (special : why.special) : why = .abort (.qunlockOwner l) ∧ s.owner l = none := by
  unfold qunlock at stopped
  split at stopped
  next free => exact ⟨(Except.error.inj stopped).symm, free⟩
  next =>
    dsimp only at stopped
    split at stopped
    · cases stopped
    · refine absurd special (Avoids.bind ?_ (fun _ _ => ?_) why stopped)
      · exact deltask_plain _ _ _
      · exact taskready_plain _ _

/-- `wunlock` aborts if the lock has no writer, or has readers. -/
theorem wunlock_abort {l : RWLockPtr} {why : Halt} (stopped : wunlock s self l = .error why)
    (special : why.special) :
    (why = .abort (.wunlockNotLocked l) ∧ (s.rwlock l).writer = none) ∨
      (why = .abort (.wunlockReaders l) ∧ (s.rwlock l).readers ≠ 0) := by
  unfold wunlock at stopped
  split at stopped
  next notLocked => exact Or.inl ⟨(Except.error.inj stopped).symm, notLocked⟩
  next =>
    dsimp only at stopped
    split at stopped
    next readers =>
      exact Or.inr ⟨(Except.error.inj stopped).symm, by simpa [St.setRwlock] using readers⟩
    next =>
      refine absurd special (Avoids.bind ?_ (fun _ _ => ?_) why stopped)
      · exact admitReaders_plain l _ _
      · exact (handToWriter_plain _ l).bind fun _ _ => .ok _

/-! ## Steps -/

/-- The lock that a call releases first of all. -/
def Call.unlocks (rendez : RendezPtr → Option QLockPtr) : Call → Option QLockPtr
  | .qunlock l => some l
  | .tasksleep r => rendez r
  | _ => none

/-- The lock that a task waits for when it gave up the CPU. -/
def Pc.asksFor : Pc → Option QLockPtr
  | .qlock l => some l
  | .tasksleepQlock _ l => some l
  | _ => none

theorem call_plain {c : Call} (other : c.part ≠ .locks) : Plain (call s self c) := by
  cases c <;> simp only [Call.part, ne_eq, not_true_eq_false] at other
  case taskcreate m => exact (taskcreate_plain s m _).bind fun _ _ => .ok _
  case taskyield =>
    exact ((taskready_plain s self).bind fun _ _ => .ok _).bind fun _ _ => .ok _
  case taskexitall val => exact .error (not_special id id)
  case taskdelay ms now m => exact taskdelay_plain s self ms now m
  case fdwait fd rw m => exact fdwait_plain s self fd rw m
  case chancreate c elemsize bufsize junk =>
    refine Avoids.bind ?_ fun _ _ => .ok _
    cases c with
    | none => exact .error (not_special id id)
    | some c => exact .ok _
  case chanalt a alts rand1 rand2 => exact chanalt_plain _ self a rand1 rand2 _
  case chanop c op v canblock a rand1 rand2 =>
    refine (chanalt_plain _ self a rand1 rand2 _).bind ?_
    rintro ⟨s₁, flow⟩ -
    cases flow <;> exact .ok _
  all_goals exact .ok _

theorem returning_error {r : Option Int} {x : Except Halt St} {why : Halt}
    (stopped : returning r x = .error why) : x = .error why := by
  rcases bind_eq_error.mp stopped with inner | ⟨s₁, -, returned⟩
  · exact inner
  · cases returned

/-- The aborts of a call because of a lock. -/
theorem call_abort {c : Call} {why : Halt} (stopped : call s self c = .error why)
    (special : why.special) :
    (∃ l, c.unlocks s.rendez = some l ∧ why = .abort (.qunlockOwner l) ∧ s.owner l = none) ∨
    ∃ l, c = .wunlock l ∧
      ((why = .abort (.wunlockNotLocked l) ∧ (s.rwlock l).writer = none) ∨
        (why = .abort (.wunlockReaders l) ∧ (s.rwlock l).readers ≠ 0)) := by
  by_cases other : c.part ≠ .locks
  · exact absurd special (call_plain other why stopped)
  have locks : c.part = .locks := not_not.mp other
  cases c <;> simp only [Call.part, reduceCtorEq] at locks
  case qunlock l =>
    obtain ⟨whyEq, free⟩ := qunlock_abort (returning_error stopped) special
    exact Or.inl ⟨l, rfl, whyEq, free⟩
  case wunlock l => exact Or.inr ⟨l, rfl, wunlock_abort (returning_error stopped) special⟩
  case tasksleep r =>
    rcases bind_eq_error.mp stopped with failed | ⟨s₁, added, rest⟩
    · exact absurd special ((addtask_onlyCorrupt s _ self).plain why failed)
    · obtain ⟨lists, rfl, -⟩ := addtask_ok added
      simp only [St.log] at rest
      split at rest
      next l lockEq =>
        rcases bind_eq_error.mp rest with failed | ⟨s₂, -, returned⟩
        · obtain ⟨whyEq, free⟩ := qunlock_abort failed special
          exact Or.inl ⟨l, lockEq, whyEq, free⟩
        · cases returned
      next => cases rest
  case qlock l =>
    have safe : Plain (call s self (.qlock l)) :=
      (qlockImpl_plain s self l _ _).bind fun _ _ => .ok _
    exact absurd special (safe why stopped)
  case canqlock l => exact absurd special (qlockImpl_plain s self l _ _ why stopped)
  case rlock l =>
    have safe : Plain (call s self (.rlock l)) :=
      (rlockImpl_plain s self l _).bind fun _ _ => .ok _
    exact absurd special (safe why stopped)
  case canrlock l => exact absurd special (rlockImpl_plain s self l _ why stopped)
  case runlock l =>
    have safe : Plain (runlock s self l) := (handToWriter_plain _ l).bind fun _ _ => .ok _
    exact absurd special (safe why (returning_error stopped))
  case wlock l =>
    have safe : Plain (call s self (.wlock l)) :=
      (wlockImpl_plain s self l _).bind fun _ _ => .ok _
    exact absurd special (safe why stopped)
  case canwlock l => exact absurd special (wlockImpl_plain s self l _ why stopped)
  case taskwakeup r =>
    have safe : Plain (taskwakeupImpl s r false) :=
      (wakeLoop_plain r _ _ _ s).bind fun _ _ => .ok _
    exact absurd special (safe why stopped)
  case taskwakeupall r =>
    have safe : Plain (taskwakeupImpl s r true) :=
      (wakeLoop_plain r _ _ _ s).bind fun _ _ => .ok _
    exact absurd special (safe why stopped)

/-- The abort of a resumed task because of a lock. -/
theorem resume_abort {pc : Pc} {env : Env} {why : Halt}
    (stopped : resume s self env pc = .error why) (special : why.special) :
    ∃ l, pc.asksFor = some l ∧ why = .abort (.qlockOops l) ∧ s.owner l ≠ some self := by
  have resumed : ∀ l, qlockResume s self l = .error why →
      why = .abort (.qlockOops l) ∧ s.owner l ≠ some self := by
    intro l failed
    unfold qlockResume at failed
    split at failed
    next => cases failed
    next notOwner => exact ⟨(Except.error.inj failed).symm, notOwner⟩
  cases pc with
  | qlock l =>
      obtain ⟨whyEq, notOwner⟩ := resumed l (returning_error stopped)
      exact ⟨l, rfl, whyEq, notOwner⟩
  | tasksleepQlock r l =>
      rcases bind_eq_error.mp stopped with failed | ⟨s₁, -, returned⟩
      · obtain ⟨whyEq, notOwner⟩ := resumed l failed
        exact ⟨l, rfl, whyEq, notOwner⟩
      · cases returned
  | tasksleep r => exact absurd special (tasksleepResume_plain s self r why stopped)
  | chanalt a =>
      have safe : Plain (resume s self env (.chanalt a)) :=
        (chanaltResume_plain s self a).bind fun _ _ => .ok _
      exact absurd special (safe why stopped)
  | chanop a =>
      have safe : Plain (resume s self env (.chanop a)) :=
        (chanaltResume_plain s self a).bind fun _ _ => .ok _
      exact absurd special (safe why stopped)
  | fdtask => exact absurd special ((fdtaskYield_onlyCorrupt _ self).plain why stopped)
  | fdtaskYield n => exact absurd special (fdtaskPass_plain s self n env why stopped)
  | _ => cases stopped

/-- What is wrong when a step aborts because of a lock. -/
inductive LockAbort (s : St) (why : Halt) : Act → Prop where
  | qlockOops {env : Env} {t : TaskPtr} {l : QLockPtr} :
      (s.seq .taskrunqueue).head? = some t → (s.task t).pc.asksFor = some l →
      why = .abort (.qlockOops l) → s.owner l ≠ some t → LockAbort s why (.dispatch env)
  | qunlockOwner {c : Call} {l : QLockPtr} : c.unlocks s.rendez = some l →
      why = .abort (.qunlockOwner l) → s.owner l = none → LockAbort s why (.call c)
  | wunlockNotLocked {l : RWLockPtr} : why = .abort (.wunlockNotLocked l) →
      (s.rwlock l).writer = none → LockAbort s why (.call (.wunlock l))
  | wunlockReaders {l : RWLockPtr} : why = .abort (.wunlockReaders l) →
      (s.rwlock l).readers ≠ 0 → LockAbort s why (.call (.wunlock l))

theorem step_abort {a : Act} {why : Halt} (stopped : step s a = .error why)
    (ofLock : why.ofLock) : LockAbort s why a := by
  have special : why.special := Or.inl ofLock
  cases a with
  | dispatch env =>
      rcases bind_eq_error.mp stopped with failed | ⟨⟨s₁, t⟩, scheduled, rest⟩
      · exact absurd ofLock (taskscheduler_lockSafe s why failed)
      rcases bind_eq_error.mp rest with failed | ⟨result, -, finished⟩
      · obtain ⟨l, asks, whyEq, notOwner⟩ := resume_abort failed special
        rw [taskscheduler_pc scheduled] at asks
        obtain ⟨-, isHead, lists, rfl, -⟩ := taskscheduler_ok scheduled
        exact .qlockOops isHead asks whyEq notOwner
      · exact absurd special (finish_plain t result why finished)
  | call c =>
      simp only [step] at stopped
      split at stopped
      next self running =>
        rcases bind_eq_error.mp stopped with failed | ⟨result, -, finished⟩
        · rcases call_abort failed special with
            ⟨l, unlocks, whyEq, free⟩ | ⟨l, rfl, ⟨whyEq, noWriter⟩ | ⟨whyEq, readers⟩⟩
          · exact .qunlockOwner unlocks whyEq free
          · exact .wunlockNotLocked whyEq noWriter
          · exact .wunlockReaders whyEq readers
        · exact absurd special (finish_plain self result why finished)
      next => cases stopped

/-- Only the scheduler makes the exits of the scheduler. -/
theorem step_ends {a : Act} {why : Halt} (stopped : step s a = .error why)
    (ends : why.ofScheduler) : taskscheduler s = .error why ∧ ∃ env, a = .dispatch env := by
  have special : why.special := Or.inr ends
  cases a with
  | dispatch env =>
      refine ⟨?_, env, rfl⟩
      rcases bind_eq_error.mp stopped with failed | ⟨⟨s₁, t⟩, -, rest⟩
      · exact failed
      rcases bind_eq_error.mp rest with failed | ⟨result, -, finished⟩
      · obtain ⟨l, -, rfl, -⟩ := resume_abort failed special
        exact ends.elim
      · exact absurd special (finish_plain t result why finished)
  | call c =>
      simp only [step] at stopped
      split at stopped
      next self running =>
        rcases bind_eq_error.mp stopped with failed | ⟨result, -, finished⟩
        · rcases call_abort failed special with
            ⟨l, -, rfl, -⟩ | ⟨l, -, ⟨rfl, -⟩ | ⟨rfl, -⟩⟩
          · exact ends.elim
          · exact ends.elim
          · exact ends.elim
        · exact absurd special (finish_plain self result why finished)
      next => cases stopped

end Libtask
