import Libtask.Task

/-!
# Locks and condition variables

The functions of `qlock.c` and `rendez.c`.  `qlockImpl`, `rlockImpl`, `wlockImpl`
and `taskwakeupImpl` are the static functions whose names start with an
underscore in the source.
-/

namespace Libtask

/-- A function without a result. -/
def Flow.void : Flow → Flow
  | .ret _ => .ret none
  | flow => flow

/-! ## Queueing locks -/

/-- `_qlock` up to its `taskswitch`, to be resumed at `pc`. -/
def qlockImpl (s : St) (self : TaskPtr) (l : QLockPtr) (block : Bool) (pc : Pc) :
    Except Halt (St × Flow) :=
  match s.owner l with
  | none => .ok ((s.setOwner l (some self)).log (.qlockGrant l self), .ret (some 1))
  | some _ =>
      if block then do
        let s ← addtask s (.qwaiting l) self
        return (s.log (.qlockBlock l self), .switch pc)
      else .ok (s, .ret (some 0))

/-- The check behind the `taskswitch` of `_qlock`. -/
def qlockResume (s : St) (self : TaskPtr) (l : QLockPtr) : Except Halt St :=
  if s.owner l = some self then .ok s else abort (.qlockOops l)

def qlock (s : St) (self : TaskPtr) (l : QLockPtr) : Except Halt (St × Flow) := do
  let (s, flow) ← qlockImpl s self l true (.qlock l)
  return (s, flow.void)

def canqlock (s : St) (self : TaskPtr) (l : QLockPtr) : Except Halt (St × Flow) :=
  qlockImpl s self l false (.qlock l)

def qunlock (s : St) (self : TaskPtr) (l : QLockPtr) : Except Halt St :=
  match s.owner l with
  | none => abort (.qunlockOwner l)
  | some _ =>
      let ready := head s (.qwaiting l)
      let s := (s.setOwner l ready).log (.qunlock l self ready)
      match ready with
      | none => .ok s
      | some ready => do
          let s ← deltask s (.qwaiting l) ready
          taskready s ready

/-! ## Reader-writer locks -/

/-- `_rlock` up to its `taskswitch`. -/
def rlockImpl (s : St) (self : TaskPtr) (l : RWLockPtr) (block : Bool) :
    Except Halt (St × Flow) :=
  let lock := s.rwlock l
  if lock.writer = none ∧ head s (.wwaiting l) = none then
    .ok ((s.setRwlock l { lock with readers := lock.readers + 1 }).log (.rlockGrant l self),
      .ret (some 1))
  else if block then do
    let s ← addtask s (.rwaiting l) self
    return (s.log (.rlockBlock l self), .switch (.rlock l))
  else .ok (s, .ret (some 0))

def rlock (s : St) (self : TaskPtr) (l : RWLockPtr) : Except Halt (St × Flow) := do
  let (s, flow) ← rlockImpl s self l true
  return (s, flow.void)

def canrlock (s : St) (self : TaskPtr) (l : RWLockPtr) : Except Halt (St × Flow) :=
  rlockImpl s self l false

/-- `_wlock` up to its `taskswitch`. -/
def wlockImpl (s : St) (self : TaskPtr) (l : RWLockPtr) (block : Bool) :
    Except Halt (St × Flow) :=
  let lock := s.rwlock l
  if lock.writer = none ∧ lock.readers = 0 then
    .ok ((s.setRwlock l { lock with writer := some self }).log (.wlockGrant l self),
      .ret (some 1))
  else if block then do
    let s ← addtask s (.wwaiting l) self
    return (s.log (.wlockBlock l self), .switch (.wlock l))
  else .ok (s, .ret (some 0))

def wlock (s : St) (self : TaskPtr) (l : RWLockPtr) : Except Halt (St × Flow) := do
  let (s, flow) ← wlockImpl s self l true
  return (s, flow.void)

def canwlock (s : St) (self : TaskPtr) (l : RWLockPtr) : Except Halt (St × Flow) :=
  wlockImpl s self l false

/-- Hand the write lock to the first waiting writer, if no reader holds it.  The
result is the task that got it. -/
def handToWriter (s : St) (l : RWLockPtr) : Except Halt (St × Option TaskPtr) :=
  if (s.rwlock l).readers = 0 then
    match head s (.wwaiting l) with
    | some t => do
        let s ← deltask s (.wwaiting l) t
        let s := s.setRwlock l { s.rwlock l with writer := some t }
        let s ← taskready s t
        return (s, some t)
    | none => .ok (s, none)
  else .ok (s, none)

def runlock (s : St) (self : TaskPtr) (l : RWLockPtr) : Except Halt St := do
  let lock := s.rwlock l
  let s := s.setRwlock l { lock with readers := lock.readers - 1 }
  let (s, next) ← handToWriter s l
  return s.log (.runlock l self next)

/-- The loop of `wunlock` that admits the waiting readers.  Each turn takes one
task off the list, so its length is enough `fuel`. -/
def admitReaders (l : RWLockPtr) : Nat → St → Except Halt (St × List TaskPtr)
  | fuel, s =>
      match head s (.rwaiting l) with
      | none => .ok (s, [])
      | some t =>
          match fuel with
          | 0 => fault .fuel
          | fuel + 1 => do
              let s ← deltask s (.rwaiting l) t
              let lock := s.rwlock l
              let s := s.setRwlock l { lock with readers := lock.readers + 1 }
              let s ← taskready s t
              let (s, batch) ← admitReaders l fuel s
              return (s, t :: batch)

def wunlock (s : St) (self : TaskPtr) (l : RWLockPtr) : Except Halt St :=
  if (s.rwlock l).writer = none then abort (.wunlockNotLocked l)
  else
    let s := s.setRwlock l { s.rwlock l with writer := none }
    if (s.rwlock l).readers ≠ 0 then abort (.wunlockReaders l)
    else do
      let (s, batch) ← admitReaders l (s.seq (.rwaiting l)).length s
      let (s, next) ← handToWriter s l
      return s.log (.wunlock l self batch next)

/-! ## Condition variables -/

/-- `tasksleep` up to its `taskswitch`. -/
def tasksleep (s : St) (self : TaskPtr) (r : RendezPtr) : Except Halt (St × Flow) := do
  let s ← addtask s (.waiting r) self
  let s := s.log (.tasksleep r self)
  match s.rendez r with
  | some l => do
      let s ← qunlock s self l
      return (s, .switch (.tasksleep r))
  | none => return (s, .switch (.tasksleep r))

/-- The part of `tasksleep` behind its `taskswitch`. -/
def tasksleepResume (s : St) (self : TaskPtr) (r : RendezPtr) : Except Halt (St × Flow) :=
  match s.rendez r with
  | some l => do
      match ← qlockImpl s self l true (.tasksleepQlock r l) with
      | (s, .ret _) => return (s.log (.sleepReturn r self), .ret none)
      | (s, .switch pc) => return (s, .switch pc)
  | none => .ok (s.log (.sleepReturn r self), .ret none)

/-- The loop of `_taskwakeup` from turn `i` on.  The result is the final `i` and
the list of the tasks that it wakes. -/
def wakeLoop (r : RendezPtr) (all : Bool) :
    Nat → Nat → St → Except Halt (St × Nat × List TaskPtr)
  | fuel, i, s =>
      if i = 1 ∧ ¬all then .ok (s, i, [])
      else
        match head s (.waiting r) with
        | none => .ok (s, i, [])
        | some t =>
            match fuel with
            | 0 => fault .fuel
            | fuel + 1 => do
                let s ← deltask s (.waiting r) t
                let s ← taskready s t
                let (s, last, woken) ← wakeLoop r all fuel (i + 1) s
                return (s, last, t :: woken)

/-- `_taskwakeup` -/
def taskwakeupImpl (s : St) (r : RendezPtr) (all : Bool) : Except Halt (St × Flow) := do
  let (s, i, woken) ← wakeLoop r all (s.seq (.waiting r)).length 0 s
  return (s.log (.taskwakeup r woken), .ret (some i))

def taskwakeup (s : St) (r : RendezPtr) : Except Halt (St × Flow) := taskwakeupImpl s r false

def taskwakeupall (s : St) (r : RendezPtr) : Except Halt (St × Flow) := taskwakeupImpl s r true

end Libtask
