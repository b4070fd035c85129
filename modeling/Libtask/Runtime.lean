import Libtask.Qlock
import Libtask.Channel
import Libtask.Fd
import Libtask.Lib.Transition

/-!
# Runs of the runtime

The process is a transition system.  Its states are the points at which the
scheduler is at the top of its loop (`taskrunning` is nil) and those at which a
task is in its own code between two library calls.  In the latter the environment
chooses any call; in the former the scheduler takes the head of the run queue and
runs it until its library call returns or it gives up the CPU again.

Whatever comes from outside is part of the action: addresses that `malloc`
returns, values of `rand()`, clock readings, results of `poll`.
-/

namespace Libtask

open Function (update)

/-- A library call, or a step of user code that the library can observe. -/
inductive Call where
  | taskcreate (m : Alloc)
  | tasksystem
  | taskyield
  | taskexit (val : Int)
  /-- the function of the task returns to `taskstart` -/
  | taskreturn
  | taskexitall (val : Int)
  | anyready
  | taskdelay (ms now : Nat) (m : Alloc)
  | fdwait (fd : Int) (rw : Char) (m : Alloc)
  | qlock (l : QLockPtr)
  | canqlock (l : QLockPtr)
  | qunlock (l : QLockPtr)
  | rlock (l : RWLockPtr)
  | canrlock (l : RWLockPtr)
  | runlock (l : RWLockPtr)
  | wlock (l : RWLockPtr)
  | canwlock (l : RWLockPtr)
  | wunlock (l : RWLockPtr)
  | tasksleep (r : RendezPtr)
  | taskwakeup (r : RendezPtr)
  | taskwakeupall (r : RendezPtr)
  | chancreate (c : Option ChanPtr) (elemsize bufsize : Int) (junk : Bytes.Memory)
  /-- `chanalt` on an array with contents `alts` at address `a` -/
  | chanalt (a : Nat) (alts : List Alt) (rand1 rand2 : Nat)
  /-- `_chanop`, whose local array is at address `a` -/
  | chanop (c : ChanPtr) (op : Op) (v : Option Nat) (canblock : Bool) (a rand1 rand2 : Nat)
  /-- user code stores bytes in its own memory -/
  | store (p : Nat) (bytes : List UInt8)

/-! ## What user code may do -/

/-- Alternatives, and then the one terminator. -/
def terminated : List Alt → Bool
  | [] => false
  | [last] => last.op.isTerminator
  | a :: rest => a.op.isAlternative && terminated rest

/-- The address is not the array of a call in progress. -/
def altfree (s : St) (a : Nat) : Bool :=
  s.alltask.all fun t => decide ((s.task t).pc.altbase ≠ some a)

/-- `malloc` returns memory that is not in use. -/
def freshTask (s : St) (m : Alloc) : Bool := m.malloc.all fun t => decide (t ∉ s.alltask)

/-- What the C types, the allocator and the ownership of memory promise of a call.
Nothing is asked of the order in which tasks make their calls. -/
def legal (s : St) : Call → Bool
  | .taskcreate m => freshTask s m
  | .taskdelay ms now m => decide (ms < 2 ^ 32) && decide (now < 2 ^ 64) && freshTask s m
  | .fdwait _ _ m => freshTask s m
  | .chancreate c _ _ _ => c.all fun c => decide (c ∉ s.chans)
  | .chanalt a alts _ _ =>
      altfree s a && terminated alts &&
        alts.all fun x => x.op.isTerminator || x.op = .channop || decide (x.c ∈ s.chans)
  | .chanop c op _ _ a _ _ =>
      altfree s a && decide (c ∈ s.chans) && decide (op = .chansnd ∨ op = .chanrcv)
  | _ => true

/-! ## Calls -/

/-- Continue with a function that cannot switch. -/
def returning (r : Option Int) (s : Except Halt St) : Except Halt (St × Flow) := do
  let s ← s
  return (s, .ret r)

def call (s : St) (self : TaskPtr) : Call → Except Halt (St × Flow)
  | .taskcreate m => do
      let (s, id) ← taskcreate s m (.user none)
      return (s, .ret (some id))
  | .tasksystem => .ok (tasksystem s self, .ret none)
  | .taskyield => do
      let (s, n) ← taskyield s self
      return (s, .switch (.taskyield n))
  | .taskexit val => .ok (taskexit s self val, .switch .taskexit)
  | .taskreturn => .ok (taskexit s self 0, .switch .taskexit)
  | .taskexitall val => .error (.taskexitall val)
  | .anyready => .ok (s, .ret (some (anyready s)))
  | .taskdelay ms now m => taskdelay s self ms now m
  | .fdwait fd rw m => fdwait s self fd rw m
  | .qlock l => qlock s self l
  | .canqlock l => canqlock s self l
  | .qunlock l => returning none (qunlock s self l)
  | .rlock l => rlock s self l
  | .canrlock l => canrlock s self l
  | .runlock l => returning none (runlock s self l)
  | .wlock l => wlock s self l
  | .canwlock l => canwlock s self l
  | .wunlock l => returning none (wunlock s self l)
  | .tasksleep r => tasksleep s self r
  | .taskwakeup r => taskwakeup s r
  | .taskwakeupall r => taskwakeupall s r
  | .chancreate c elemsize bufsize junk =>
      returning (c.map Int.ofNat) (chancreate s c elemsize bufsize junk)
  | .chanalt a alts rand1 rand2 =>
      chanalt { s with alts := update s.alts a alts } self a rand1 rand2 (.chanalt a)
  | .chanop c op v canblock a rand1 rand2 => do
      let s := { s with alts := update s.alts a (chanopAlts c op v canblock) }
      match ← chanalt s self a rand1 rand2 (.chanop a) with
      | (s, .ret r) => return (s, .ret (r.map chanopResult))
      | (s, .switch pc) => return (s, .switch pc)
  | .store p bytes => .ok ({ s with mem := Bytes.write s.mem p bytes }, .ret none)

/-- Continue a task where it gave up the CPU. -/
def resume (s : St) (self : TaskPtr) (env : Env) : Pc → Except Halt (St × Flow)
  | .user r => .ok (s, .ret r)
  | .taskyield n => .ok (s, .ret (some (taskyieldReturn s n)))
  | .qlock l => returning none (qlockResume s self l)
  | .rlock _ => .ok (s, .ret none)
  | .wlock _ => .ok (s, .ret none)
  | .tasksleep r => tasksleepResume s self r
  | .tasksleepQlock r l => do
      let s ← qlockResume s self l
      return (s.log (.sleepReturn r self), .ret none)
  | .taskdelay start => .ok (s, .ret (some (taskdelayReturn start env.now)))
  | .fdwait => .ok (s, .ret none)
  | .chanalt a => do
      let (s, i) ← chanaltResume s self a
      return (s, .ret (some i))
  | .chanop a => do
      let (s, i) ← chanaltResume s self a
      return (s, .ret (some (chanopResult i)))
  | .fdtask => fdtaskYield (tasksystem s self) self
  | .fdtaskYield n => fdtaskPass s self n env
  -- the scheduler frees an exiting task and never runs it again
  | .taskexit => .ok (s, .switch .taskexit)

/-! ## The transition system -/

inductive Act where
  /-- one turn of the scheduler loop -/
  | dispatch (env : Env)
  /-- a call by the running task -/
  | call (c : Call)

/-- Actions that are possible in a state. -/
def enabled (s : St) : Act → Prop
  | .dispatch env => s.taskrunning = none ∧ env.now < 2 ^ 64 ∧ env.nowAfter < 2 ^ 64
  | .call c => s.taskrunning.isSome = true ∧ legal s c = true

instance (s : St) (a : Act) : Decidable (enabled s a) := by
  cases a <;> simp only [enabled] <;> infer_instance

def step (s : St) : Act → Except Halt St
  | .dispatch env => do
      let (s, self) ← taskscheduler s
      let result ← resume s self env (s.task self).pc
      finish self result
  | .call c =>
      match s.taskrunning with
      | some self => do
          let result ← call s self c
          finish self result
      | none => .ok s

/-- `main`: create the main task at `t` in zeroed memory, and enter the scheduler. -/
def main (rendez : RendezPtr → Option QLockPtr) (mem : Bytes.Memory) (t : TaskPtr) :
    Except Halt St := do
  let (s, _) ← taskcreate (St.zero rendez mem) (some t) (.user none)
  return s

/-- The runtime, started from `main`. -/
def runtime : Transition.System St Act Halt where
  init s := ∃ rendez mem t, main rendez mem t = .ok s
  enabled := enabled
  step := step

instance (s : St) (a : Act) : Decidable (runtime.enabled s a) :=
  inferInstanceAs (Decidable (enabled s a))

/-- States of runs that keep a discipline. -/
abbrev Reachable (allowed : St → Act → Prop) : St → Prop :=
  Transition.Reachable runtime allowed

end Libtask
