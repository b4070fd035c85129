import Libtask.Lib.Dlist
import Libtask.Lib.Outcome
import Mathlib.Algebra.Group.Int.Defs
import Mathlib.Algebra.Group.Nat.Defs
import Mathlib.Data.Int.Notation

/-!
# Runtime state

The memory of the library: the global variables of `task.c` and `fd.c`, the
`Task`, `QLock`, `RWLock`, `Rendez`, `Channel` and `Alt` objects, and the memory
that user code passes to channel operations.  A pointer is the number that names
its object; `nil` is `none`.

`int` counters are `Int` and `unsigned` ones `Nat`, reduced modulo `2 ^ 32` where
the code can make them wrap.  `tasknswitch` is a `BitVec`: it wraps in any long
run.  The debugging strings of a task (`name`, `state`) and its machine context
are left out; what stands for the context is `pc`, the place at which the task
gave up the CPU.
-/

namespace Libtask

abbrev TaskPtr := Nat
abbrev QLockPtr := Nat
abbrev RWLockPtr := Nat
abbrev RendezPtr := Nat
abbrev ChanPtr := Nat

/-- The `Tasklist` objects of the library. -/
inductive ListId where
  | taskrunqueue
  | sleeping
  | qwaiting (l : QLockPtr)
  | rwaiting (l : RWLockPtr)
  | wwaiting (l : RWLockPtr)
  | waiting (r : RendezPtr)
  deriving DecidableEq, Repr

/-- The heads, tails and links of all task lists. -/
abbrev Tasklists := Dlist.Dlists TaskPtr ListId

/-! ## Tasks -/

/-- Where a task is when it does not run: in its own code, after a library call
that returned `ret`, or at a `taskswitch` inside a library call, with the local
variables that the rest of the call reads. -/
inductive Pc where
  | user (ret : Option Int)
  | taskyield (n : BitVec 32)
  | qlock (l : QLockPtr)
  | rlock (l : RWLockPtr)
  | wlock (l : RWLockPtr)
  /-- in the `taskswitch` of `tasksleep` -/
  | tasksleep (r : RendezPtr)
  /-- in the `qlock` at the end of `tasksleep` -/
  | tasksleepQlock (r : RendezPtr) (l : QLockPtr)
  | taskdelay (now : Nat)
  | fdwait
  /-- in `chanalt` on the array at `a` -/
  | chanalt (a : Nat)
  /-- in the `chanalt` of `_chanop`, whose array is at `a` -/
  | chanop (a : Nat)
  /-- at the start of `fdtask` -/
  | fdtask
  /-- in the `taskyield` of the loop of `fdtask` -/
  | fdtaskYield (n : BitVec 32)
  | taskexit
  deriving DecidableEq, Repr

/-- The alt array of the `chanalt` call that a task is in. -/
def Pc.altbase : Pc → Option Nat
  | .chanalt a => some a
  | .chanop a => some a
  | _ => none

structure Task where
  alarmtime : Nat := 0
  id : Nat := 0
  exiting : Bool := false
  alltaskslot : Nat := 0
  system : Bool := false
  ready : Bool := false
  pc : Pc := .user none
  deriving DecidableEq, Repr

/-! ## Locks -/

/-- The code counts the readers in an `int`.  It has the value of `readers` as long as
fewer than `2^31` read holds are granted at a time. -/
structure RWLock where
  readers : Int := 0
  writer : Option TaskPtr := none
  deriving DecidableEq, Repr

/-! ## Channels -/

inductive Op where
  | chanend
  | chansnd
  | chanrcv
  | channop
  | channoblk
  deriving DecidableEq, Repr

/-- `a + idx` for an alt array that starts at `base`. -/
structure AltPtr where
  base : Nat
  idx : Nat
  deriving DecidableEq, Repr

structure Alt where
  c : ChanPtr
  v : Option Nat
  op : Op
  task : TaskPtr
  xalt : AltPtr
  deriving DecidableEq, Repr

/-- The first `n` entries of the array, and its capacity `m`. -/
structure Altarray where
  a : List AltPtr := []
  m : Nat := 0
  deriving DecidableEq, Repr

def Altarray.n (ar : Altarray) : Nat := ar.a.length

/-- `bufbytes` is the size of the area behind the header that was requested from
`malloc`, as the code computes it. -/
structure Channel where
  bufsize : Nat := 0
  elemsize : Nat := 0
  buf : Nat → UInt8 := fun _ => 0
  bufbytes : Int := 0
  nbuf : Nat := 0
  off : Nat := 0
  asend : Altarray := {}
  arecv : Altarray := {}

/-! ## Poll table -/

structure Pollfd where
  fd : Int := 0
  events : Nat := 0
  revents : Nat := 0
  deriving DecidableEq, Repr

/-! ## Events -/

/-- What the library did, in order.  The trace is written by the operations and
read by none of them. -/
inductive Event where
  | dispatch (t : TaskPtr)
  | exit (t : TaskPtr) (val : Int)
  | qlockGrant (l : QLockPtr) (t : TaskPtr)
  | qlockBlock (l : QLockPtr) (t : TaskPtr)
  | qunlock (l : QLockPtr) (t : TaskPtr) (next : Option TaskPtr)
  | rlockGrant (l : RWLockPtr) (t : TaskPtr)
  | rlockBlock (l : RWLockPtr) (t : TaskPtr)
  | wlockGrant (l : RWLockPtr) (t : TaskPtr)
  | wlockBlock (l : RWLockPtr) (t : TaskPtr)
  | runlock (l : RWLockPtr) (t : TaskPtr) (next : Option TaskPtr)
  | wunlock (l : RWLockPtr) (t : TaskPtr) (batch : List TaskPtr) (next : Option TaskPtr)
  | tasksleep (r : RendezPtr) (t : TaskPtr)
  | taskwakeup (r : RendezPtr) (selected : List TaskPtr)
  | sleepReturn (r : RendezPtr) (t : TaskPtr)
  /-- `partner` executed the sending alternative `a`, which gave `value` to `c` -/
  | sent (partner : TaskPtr) (a : AltPtr) (c : ChanPtr) (value : List UInt8)
  /-- `partner` executed the receiving alternative `a`, which got `value` from `c` -/
  | received (partner : TaskPtr) (a : AltPtr) (c : ChanPtr) (value : List UInt8)
  | altBlock (t : TaskPtr) (a : Nat)
  | altReturn (t : TaskPtr) (a : Nat) (i : Int)
  | poll (ms : Int) (nfds : Nat)
  | alarm (now : Nat) (woken : List TaskPtr)
  deriving DecidableEq, Repr

/-! ## How a run ends -/

/-- Calls of `abort` and failed assertions. -/
inductive Abort where
  | taskallocMalloc
  | taskcreateRealloc
  | qlockOops (l : QLockPtr)
  | qunlockOwner (l : QLockPtr)
  | wunlockNotLocked (l : RWLockPtr)
  | wunlockReaders (l : RWLockPtr)
  | altdequeueOp (op : Op)
  | altdequeueSelf
  | altcopyAssert
  | tooManyPollFds
  deriving DecidableEq, Repr

/-- Behaviour that C leaves undefined, or a link operation on a task that is not
in the state the operation is meant for. -/
inductive Fault where
  | tasklist
  | alltaskRange
  | wildAlt
  | nbufUnderflow (c : ChanPtr)
  | divByZero (c : ChanPtr)
  | bufRange (c : ChanPtr)
  | pollRange
  | fuel
  deriving DecidableEq, Repr

inductive Halt where
  /-- `exit(taskexitval)` in the scheduler -/
  | taskexitval (status : Int)
  /-- `no runnable tasks! %d tasks stalled`, then `exit(1)` -/
  | noRunnable (stalled : Int)
  | taskexitall (status : Int)
  /-- `poll` failed: `taskexitall(0)` -/
  | pollError
  /-- `chancreate malloc`: `exit(1)` -/
  | chancreateMalloc
  | abort (why : Abort)
  | fault (why : Fault)
  deriving DecidableEq, Repr

/-- The status that the process ends with, if it calls `exit`. -/
def Halt.status : Halt → Option Int
  | .taskexitval status => some status
  | .noRunnable _ => some 1
  | .taskexitall status => some status
  | .pollError => some 0
  | .chancreateMalloc => some 1
  | .abort _ => none
  | .fault _ => none

/-! ## The whole state -/

structure St where
  taskcount : Int
  tasknswitch : BitVec 32
  taskexitval : Int
  taskrunning : Option TaskPtr
  alltask : List TaskPtr
  /-- capacity of the last `realloc` of `alltask` -/
  alltaskcap : Nat
  taskidgen : Nat
  task : TaskPtr → Task
  lists : Tasklists
  /-- `QLock.owner` -/
  owner : QLockPtr → Option TaskPtr
  rwlock : RWLockPtr → RWLock
  /-- `Rendez.l`, set by user code before the Rendez is used -/
  rendez : RendezPtr → Option QLockPtr
  /-- the channels that `chancreate` has returned -/
  chans : List ChanPtr
  chan : ChanPtr → Channel
  /-- the alt array at each address, with its terminator -/
  alts : Nat → List Alt
  /-- the memory that `Alt.v` points to -/
  mem : Nat → UInt8
  pollfd : Nat → Pollfd
  polltask : Nat → TaskPtr
  npollfd : Nat
  startedfdtask : Bool
  sleepingcounted : Int
  trace : List Event

namespace St

open Function (update)

/-- The tasks in each list, in order. -/
@[simp] abbrev seq (s : St) : ListId → List TaskPtr := s.lists.seq

/-- The list that each task is in. -/
@[simp] abbrev home (s : St) : TaskPtr → Option ListId := s.lists.home

/-- Assign to fields of a task. -/
def setTask (s : St) (t : TaskPtr) (f : Task → Task) : St :=
  { s with task := update s.task t (f (s.task t)) }

def setOwner (s : St) (l : QLockPtr) (t : Option TaskPtr) : St :=
  { s with owner := update s.owner l t }

def setRwlock (s : St) (l : RWLockPtr) (lock : RWLock) : St :=
  { s with rwlock := update s.rwlock l lock }

def setChan (s : St) (c : ChanPtr) (chan : Channel) : St :=
  { s with chan := update s.chan c chan }

/-- Record an event. -/
def log (s : St) (e : Event) : St := { s with trace := s.trace ++ [e] }

/-- The contents of an alternative. -/
def alt? (s : St) (a : AltPtr) : Option Alt := (s.alts a.base)[a.idx]?

end St

/-- The zeroed memory in which the process starts.  Only user code fixes which
lock each `Rendez` names. -/
def St.zero (rendez : RendezPtr → Option QLockPtr) (mem : Nat → UInt8) : St where
  taskcount := 0
  tasknswitch := 0
  taskexitval := 0
  taskrunning := none
  alltask := []
  alltaskcap := 0
  taskidgen := 0
  task := fun _ => {}
  lists := Dlist.Dlists.empty
  owner := fun _ => none
  rwlock := fun _ => {}
  rendez := rendez
  chans := []
  chan := fun _ => {}
  alts := fun _ => []
  mem := mem
  pollfd := fun _ => {}
  polltask := fun _ => 0
  npollfd := 0
  startedfdtask := false
  sleepingcounted := 0
  trace := []

/-- How a library call goes on: it returns to its caller, or it gives up the CPU
and continues at `pc` when it is resumed. -/
inductive Flow where
  | ret (r : Option Int)
  | switch (pc : Pc)
  deriving DecidableEq, Repr

end Libtask
