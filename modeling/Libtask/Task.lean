import Libtask.State

/-!
# Tasks and the scheduler

The functions of `task.c`.  A function that runs in a task takes the running task
as `self`.  `taskswitch` ends the function with `Flow.switch`; what the code does
behind it is in `resume`.
-/

namespace Libtask

open Function (update)

/-- Stop with undefined behaviour. -/
def fault {α : Type} (why : Fault) : Except Halt α := .error (.fault why)

/-- `abort()` or a failed assertion. -/
def abort {α : Type} (why : Abort) : Except Halt α := .error (.abort why)

/-! ## Task lists -/

/-- `addtask` is `Links.pushBack` on the links.  It is meant for a task in no
list. -/
def addtask (s : St) (l : ListId) (t : TaskPtr) : Except Halt St :=
  match s.lists.push? l t with
  | some lists => .ok { s with lists }
  | none => fault .tasklist

/-- `deltask` is `Links.unlink` on the links.  It is meant for a task in `l`. -/
def deltask (s : St) (l : ListId) (t : TaskPtr) : Except Halt St :=
  match s.lists.remove? l t with
  | some lists => .ok { s with lists }
  | none => fault .tasklist

/-- The `head` field of a task list. -/
def head (s : St) (l : ListId) : Option TaskPtr := s.lists.links.head l

/-! ## Task operations -/

def taskready (s : St) (t : TaskPtr) : Except Halt St :=
  addtask (s.setTask t fun task => { task with ready := true }) .taskrunqueue t

/-- `taskalloc`, where `malloc` returned `t`.  `pc` says which function the task
will run. -/
def taskalloc (s : St) (t : Option TaskPtr) (pc : Pc) : Except Halt (St × TaskPtr) :=
  match t with
  | none => abort .taskallocMalloc
  | some t =>
      match s.lists.clear? t with
      | none => fault .tasklist
      | some lists =>
          let id := (s.taskidgen + 1) % 2 ^ 32
          .ok ({ s with lists, taskidgen := id, task := update s.task t { id, pc } }, t)

/-- What the allocations of `taskcreate` return: the memory for the task, and whether
`realloc` enlarges `alltask` when that is full. -/
structure Alloc where
  malloc : Option TaskPtr
  realloc : Bool := true
  deriving DecidableEq, Repr

/-- The table can be enlarged. -/
instance : Coe (Option TaskPtr) Alloc := ⟨fun malloc => { malloc }⟩

def taskcreate (s : St) (m : Alloc) (pc : Pc) : Except Halt (St × Int) := do
  let (s, t) ← taskalloc s m.malloc pc
  let nalltask := s.alltask.length
  let cap := if nalltask % 64 = 0 then nalltask + 64 else s.alltaskcap
  if nalltask % 64 = 0 ∧ m.realloc = false then abort .taskcreateRealloc
  else if nalltask < cap then
    let s := { s with
      taskcount := s.taskcount + 1
      alltaskcap := cap
      alltask := s.alltask ++ [t] }
    let s := s.setTask t fun task => { task with alltaskslot := nalltask }
    let s ← taskready s t
    return (s, (BitVec.ofNat 32 (s.task t).id).toInt)
  else
    fault .alltaskRange

def tasksystem (s : St) (self : TaskPtr) : St :=
  if (s.task self).system then s
  else
    let s := s.setTask self fun task => { task with system := true }
    { s with taskcount := s.taskcount - 1 }

/-- `taskyield` up to its `taskswitch`; the result is the saved `tasknswitch`. -/
def taskyield (s : St) (self : TaskPtr) : Except Halt (St × BitVec 32) := do
  let n := s.tasknswitch
  let s ← taskready s self
  return (s, n)

/-- What `taskyield` returns once the task runs again. -/
def taskyieldReturn (s : St) (n : BitVec 32) : Int := (s.tasknswitch - n - 1).toInt

def anyready (s : St) : Int := if (head s .taskrunqueue).isSome then 1 else 0

def taskexit (s : St) (self : TaskPtr) (val : Int) : St :=
  let s := { s with taskexitval := val }
  (s.setTask self fun task => { task with exiting := true }).log (.exit self val)

/-! ## The scheduler -/

/-- One turn of `taskscheduler` up to the switch into a task. -/
def taskscheduler (s : St) : Except Halt (St × TaskPtr) :=
  if s.taskcount = 0 then .error (.taskexitval s.taskexitval)
  else
    match head s .taskrunqueue with
    | none => .error (.noRunnable s.taskcount)
    | some t => do
        let s ← deltask s .taskrunqueue t
        let s := s.setTask t fun task => { task with ready := false }
        let s := { s with taskrunning := some t, tasknswitch := s.tasknswitch + 1 }
        return (s.log (.dispatch t), t)

/-- The exit branch: the last entry of `alltask` takes the place of `t`. -/
def taskreap (s : St) (t : TaskPtr) : Except Halt St :=
  let s := if (s.task t).system then s else { s with taskcount := s.taskcount - 1 }
  let i := (s.task t).alltaskslot
  match s.alltask.getLast? with
  | none => fault .alltaskRange
  | some last =>
      if i < s.alltask.length then
        let s := { s with alltask := (s.alltask.set i last).dropLast }
        .ok (s.setTask last fun task => { task with alltaskslot := i })
      else fault .alltaskRange

/-- The rest of the turn, once `t` has switched back to the scheduler. -/
def taskschedulerBack (s : St) (t : TaskPtr) : Except Halt St :=
  let s := { s with taskrunning := none }
  if (s.task t).exiting then taskreap s t else .ok s

/-- End of a library call of `self`: back to its own code, or to the scheduler. -/
def finish (self : TaskPtr) : St × Flow → Except Halt St
  | (s, .ret r) => .ok (s.setTask self fun task => { task with pc := .user r })
  | (s, .switch pc) => taskschedulerBack (s.setTask self fun task => { task with pc }) self

end Libtask
