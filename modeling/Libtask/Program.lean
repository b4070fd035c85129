import Libtask.Lib.Encoding
import Libtask.Lib.Kahn
import Libtask.Runtime

/-!
# Programs over the runtime

User code whose tasks work with channels: `chansendul` and `chanrecvul`, or `chansend` and
`chanrecv` on elements of one type, with `chancreate`, `taskcreate`, `taskdelay` and
`taskexitall`.  The code of a task is a function from its local states to what it does next.

A task passes values through local variables on its stack.  What a channel operation sends is
stored there before the call, and what it received is read from there after the call, when the
task runs again.
-/

namespace Libtask

open Function (update)
open Kahn (Cmd)

/-- The code of all tasks. -/
abbrev Program (V L O : Type) := L → Cmd ChanPtr V L O

/-- What a task does when it is in its own code. -/
inductive Frame (L : Type) where
  | run (l : L)
  /-- calls `_chanop` for the value that it stored at `val` -/
  | stored (l : L) (val : Nat)
  /-- came back from the `_chanop` of `l`, whose alt array was at `array` -/
  | calling (l : L) (val array : Nat)
  deriving DecidableEq

/-- The local variable in use. -/
def Frame.val {L : Type} : Frame L → Option Nat
  | .run _ => none
  | .stored _ val => some val
  | .calling _ val _ => some val

namespace Program

variable {V L O : Type}

/-- The state of the library, and of the tasks in their own code. -/
structure State (L O : Type) where
  rt : St
  frame : TaskPtr → Option (Frame L)
  /-- what was printed -/
  out : List O

/-- What the environment decides in a turn of a task: what the allocations, `rand` and `nsec`
return, and the place of local variables. -/
structure Choice where
  task : Alloc := { malloc := none }
  chan : Option ChanPtr := none
  junk : Bytes.Memory := fun _ => 0
  val : Nat := 0
  array : Nat := 0
  rand1 : Nat := 0
  rand2 : Nat := 0
  now : Nat := 0

/-- A turn of a task: the library call in it, if there is one, and what the task does when it is
in its own code again. -/
structure Turn (L O : Type) where
  call : Option Call
  frame : Option (Frame L)
  child : Option L := none
  out : List O := []

/-- The call of `_chanop` in `chansend`, `chanrecv` and the functions like them. -/
def chanop (choice : Choice) (c : ChanPtr) (op : Op) (val array : Nat) : Call :=
  .chanop c op (some val) true array choice.rand1 choice.rand2

/-- What comes after a channel operation, which left `v` in the local variable. -/
def after (l : L) (v : V) : Cmd ChanPtr V L O → L
  | .send _ _ next => next
  | .recv _ next => next v
  | _ => l

/-- The channel operation of a command. -/
def operation : Cmd ChanPtr V L O → Option (ChanPtr × Op)
  | .send c _ _ => some (c, .chansnd)
  | .recv c _ => some (c, .chanrcv)
  | _ => none

section
variable (e : Bytes.Encoding V) (program : Program V L O)

/-- The turn of a task that starts a command. -/
def begin (choice : Choice) (l : L) : Cmd ChanPtr V L O → Option (Turn L O)
  | .send _ v _ =>
      some { call := some (.store choice.val (e.bytes v)), frame := some (.stored l choice.val) }
  | .recv c _ =>
      some {
        call := some (chanop choice c .chanrcv choice.val choice.array)
        frame := some (.calling l choice.val choice.array) }
  | .create size next =>
      some {
        call := some (.chancreate choice.chan e.size size choice.junk)
        frame := choice.chan.map fun c => .run (next c) }
  | .spawn child next =>
      some {
        call := some (.taskcreate choice.task)
        frame := some (.run next)
        child := some child }
  | .print o next => some { call := none, frame := some (.run next), out := [o] }
  | .pause ms next =>
      some { call := some (.taskdelay ms choice.now choice.task), frame := some (.run next) }
  | .exit => some { call := some .taskreturn, frame := none }
  | .halt status => some { call := some (.taskexitall status), frame := none }
  | .undefined => none

/-- The next turn of a task with the given frame, or `none` if its behaviour is undefined. -/
def turn (mem : Bytes.Memory) (choice : Choice) : Frame L → Option (Turn L O)
  | .run l => begin e choice l (program l)
  | .stored l val =>
      (operation (program l)).map fun (c, op) =>
        { call := some (chanop choice c op val choice.array)
          frame := some (.calling l val choice.array) }
  | .calling l val _ =>
      some { call := none, frame := some (.run (after l (e.load mem val) (program l))) }

/-! ## The transition system -/

inductive Act where
  /-- one turn of the scheduler loop -/
  | dispatch (env : Env)
  /-- one turn of the running task in its own code -/
  | go (choice : Choice)

/-- Why a run stops. -/
inductive Stop where
  | halt (why : Halt)
  /-- a task came to behaviour that C leaves undefined -/
  | undefined
  deriving DecidableEq

/-- The running task with its frame. -/
def State.running (n : State L O) : Option (TaskPtr × Frame L) :=
  n.rt.taskrunning.bind fun t => (n.frame t).map fun f => (t, f)

/-- The local variable at `val` is in the stack of `t`: no other task has its own there. -/
def State.valfree (n : State L O) (size : Nat) (t : TaskPtr) (val : Nat) : Bool :=
  n.rt.alltask.all fun u => u = t ||
    (n.frame u).all fun f => f.val.all fun other => decide (Bytes.Apart size val other)

/-- What the allocator and the ownership of memory promise of a turn. -/
def Turn.legal (n : State L O) (t : TaskPtr) (turn : Turn L O) : Bool :=
  turn.call.all (Libtask.legal n.rt) &&
    turn.frame.all fun f => f.val.all (n.valfree e.size t)

def enabled (n : State L O) : Act → Prop
  | .dispatch env => Libtask.enabled n.rt (.dispatch env)
  | .go choice =>
      n.running.any (fun (t, f) =>
        (turn e program n.rt.mem choice f).all (Turn.legal e n t)) = true

instance (n : State L O) (a : Act) : Decidable (enabled e program n a) := by
  cases a <;> simp only [enabled] <;> infer_instance

/-- The frames after a turn of `t`, whose child is at `u`. -/
def State.frames (n : State L O) (t : TaskPtr) (u : Option TaskPtr) (turn : Turn L O) :
    TaskPtr → Option (Frame L) :=
  let frame := update n.frame t turn.frame
  match u, turn.child with
  | some u, some child => update frame u (some (.run child))
  | _, _ => frame

/-- A step of the runtime in a run of the program. -/
def library (s : St) (a : Libtask.Act) : Except Stop St :=
  (Libtask.step s a).mapError .halt

def step (n : State L O) : Act → Except Stop (State L O)
  | .dispatch env => do
      let rt ← library n.rt (.dispatch env)
      return { n with rt }
  | .go choice =>
      match n.running with
      | none => .ok n
      | some (t, f) =>
          match turn e program n.rt.mem choice f with
          | none => .error .undefined
          | some turn => do
              let rt ← match turn.call with
                | none => pure n.rt
                | some c => library n.rt (.call c)
              return { rt, frame := n.frames t choice.task.malloc turn, out := n.out ++ turn.out }

/-- The program, whose main task starts in `start`. -/
def system (start : L) : Transition.System (State L O) Act Stop where
  init n := ∃ rendez mem t, main rendez mem t = .ok n.rt ∧
    n.frame = update (fun _ => none) t (some (.run start)) ∧ n.out = []
  enabled := enabled e program
  step := step e program

instance (start : L) (n : State L O) (a : Act) :
    Decidable ((system e program start).enabled n a) :=
  inferInstanceAs (Decidable (enabled e program n a))

/-- The states of the runs of a program. -/
abbrev Reachable (start : L) : State L O → Prop :=
  Transition.Reachable (system e program start) Transition.anyAction

end

end Program

end Libtask
