import Libtask.ProgramEnds
import Mathlib.Data.Multiset.Replicate

/-!
# `testdelay.c`

The main task starts a `delaytask` for each argument, and waits until each one has sent to the
channel `c`.
-/

namespace Libtask

namespace Testdelay

open Function (update update_self update_of_ne)

/-- Where a task is in `taskmain` or `delaytask`, with its local variables.  The global variable `c`
is set before any other task is there. -/
inductive Code where
  /-- at `chancreate` -/
  | taskmain
  /-- at `printf("x")`, where the arguments from `v` on are left -/
  | x (c : ChanPtr) (n : Nat) (v : Int) (rest : List Int)
  | taskcreate (c : ChanPtr) (n : Nat) (v : Int) (rest : List Int)
  /-- at `printf("y")` -/
  | y (c : ChanPtr) (n i : Nat)
  /-- at `chanrecvul` -/
  | receives (c : ChanPtr) (n i : Nat)
  | taskexitall
  /-- at the start of `delaytask` -/
  | delaytask (c : ChanPtr) (v : Int)
  /-- at the `printf` of `delaytask` -/
  | awake (c : ChanPtr) (v : Int)
  /-- at `chansendul` -/
  | sends (c : ChanPtr)
  | returns
  deriving DecidableEq

/-- The test of the first loop, and `n++` behind it. -/
def createLoop (c : ChanPtr) (n : Nat) : List Int → Code
  | [] => if 0 < n then .y c n 0 else .taskexitall
  | v :: rest => .x c (n + 1) v rest

/-- The test of the second loop. -/
def waitLoop (c : ChanPtr) (n i : Nat) : Code := if i < n then .y c n i else .taskexitall

/-- From `int` to `unsigned int`. -/
def toUint (v : Int) : Nat := (v % 2 ^ 32).toNat

def line (v : Int) : String := "awake after " ++ toString v ++ " ms\n"

/-- The program, where `args` are the values of the arguments as numbers. -/
def testdelay {w : Nat} (args : List Int) : Program (BitVec w) Code String
  | .taskmain => .create 0 fun c => createLoop c 0 args
  | .x c n v rest => .print "x" (.taskcreate c n v rest)
  | .taskcreate c n v rest => .spawn (.delaytask c v) (createLoop c n rest)
  | .y c n i => .print "y" (.receives c n i)
  | .receives c n i => .recv c fun _ => waitLoop c n (i + 1)
  | .taskexitall => .halt 0
  | .delaytask c v => .pause (toUint v) (.awake c v)
  | .awake c v => .print (line v) (.sends c)
  | .sends c => .send c 0 .returns
  | .returns => .exit

/-! ## The invariant -/

section
variable {w : Nat}

/-- The network of the tasks. -/
abbrev Net (w : Nat) := Kahn.Net TaskPtr ChanPtr (BitVec w) Code String

/-- The delay of a task that has not printed its line. -/
def owes : Option Code → Multiset Int
  | some (.delaytask _ v) => {v}
  | some (.awake _ v) => {v}
  | _ => 0

/-- A task that has not sent yet. -/
def unsent : Option Code → Nat
  | some (.delaytask _ _) => 1
  | some (.awake _ _) => 1
  | some (.sends _) => 1
  | _ => 0

/-- Where the main task is when it has started `started` tasks, printed `xs` and `ys` letters and
received `got` values. -/
inductive Main (args : List Int) (c : ChanPtr) : Code → Nat → Nat → Nat → Nat → Prop where
  | x {before : List Int} {v : Int} {rest : List Int} : args = before ++ v :: rest →
      Main args c (.x c (before.length + 1) v rest) before.length before.length 0 0
  | taskcreate {before : List Int} {v : Int} {rest : List Int} : args = before ++ v :: rest →
      Main args c (.taskcreate c (before.length + 1) v rest) before.length (before.length + 1) 0 0
  | y {i : Nat} : i < args.length →
      Main args c (.y c args.length i) args.length args.length i i
  | receives {i : Nat} : i < args.length →
      Main args c (.receives c args.length i) args.length args.length (i + 1) i
  | taskexitall : Main args c .taskexitall args.length args.length args.length args.length

/-- Where a `delaytask` is. -/
inductive Delaytask (c : ChanPtr) : Code → Prop where
  | delaytask {v : Int} : Delaytask c (.delaytask c v)
  | awake {v : Int} : Delaytask c (.awake c v)
  | sends : Delaytask c (.sends c)
  | returns : Delaytask c .returns

/-- The main task `main` waits for `tasks`, of which those with the delays `woken` have printed
their lines. -/
structure Awaits (args : List Int) (n : Net w) (main : TaskPtr) (c : ChanPtr)
    (started xs ys got : Nat) (tasks : Finset TaskPtr) (woken : Multiset Int) : Prop where
  atMain : ∃ l, n.code main = some l ∧ Main args c l started xs ys got
  known : c ∈ n.chans
  others : ∀ u l, n.code u = some l → u ≠ main → Delaytask c l
  listed : ∀ u l, n.code u = some l → u ∈ tasks
  delays : (args.take started : Multiset Int) = tasks.sum (fun u => owes (n.code u)) + woken
  sent : started = tasks.sum (fun u => unsent (n.code u)) + (n.sent c).length
  rcvd : (n.rcvd c).length = got
  out : (n.out : Multiset String) =
    Multiset.replicate xs "x" + Multiset.replicate ys "y" + woken.map line

/-- The invariant of the program. -/
inductive Running (args : List Int) (n : Net w) : Prop where
  | begins (main : TaskPtr) : n.code = update (fun _ => none) main (some .taskmain) →
      (∀ ch, n.sent ch = [] ∧ n.rcvd ch = []) → n.out = [] → Running args n
  | awaits {main : TaskPtr} {c : ChanPtr} {started xs ys got : Nat} {tasks : Finset TaskPtr}
      {woken : Multiset Int} : Awaits args n main c started xs ys got tasks woken → Running args n

variable {args : List Int} {n n' : Net w} {main u : TaskPtr} {c : ChanPtr}
variable {started xs ys got : Nat} {tasks : Finset TaskPtr} {woken : Multiset Int} {l : Code}

theorem Main.owes (atMain : Main args c l started xs ys got) :
    Testdelay.owes (some l) = 0 ∧ unsent (some l) = 0 := by
  cases atMain <;> exact ⟨rfl, rfl⟩

/-- A task that owes a line has not sent yet. -/
theorem card_owes_le (l : Option Code) : (owes l).card ≤ unsent l := by
  unfold owes unsent
  split <;> simp

/-- The start of the next turn of the first loop. -/
theorem main_createLoop (c : ChanPtr) (before rest : List Int) (split : args = before ++ rest) :
    Main args c (createLoop c before.length rest) before.length before.length 0 0 := by
  cases rest with
  | cons v rest => exact .x split
  | nil =>
      have whole : before.length = args.length := by simp [split]
      rw [createLoop, whole]
      by_cases more : 0 < args.length
      · rw [if_pos more]
        exact .y more
      · have none : args.length = 0 := by omega
        rw [if_neg more]
        exact none ▸ @Main.taskexitall args c

theorem main_waitLoop (c : ChanPtr) {i : Nat} (inside : i < args.length) :
    Main args c (waitLoop c args.length (i + 1)) args.length args.length (i + 1) (i + 1) := by
  unfold waitLoop
  split
  · exact .y ‹_›
  · have last : i + 1 = args.length := by omega
    rw [last]
    exact .taskexitall

namespace Awaits

/-- A `delaytask` goes on to `l'`, or ends. -/
theorem delaytask_moves (l' : Option Code) (new : Multiset Int)
    (awaits : Awaits args n main c started xs ys got tasks woken) (isAt : n.code u = some l)
    (other : u ≠ main) (code : n'.code = update n.code u l') (chans : n'.chans = n.chans)
    (isDelay : ∀ k, l' = some k → Delaytask c k) (owed : owes (some l) = owes l' + new)
    (sends : unsent (some l) + (n.sent c).length = unsent l' + (n'.sent c).length)
    (rcvd : n'.rcvd c = n.rcvd c)
    (out : (n'.out : Multiset String) = (n.out : Multiset String) + new.map line) :
    Awaits args n' main c started xs ys got tasks (woken + new) := by
  have listed := awaits.listed u l isAt
  have codeU : n'.code u = l' := by rw [code, update_self]
  have codeOf {v : TaskPtr} (notU : v ≠ u) : n'.code v = n.code v := by
    rw [code, update_of_ne notU]
  refine ⟨?_, chans ▸ awaits.known, ?_, ?_, ?_, ?_, rcvd ▸ awaits.rcvd, ?_⟩
  · rw [codeOf (Ne.symm other)]
    exact awaits.atMain
  · intro v k isAt' notMain
    by_cases isU : v = u
    · exact isDelay k (by rw [← codeU, ← isU, isAt'])
    · exact awaits.others v k (codeOf isU ▸ isAt') notMain
  · intro v k isAt'
    by_cases isU : v = u
    · exact isU ▸ listed
    · exact awaits.listed v k (codeOf isU ▸ isAt')
  · have change := Potential.sum_insert_add (fun u => owes (n.code u))
      (fun u => owes (n'.code u)) (t := u) tasks (fun v notU => by rw [codeOf notU])
      (fun unlisted => absurd listed unlisted)
    rw [Finset.insert_eq_of_mem listed, isAt, codeU, owed] at change
    have same : tasks.sum (fun u => owes (n'.code u)) + new =
        tasks.sum fun u => owes (n.code u) := by
      apply add_right_cancel (b := owes l')
      rw [add_assoc, add_comm new, change]
    rw [awaits.delays, ← same, add_assoc, add_comm new]
  · have change := Potential.sum_insert_add (fun u => unsent (n.code u))
      (fun u => unsent (n'.code u)) (t := u) tasks (fun v notU => by rw [codeOf notU])
      (fun unlisted => absurd listed unlisted)
    rw [Finset.insert_eq_of_mem listed, isAt, codeU] at change
    have := awaits.sent
    omega
  · rw [out, awaits.out, Multiset.map_add, add_assoc]

/-- The main task goes on to `l`. -/
theorem main_moves {xs' ys' got' : Nat}
    (awaits : Awaits args n main c started xs ys got tasks woken)
    (code : n'.code = update n.code main (some l)) (chans : n'.chans = n.chans)
    (atMain : Main args c l started xs' ys' got') (sent : n'.sent c = n.sent c)
    (rcvd : (n'.rcvd c).length = got')
    (out : (n'.out : Multiset String) =
      Multiset.replicate xs' "x" + Multiset.replicate ys' "y" + woken.map line) :
    Awaits args n' main c started xs' ys' got' tasks woken := by
  obtain ⟨k, isAt, before⟩ := awaits.atMain
  have codeMain : n'.code main = some l := by rw [code, update_self]
  have codeOf {v : TaskPtr} (other : v ≠ main) : n'.code v = n.code v := by
    rw [code, update_of_ne other]
  refine ⟨⟨l, codeMain, atMain⟩, chans ▸ awaits.known, ?_, ?_, ?_, ?_, rcvd, out⟩
  · intro v k isAt' other
    exact awaits.others v k (codeOf other ▸ isAt') other
  · intro v k' isAt'
    by_cases isMain : v = main
    · exact isMain ▸ awaits.listed main k isAt
    · exact awaits.listed v k' (codeOf isMain ▸ isAt')
  · rw [awaits.delays]
    congr 1
    refine Finset.sum_congr rfl fun v _ => ?_
    by_cases isMain : v = main
    · rw [isMain, codeMain, isAt, before.owes.1, atMain.owes.1]
    · rw [codeOf isMain]
  · rw [sent, awaits.sent]
    congr 1
    refine Finset.sum_congr rfl fun v _ => ?_
    by_cases isMain : v = main
    · rw [isMain, codeMain, isAt, before.owes.2, atMain.owes.2]
    · rw [codeOf isMain]

/-- The main task starts the next `delaytask`. -/
theorem main_spawns {before rest : List Int} {v : Int}
    (awaits : Awaits args n main c before.length xs ys got tasks woken)
    (split : args = before ++ v :: rest) (fresh : n.code u = none)
    (code : n'.code = update (update n.code main (some l)) u (some (.delaytask c v)))
    (chans : n'.chans = n.chans)
    (atMain : Main args c l (before.length + 1) xs ys got)
    (sent : n'.sent c = n.sent c) (rcvd : n'.rcvd c = n.rcvd c) (out : n'.out = n.out) :
    Awaits args n' main c (before.length + 1) xs ys got (insert u tasks) woken := by
  obtain ⟨k, isAt, earlier⟩ := awaits.atMain
  have other : u ≠ main := by
    rintro rfl
    simp [isAt] at fresh
  have codeU : n'.code u = some (.delaytask c v) := by rw [code, update_self]
  have codeMain : n'.code main = some l := by
    rw [code, update_of_ne (Ne.symm other), update_self]
  have codeOf {t : TaskPtr} (notU : t ≠ u) (notMain : t ≠ main) : n'.code t = n.code t := by
    rw [code, update_of_ne notU, update_of_ne notMain]
  have same {M : Type} (f : Option Code → M) (noChange : f (n'.code main) = f (n.code main))
      (t : TaskPtr) (notU : t ≠ u) : f (n'.code t) = f (n.code t) := by
    by_cases isMain : t = main
    · rw [isMain, noChange]
    · rw [codeOf notU isMain]
  refine ⟨⟨l, codeMain, atMain⟩, chans ▸ awaits.known, ?_, ?_, ?_, ?_, rcvd ▸ awaits.rcvd,
    out ▸ awaits.out⟩
  · intro t k' isAt' notMain
    by_cases isU : t = u
    · rw [isU, codeU] at isAt'
      cases isAt'
      exact .delaytask
    · exact awaits.others t k' (codeOf isU notMain ▸ isAt') notMain
  · intro t k' isAt'
    by_cases isU : t = u
    · exact isU ▸ Finset.mem_insert_self ..
    · refine Finset.mem_insert_of_mem ?_
      by_cases isMain : t = main
      · exact isMain ▸ awaits.listed main k isAt
      · exact awaits.listed t k' (codeOf isU isMain ▸ isAt')
  · have change := Potential.sum_insert_add (fun t => owes (n.code t))
      (fun t => owes (n'.code t)) (t := u) tasks
      (same owes (by rw [codeMain, isAt, earlier.owes.1, atMain.owes.1]))
      (fun _ => by rw [fresh]; rfl)
    have delays := awaits.delays
    rw [fresh, codeU] at change
    have added : tasks.sum (fun t => owes (n.code t)) + {v} =
        (insert u tasks).sum fun t => owes (n'.code t) := by
      simpa [owes] using change.symm
    have taken : args.take before.length = before := by simp [split]
    have takenNext : args.take (before.length + 1) = before ++ [v] := by
      simp [split, List.take_append]
    rw [← added, add_right_comm, ← delays, taken, takenNext]
    exact (Multiset.coe_add before [v]).symm
  · have change := Potential.sum_insert_add (fun t => unsent (n.code t))
      (fun t => unsent (n'.code t)) (t := u) tasks
      (same unsent (by rw [codeMain, isAt, earlier.owes.2, atMain.owes.2]))
      (fun _ => by rw [fresh]; rfl)
    have isNew : unsent (some (.delaytask c v)) = 1 ∧ unsent none = 0 := ⟨rfl, rfl⟩
    rw [fresh, codeU, isNew.1, isNew.2] at change
    have := awaits.sent
    rw [sent]
    omega

/-- A `delaytask` carries out its next command. -/
theorem delaytask_step (awaits : Awaits args n main c started xs ys got tasks woken)
    (isAt : n.code u = some l) (other : u ≠ main) (moves : Kahn.Moves n u (testdelay args l) n') :
    Running args n' := by
  have isDelay := awaits.others u l isAt other
  cases isDelay with
  | @delaytask v =>
      cases moves with
      | pause =>
          refine .awaits (awaits.delaytask_moves _ 0 isAt other rfl rfl ?_ ?_ rfl rfl ?_)
          · rintro k ⟨⟩
            exact .awake
          · rfl
          · simp [Kahn.Net.goTo]
  | @awake v =>
      cases moves with
      | print =>
          refine .awaits (awaits.delaytask_moves _ {v} isAt other rfl rfl ?_ ?_ rfl rfl ?_)
          · rintro k ⟨⟩
            exact .sends
          · rfl
          · exact (Multiset.coe_add n.out [line v]).symm
  | sends =>
      cases moves with
      | send =>
          refine .awaits (awaits.delaytask_moves _ 0 isAt other rfl rfl ?_ ?_ ?_ rfl ?_)
          · rintro k ⟨⟩
            exact .returns
          · rfl
          · simp [Kahn.Net.goTo, Kahn.Net.put, unsent, Nat.add_comm]
          · simp [Kahn.Net.goTo, Kahn.Net.put]
  | returns =>
      cases moves with
      | exit =>
          refine .awaits (awaits.delaytask_moves none 0 isAt other rfl rfl ?_ ?_ rfl
            rfl ?_)
          · rintro k ⟨⟩
          · rfl
          · simp

/-- The main task carries out its next command. -/
theorem main_step (awaits : Awaits args n main c started xs ys got tasks woken)
    (isAt : n.code main = some l) (moves : Kahn.Moves n main (testdelay args l) n') :
    Running args n' := by
  obtain ⟨l', isAt', atMain⟩ := awaits.atMain
  obtain rfl := Option.some.inj (isAt.symm.trans isAt')
  cases atMain with
  | @x before v rest split =>
      cases moves with
      | print =>
          refine .awaits (awaits.main_moves rfl rfl (.taskcreate split) rfl awaits.rcvd ?_)
          change ((n.out ++ ["x"] : List String) : Multiset String) = _
          rw [← Multiset.coe_add, awaits.out, Multiset.replicate_add, Multiset.replicate_one,
            add_right_comm, add_right_comm (Multiset.replicate _ "x")]
          rfl
  | @taskcreate before v rest split =>
      cases moves with
      | spawn fresh =>
          refine .awaits (awaits.main_spawns split fresh rfl rfl ?_ rfl rfl rfl)
          have next := main_createLoop c (before ++ [v]) rest
            (by simpa using split)
          simpa using next
  | @y i inside =>
      cases moves with
      | print =>
          refine .awaits (awaits.main_moves rfl rfl (.receives inside) rfl awaits.rcvd ?_)
          change ((n.out ++ ["y"] : List String) : Multiset String) = _
          rw [← Multiset.coe_add, awaits.out, Multiset.replicate_add, Multiset.replicate_one,
            add_right_comm, add_assoc (Multiset.replicate _ "x")]
          rfl
  | @receives i inside =>
      cases moves with
      | recv more =>
          refine .awaits (awaits.main_moves rfl rfl (main_waitLoop c inside) rfl ?_ awaits.out)
          simp [Kahn.Net.take, Kahn.Net.goTo, awaits.rcvd]
  | taskexitall => cases moves

end Awaits

/-- One step of the program. -/
theorem running_step (running : Running args n) (stepped : Kahn.Step (testdelay args) n n') :
    Running args n' := by
  obtain ⟨u, l, isAt, moves⟩ := stepped
  cases running with
  | begins main code empty out =>
      have isMain : u = main := by
        by_contra other
        simp [code, other] at isAt
      subst isMain
      obtain rfl : Code.taskmain = l := by simpa [code] using isAt
      cases moves with
      | @create c _ _ fresh =>
          have atMain := main_createLoop c [] args rfl
          suffices Awaits args _ u c 0 0 0 0 {u} 0 from .awaits this
          refine ⟨⟨_, by simp [Kahn.Net.goTo], atMain⟩, by simp [Kahn.Net.goTo], ?_, ?_, ?_, ?_, ?_,
            ?_⟩
          · intro v k isAt' other
            simp [Kahn.Net.goTo, code, other] at isAt'
          · intro v k isAt'
            by_contra other
            simp [Kahn.Net.goTo, code, Finset.mem_singleton.not.mp other] at isAt'
          · simpa [Kahn.Net.goTo] using atMain.owes.1.symm
          · simpa [Kahn.Net.goTo, empty] using atMain.owes.2.symm
          · simp [Kahn.Net.goTo, empty]
          · simp [Kahn.Net.goTo, out]
  | @awaits main c started xs ys got tasks woken awaits =>
      by_cases isMain : u = main
      · subst isMain
        exact awaits.main_step isAt moves
      · exact awaits.delaytask_step isAt isMain moves

end

end Testdelay

end Libtask
