import Libtask.ProgramWakes
import Libtask.Testdelay

/-!
# `testdelay.c` waits for all its tasks

Whatever the delays and the clock are, the program ends when each `delaytask` has printed its line.
-/

namespace Libtask

namespace Testdelay

open Function (update)
open Program (MallocFails State Stop)
open Transition (Reaches anyAction)

section
variable {w : Nat} {args : List Int} {n : Net w} {main u : TaskPtr} {c : ChanPtr}
variable {started xs ys got : Nat} {tasks : Finset TaskPtr} {woken : Multiset Int} {l : Code}

/-- What is printed in a run, in some order. -/
def expected (args : List Int) : List String :=
  List.replicate args.length "x" ++ List.replicate args.length "y" ++ args.map line

theorem coe_expected (args : List Int) : (expected args : Multiset String) =
    Multiset.replicate args.length "x" + Multiset.replicate args.length "y" +
      (args : Multiset Int).map line := rfl

theorem Main.bounds (atMain : Main args c l started xs ys got) :
    started ≤ args.length ∧ xs ≤ args.length ∧ ys ≤ args.length ∧ ys ≤ got + 1 := by
  cases atMain with
  | x split => subst split; simp
  | taskcreate split => subst split; simp
  | y inside => exact ⟨le_rfl, le_rfl, inside.le, by omega⟩
  | receives inside => exact ⟨le_rfl, le_rfl, inside, le_rfl⟩
  | taskexitall => exact ⟨le_rfl, le_rfl, le_rfl, by omega⟩

namespace Awaits

theorem bounds (awaits : Awaits args n main c started xs ys got tasks woken) :
    started ≤ args.length ∧ xs ≤ args.length ∧ ys ≤ args.length ∧ ys ≤ got + 1 := by
  obtain ⟨l, -, atMain⟩ := awaits.atMain
  exact atMain.bounds

/-- What was printed is a part of what is to be printed. -/
theorem out_le (awaits : Awaits args n main c started xs ys got tasks woken) :
    n.out.Subperm (expected args) := by
  obtain ⟨-, fewXs, fewYs, -⟩ := awaits.bounds
  have few : woken ≤ args := by
    have all : woken ≤ (args.take started : Multiset Int) := by
      rw [awaits.delays]
      exact Multiset.le_add_left ..
    exact all.trans (List.take_sublist _ _).subperm
  rw [← Multiset.coe_le, awaits.out, coe_expected]
  refine add_le_add (add_le_add ?_ ?_) (Multiset.map_le_map few)
  · exact Multiset.replicate_mono _ fewXs
  · exact Multiset.replicate_mono _ fewYs

/-- The main task prints no more than one `y` ahead. -/
theorem ys_le (awaits : Awaits args n main c started xs ys got tasks woken)
    (ordered : Kahn.Ordered n) : ys ≤ woken.card + 1 := by
  obtain ⟨few, -, -, ahead⟩ := awaits.bounds
  have received := (ordered c).length_le
  have owed : (tasks.sum fun u => owes (n.code u)).card ≤
      tasks.sum fun u => unsent (n.code u) := by
    rw [Multiset.card_sum]
    exact Finset.sum_le_sum fun u _ => card_owes_le _
  have total := congrArg Multiset.card awaits.delays
  rw [Multiset.coe_card, List.length_take, Nat.min_eq_left few, Multiset.card_add] at total
  have := awaits.sent
  have := awaits.rcvd
  omega

/-- When all values were received, all lines were printed. -/
theorem out_perm (awaits : Awaits args n main c started xs ys got tasks woken)
    (ordered : Kahn.Ordered n) (isAt : n.code main = some .taskexitall) :
    n.out.Perm (expected args) := by
  obtain ⟨l, isAt', atMain⟩ := awaits.atMain
  obtain rfl := Option.some.inj (isAt.symm.trans isAt')
  cases atMain
  have received := (ordered c).length_le
  have total := awaits.sent
  have all := awaits.rcvd
  have noneLeft : tasks.sum (fun u => owes (n.code u)) = 0 := by
    refine Finset.sum_eq_zero fun u member => ?_
    have few := Finset.single_le_sum (f := fun u => unsent (n.code u)) (fun _ _ => Nat.zero_le _)
      member
    have owed := card_owes_le (n.code u)
    exact Multiset.card_eq_zero.mp (by omega)
  have delays := awaits.delays
  rw [noneLeft, zero_add, List.take_length] at delays
  rw [← Multiset.coe_eq_coe, awaits.out, ← delays, coe_expected]

/-- The main task has a task to wait for. -/
theorem not_stuck {cap : ChanPtr → Nat}
    (awaits : Awaits args n main c started xs ys got tasks woken)
    (stuck : Kahn.Stuck cap (testdelay args) n) : False := by
  obtain ⟨l, isAt, atMain⟩ := awaits.atMain
  have waits := stuck.waits main l isAt
  cases atMain with
  | @receives i inside =>
      have empty : n.sent c = n.rcvd c := by
        simpa [testdelay] using waits
      have some : 0 < tasks.sum fun u => unsent (n.code u) := by
        have := awaits.sent
        have := awaits.rcvd
        rw [empty] at *
        omega
      obtain ⟨u, -, left⟩ := Finset.exists_ne_zero_of_sum_ne_zero some.ne'
      cases isAt' : n.code u with
      | none => simp [isAt', unsent] at left
      | some k =>
          have other : u ≠ main := by
            rintro rfl
            obtain rfl := Option.some.inj (isAt.symm.trans isAt')
            exact left (by rw [isAt']; rfl)
          have waits' := stuck.waits u k isAt'
          cases awaits.others u k isAt' other with
          | sends => exact stuck.apart u main _ _ c 0 .returns _ isAt' rfl isAt rfl
          | returns => simp [isAt', unsent] at left
          | delaytask => simp [testdelay] at waits'
          | awake => simp [testdelay] at waits'
  | _ => simp [testdelay] at waits

end Awaits

theorem Running.out_subperm (running : Running args n) : n.out.Subperm (expected args) := by
  cases running with
  | begins _ _ _ out => simp [out, List.nil_subperm]
  | awaits awaits => exact awaits.out_le

theorem Running.out_perm (running : Running args n) (ordered : Kahn.Ordered n)
    (isAt : n.code u = some .taskexitall) : n.out.Perm (expected args) := by
  cases running with
  | begins main code _ _ =>
      by_cases isMain : u = main <;> simp [code, isMain] at isAt
  | @awaits main c started xs ys got tasks woken awaits =>
      by_cases isMain : u = main
      · exact awaits.out_perm ordered (isMain ▸ isAt)
      · cases awaits.others u _ isAt isMain

theorem Running.not_stuck {cap : ChanPtr → Nat} (running : Running args n)
    (stuck : Kahn.Stuck cap (testdelay args) n) : False := by
  cases running with
  | begins main code _ _ =>
      have waits := stuck.waits main .taskmain (by simp [code])
      simp [testdelay] at waits
  | awaits awaits => exact awaits.not_stuck stuck

/-- The tasks work with the channel that the main task has made. -/
theorem Running.known (running : Running args n) (isAt : n.code u = some l) {op : Op}
    (isOp : Program.operation (testdelay (w := w) args l) = some (c, op)) : c ∈ n.chans := by
  cases running with
  | begins main code _ _ =>
      by_cases isMain : u = main
      · obtain rfl : Code.taskmain = l := by simpa [code, isMain] using isAt
        cases isOp
      · simp [code, isMain] at isAt
  | @awaits main c' started xs ys got tasks woken awaits =>
      suffices c = c' from this ▸ awaits.known
      by_cases isMain : u = main
      · obtain ⟨l', isAt', atMain⟩ := awaits.atMain
        obtain rfl := Option.some.inj (isAt.symm.trans (isMain ▸ isAt'))
        cases atMain <;> cases isOp
        rfl
      · cases awaits.others u l isAt isMain <;> cases isOp
        rfl

/-- A line of a `delaytask`. -/
def isLine (o : String) : Bool := decide (o ≠ "x") && decide (o ≠ "y")

theorem isLine_line (v : Int) : isLine (line v) = true := by
  have long : (line v).length ≠ 1 := by
    simp only [line, String.length_append]
    have : "awake after ".length = 12 := by decide
    omega
  have isX : line v ≠ "x" := fun same => long (by rw [same]; decide)
  have isY : line v ≠ "y" := fun same => long (by rw [same]; decide)
  simp [isLine, isX, isY]

theorem Running.ys_le (running : Running args n) (ordered : Kahn.Ordered n) :
    n.out.count "y" ≤ n.out.countP isLine + 1 := by
  cases running with
  | begins _ _ _ out => simp [out]
  | @awaits main c started xs ys got tasks woken awaits =>
      have few := awaits.ys_le ordered
      have perm : n.out.Perm (List.replicate xs "x" ++ List.replicate ys "y" ++
          woken.toList.map line) := by
        rw [← Multiset.coe_eq_coe, awaits.out, ← Multiset.coe_add, ← Multiset.coe_add,
          ← Multiset.map_coe, Multiset.coe_toList]
        rfl
      have noLetter : (woken.toList.map line).count "y" = 0 := by
        refine List.count_eq_zero.mpr fun member => ?_
        obtain ⟨v, -, isLetter⟩ := List.mem_map.mp member
        have := isLine_line v
        simp [isLine, isLetter] at this
      have lines : (woken.toList.map line).countP isLine = woken.card := by
        rw [List.countP_eq_length.mpr, List.length_map, Multiset.length_toList]
        intro o member
        obtain ⟨v, -, rfl⟩ := List.mem_map.mp member
        exact isLine_line v
      have isCount : n.out.count "y" = ys := by
        rw [perm.count_eq, List.count_append, List.count_append, noLetter]
        simp [List.count_replicate]
      have isCountP : n.out.countP isLine = woken.card := by
        rw [perm.countP_eq, List.countP_append, List.countP_append, lines]
        simp [List.countP_replicate, isLine]
      omega

end

/-! ## Runs -/

section
variable {w : Nat} {args : List Int} {e : Bytes.Encoding (BitVec w)}
variable {n n' : State Code String}

theorem testdelay_create {l : Code} {size : Nat} {next : ChanPtr → Code}
    (isCreate : testdelay (w := w) args l = .create size next) : size = 0 := by
  cases l <;> cases isCreate
  rfl

theorem testdelay_fits (small : e.size < 2 ^ 31) : Program.Fits e (testdelay args) := by
  intro l size next isCreate
  obtain rfl := testdelay_create isCreate
  exact ⟨by decide, small, by simp⟩

theorem start_running (args : List Int) (main : TaskPtr) :
    Running args (Kahn.Net.start main .taskmain : Net w) ∧
      Kahn.Ordered (Kahn.Net.start main .taskmain : Net w) :=
  ⟨.begins main rfl (fun _ => ⟨rfl, rfl⟩) rfl, fun _ => List.prefix_refl _⟩

theorem step_running {n n' : Net w} (running : Running args n ∧ Kahn.Ordered n)
    (stepped : Kahn.Step (testdelay args) n n') : Running args n' ∧ Kahn.Ordered n' :=
  ⟨running_step running.1 stepped, stepped.ordered running.2⟩

theorem reachable_running (small : e.size < 2 ^ 31)
    (reachable : Program.Reachable e (testdelay args) .taskmain n) :
    Running args (n.net e (testdelay args)) ∧ Kahn.Ordered (n.net e (testdelay args)) := by
  obtain ⟨-, main, steps, runs⟩ := Program.reachable_refines (testdelay_fits small) reachable
  exact runs.invariant _ (start_running args main) fun _ _ => step_running

/-- What the main task prints before it gives up the CPU. -/
def letters (args : List Int) : List String := List.replicate args.length "x" ++ ["y"]

/-- The main task runs alone until it has started all tasks. -/
inductive Early (args : List Int) (n : State Code String) : Prop where
  | waits {main : TaskPtr} : n.rt.taskrunning = none → n.rt.alltask = [main] →
      n.frame main = some (.run .taskmain) → n.out = [] → Early args n
  | begins {main : TaskPtr} : n.rt.taskrunning = some main →
      n.frame main = some (.run .taskmain) → n.out = [] → Early args n
  | runs {main : TaskPtr} {c : ChanPtr} {l : Code} {started xs got : Nat} :
      n.rt.taskrunning = some main → n.frame main = some (.run l) →
      Main args c l started xs 0 got → n.out = List.replicate xs "x" → Early args n
  | later : letters args <+: n.out → Early args n

theorem init_early (init : (Program.system e (testdelay args) .taskmain).init n) :
    Early args n := by
  obtain ⟨rendez, mem, t, started, frameEq, out⟩ := init
  have idle := (main_inv started).1
  obtain ⟨id, created⟩ := main_ok started
  obtain ⟨t₀, lists, cap, isTask, -, -, -, rtEq, -⟩ := taskcreate_ok created
  obtain rfl := Option.some.inj isTask
  exact .waits idle (by rw [rtEq]; rfl) (by simp [frameEq]) out

theorem dispatch_early {env : Env} (early : Early args n)
    (wired : Program.Wired e (testdelay args) n)
    (isEnabled : Libtask.enabled n.rt (.dispatch env))
    (stepped : Program.step e (testdelay args) n (.dispatch env) = .ok n') : Early args n' := by
  obtain ⟨stepped, same⟩ := Program.step_dispatch stepped
  have idle := isEnabled.1
  rw [same]
  cases early with
  | @waits main _ alltask frame out =>
      obtain ⟨t, dispatched⟩ := Program.dispatched wired isEnabled stepped
      have live := dispatched.acts.live (reachable_inv wired.reachable)
      obtain rfl : t = main := by simpa [alltask] using live
      exact .begins (dispatched.user _ frame).2 frame out
  | begins running => simp [running] at idle
  | runs running => simp [running] at idle
  | later printed => exact .later printed

theorem go_early {choice : Program.Choice} {t : TaskPtr} {f : Frame Code}
    {turn : Program.Turn Code String} (early : Early args n)
    (wired : Program.Wired e (testdelay args) n)
    (goes : Program.Goes e (testdelay args) n choice n' t f turn) : Early args n' := by
  have noDispatch (idle : n.rt.taskrunning = none) : False := by
    rw [goes.running] at idle
    cases idle
  have self {main : TaskPtr} {l : Code} (running : n.rt.taskrunning = some main)
      (frame : n.frame main = some (.run l)) : main = t ∧ f = .run l := by
    obtain rfl := Option.some.inj (running.symm.trans goes.running)
    exact ⟨rfl, Option.some.inj (goes.frame.symm.trans frame)⟩
  have turnEq := goes.isTurn
  have outEq := goes.out
  cases early with
  | waits idle => exact (noDispatch idle).elim
  | later printed => exact .later (outEq ▸ printed.trans (List.prefix_append _ _))
  | begins running frame out =>
      obtain ⟨rfl, rfl⟩ := self running frame
      simp only [Program.turn, Program.begin, testdelay, Option.some.injEq] at turnEq
      subst turnEq
      obtain ⟨isEnabled, stepped⟩ := goes.call _ rfl
      obtain ⟨c, chanEq, -, -⟩ := chancreate_quiet isEnabled stepped
      have frameEq := goes.frames rfl
      have next := main_createLoop c [] args rfl
      refine .runs (goes.stillRuns ?_) ?_ next (outEq.trans (by simp [out]))
      · rintro _ ⟨⟩ pc
        cases pc <;> exact id
      · simp [frameEq, chanEq]
  | @runs main c l started xs got running frame atMain out =>
      obtain ⟨rfl, rfl⟩ := self running frame
      generalize isYs : 0 = ys at atMain
      cases atMain with
      | @x before v rest split =>
          simp only [Program.turn, Program.begin, testdelay, Option.some.injEq] at turnEq
          subst turnEq
          refine .runs (c := c) (goes.stillRuns ?_) ?_ (.taskcreate split) ?_
          · rintro _ ⟨⟩
          · simp [goes.frames rfl]
          · rw [outEq, out, List.replicate_succ']
      | @taskcreate before v rest split =>
          simp only [Program.turn, Program.begin, testdelay, Option.some.injEq] at turnEq
          subst turnEq
          obtain ⟨isEnabled, stepped⟩ := goes.call _ rfl
          obtain ⟨u, isChild, fresh, -⟩ := taskcreate_child isEnabled stepped
          have other : main ≠ u := fun same => fresh (same ▸ goes.live wired)
          have next := main_createLoop c (before ++ [v]) rest
            (by simpa using split)
          rw [List.length_append, List.length_singleton] at next
          refine .runs (goes.stillRuns ?_) ?_ next (outEq.trans (by simp [out]))
          · rintro _ ⟨⟩ pc
            cases pc <;> exact id
          · simp [goes.frame', Program.State.frames, isChild, other]
      | y inside =>
          simp only [Program.turn, Program.begin, testdelay, Option.some.injEq] at turnEq
          subst turnEq
          refine .later ?_
          rw [outEq, out]
          exact List.prefix_refl _
      | receives inside => cases isYs
      | taskexitall =>
          simp only [Program.turn, Program.begin, testdelay, Option.some.injEq] at turnEq
          subst turnEq
          obtain ⟨isEnabled, stepped⟩ := goes.call _ rfl
          simp [Libtask.step, running, Libtask.call] at stepped
          cases stepped

theorem Main.xs_le {c : ChanPtr} {l : Code} {started xs ys got : Nat}
    (atMain : Main args c l started xs ys got) : xs ≤ args.length :=
  atMain.bounds.2.1

theorem Early.out (early : Early args n) : n.out <+: letters args ∨ letters args <+: n.out := by
  cases early with
  | waits _ _ _ out => simp [out]
  | begins _ _ out => simp [out]
  | later printed => exact Or.inr printed
  | runs _ _ atMain out =>
      refine Or.inl ?_
      rw [out, letters]
      have few := (List.prefix_replicate_iff.mpr ⟨by simpa using atMain.xs_le, by simp⟩ :
        List.replicate _ "x" <+: List.replicate args.length "x")
      exact few.trans (List.prefix_append _ _)

/-- The turns of a run with one task, whose delay is over at once. -/
def oneTask : List Program.Act :=
  (List.range 19).map fun i =>
    if i ∈ [0, 6, 8, 9, 10, 16, 17] then .dispatch { poll := .ready fun _ => 0 }
    else .go { task := some (100 + i), chan := some (200 + i), val := 1000 + 8 * i,
               array := 5000 + i }

theorem oneTask_ends : ∃ n : State Code String, n.out = ["x", "y", line 0] ∧
    Program.Reachable (Bytes.littleEndian 8) (testdelay (w := 64) [0]) .taskmain n ∧
    Program.enabled (Bytes.littleEndian 8) (testdelay (w := 64) [0]) n (.go {}) ∧
    Program.step (Bytes.littleEndian 8) (testdelay (w := 64) [0]) n (.go {}) =
      .error (.halt (.taskexitall 0)) := by
  obtain ⟨n, printed, ends⟩ :=
    Program.exists_program_stop (Bytes.littleEndian 8) (testdelay (w := 64) [0]) .taskmain oneTask
      (.go {}) (.halt (.taskexitall 0)) (fun n => decide (n.out = ["x", "y", line 0]))
      (by decide +kernel)
  exact ⟨n, of_decide_eq_true printed, ends⟩

/-- What has been printed: a part of what is to be printed, where the letters of the first loop and
one `y` come first, and each further `y` follows the line of another task. -/
theorem testdelay_prints (small : e.size < 2 ^ 31)
    (reachable : Program.Reachable e (testdelay args) .taskmain n) :
    n.out.Subperm (expected args) ∧ (n.out <+: letters args ∨ letters args <+: n.out) ∧
      ∀ printed, printed <+: n.out → printed.count "y" ≤ printed.countP isLine + 1 := by
  have fits : Program.Fits e (testdelay args) := testdelay_fits small
  have early : Early args n := by
    refine reachable.invariant (Early args) (fun n init => init_early init) ?_
    intro n a n' before early isEnabled _ stepped
    have wired := (Program.reachable_refines fits before).1
    cases a with
    | dispatch env => exact dispatch_early early wired isEnabled stepped
    | go choice =>
        obtain ⟨t, f, turn, goes⟩ := Program.step_goes isEnabled stepped
        exact go_early early wired goes
  obtain ⟨-, main, steps, runs⟩ := Program.reachable_refines fits reachable
  refine ⟨(reachable_running small reachable).1.out_subperm, early.out, ?_⟩
  exact runs.out_invariant _ (fun out => out.count "y" ≤ out.countP isLine + 1)
    (start_running args main) rfl (fun _ _ => step_running)
    fun _ running => running.1.ys_le running.2

theorem testdelay_prints_one : ∃ n : State Code String, n.out = ["x", "y", line 0] ∧
    n.out.Subperm (expected [0]) ∧ (n.out <+: letters [0] ∨ letters [0] <+: n.out) ∧
      ∀ printed, printed <+: n.out → printed.count "y" ≤ printed.countP isLine + 1 := by
  obtain ⟨n, printed, reachable, -, -⟩ := oneTask_ends
  exact ⟨n, printed, testdelay_prints (by decide) reachable⟩

theorem testdelay_halt {l : Code} {status : Int}
    (isHalt : testdelay (w := w) args l = .halt status) : status = 0 ∧ l = .taskexitall := by
  cases l <;> cases isHalt
  exact ⟨rfl, rfl⟩

/-- The tasks are never all blocked. -/
theorem reachable_waiting (small : e.size < 2 ^ 31)
    (reachable : Program.Reachable e (testdelay args) .taskmain n)
    (idle : n.rt.taskrunning = none) : Program.Waiting n := by
  have wired := (Program.reachable_refines (testdelay_fits small) reachable).1
  by_contra none
  refine (reachable_running small reachable).1.not_stuck (wired.stuck fun t f hasFrame => ?_)
  exact wired.blocked idle (fun member => none ⟨t, f, hasFrame, Or.inl member⟩)
    (fun member => none ⟨t, f, hasFrame, Or.inr member⟩) hasFrame

theorem testdelay_short {l next : Code} {ms : Nat}
    (isPause : testdelay (w := w) args l = .pause ms next) : ms < 2 ^ 32 := by
  cases l <;> cases isPause
  simp only [toUint]
  omega

/-- A run ends when each task has printed its line, or when `malloc` or `poll` fails. -/
theorem reachable_stops (small : e.size < 2 ^ 31)
    (reachable : Program.Reachable e (testdelay args) .taskmain n) {a : Program.Act} {stop : Stop}
    (isEnabled : Program.enabled e (testdelay args) n a)
    (stopped : Program.step e (testdelay args) n a = .error stop) :
    stop = .halt (.taskexitall 0) ∧ n.out.Perm (expected args) ∨ MallocFails n.rt a stop ∨
      stop = .halt .pollError ∧ ∃ env, a = .dispatch env ∧ env.poll = .error := by
  obtain ⟨running, ordered⟩ := reachable_running small reachable
  have wired := (Program.reachable_refines (testdelay_fits small) reachable).1
  have ordinary := Program.reachable_ordinary (testdelay_fits small) reachable
  cases Program.step_ends wired ordinary isEnabled stopped with
  | @undefined _ _ l _ isUndefined => cases l <;> cases isUndefined
  | taskexitall isRunning isHalt =>
      obtain ⟨rfl, rfl⟩ := testdelay_halt isHalt
      exact Or.inl ⟨rfl, running.out_perm ordered (Program.running_code isRunning)⟩
  | taskcreate _ _ fails => exact Or.inr (Or.inl (.taskcreate fails))
  | chancreate _ _ fails => exact Or.inr (Or.inl (.chancreate fails))
  | poll _ fails => exact Or.inr (Or.inr ⟨rfl, _, rfl, fails⟩)
  | taskexitval gone =>
      obtain ⟨main, l, isAt⟩ : ∃ main l, (n.net e (testdelay args)).code main = some l := by
        cases running with
        | begins main code _ _ => exact ⟨main, .taskmain, by simp [code]⟩
        | awaits awaits =>
            obtain ⟨l, isAt, -⟩ := awaits.atMain
            exact ⟨_, l, isAt⟩
      simp [State.net, gone] at isAt
  | noRunnable _ stuck => exact (running.not_stuck stuck).elim

/-- How many steps a task makes from here on, with those of the tasks it has still to start. -/
def remaining (args : List Int) : Code → Nat
  | .taskmain => 8 * args.length + 3
  | .x _ n _ rest => 8 * rest.length + 2 * n + 8
  | .taskcreate _ n _ rest => 8 * rest.length + 2 * n + 7
  | .y _ n i => 2 * (n - i) + 2
  | .receives _ n i => 2 * (n - i) + 1
  | .taskexitall => 0
  | .delaytask _ _ => 4
  | .awake _ _ => 3
  | .sends _ => 2
  | .returns => 1

theorem remaining_createLoop (args : List Int) (c : ChanPtr) (n : Nat) (rest : List Int) :
    remaining args (createLoop c n rest) ≤ 8 * rest.length + 2 * n + 2 := by
  cases rest with
  | nil =>
      by_cases more : 0 < n <;> simp [createLoop, remaining, more]
  | cons v rest =>
      simp only [createLoop, remaining, List.length_cons]
      omega

theorem testdelay_decreases : Kahn.Decreases (remaining args) (testdelay (w := w) args) := by
  intro l
  cases l with
  | taskmain =>
      intro c
      have := remaining_createLoop args c 0 args
      change remaining args (createLoop c 0 args) < 8 * args.length + 3
      omega
  | taskcreate c n v rest =>
      have := remaining_createLoop args c n rest
      change 4 + remaining args (createLoop c n rest) < 8 * rest.length + 2 * n + 7
      omega
  | receives c n i =>
      intro _
      unfold waitLoop
      split
      · simp only [remaining]
        omega
      · simp [remaining]
  | taskexitall => trivial
  | x | y | delaytask | awake | sends | returns => simp [testdelay, remaining]

/-- Each run can be brought to its end. -/
theorem reachable_ends (small : e.size < 2 ^ 31)
    (reachable : Program.Reachable e (testdelay args) .taskmain n) :
    ∃ n' choice, Reaches (Program.system e (testdelay args) .taskmain) anyAction n n' ∧
      Program.enabled e (testdelay args) n' (.go choice) ∧
      Program.step e (testdelay args) n' (.go choice) = .error (.halt (.taskexitall 0)) ∧
      n'.out.Perm (expected args) := by
  have fits : Program.Fits e (testdelay args) := testdelay_fits small
  obtain ⟨-, main, steps, runs⟩ := Program.reachable_refines fits reachable
  obtain ⟨n', choice, stop, reaches, isEnabled, stopped, supplied⟩ :=
    Program.exists_end (k := remaining args .taskmain) fits
      (fun n reachable => reachable_waiting small reachable)
      (fun n reachable t l c op isAt isOp =>
        (reachable_running small reachable).1.known isAt isOp)
      (fun l ms next isPause => testdelay_short isPause) reachable
      (fun more net further => by
        have := (runs.trans further).steps_le testdelay_decreases
        omega)
  rcases reachable_stops small (reaches.reachable reachable) isEnabled stopped with
    ⟨rfl, printed⟩ | fails | ⟨-, env, isDispatch, -⟩
  · exact ⟨n', choice, reaches, isEnabled, stopped, printed⟩
  · exact absurd fails supplied
  · cases isDispatch

/-- A run ends when each task has printed its line, or when memory cannot be had or `poll` fails.
Until then some task is ready or asleep whenever none runs, and the run can be continued until each
task has printed its line. -/
theorem testdelay_stops (small : e.size < 2 ^ 31)
    (reachable : Program.Reachable e (testdelay args) .taskmain n) :
    (∀ a stop, Program.enabled e (testdelay args) n a →
      Program.step e (testdelay args) n a = .error stop →
        stop = .halt (.taskexitall 0) ∧ n.out.Perm (expected args) ∨ MallocFails n.rt a stop ∨
          stop = .halt .pollError ∧ ∃ env, a = .dispatch env ∧ env.poll = .error) ∧
      (n.rt.taskrunning = none → Program.Waiting n) ∧
      ∃ n' choice, Reaches (Program.system e (testdelay args) .taskmain) anyAction n n' ∧
        Program.enabled e (testdelay args) n' (.go choice) ∧
        Program.step e (testdelay args) n' (.go choice) = .error (.halt (.taskexitall 0)) ∧
        n'.out.Perm (expected args) :=
  ⟨fun _ _ => reachable_stops small reachable, reachable_waiting small reachable,
    reachable_ends small reachable⟩

theorem testdelay_stops_one : ∃ n : State Code String, n.out = ["x", "y", line 0] ∧
    Program.step (Bytes.littleEndian 8) (testdelay (w := 64) [0]) n (.go {}) =
      .error (.halt (.taskexitall 0)) ∧
    (∀ a stop, Program.enabled (Bytes.littleEndian 8) (testdelay (w := 64) [0]) n a →
      Program.step (Bytes.littleEndian 8) (testdelay (w := 64) [0]) n a = .error stop →
        stop = .halt (.taskexitall 0) ∧ n.out.Perm (expected [0]) ∨ MallocFails n.rt a stop ∨
          stop = .halt .pollError ∧ ∃ env, a = .dispatch env ∧ env.poll = .error) ∧
      (n.rt.taskrunning = none → Program.Waiting n) ∧
      ∃ n' choice, Reaches (Program.system (Bytes.littleEndian 8) (testdelay (w := 64) [0])
          .taskmain) anyAction n n' ∧
        Program.enabled (Bytes.littleEndian 8) (testdelay (w := 64) [0]) n' (.go choice) ∧
        Program.step (Bytes.littleEndian 8) (testdelay (w := 64) [0]) n' (.go choice) =
          .error (.halt (.taskexitall 0)) ∧ n'.out.Perm (expected [0]) := by
  obtain ⟨n, printed, reachable, isEnabled, stopped⟩ := oneTask_ends
  exact ⟨n, printed, stopped, testdelay_stops (by decide) reachable⟩

end

end Testdelay

end Libtask
