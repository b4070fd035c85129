import Libtask.ProgramEnds
import Mathlib.Data.Fintype.EquivFin

/-!
# Programs that go on

A run of a program makes progress as a run of its processes, and can always go on until it stops.
-/

namespace Libtask

namespace Program

open Transition (anyAction)

variable {V L O : Type} {e : Bytes.Encoding V} {program : Program V L O} {n : State L O}

theorem rank_le (program : Program V L O) (n : State L O) :
    n.rank program ≤ 6 * n.rt.alltask.toFinset.card + 1 := by
  have weights : n.weights program ≤ n.rt.alltask.toFinset.card * 3 :=
    Potential.sum_le_mul _ (weight_le_three program n)
  unfold State.rank
  split <;> omega

/-- The turns of a run in which some process moves. -/
abbrev ReachableMoving (e : Bytes.Encoding V) (program : Program V L O) (start : L) :
    Nat → Nat → State L O → Prop :=
  Transition.ReachableMoving (system e program start) anyAction fun n => n.net e program

/-- What `k` turns come to, `m` of which move the processes, in `steps` steps. -/
structure Count (program : Program V L O) (k m steps : Nat) (n : State L O) : Prop where
  least : m ≤ steps
  most : steps ≤ 2 * m
  ranked : k ≤ 14 * steps + n.rank program
  tasks : n.rt.alltask.toFinset.card ≤ steps + 1

/-- One more turn, with the steps of its burst. -/
theorem Count.turn {k m m' steps more : Nat} {n n' : State L O}
    (count : Count program k m steps n)
    (moved : m' = m ∧ more = 0 ∨ m' = m + 1 ∧ 1 ≤ more ∧ more ≤ 2)
    (ranked : n.rank program + 1 ≤ n'.rank program + 14 * more)
    (tasks : n'.rt.alltask.toFinset.card ≤ n.rt.alltask.toFinset.card + more) :
    Count program (k + 1) m' (steps + more) n' := by
  obtain ⟨least, most, ranked', tasks'⟩ := count
  exact ⟨by omega, by omega, by omega, by omega⟩

/-- The steps of the processes in a run. -/
theorem reachable_count {start : L} {k m : Nat} (fits : Fits e program)
    (never : ∀ l ms next, program l ≠ .pause ms next)
    (reached : ReachableMoving e program start k m n) :
    ∃ t steps, Kahn.Runs program (Kahn.Net.start t start) steps (n.net e program) ∧
      Count program k m steps n := by
  have burst {k m : Nat} {n n' : State L O} {a : Act}
      (before : ReachableMoving e program start k m n) (isEnabled : enabled e program n a)
      (stepped : step e program n a = .ok n') :
      ∃ more, Kahn.Burst program (n.net e program) more (n'.net e program) ∧
        n'.rt.alltask.toFinset.card ≤ n.rt.alltask.toFinset.card + more ∧
        n.rank program + 1 ≤ n'.rank program + 14 * more := by
    have wired := (reachable_refines fits before.reachable).1
    obtain ⟨-, more, burst, tasks, ranked⟩ := step_refines fits wired isEnabled stepped
    exact ⟨more, burst, tasks, ranked (reachable_pauseless fits never before.reachable)⟩
  induction reached with
  | @init n init =>
      obtain ⟨-, t, same⟩ := init_wired init
      refine ⟨t, 0, by rw [same]; exact .refl, by omega, by omega, by omega, ?_⟩
      obtain ⟨rendez, mem, t, started, -, -⟩ := init
      obtain ⟨id, created⟩ := main_ok started
      obtain ⟨t₀, lists, cap, -, -, -, -, rtEq, -⟩ := taskcreate_ok created
      simp [rtEq, St.zero]
  | rest before isEnabled _ stepped same ih =>
      obtain ⟨t, steps, runs, count⟩ := ih
      obtain ⟨more, burst, tasks, ranked⟩ := burst before isEnabled stepped
      have none := ((burst.cases never).resolve_right fun moved => moved.1 same).2
      exact ⟨t, _, runs.trans burst.runs, count.turn (Or.inl ⟨rfl, none⟩) ranked tasks⟩
  | move before isEnabled _ stepped changed ih =>
      obtain ⟨t, steps, runs, count⟩ := ih
      obtain ⟨more, burst, tasks, ranked⟩ := burst before isEnabled stepped
      have some := ((burst.cases never).resolve_left fun rests => changed rests.1).2
      exact ⟨t, _, runs.trans burst.runs, count.turn (Or.inr ⟨rfl, some⟩) ranked tasks⟩

/-- The turns are bounded by the steps of the processes. -/
theorem Count.turns_le {k m steps : Nat} (count : Count program k m steps n) :
    k ≤ 20 * steps + 7 := by
  have := rank_le program n
  obtain ⟨-, -, ranked, tasks⟩ := count
  omega

/-- The library does not spin: if no task calls `taskdelay`, then in a run of `k` turns, `m` of
which move the processes, these make one or two steps in each of the `m`, and `k` is bounded by the
number of steps. -/
theorem program_advances {start : L} {k m : Nat} (fits : Fits e program)
    (never : ∀ l ms next, program l ≠ .pause ms next)
    (reached : ReachableMoving e program start k m n) :
    ∃ t steps, Kahn.Runs program (Kahn.Net.start t start) steps (n.net e program) ∧
      m ≤ steps ∧ steps ≤ 2 * m ∧ k ≤ 20 * steps + 7 := by
  obtain ⟨t, steps, runs, count⟩ := reachable_count fits never reached
  exact ⟨t, steps, runs, count.least, count.most, count.turns_le⟩

theorem relay_advances : ∃ (n : State Relay (BitVec 64)) (k m : Nat), n.out = [7] ∧
    ∃ t steps, Kahn.Runs relay (Kahn.Net.start t .start) steps
      (n.net (Bytes.littleEndian 8) relay) ∧ m ≤ steps ∧ steps ≤ 2 * m ∧
      k ≤ 20 * steps + 7 := by
  obtain ⟨n, checked, reachable⟩ :=
    exists_program_run (Bytes.littleEndian 8) relay .start
      [.dispatch {}, .go { chan := some 7 }, .go { task := some 2 },
        .go { val := 100, array := 20 }, .dispatch {}, .go { val := 200 },
        .go { array := 30 }, .go {}, .go {}, .dispatch {}, .go {}, .go {}]
      (fun n => decide (n.out = [7])) (by decide +kernel)
  obtain ⟨k, counted⟩ := reachable.exists_count
  obtain ⟨m, reached⟩ := counted.exists_moving fun n => n.net (Bytes.littleEndian 8) relay
  refine ⟨n, k, m, of_decide_eq_true checked, program_advances relay_fits ?_ reached⟩
  intro l ms next isPause
  cases l <;> cases isPause

/-! ## A turn that has its memory -/

/-- With `choice` there is memory for everything that a turn of `t` can ask for. -/
structure Supplies (n : State L O) (size : Nat) (t : TaskPtr) (choice : Choice) : Prop where
  task : ∃ u, choice.task = { malloc := some u } ∧ u ∉ n.rt.alltask
  chan : ∃ c, choice.chan = some c ∧ c ∉ n.rt.chans
  val : n.valfree size t choice.val = true
  array : altfree n.rt choice.array = true
  now : choice.now = 0

theorem exists_apart (size : Nat) (places : List Nat) :
    ∃ p, ∀ q ∈ places, Bytes.Apart size p q := by
  induction places with
  | nil => exact ⟨0, by simp⟩
  | cons q places ih =>
      refine ⟨(q :: places).sum + size, fun q' member => Or.inr ?_⟩
      have := List.single_le_sum (fun _ _ => Nat.zero_le _) q' member
      omega

theorem exists_supplies (n : State L O) (size : Nat) (t : TaskPtr) :
    ∃ choice, Supplies n size t choice := by
  obtain ⟨u, isNew⟩ := Infinite.exists_notMem_finset n.rt.alltask.toFinset
  obtain ⟨c, isFresh⟩ := Infinite.exists_notMem_finset n.rt.chans.toFinset
  obtain ⟨array, isFree⟩ := Infinite.exists_notMem_finset
    (n.rt.alltask.filterMap fun u => (n.rt.task u).pc.altbase).toFinset
  obtain ⟨val, isApart⟩ := exists_apart size (n.rt.alltask.filterMap n.val)
  refine ⟨{ task := some u, chan := some c, val, array }, ⟨u, rfl, by simpa using isNew⟩,
    ⟨c, rfl, by simpa using isFresh⟩, ?_, ?_, rfl⟩
  · refine List.all_eq_true.mpr fun v live => ?_
    simp only [Bool.or_eq_true, decide_eq_true_eq, Option.all_eq_true]
    refine Or.inr fun f hasFrame q isVal => isApart q (List.mem_filterMap.mpr ⟨v, live, ?_⟩)
    simp [State.val, hasFrame, isVal]
  · refine List.all_eq_true.mpr fun v live => decide_eq_true fun isBase => ?_
    simp only [List.mem_toFinset, List.mem_filterMap, not_exists, not_and] at isFree
    exact isFree v live isBase

section
variable {choice : Choice} {t : TaskPtr} {l : L} {turn : Turn L O}

theorem Supplies.not_fails {size : Nat} (supplies : Supplies n size t choice) (stop : Stop) :
    ¬MallocFails n.rt (.go choice) stop := by
  obtain ⟨u, isTask, -⟩ := supplies.task
  obtain ⟨c, isChan, -⟩ := supplies.chan
  rintro (fails | noChan)
  · rw [isTask] at fails
    rcases fails with noTask | ⟨-, noRoom⟩
    · cases noTask
    · cases noRoom
  · cases isChan.symm.trans noChan

/-- A task can carry out the command that it is at. -/
theorem Supplies.run_legal (supplies : Supplies n e.size t choice)
    (known : ∀ c op, operation (program l) = some (c, op) → c ∈ n.rt.chans)
    (short : ∀ ms next, program l = .pause ms next → ms < 2 ^ 32)
    (isTurn : Program.turn e program n.rt.mem choice (.run l) = some turn) :
    turn.legal e n t = true := by
  obtain ⟨⟨u, isTask, isNew⟩, ⟨c, isChan, isFresh⟩, valfree, isFree, isNow⟩ := supplies
  simp only [Turn.legal, Bool.and_eq_true, Option.all_eq_true]
  simp only [Program.turn] at isTurn
  cases isCmd : program l with
  | send ch v next =>
      rw [isCmd] at isTurn
      obtain rfl := Option.some.inj isTurn
      simp [legal, Frame.val, valfree]
  | recv ch next =>
      have known := known ch .chanrcv (by rw [isCmd]; rfl)
      rw [isCmd] at isTurn
      obtain rfl := Option.some.inj isTurn
      simp [chanop, legal, Frame.val, valfree, known, isFree]
  | create size next =>
      rw [isCmd] at isTurn
      obtain rfl := Option.some.inj isTurn
      simp [legal, Frame.val, isChan, isFresh]
  | spawn child next =>
      rw [isCmd] at isTurn
      obtain rfl := Option.some.inj isTurn
      simp [legal, Frame.val, freshTask, isTask, isNew]
  | print o next =>
      rw [isCmd] at isTurn
      obtain rfl := Option.some.inj isTurn
      simp [Frame.val]
  | pause ms next =>
      have short := short ms next isCmd
      rw [isCmd] at isTurn
      obtain rfl := Option.some.inj isTurn
      simpa [legal, Frame.val, freshTask, isTask, isNew, isNow] using short
  | exit =>
      rw [isCmd] at isTurn
      obtain rfl := Option.some.inj isTurn
      simp [legal]
  | halt status =>
      rw [isCmd] at isTurn
      obtain rfl := Option.some.inj isTurn
      simp [legal]
  | undefined =>
      rw [isCmd] at isTurn
      cases isTurn

/-- The variable of a task lies apart from those of the others. -/
theorem Wired.valfree (wired : Wired e program n) {f : Frame L} {val : Nat}
    (hasFrame : n.frame t = some f) (isVal : f.val = some val) :
    n.valfree e.size t val = true := by
  refine List.all_eq_true.mpr fun v _ => ?_
  simp only [Bool.or_eq_true, decide_eq_true_eq, Option.all_eq_true]
  refine or_iff_not_imp_left.mpr fun other f' hasFrame' q isVal' => ?_
  exact wired.apart t v val q other (by simp [State.val, hasFrame, isVal])
    (by simp [State.val, hasFrame', isVal'])

/-- A task can go on from wherever it is. -/
theorem Supplies.legal {f : Frame L} (supplies : Supplies n e.size t choice)
    (wired : Wired e program n) (hasFrame : n.frame t = some f)
    (known : ∀ l c op, (n.net e program).code t = some l →
      operation (program l) = some (c, op) → c ∈ n.rt.chans)
    (short : ∀ l ms next, program l = .pause ms next → ms < 2 ^ 32)
    (isTurn : Program.turn e program n.rt.mem choice f = some turn) :
    turn.legal e n t = true := by
  have codeEq : (n.net e program).code t = _ := net_code hasFrame
  cases f with
  | run l => exact supplies.run_legal (fun c op => known l c op codeEq) (short l) isTurn
  | stored l val =>
      simp only [Program.turn, Option.map_eq_some_iff] at isTurn
      obtain ⟨⟨ch, op⟩, hasOp, rfl⟩ := isTurn
      have isOp : op = .chansnd ∨ op = .chanrcv := by
        rcases operation_cases hasOp with ⟨_, _, -, rfl⟩ | ⟨_, -, rfl⟩ <;> simp
      have known := known l ch op codeEq hasOp
      have isOwn := wired.valfree hasFrame rfl
      simp [Turn.legal, chanop, Libtask.legal, Frame.val, isOwn, known, supplies.array, isOp]
  | calling l val array =>
      simp only [Program.turn, Option.some.injEq] at isTurn
      subst isTurn
      simp [Turn.legal, Frame.val]

end

/-- A run can go on: some turn is possible, and memory for it can be had. -/
theorem program_continues {start : L} (fits : Fits e program)
    (reachable : Reachable e program start n)
    (known : ∀ t l c op, (n.net e program).code t = some l →
      operation (program l) = some (c, op) → c ∈ n.rt.chans)
    (short : ∀ l ms next, program l = .pause ms next → ms < 2 ^ 32) :
    ∃ a, enabled e program n a ∧ ∀ stop, ¬MallocFails n.rt a stop := by
  have wired := (reachable_refines fits reachable).1
  cases running : n.rt.taskrunning with
  | none =>
      refine ⟨.dispatch {}, ⟨running, by decide, by decide⟩, fun _ fails => ?_⟩
      cases fails
  | some t =>
      have live := (((reachable_inv wired.reachable).listed t).running running).1
      obtain ⟨r, isPc⟩ := running_user wired.reachable t running
      obtain ⟨f, hasFrame⟩ : ∃ f, n.frame t = some f := by
        refine Option.ne_none_iff_exists'.mp fun noFrame => ?_
        have isFdtask := wired.others t live noFrame
        rw [isPc] at isFdtask
        cases isFdtask
      obtain ⟨choice, supplies⟩ := exists_supplies n e.size t
      refine ⟨.go choice, ?_, supplies.not_fails⟩
      have isRunning : n.running = some (t, f) := by simp [State.running, running, hasFrame]
      simp only [enabled, isRunning, Option.any_some, Option.all_eq_true]
      exact fun turn isTurn => supplies.legal wired hasFrame (known t) short isTurn

end Program

end Libtask
