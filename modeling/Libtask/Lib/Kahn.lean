import Libtask.Lib.Potential
import Mathlib.Data.List.Basic
import Mathlib.Data.List.Infix
import Mathlib.Logic.Function.Basic

/-!
# Process networks

Sequential processes that communicate over channels.  Each channel is an unbounded FIFO, kept as
the values that were sent and those that were received, so a send never waits and a receive waits
for a value.  A step is one of one process: a value that goes from one process to another takes
two steps.
-/

namespace Kahn

open Function (update update_self update_of_ne)

/-- What a process does next, and the local states behind it. -/
inductive Cmd (γ V L O : Type) where
  | send (c : γ) (v : V) (next : L)
  | recv (c : γ) (next : V → L)
  /-- make a channel; its `size` does not matter here -/
  | create (size : Nat) (next : γ → L)
  | spawn (child next : L)
  | print (o : O) (next : L)
  | pause (time : Nat) (next : L)
  | exit
  /-- the end of all processes -/
  | halt (status : Int)
  | undefined

/-- The local states of the processes, and the histories of the channels. -/
@[ext] structure Net (τ γ V L O : Type) where
  code : τ → Option L
  chans : List γ
  sent : γ → List V
  rcvd : γ → List V
  out : List O

variable {τ γ V L O : Type} [DecidableEq τ] [DecidableEq γ]

namespace Net

/-- The one process `t` starts in `l`. -/
def start (t : τ) (l : L) : Net τ γ V L O where
  code := update (fun _ => none) t (some l)
  chans := []
  sent := fun _ => []
  rcvd := fun _ => []
  out := []

variable (n : Net τ γ V L O)

def goTo (t : τ) (l : L) : Net τ γ V L O := { n with code := update n.code t (some l) }

def put (c : γ) (v : V) : Net τ γ V L O := { n with sent := update n.sent c (n.sent c ++ [v]) }

def take (c : γ) (v : V) : Net τ γ V L O := { n with rcvd := update n.rcvd c (n.rcvd c ++ [v]) }

end Net

/-- The process at `t` carries out a command. -/
inductive Moves (n : Net τ γ V L O) (t : τ) : Cmd γ V L O → Net τ γ V L O → Prop where
  | send {c : γ} {v : V} {next : L} : Moves n t (.send c v next) ((n.put c v).goTo t next)
  | recv {c : γ} {v : V} {next : V → L} : n.rcvd c ++ [v] <+: n.sent c →
      Moves n t (.recv c next) ((n.take c v).goTo t (next v))
  | create {c : γ} {size : Nat} {next : γ → L} : c ∉ n.chans →
      Moves n t (.create size next) ({ n with chans := c :: n.chans }.goTo t (next c))
  | spawn {u : τ} {child next : L} : n.code u = none →
      Moves n t (.spawn child next) ((n.goTo t next).goTo u child)
  | print {o : O} {next : L} :
      Moves n t (.print o next) ({ n with out := n.out ++ [o] }.goTo t next)
  | pause {time : Nat} {next : L} : Moves n t (.pause time next) (n.goTo t next)
  | exit : Moves n t .exit { n with code := update n.code t none }

/-- One step of one process. -/
def Step (program : L → Cmd γ V L O) (n n' : Net τ γ V L O) : Prop :=
  ∃ t l, n.code t = some l ∧ Moves n t (program l) n'

/-- What `k` steps of the processes lead to, in any order. -/
inductive Runs (program : L → Cmd γ V L O) (n : Net τ γ V L O) : Nat → Net τ γ V L O → Prop where
  | refl : Runs program n 0 n
  | step {k : Nat} {n₁ n₂ : Net τ γ V L O} : Runs program n k n₁ → Step program n₁ n₂ →
      Runs program n (k + 1) n₂

variable {program : L → Cmd γ V L O} {n n' : Net τ γ V L O}

theorem Moves.step {t : τ} {l : L} {cmd : Cmd γ V L O} (moves : Moves n t cmd n')
    (isAt : n.code t = some l) (isCmd : program l = cmd) : Step program n n' :=
  ⟨t, l, isAt, isCmd ▸ moves⟩

theorem Runs.trans {j k : Nat} {n₁ n₂ : Net τ γ V L O} (first : Runs program n j n₁)
    (second : Runs program n₁ k n₂) : Runs program n (j + k) n₂ := by
  induction second with
  | refl => exact first
  | step _ stepped ih => exact ih.step stepped

/-- What holds of a state and is preserved by each step holds from there on. -/
theorem Runs.invariant {k : Nat} (inv : Net τ γ V L O → Prop) (runs : Runs program n k n')
    (now : inv n) (preserved : ∀ n n', inv n → Step program n n' → inv n') : inv n' := by
  induction runs with
  | refl => exact now
  | step _ stepped ih => exact preserved _ _ ih stepped

theorem Step.out (stepped : Step program n n') :
    n'.out = n.out ∨ ∃ o, n'.out = n.out ++ [o] := by
  obtain ⟨t, l, -, moves⟩ := stepped
  generalize program l = cmd at moves
  cases moves with
  | @print o next => exact Or.inr ⟨o, rfl⟩
  | _ => exact Or.inl rfl

/-- What holds of the output in each state holds of each part that was printed first. -/
theorem Runs.out_invariant {k : Nat} (inv : Net τ γ V L O → Prop) (holds : List O → Prop)
    (runs : Runs program n k n') (now : inv n) (empty : n.out = [])
    (preserved : ∀ n n', inv n → Step program n n' → inv n') (outs : ∀ n, inv n → holds n.out) :
    ∀ printed, printed <+: n'.out → holds printed := by
  induction runs with
  | refl =>
      intro printed isPrefix
      obtain rfl := List.prefix_nil.mp (empty ▸ isPrefix)
      exact empty ▸ outs n now
  | @step k n₁ n₂ before stepped ih =>
      intro printed isPrefix
      have after := (before.step stepped).invariant inv now preserved
      rcases stepped.out with same | ⟨o, added⟩
      · exact ih printed (same ▸ isPrefix)
      · rcases List.prefix_concat_iff.mp (added ▸ isPrefix) with whole | earlier
        · exact whole ▸ added ▸ outs n₂ after
        · exact ih printed earlier

/-- No process can go on where channel `c` holds at most `cap c` values: each one waits for a value
of an empty channel, or for room in a full one, and no two wait for each other. -/
structure Stuck (cap : γ → Nat) (program : L → Cmd γ V L O) (n : Net τ γ V L O) : Prop where
  waits : ∀ t l, n.code t = some l →
    (∃ c next, program l = .recv c next ∧ n.sent c = n.rcvd c) ∨
      ∃ c v next, program l = .send c v next ∧
        (n.sent c).length = (n.rcvd c).length + cap c
  apart : ∀ t u l k c v next next', n.code t = some l → program l = .send c v next →
    n.code u = some k → program k = .recv c next' → False

/-- A value that goes from one process to another, which waits for it. -/
theorem exchange_runs {a b : τ} {l k next : L} {c : γ} {v x : V} {next' : V → L}
    (sends : n.code a = some l) (isSend : program l = .send c v next)
    (receives : n.code b = some k) (isRecv : program k = .recv c next') (apart : b ≠ a)
    (oldest : n.rcvd c ++ [x] <+: n.sent c ++ [v]) :
    Runs program n 2 ((((n.put c v).goTo a next).take c x).goTo b (next' x)) := by
  have first : Runs program n 1 ((n.put c v).goTo a next) :=
    .step .refl (Moves.send.step sends isSend)
  refine first.step ((Moves.recv ?_).step ?_ isRecv)
  · simpa [Net.put, Net.goTo] using oldest
  · simpa [Net.put, Net.goTo, apart] using receives

/-- What the processes do at one go: nothing, one step, or an exchange of a value. -/
inductive Burst (program : L → Cmd γ V L O) (n : Net τ γ V L O) :
    Nat → Net τ γ V L O → Prop where
  | rest : Burst program n 0 n
  | step {n' : Net τ γ V L O} : Step program n n' → Burst program n 1 n'
  | exchange {a b : τ} {l k next : L} {c : γ} {v x : V} {next' : V → L} :
      n.code a = some l → program l = .send c v next → n.code b = some k →
      program k = .recv c next' → b ≠ a → n.rcvd c ++ [x] <+: n.sent c ++ [v] →
      Burst program n 2 ((((n.put c v).goTo a next).take c x).goTo b (next' x))

theorem Burst.runs {steps : Nat} (burst : Burst program n steps n') :
    Runs program n steps n' := by
  cases burst with
  | rest => exact .refl
  | step stepped => exact .step .refl stepped
  | exchange sends isSend receives isRecv apart oldest =>
      exact exchange_runs sends isSend receives isRecv apart oldest

/-- A step of a process changes the state, but for a pause. -/
theorem Step.ne (stepped : Step program n n')
    (never : ∀ l time next, program l ≠ .pause time next) : n' ≠ n := by
  intro same
  obtain ⟨t, l, isAt, moves⟩ := stepped
  have never := never l
  generalize program l = cmd at moves never
  cases moves with
  | @send c v next => simpa [Net.put, Net.goTo] using congrFun (congrArg Net.sent same) c
  | @recv c v next more => simpa [Net.take, Net.goTo] using congrFun (congrArg Net.rcvd same) c
  | create fresh => simpa [Net.goTo] using congrArg Net.chans same
  | @spawn u child next free => simpa [Net.goTo, free] using congrFun (congrArg Net.code same) u
  | print => simpa [Net.goTo] using congrArg Net.out same
  | pause => exact never _ _ rfl
  | exit => simpa [isAt] using congrFun (congrArg Net.code same) t

/-- A burst changes the state if there is a step in it, and has at most two. -/
theorem Burst.cases {steps : Nat} (burst : Burst program n steps n')
    (never : ∀ l time next, program l ≠ .pause time next) :
    n' = n ∧ steps = 0 ∨ n' ≠ n ∧ 1 ≤ steps ∧ steps ≤ 2 := by
  cases burst with
  | rest => exact Or.inl ⟨rfl, rfl⟩
  | step stepped => exact Or.inr ⟨stepped.ne never, by omega, by omega⟩
  | @exchange a b l k next c v x next' =>
      refine Or.inr ⟨fun same => ?_, by omega, by omega⟩
      simpa [Net.put, Net.take, Net.goTo] using congrFun (congrArg Net.sent same) c

/-- What was received was sent before, and in this order. -/
def Ordered (n : Net τ γ V L O) : Prop := ∀ c, n.rcvd c <+: n.sent c

theorem Step.ordered (stepped : Step program n n') (ordered : Ordered n) : Ordered n' := by
  intro c'
  obtain ⟨t, l, -, moves⟩ := stepped
  generalize program l = cmd at moves
  cases moves with
  | @send c v next =>
      by_cases same : c' = c
      · subst same
        simpa [Net.put, Net.goTo] using (ordered c').trans (List.prefix_append _ _)
      · simpa [Net.put, Net.goTo, same] using ordered c'
  | @recv c v next more =>
      by_cases same : c' = c
      · subst same
        simpa [Net.take, Net.goTo] using more
      · simpa [Net.take, Net.goTo, same] using ordered c'
  | _ => exact ordered c'

/-! ## How many steps -/

/-- The values that went into a channel and came out of it. -/
def Net.traffic (n : Net τ γ V L O) (c : γ) : Nat := (n.sent c).length + (n.rcvd c).length

/-- The steps of a run from one process, where no process pauses or exits: `tasks` are the
processes, and `used` the channels with some traffic. -/
structure Accounts (n : Net τ γ V L O) (steps : Nat) (tasks : Finset τ) (used : Finset γ) :
    Prop where
  started : ∀ t, t ∈ tasks ↔ n.code t ≠ none
  busy : ∀ c, c ∈ used ↔ n.traffic c ≠ 0
  count : steps + 1 = used.sum n.traffic + n.chans.length + n.out.length + tasks.card

omit [DecidableEq γ] in
theorem Accounts.goTo {steps : Nat} {tasks : Finset τ} {used : Finset γ} {t : τ} {l next : L}
    (accounts : Accounts n steps tasks used) (isAt : n.code t = some l) :
    Accounts (n.goTo t next) steps tasks used := by
  refine ⟨fun u => ?_, accounts.busy, accounts.count⟩
  rw [accounts.started]
  by_cases isSelf : u = t
  · simp [Net.goTo, isSelf, isAt]
  · simp [Net.goTo, isSelf]

omit [DecidableEq τ] in
theorem Accounts.passes {steps : Nat} {tasks : Finset τ} {used : Finset γ} {c : γ}
    (accounts : Accounts n steps tasks used) (code : n'.code = n.code)
    (chans : n'.chans = n.chans) (out : n'.out = n.out) (here : n'.traffic c = n.traffic c + 1)
    (elsewhere : ∀ c', c' ≠ c → n'.traffic c' = n.traffic c') :
    Accounts n' (steps + 1) tasks (insert c used) := by
  refine ⟨fun t => by rw [code, accounts.started], fun c' => ?_, ?_⟩
  · rw [Finset.mem_insert, accounts.busy]
    by_cases same : c' = c
    · simp [same, here]
    · simp [same, elsewhere c' same]
  · have uncounted (unused : c ∉ used) : n.traffic c = 0 := by
      simpa [accounts.busy] using unused
    have := accounts.count
    rw [Potential.sum_insert_succ used here elsewhere uncounted, chans, out]
    omega

/-- A run is as long as what it leaves in the state. -/
theorem Runs.accounts {t : τ} {l : L} {steps : Nat}
    (never : ∀ l time next, program l ≠ .pause time next ∧ program l ≠ .exit)
    (runs : Runs program (Net.start t l : Net τ γ V L O) steps n) :
    ∃ tasks used, Accounts n steps tasks used := by
  induction runs with
  | refl =>
      refine ⟨{t}, ∅, fun u => ?_, fun c => ?_, ?_⟩
      · by_cases same : u = t <;> simp [Net.start, same]
      · simp [Net.traffic, Net.start]
      · simp [Net.start]
  | @step k n₁ n₂ before stepped ih =>
      obtain ⟨tasks, used, accounts⟩ := ih
      obtain ⟨u, l', isAt, moves⟩ := stepped
      have never := never l'
      generalize program l' = cmd at moves never
      cases moves with
      | @send c v next =>
          refine ⟨tasks, insert c used, Accounts.goTo ?_ (by exact isAt)⟩
          refine accounts.passes rfl rfl rfl ?_ fun c' other => ?_
          · simp only [Net.traffic, Net.put, update_self, List.length_append,
              List.length_singleton]
            omega
          · simp [Net.traffic, Net.put, other]
      | @recv c v next more =>
          refine ⟨tasks, insert c used, Accounts.goTo ?_ (by exact isAt)⟩
          refine accounts.passes rfl rfl rfl ?_ fun c' other => ?_
          · simp only [Net.traffic, Net.take, update_self, List.length_append,
              List.length_singleton]
            omega
          · simp [Net.traffic, Net.take, other]
      | create fresh =>
          refine ⟨tasks, used, Accounts.goTo ?_ (by exact isAt)⟩
          refine ⟨accounts.started, accounts.busy, ?_⟩
          have := accounts.count
          simp only [List.length_cons]
          change _ = used.sum n₁.traffic + _ + _ + _
          omega
      | @spawn v child next fresh =>
          refine ⟨insert v tasks, used, fun x => ?_, accounts.busy, ?_⟩
          · rw [Finset.mem_insert, accounts.started]
            by_cases isNew : x = v
            · simp [Net.goTo, isNew]
            · by_cases isSelf : x = u
              · subst isSelf
                simp [Net.goTo, isNew, isAt]
              · simp [Net.goTo, isNew, isSelf]
          · have := accounts.count
            rw [Finset.card_insert_of_notMem (by simp [accounts.started, fresh])]
            change _ = used.sum n₁.traffic + n₁.chans.length + n₁.out.length + _
            omega
      | print =>
          refine ⟨tasks, used, Accounts.goTo ?_ (by exact isAt)⟩
          refine ⟨accounts.started, accounts.busy, ?_⟩
          have := accounts.count
          simp only [List.length_append, List.length_singleton]
          change _ = used.sum n₁.traffic + _ + _ + _
          omega
      | pause => exact absurd rfl (never _ _).1
      | exit => exact absurd rfl (never 0 l').2

/-- Each command leaves less to do, where `fuel` says how much is left. -/
def Decreases (fuel : L → Nat) (program : L → Cmd γ V L O) : Prop :=
  ∀ l, match program l with
  | .send _ _ next | .print _ next | .pause _ next => fuel next < fuel l
  | .recv _ next => ∀ v, fuel (next v) < fuel l
  | .create _ next => ∀ c, fuel (next c) < fuel l
  | .spawn child next => fuel child + fuel next < fuel l
  | .exit => 0 < fuel l
  | .halt _ | .undefined => True

/-- What process `t` has left to do. -/
def Net.left (fuel : L → Nat) (n : Net τ γ V L O) (t : τ) : Nat := (n.code t).elim 0 fuel

/-- The processes `tasks`, among which are all that are there, have at most `k` left to do. -/
def Left (fuel : L → Nat) (n : Net τ γ V L O) (tasks : Finset τ) (k : Nat) : Prop :=
  (∀ t, t ∉ tasks → n.code t = none) ∧ tasks.sum (n.left fuel) ≤ k

omit [DecidableEq γ] in
/-- One process goes on to `l`, or ends. -/
theorem Left.update {fuel : L → Nat} {tasks : Finset τ} {k j : Nat} {t : τ} {l : Option L}
    (left : Left fuel n tasks k) (code : n'.code = update n.code t l)
    (less : k + l.elim 0 fuel ≤ j + n.left fuel t) : Left fuel n' (insert t tasks) j := by
  have here : n'.left fuel t = l.elim 0 fuel := by rw [Net.left, code, update_self]
  have elsewhere (u : τ) (other : u ≠ t) : n'.left fuel u = n.left fuel u := by
    rw [Net.left, code, update_of_ne other, Net.left]
  refine ⟨fun u unlisted => ?_, ?_⟩
  · rw [Finset.mem_insert, not_or] at unlisted
    rw [code, update_of_ne unlisted.1]
    exact left.1 u unlisted.2
  · have sum := Potential.sum_insert_add _ _ tasks elsewhere fun unlisted => by
      rw [Net.left, left.1 t unlisted]
      rfl
    have := left.2
    omega

theorem Step.left {fuel : L → Nat} {tasks : Finset τ} {k : Nat}
    (decreases : Decreases fuel program) (stepped : Step program n n')
    (left : Left fuel n tasks k) : ∃ tasks' j, Left fuel n' tasks' j ∧ j + 1 ≤ k := by
  obtain ⟨t, l, isAt, moves⟩ := stepped
  have here : n.left fuel t = fuel l := by simp [Net.left, isAt]
  have few : fuel l ≤ k := by
    have listed : t ∈ tasks := by
      by_contra unlisted
      cases isAt.symm.trans (left.1 t unlisted)
    exact here ▸ (Finset.single_le_sum (fun _ _ => Nat.zero_le _) listed).trans left.2
  have goes {m : Net τ γ V L O} {l' : Option L} (code : m.code = update n.code t l')
      (less : l'.elim 0 fuel < fuel l) : ∃ tasks' j, Left fuel m tasks' j ∧ j + 1 ≤ k :=
    ⟨_, k + l'.elim 0 fuel - fuel l, left.update code (by omega), by omega⟩
  have decreases := decreases l
  generalize program l = cmd at moves decreases
  cases moves with
  | send | print | pause => exact goes rfl decreases
  | recv more => exact goes rfl (decreases _)
  | create fresh => exact goes rfl (decreases _)
  | @spawn u child next free =>
      have different : u ≠ t := by
        rintro rfl
        cases isAt.symm.trans free
      have unborn : (n.goTo t next).left fuel u = 0 := by
        simp [Net.left, Net.goTo, different, free]
      have first : Left fuel (n.goTo t next) (insert t tasks) (k + fuel next - fuel l) :=
        left.update rfl (by simp only [Option.elim_some]; omega)
      exact ⟨_, k + fuel next - fuel l + fuel child,
        first.update rfl (by simp only [Option.elim_some]; omega), by omega⟩
  | exit => exact goes rfl decreases

/-- A run has at most as many steps as its first process has to do. -/
theorem Runs.steps_le {fuel : L → Nat} {t : τ} {l : L} {steps : Nat}
    (decreases : Decreases fuel program)
    (runs : Runs program (Net.start t l : Net τ γ V L O) steps n) : steps ≤ fuel l := by
  suffices counted : ∃ tasks k, Left fuel n tasks k ∧ steps + k ≤ fuel l by
    obtain ⟨-, k, -, few⟩ := counted
    omega
  induction runs with
  | refl =>
      refine ⟨{t}, fuel l, ⟨fun u unlisted => ?_, ?_⟩, by omega⟩
      · simp [Net.start, Finset.notMem_singleton.mp unlisted]
      · simp [Net.left, Net.start]
  | step before stepped ih =>
      obtain ⟨tasks, k, left, few⟩ := ih
      obtain ⟨tasks', j, left', less⟩ := stepped.left decreases left
      exact ⟨tasks', j, left', by omega⟩

end Kahn
