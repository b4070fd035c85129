import Libtask.Primes
import Libtask.ProgramProgress

/-!
# `primes.c` prints the primes

With enough memory every run of the program ends with all primes up to `goal` printed, whatever the
order in which its tasks run.
-/

namespace Libtask

namespace Primes

open Function (update)
open Kahn (Cmd)
open Program (MallocFails State Stop)
open Sieve (prime prime_prime)

section
variable {w : Nat} {g : Globals} {n n' : Net w} {main : TaskPtr} {t : Nat → TaskPtr}
variable {c : Nat → ChanPtr} {m i k : Nat} {l : Code}

/-! ## The output -/

/-- What the program prints: the goal, and the primes up to it. -/
def expected (g : Globals) : List String :=
  text g ((List.range (g.goal.toNat + 1)).filter fun x => decide x.Prime)

theorem text_mono {ps qs : List Nat} (isPrefix : ps <+: qs) : text g ps <+: text g qs := by
  unfold text
  split
  · simpa using isPrefix.map _
  · exact List.prefix_refl _

theorem Running.out (running : Running g n) : n.out <+: expected g := by
  cases running with
  | begins _ _ begins =>
      generalize n.chans = chans, n.out = out at begins
      cases begins with
      | taskmain => exact List.nil_prefix
      | chancreate => exact text_mono List.nil_prefix
      | taskcreate => exact text_mono List.nil_prefix
  | pipeline pipeline =>
      obtain ⟨l, done, -, -, out, below, -⟩ := pipeline.starting
      rw [out]
      exact text_mono (Sieve.primes_initial fun k inside => by have := below k inside; omega)

/-- A prime above the goal comes when all primes up to the goal are printed. -/
theorem Pipeline.out (pipeline : Pipeline g n main t c m i) (ordered : Kahn.Ordered n)
    {ch : ChanPtr} {p : Int} (isAt : n.code (t m) = some (.received ch p))
    (greater : g.goal < p) : n.out = expected g := by
  obtain ⟨l, done, isAt', starting, out, below, -⟩ := pipeline.starting
  obtain rfl := Option.some.inj (isAt.symm.trans isAt')
  generalize isReceived : naturals (n.rcvd (c m)) = received at starting
  cases starting with
  | @received p =>
      have isPrime := pipeline.head ordered le_rfl isReceived
      have positive := (prime_prime m).pos
      rw [out, expected, Sieve.primes_upto (fun k inside => ?_) (k := m) (by omega), Nat.add_zero]
      have := below k inside
      omega

/-! ## No deadlock -/

theorem Pipeline.not_stuck {cap : ChanPtr → Nat} (pipeline : Pipeline g n main t c m i)
    (stuck : Kahn.Stuck cap (primes g) n) : False := by
  have busy (k : Nat) (inside : k ≤ m) :
      ∃ u l, ∃ v : BitVec w, ∃ next, n.code u = some l ∧ primes g l = .send (c k) v next := by
    induction k with
    | zero =>
        have waits := stuck.waits main _ pipeline.atMain
        by_cases isEnd : i = 2 ^ 31
        · simp [isEnd, primes] at waits
        · exact ⟨main, _, _, _, by rw [pipeline.atMain, if_neg isEnd], rfl⟩
    | succ k ih =>
        obtain ⟨u, l, v, next, sends, isSend⟩ := ih (by omega)
        obtain ⟨l', isAt, passing⟩ := pipeline.passing k inside
        generalize naturals (n.rcvd (c k)) = received, naturals (n.sent (c (k + 1))) = sent
          at passing
        cases passing with
        | loop => exact (stuck.apart u (t k) l _ (c k) v next _ sends isSend isAt rfl).elim
        | passes => exact ⟨t k, _, _, _, isAt, rfl⟩
  obtain ⟨u, l, v, next, sends, isSend⟩ := busy m le_rfl
  obtain ⟨l', done, isAt, starting, -⟩ := pipeline.starting
  have waits := stuck.waits (t m) l' isAt
  generalize naturals (n.rcvd (c m)) = received at starting
  cases starting with
  | primetask => exact stuck.apart u (t m) l _ (c m) v next _ sends isSend isAt rfl
  | @received p =>
      rcases received_cases (w := w) g (c m) p with ⟨-, isCmd⟩ | isCmd | isCmd <;>
        simp [isCmd] at waits
  | printed => simp [primes] at waits
  | made => simp [primes] at waits

theorem Running.not_stuck {cap : ChanPtr → Nat} (running : Running g n)
    (stuck : Kahn.Stuck cap (primes g) n) : False := by
  cases running with
  | pipeline pipeline => exact pipeline.not_stuck stuck
  | begins main l begins code _ =>
      have waits := stuck.waits main l (by simp [code])
      generalize n.chans = chans, n.out = out at begins
      cases begins <;> simp [primes] at waits

/-! ## The length of a run -/

theorem length_text_le (g : Globals) (ps : List Nat) : (text g ps).length ≤ ps.length + 1 := by
  unfold text
  split <;> simp

theorem Pipeline.traffic_le (pipeline : Pipeline g n main t c m i) (ordered : Kahn.Ordered n)
    (ch : ChanPtr) : n.traffic ch ≤ 2 * i := by
  by_cases isStage : ∃ k ≤ m, ch = c k
  · obtain ⟨k, inside, rfl⟩ := isStage
    have sent := ((pipeline.cascade ordered).sent_reaches k (by omega)).length_le
    have received := (ordered (c k)).length_le
    have few : (Sieve.survivors k (i - 2)).length ≤ i - 2 :=
      (List.length_filter_le _ _).trans (by simp)
    simp only [naturals, List.length_map] at sent
    simp only [Kahn.Net.traffic]
    omega
  · obtain ⟨noSent, noRcvd⟩ := pipeline.unused ch fun k inside same => isStage ⟨k, inside, same⟩
    simp [Kahn.Net.traffic, noSent, noRcvd]

theorem Pipeline.steps_le {steps : Nat} {tasks : Finset TaskPtr} {used : Finset ChanPtr}
    (pipeline : Pipeline g n main t c m i) (ordered : Kahn.Ordered n)
    (accounts : Kahn.Accounts n steps tasks used) :
    steps ≤ (m + 1) * (2 * i) + 3 * (m + 2) := by
  have fewUsed : used.card ≤ m + 1 := by
    have stages : used ⊆ (Finset.range (m + 1)).image c := by
      intro ch member
      have busy := (accounts.busy ch).mp member
      by_contra noStage
      have noStage : ∀ k ≤ m, ch ≠ c k := fun k inside same => noStage
        (Finset.mem_image.mpr ⟨k, Finset.mem_range.mpr (by omega), same.symm⟩)
      simp [Kahn.Net.traffic, pipeline.unused ch noStage] at busy
    simpa using (Finset.card_le_card stages).trans Finset.card_image_le
  have fewTasks : tasks.card ≤ m + 2 := by
    have stages : tasks ⊆ insert main ((Finset.range (m + 1)).image t) := by
      intro u member
      obtain ⟨l, isAt⟩ := Option.ne_none_iff_exists'.mp ((accounts.started u).mp member)
      rcases pipeline.only u l isAt with rfl | ⟨k, inside, rfl⟩
      · exact Finset.mem_insert_self ..
      · exact Finset.mem_insert_of_mem
          (Finset.mem_image.mpr ⟨k, Finset.mem_range.mpr (by omega), rfl⟩)
    have images : ((Finset.range (m + 1)).image t).card ≤ m + 1 := by
      simpa using Finset.card_image_le (s := Finset.range (m + 1)) (f := t)
    have := (Finset.card_le_card stages).trans (Finset.card_insert_le _ _)
    omega
  obtain ⟨l, done, -, starting, out, -, fewChans⟩ := pipeline.starting
  have isDone : done ≤ 1 := by
    generalize naturals (n.rcvd (c m)) = received at starting
    cases starting <;> omega
  have isSpare : l.spare ≤ 1 := by cases l <;> simp [Code.spare]
  have printed := length_text_le g ((List.range (m + done)).map prime)
  rw [← out, List.length_map, List.length_range] at printed
  have traffic := (Potential.sum_le_mul used (pipeline.traffic_le ordered)).trans
    (Nat.mul_le_mul_right _ fewUsed)
  have := accounts.count
  omega

theorem Begins.steps_le {steps : Nat} {tasks : Finset TaskPtr} {used : Finset ChanPtr}
    (begins : Begins g l n.chans n.out) (code : n.code = update (fun _ => none) main (some l))
    (empty : ∀ ch, n.sent ch = [] ∧ n.rcvd ch = [])
    (accounts : Kahn.Accounts n steps tasks used) : steps ≤ 2 := by
  have noTraffic : used.sum n.traffic = 0 :=
    Finset.sum_eq_zero fun ch _ => by simp [Kahn.Net.traffic, empty ch]
  have oneTask : tasks.card ≤ 1 := by
    refine Finset.card_le_one.mpr fun u isTask v isTask' => ?_
    have isMain {x : TaskPtr} (member : x ∈ tasks) : x = main := by
      by_contra other
      exact (accounts.started x).mp member (by simp [code, other])
    rw [isMain isTask, isMain isTask']
  have lengths : n.chans.length ≤ 1 ∧ n.out.length ≤ 1 := by
    generalize n.chans = chans, n.out = out at begins
    have := length_text_le g []
    cases begins <;> simp_all
  have := accounts.count
  omega

end

/-! ## Runs -/

section
variable {w : Nat} {g : Globals} {e : Bytes.Encoding (BitVec w)} {n : State Code String}

/-- `unsigned long` has at least 32 bits, and `chancreate` can compute the size of a channel. -/
structure Sizes (w : Nat) (g : Globals) (e : Bytes.Encoding (BitVec w)) : Prop where
  wide : 32 ≤ w
  buffer : g.buffer < 2 ^ 31
  elemsize : e.size < 2 ^ 31
  area : g.buffer * e.size < 2 ^ 31

theorem primes_create {l : Code} {size : Nat} {next : ChanPtr → Code}
    (isCreate : primes (w := w) g l = .create size next) : size = g.buffer := by
  cases l with
  | received c p =>
      rcases received_cases (w := w) g c p with ⟨-, isCmd⟩ | isCmd | isCmd <;>
        rw [isCmd] at isCreate <;> cases isCreate
      rfl
  | chancreate => exact (Cmd.create.inj isCreate).1.symm
  | printed c p => exact (Cmd.create.inj isCreate).1.symm
  | _ => cases isCreate

theorem primes_fits (sizes : Sizes w g e) : Program.Fits e (primes g) := by
  intro l size next isCreate
  rw [primes_create isCreate]
  exact ⟨sizes.buffer, sizes.elemsize, sizes.area⟩

theorem reachable_running (sizes : Sizes w g e)
    (reachable : Program.Reachable e (primes g) .taskmain n) :
    Running g (n.net e (primes g)) ∧ Kahn.Ordered (n.net e (primes g)) := by
  obtain ⟨-, main, steps, runs⟩ := Program.reachable_refines (primes_fits sizes) reachable
  apply runs.invariant fun n => Running g n ∧ Kahn.Ordered n
  · exact ⟨.begins main .taskmain .taskmain rfl fun ch => ⟨rfl, rfl⟩, fun ch => List.prefix_refl _⟩
  · intro n n' ⟨running, ordered⟩ stepped
    exact ⟨running_step sizes.wide running ordered stepped, stepped.ordered ordered⟩

/-- What has been printed is a part of the primes up to the goal. -/
theorem primes_print (sizes : Sizes w g e)
    (reachable : Program.Reachable e (primes g) .taskmain n) : n.out <+: expected g :=
  (reachable_running sizes reachable).1.out

/-- How many primes there are up to the goal. -/
def primeCount (g : Globals) : Nat := Nat.count Nat.Prime (g.goal.toNat + 1)

/-- How far the main task can be ahead, as each channel and each `primetask` holds some numbers that
are not printed. -/
noncomputable def lead (g : Globals) : Nat :=
  prime (primeCount g + (primeCount g + 1) * (g.buffer + 1))

/-- There are no more `primetask`s with a successor than primes to print. -/
theorem Pipeline.le_primeCount {n : Net w} {main : TaskPtr} {t : Nat → TaskPtr}
    {c : Nat → ChanPtr} {m i : Nat} (pipeline : Pipeline g n main t c m i) : m ≤ primeCount g := by
  obtain ⟨l, done, -, -, -, below, -⟩ := pipeline.starting
  exact Sieve.le_count fun k inside => by have := below k (by omega); omega

/-- The main task sends no number from `lead` on. -/
theorem Pipeline.le_lead {main : TaskPtr} {t : Nat → TaskPtr} {c : Nat → ChanPtr} {m i : Nat}
    (sizes : Sizes w g e) (reachable : Program.Reachable e (primes g) .taskmain n)
    (pipeline : Pipeline g (n.net e (primes g)) main t c m i) : i ≤ lead g := by
  have fits := primes_fits sizes
  have wired := (Program.reachable_refines fits reachable).1
  have ordered := (reachable_running sizes reachable).2
  have inFlight (k : Nat) (inside : k < m + 1) :
      (naturals ((n.net e (primes g)).sent (c k))).length ≤
        (naturals ((n.net e (primes g)).rcvd (c k))).length + g.buffer := by
    have known := pipeline.known k (by omega)
    obtain ⟨values, isLength, sent⟩ := wired.buffered known
    obtain ⟨l, next, isCreate⟩ := Program.reachable_bufsize fits reachable (c k) known
    have filled := (reachable_fifo wired.reachable known (wired.channels _ known).1).filled
    rw [primes_create isCreate] at filled
    simp only [naturals, sent, List.length_append, List.length_map]
    omega
  obtain ⟨l, done, -, starting, -⟩ := pipeline.starting
  have few : (naturals ((n.net e (primes g)).rcvd (c m))).length ≤ 1 := by
    generalize naturals ((n.net e (primes g)).rcvd (c m)) = received at starting
    cases starting <;> simp
  have ahead := (pipeline.cascade ordered).source_le inFlight few
  have stages := pipeline.le_primeCount
  have bounds := pipeline.bounds
  calc i = i - 2 + 2 := by omega
    _ ≤ prime (m + (m + 1) * (g.buffer + 1)) := ahead
    _ ≤ lead g := by
        refine Nat.nth_monotone Nat.infinite_setOfPred_prime (Nat.add_le_add stages ?_)
        exact Nat.mul_le_mul_right _ (by omega)

/-! ## The end of a run -/

theorem primes_halt {l : Code} {status : Int} (isHalt : primes (w := w) g l = .halt status) :
    status = 0 ∧ ∃ c p, l = .received c p ∧ g.goal < p := by
  cases l with
  | received c p =>
      rcases received_cases (w := w) g c p with ⟨greater, isCmd⟩ | isCmd | isCmd <;>
        rw [isCmd] at isHalt <;> cases isHalt
      exact ⟨rfl, c, p, rfl, greater⟩
  | _ => cases isHalt

theorem primes_undefined {l : Code} (isUndefined : primes (w := w) g l = .undefined) :
    l = .undefined := by
  cases l with
  | received c p =>
      rcases received_cases (w := w) g c p with ⟨-, isCmd⟩ | isCmd | isCmd <;>
        rw [isCmd] at isUndefined <;> cases isUndefined
  | undefined => rfl
  | _ => cases isUndefined

theorem primes_pauseless (l : Code) (ms : Nat) (next : Code) :
    primes (w := w) g l ≠ .pause ms next := by
  intro isPause
  cases l with
  | received c p =>
      rcases received_cases (w := w) g c p with ⟨-, isCmd⟩ | isCmd | isCmd <;>
        rw [isCmd] at isPause <;> cases isPause
  | _ => cases isPause

theorem primes_exitless (l : Code) : primes (w := w) g l ≠ .exit := by
  intro isExit
  cases l with
  | received c p =>
      rcases received_cases (w := w) g c p with ⟨-, isCmd⟩ | isCmd | isCmd <;>
        rw [isCmd] at isExit <;> cases isExit
  | _ => cases isExit

/-- Only the main task can come to undefined behaviour, when `i` overflows. -/
theorem Running.overflow {n : Net w} {u : TaskPtr} (running : Running g n)
    (isAt : n.code u = some .undefined) :
    ∃ main t c m, Pipeline g n main t c m (2 ^ 31) := by
  cases running with
  | begins main l begins code _ =>
      have isMain : u = main := by
        by_contra other
        simp [code, other] at isAt
      generalize n.chans = chans, n.out = out at begins
      cases begins <;> simp [code, isMain] at isAt
  | @pipeline main t c m i pipeline =>
      rcases pipeline.only u _ isAt with rfl | ⟨k, inside, rfl⟩
      · have isMain := Option.some.inj (isAt.symm.trans pipeline.atMain)
        by_cases isEnd : i = 2 ^ 31
        · exact ⟨_, t, c, m, isEnd ▸ pipeline⟩
        · rw [if_neg isEnd] at isMain
          cases isMain
      · rcases inside.lt_or_eq with before | rfl
        · obtain ⟨l, isAt', passing⟩ := pipeline.passing k before
          obtain rfl := Option.some.inj (isAt.symm.trans isAt')
          cases passing
        · obtain ⟨l, done, isAt', starting, -⟩ := pipeline.starting
          obtain rfl := Option.some.inj (isAt.symm.trans isAt')
          cases starting

/-- A task that has received a prime above the goal is the last one. -/
theorem Running.exits {n : Net w} {u : TaskPtr} {ch : ChanPtr} {p : Int} (running : Running g n)
    (ordered : Kahn.Ordered n) (isAt : n.code u = some (.received ch p)) (greater : g.goal < p) :
    n.out = expected g := by
  cases running with
  | begins main l begins code _ =>
      have isMain : u = main := by
        by_contra other
        simp [code, other] at isAt
      generalize n.chans = chans, n.out = out at begins
      cases begins <;> simp [code, isMain] at isAt
  | @pipeline main t c m i pipeline =>
      rcases pipeline.only u _ isAt with rfl | ⟨k, inside, rfl⟩
      · have isMain := Option.some.inj (isAt.symm.trans pipeline.atMain)
        split at isMain <;> cases isMain
      · rcases inside.lt_or_eq with before | rfl
        · obtain ⟨l, isAt', passing⟩ := pipeline.passing k before
          obtain rfl := Option.some.inj (isAt.symm.trans isAt')
          cases passing
        · exact pipeline.out ordered isAt greater

/-- The turns of a run with fresh memory in each one, where the scheduler runs in `switches`. -/
def turnsOf (switches : List Nat) (length : Nat) : List Program.Act :=
  (List.range length).map fun i =>
    if i ∈ switches then .dispatch {}
    else .go { task := some (100 + i), chan := some (200 + i), val := 1000 + 8 * i,
               array := 5000 + i }

def upTo2 : Globals := { goal := 2 }

theorem upTo2_sizes : Sizes 64 upTo2 (Bytes.littleEndian 8) :=
  ⟨by decide, by decide, by decide, by decide⟩

/-- The ends of a run of any program that this one can come to. -/
theorem reachable_stops (sizes : Sizes w g e)
    (reachable : Program.Reachable e (primes g) .taskmain n) {a : Program.Act}
    {stop : Stop} (ends : Program.Ends e (primes g) n a stop) :
    stop = .halt (.taskexitall 0) ∧ n.out = expected g ∨ MallocFails n.rt a stop ∨
      stop = .undefined ∧ 2 ^ 31 ≤ lead g := by
  have fits := primes_fits sizes
  obtain ⟨running, ordered⟩ := reachable_running sizes reachable
  cases ends with
  | undefined isRunning isUndefined =>
      obtain rfl := primes_undefined isUndefined
      obtain ⟨main, t, c, m, pipeline⟩ := running.overflow (Program.running_code isRunning)
      exact Or.inr (Or.inr ⟨rfl, pipeline.le_lead sizes reachable⟩)
  | taskexitall isRunning isHalt =>
      obtain ⟨rfl, c, p, rfl, greater⟩ := primes_halt isHalt
      exact Or.inl ⟨rfl, running.exits ordered (Program.running_code isRunning) greater⟩
  | taskcreate _ _ fails => exact Or.inr (Or.inl (.taskcreate fails))
  | chancreate _ _ fails => exact Or.inr (Or.inl (.chancreate fails))
  | poll started _ =>
      rw [Program.reachable_pauseless fits primes_pauseless reachable] at started
      cases started
  | taskexitval gone =>
      obtain ⟨main, l, isAt⟩ : ∃ main l, (n.net e (primes g)).code main = some l := by
        cases running with
        | begins main l _ code _ => exact ⟨main, l, by simp [code]⟩
        | pipeline pipeline => exact ⟨_, _, pipeline.atMain⟩
      simp [State.net, gone] at isAt
  | noRunnable _ stuck => exact (running.not_stuck stuck).elim

/-- A run ends when all primes up to the goal are printed, or when memory cannot be had.  Only if
the goal leaves too little room in an `int`, it can come to an overflow. -/
theorem primes_stop (sizes : Sizes w g e)
    (reachable : Program.Reachable e (primes g) .taskmain n) {a : Program.Act}
    {stop : Stop} (isEnabled : Program.enabled e (primes g) n a)
    (stopped : Program.step e (primes g) n a = .error stop) :
    stop = .halt (.taskexitall 0) ∧ n.out = expected g ∨ MallocFails n.rt a stop ∨
      stop = .undefined ∧ 2 ^ 31 ≤ lead g :=
  reachable_stops sizes reachable
    (Program.step_ends (Program.reachable_refines (primes_fits sizes) reachable).1
      (Program.reachable_ordinary (primes_fits sizes) reachable) isEnabled stopped)

/-- The second `primetask` has received 3. -/
theorem primes_stop_two : ∃ n : State Code String, n.out = ["goal=2\n", "2\n"] ∧
    Program.step (Bytes.littleEndian 8) (primes upTo2) n (.go {}) =
      .error (.halt (.taskexitall 0)) ∧
    (Stop.halt (.taskexitall 0) = .halt (.taskexitall 0) ∧ n.out = expected upTo2 ∨
      MallocFails n.rt (.go {}) (.halt (.taskexitall 0)) ∨
      Stop.halt (.taskexitall 0) = .undefined ∧ 2 ^ 31 ≤ lead upTo2) := by
  obtain ⟨n, printed, reachable, isEnabled, stopped⟩ :=
    Program.exists_program_stop (Bytes.littleEndian 8) (primes upTo2) .taskmain
      (turnsOf [0, 6, 13, 20, 22, 30] 32) (.go {}) (.halt (.taskexitall 0))
      (fun n => decide (n.out = ["goal=2\n", "2\n"])) (by decide +kernel)
  exact ⟨n, of_decide_eq_true printed, stopped,
    primes_stop upTo2_sizes reachable isEnabled stopped⟩

/-- A bound for the number of turns in a run. -/
noncomputable def turns (g : Globals) : Nat :=
  20 * ((primeCount g + 1) * (2 * lead g) + 3 * (primeCount g + 2)) + 7

theorem reachable_turns {k : Nat} (sizes : Sizes w g e)
    (reached : Transition.ReachableIn (Program.system e (primes g) .taskmain)
      Transition.anyAction k n) : k ≤ turns g := by
  have reachable : Program.Reachable e (primes g) .taskmain n := reached.reachable
  obtain ⟨running, ordered⟩ := reachable_running sizes reachable
  obtain ⟨m, moving⟩ := reached.exists_moving fun n => n.net e (primes g)
  obtain ⟨main, steps, runs, count⟩ :=
    Program.reachable_count (primes_fits sizes) primes_pauseless moving
  obtain ⟨tasks, used, accounts⟩ := runs.accounts fun l ms next =>
    ⟨primes_pauseless l ms next, primes_exitless l⟩
  have few : steps ≤ (primeCount g + 1) * (2 * lead g) + 3 * (primeCount g + 2) := by
    cases running with
    | begins main l begins code empty =>
        have := begins.steps_le code empty accounts
        omega
    | @pipeline main t c m i pipeline =>
        have stages := pipeline.le_primeCount
        calc steps ≤ (m + 1) * (2 * i) + 3 * (m + 2) := pipeline.steps_le ordered accounts
          _ ≤ (primeCount g + 1) * (2 * lead g) + 3 * (primeCount g + 2) :=
              Nat.add_le_add (Nat.mul_le_mul (by omega)
                (Nat.mul_le_mul_left 2 (pipeline.le_lead sizes reachable))) (by omega)
  have := count.turns_le
  unfold turns
  omega

theorem Running.known {n : Net w} (running : Running g n) {u : TaskPtr} {l : Code} {c : ChanPtr}
    {op : Op} (isAt : n.code u = some l)
    (isOp : Program.operation (primes (w := w) g l) = some (c, op)) : c ∈ n.chans := by
  cases running with
  | begins main l' begins code _ =>
      have isMain : u = main := by
        by_contra other
        simp [code, other] at isAt
      obtain rfl : l' = l := by simpa [code, isMain] using isAt
      generalize n.chans = chans, n.out = out at begins
      cases begins <;> cases isOp
  | @pipeline main t c m i pipeline =>
      rcases pipeline.only u _ isAt with rfl | ⟨k, inside, rfl⟩
      · have isMain := Option.some.inj (isAt.symm.trans pipeline.atMain)
        split at isMain
        · rw [isMain] at isOp
          cases isOp
        · rw [isMain] at isOp
          cases isOp
          exact pipeline.known 0 (by omega)
      · rcases inside.lt_or_eq with before | rfl
        · obtain ⟨l', isAt', passing⟩ := pipeline.passing k before
          obtain rfl := Option.some.inj (isAt.symm.trans isAt')
          generalize naturals (n.rcvd (c k)) = received, naturals (n.sent (c (k + 1))) = sent
            at passing
          cases passing <;> cases isOp
          · exact pipeline.known k (by omega)
          · exact pipeline.known (k + 1) (by omega)
        · obtain ⟨l', done, isAt', starting, -⟩ := pipeline.starting
          obtain rfl := Option.some.inj (isAt.symm.trans isAt')
          generalize naturals (n.rcvd (c k)) = received at starting
          cases starting with
          | primetask =>
              cases isOp
              exact pipeline.known k le_rfl
          | @received p =>
              rcases received_cases (w := w) g (c k) p with ⟨-, isCmd⟩ | isCmd | isCmd <;>
                rw [isCmd] at isOp <;> cases isOp
          | printed => cases isOp
          | made => cases isOp

/-- With enough memory, and a goal that leaves some room in an `int`, the program prints all
primes up to the goal and exits: what is printed is always a part of them, a run cannot go on
forever, and it can go on until they are all printed. -/
theorem primes_correct {k : Nat} (sizes : Sizes w g e) (room : lead g < 2 ^ 31)
    (reached : Transition.ReachableIn (Program.system e (primes g) .taskmain)
      Transition.anyAction k n) :
    n.out <+: expected g ∧ k ≤ turns g ∧ ∃ a, Program.enabled e (primes g) n a ∧
      ∀ stop, Program.step e (primes g) n a = .error stop →
        stop = .halt (.taskexitall 0) ∧ n.out = expected g := by
  have reachable : Program.Reachable e (primes g) .taskmain n := reached.reachable
  have running := (reachable_running sizes reachable).1
  refine ⟨primes_print sizes reachable, reachable_turns sizes reached, ?_⟩
  obtain ⟨a, isEnabled, supplied⟩ := Program.program_continues (primes_fits sizes) reachable
    (fun t l c op isAt isOp => running.known isAt isOp)
    (fun l ms next isPause => absurd isPause (primes_pauseless l ms next))
  refine ⟨a, isEnabled, fun stop stopped => ?_⟩
  have ends := Program.step_ends (Program.reachable_refines (primes_fits sizes) reachable).1
    (Program.reachable_ordinary (primes_fits sizes) reachable) isEnabled stopped
  rcases reachable_stops sizes reachable ends with done | fails | ⟨-, overflows⟩
  · exact done
  · exact absurd fails (supplied stop)
  · exact absurd overflows (by omega)

theorem primes_correct_two : ∃ (n : State Code String) (k : Nat), lead upTo2 < 2 ^ 31 ∧
    n.out = ["goal=2\n", "2\n"] ∧ n.out <+: expected upTo2 ∧ k ≤ turns upTo2 ∧
    ∃ a, Program.enabled (Bytes.littleEndian 8) (primes upTo2) n a ∧
      ∀ stop, Program.step (Bytes.littleEndian 8) (primes upTo2) n a = .error stop →
        stop = .halt (.taskexitall 0) ∧ n.out = expected upTo2 := by
  have room : lead upTo2 < 2 ^ 31 := by
    have isCount : primeCount upTo2 = 1 := by decide
    have isPrime : prime 3 = 7 := Nat.nth_prime_three_eq_seven
    rw [lead, isCount, show 1 + (1 + 1) * (upTo2.buffer + 1) = 3 from rfl, isPrime]
    decide
  obtain ⟨n, checked, reachable⟩ :=
    Program.exists_program_run (Bytes.littleEndian 8) (primes upTo2) .taskmain
      (turnsOf [0, 6, 13, 20, 22, 30] 32) (fun n => decide (n.out = ["goal=2\n", "2\n"]))
      (by decide +kernel)
  obtain ⟨k, reached⟩ := reachable.exists_count
  exact ⟨n, k, room, of_decide_eq_true checked, primes_correct upTo2_sizes room reached⟩

end

end Primes

end Libtask
