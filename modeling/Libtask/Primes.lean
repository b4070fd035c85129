import Libtask.Lib.Sieve
import Libtask.Program

/-!
# `primes.c`

The main task sends the numbers from 2 on, and each `primetask` sends on what its prime does not
divide.  The program prints the primes up to `goal`.
-/

namespace Libtask

namespace Primes

open Function (update update_self update_of_ne)
open Sieve (Cascade mem_survivors prime prime_prime)

/-- The global variables, which the tasks only read. -/
structure Globals where
  quiet : Int := 0
  goal : Int := 100
  buffer : Nat := 0

/-- Where a task is in `taskmain` or `primetask`, with its local variables. -/
inductive Code where
  /-- before `printf` in `taskmain` -/
  | taskmain
  | chancreate
  | taskcreate (c : ChanPtr)
  /-- at `chansendul` in `taskmain` -/
  | sends (c : ChanPtr) (i : Int)
  /-- after an overflow of `i`, or a division that has no result -/
  | undefined
  /-- at the first `chanrecvul` of `primetask` -/
  | primetask (c : ChanPtr)
  | received (c : ChanPtr) (p : Int)
  | printed (c : ChanPtr) (p : Int)
  /-- at `taskcreate` in `primetask` -/
  | made (c : ChanPtr) (p : Int) (nc : ChanPtr)
  /-- at `chanrecvul` in the loop of `primetask` -/
  | loop (c : ChanPtr) (p : Int) (nc : ChanPtr)
  /-- at `chansendul` in `primetask` -/
  | passes (c : ChanPtr) (p : Int) (nc : ChanPtr) (i : Int)
  deriving DecidableEq

section
variable {w : Nat} (g : Globals)

/-- From `int` to `unsigned long`. -/
def toUlong (w : Nat) (i : Int) : BitVec w := BitVec.ofInt w i

/-- From `unsigned long` to `int`. -/
def toInt (v : BitVec w) : Int := (v.setWidth 32).toInt

/-- `i++` -/
def increment (c : ChanPtr) (i : Int) : Code :=
  if i = 2 ^ 31 - 1 then .undefined else .sends c (i + 1)

/-- `if(i%p)` -/
def test (c : ChanPtr) (p : Int) (nc : ChanPtr) (i : Int) : Code :=
  if p = 0 ∨ i = -2 ^ 31 ∧ p = -1 then .undefined
  else if i.tmod p ≠ 0 then .passes c p nc i
  else .loop c p nc

def goalLine : String := "goal=" ++ toString g.goal ++ "\n"

def line (p : Int) : String := toString p ++ "\n"

def primes : Program (BitVec w) Code String
  | .taskmain => .print (goalLine g) .chancreate
  | .chancreate => .create g.buffer .taskcreate
  | .taskcreate c => .spawn (.primetask c) (.sends c 2)
  | .sends c i => .send c (toUlong w i) (increment c i)
  | .undefined => .undefined
  | .primetask c => .recv c fun v => .received c (toInt v)
  | .received c p =>
      if g.goal < p then .halt 0
      else if g.quiet = 0 then .print (line p) (.printed c p)
      else .create g.buffer (.made c p)
  | .printed c p => .create g.buffer (.made c p)
  | .made c p nc => .spawn (.primetask nc) (.loop c p nc)
  | .loop c p nc => .recv c fun v => test c p nc (toInt v)
  | .passes c p nc i => .send nc (toUlong w i) (.loop c p nc)

end

/-- What a `primetask` does with its first number. -/
theorem received_cases {w : Nat} (g : Globals) (c : ChanPtr) (p : Int) :
    g.goal < p ∧ primes (w := w) g (.received c p) = .halt 0 ∨
      primes (w := w) g (.received c p) = .print (line p) (.printed c p) ∨
      primes (w := w) g (.received c p) = .create g.buffer (.made c p) := by
  simp only [primes]
  split
  · exact Or.inl ⟨‹_›, rfl⟩
  · split
    · exact Or.inr (Or.inl rfl)
    · exact Or.inr (Or.inr rfl)

/-! ## The invariant -/

section
variable {w : Nat}

/-- The network of the tasks. -/
abbrev Net (w : Nat) := Kahn.Net TaskPtr ChanPtr (BitVec w) Code String

def naturals (vs : List (BitVec w)) : List Nat := vs.map BitVec.toNat

/-- A `primetask` that has started the next one: what it has received, and what it has sent. -/
inductive Passing (c nc : ChanPtr) : Code → List Nat → List Nat → Prop where
  | loop {p : Nat} {rest : List Nat} :
      Passing c nc (.loop c p nc) (p :: rest) (rest.filter fun x => decide (¬p ∣ x))
  | passes {p i : Nat} {rest : List Nat} : ¬p ∣ i →
      Passing c nc (.passes c p nc i) (p :: (rest ++ [i]))
        (rest.filter fun x => decide (¬p ∣ x))

/-- The last `primetask`, which receives from `c m`: what it has received, and whether it is done
with its prime. -/
inductive Starting (g : Globals) (n : Net w) (c : Nat → ChanPtr) (m : Nat) :
    Code → List Nat → Nat → Prop where
  | primetask : Starting g n c m (.primetask (c m)) [] 0
  | received {p : Nat} : Starting g n c m (.received (c m) p) [p] 0
  | printed {p : Nat} : Starting g n c m (.printed (c m) p) [p] 1
  | made {p : Nat} {nc : ChanPtr} : nc ∈ n.chans → (∀ k ≤ m, c k ≠ nc) →
      Starting g n c m (.made (c m) p nc) [p] 1

/-- A channel that no task receives from yet. -/
def Code.spare : Code → Nat
  | .made _ _ _ => 1
  | _ => 0

/-- The text that was printed when the primes `ps` were. -/
def text (g : Globals) (ps : List Nat) : List String :=
  goalLine g :: if g.quiet = 0 then ps.map fun (p : Nat) => line p else []

/-- The main task `main` comes to send `i`, and the `primetask`s `t 0`, ..., `t m` receive from the
channels `c 0`, ..., `c m`. -/
structure Pipeline (g : Globals) (n : Net w) (main : TaskPtr) (t : Nat → TaskPtr)
    (c : Nat → ChanPtr) (m i : Nat) : Prop where
  atMain : n.code main = some (if i = 2 ^ 31 then .undefined else .sends (c 0) i)
  bounds : 2 ≤ i ∧ i ≤ 2 ^ 31
  source : naturals (n.sent (c 0)) = List.range' 2 (i - 2)
  passing : ∀ k < m, ∃ l, n.code (t k) = some l ∧
    Passing (c k) (c (k + 1)) l (naturals (n.rcvd (c k))) (naturals (n.sent (c (k + 1))))
  starting : ∃ l done, n.code (t m) = some l ∧
    Starting g n c m l (naturals (n.rcvd (c m))) done ∧
    n.out = text g ((List.range (m + done)).map prime) ∧ (∀ k < m + done, prime k ≤ g.goal) ∧
    n.chans.length = m + 1 + l.spare
  others : ∀ k ≤ m, t k ≠ main
  tasks : ∀ j ≤ m, ∀ k ≤ m, t j = t k → j = k
  chans : ∀ j ≤ m, ∀ k ≤ m, c j = c k → j = k
  known : ∀ k ≤ m, c k ∈ n.chans
  unused : ∀ ch, (∀ k ≤ m, ch ≠ c k) → n.sent ch = [] ∧ n.rcvd ch = []
  only : ∀ u l, n.code u = some l → u = main ∨ ∃ k ≤ m, u = t k

variable {g : Globals} {n n' : Net w} {main : TaskPtr} {t : Nat → TaskPtr} {c : Nat → ChanPtr}
variable {m i k : Nat} {l : Code}

theorem toNat_toUlong (wide : 32 ≤ w) {x : Nat} (small : x < 2 ^ 31) :
    (toUlong w x).toNat = x := by
  have : 2 ^ 31 ≤ 2 ^ w := Nat.pow_le_pow_right (by decide) (by omega)
  simp only [toUlong, BitVec.ofInt_natCast, BitVec.toNat_ofNat]
  exact Nat.mod_eq_of_lt (by omega)

theorem toInt_eq {v : BitVec w} (small : v.toNat < 2 ^ 31) : toInt v = v.toNat := by
  have isNat : (v.setWidth 32).toNat = v.toNat := by
    rw [BitVec.toNat_setWidth]
    exact Nat.mod_eq_of_lt (by omega)
  rw [toInt, BitVec.toInt_eq_toNat_of_lt (by omega), isNat]

theorem test_eq (c nc : ChanPtr) {p x : Nat} (positive : 0 < p) :
    test c p nc x = if p ∣ x then .loop c p nc else .passes c p nc x := by
  have isDefined : ¬((p : Int) = 0 ∨ (x : Int) = -2 ^ 31 ∧ (p : Int) = -1) := by omega
  have divides : (x : Int).tmod p = 0 ↔ p ∣ x := by
    rw [← Int.dvd_iff_tmod_eq_zero, Int.natCast_dvd_natCast]
  rw [test, if_neg isDefined]
  by_cases isMultiple : p ∣ x
  · rw [if_neg (by simpa using divides.mpr isMultiple), if_pos isMultiple]
  · rw [if_pos fun zero => isMultiple (divides.mp zero), if_neg isMultiple]

/-- One more entry in a sequence without repetitions. -/
theorem update_injective {α : Type} {f : Nat → α} {a : α}
    (injective : ∀ j ≤ m, ∀ k ≤ m, f j = f k → j = k) (isNew : ∀ k ≤ m, f k ≠ a) :
    ∀ j ≤ m + 1, ∀ k ≤ m + 1, update f (m + 1) a j = update f (m + 1) a k → j = k := by
  intro j insideJ k insideK same
  rcases insideJ.lt_or_eq with beforeJ | rfl <;> rcases insideK.lt_or_eq with beforeK | rfl
  · rw [update_of_ne (by omega), update_of_ne (by omega)] at same
    exact injective j (by omega) k (by omega) same
  · rw [update_of_ne (by omega), update_self] at same
    exact absurd same (isNew j (by omega))
  · rw [update_self, update_of_ne (by omega)] at same
    exact absurd same.symm (isNew k (by omega))
  · rfl

theorem Passing.cascade {c nc : ChanPtr} {l : Code} {received sent : List Nat}
    (passing : Passing c nc l received sent) : ∃ p rest pending, received = p :: rest ∧
      rest.filter (fun x => decide (¬p ∣ x)) = sent ++ pending ∧ pending.length ≤ 1 := by
  cases passing with
  | @loop p rest => exact ⟨p, rest, [], rfl, by simp, by simp⟩
  | @passes p i rest other => exact ⟨p, rest ++ [i], [i], rfl, by simp [other], by simp⟩

namespace Pipeline

/-- The pipeline is a sieve. -/
theorem cascade (pipeline : Pipeline g n main t c m i) (ordered : Kahn.Ordered n) :
    Cascade (fun k => naturals (n.rcvd (c k))) (fun k => naturals (n.sent (c k))) (m + 1)
      (i - 2) where
  source := pipeline.source
  order k _ := (ordered (c k)).map _
  stage k inside := by
    obtain ⟨l, -, passing⟩ := pipeline.passing k (by omega)
    exact passing.cascade

/-- The numbers that are sent have type `int`. -/
theorem small (pipeline : Pipeline g n main t c m i) (ordered : Kahn.Ordered n) (inside : k ≤ m)
    {v : BitVec w} (isSent : n.rcvd (c k) ++ [v] <+: n.sent (c k)) : v.toNat < 2 ^ 31 := by
  have reaches := (pipeline.cascade ordered).sent_reaches k (by omega)
  have member : v.toNat ∈ naturals (n.sent (c k)) :=
    List.mem_map_of_mem (isSent.subset (by simp))
  have := (mem_survivors.mp (reaches.subset member)).1
  have := pipeline.bounds
  omega

/-- The first number that a `primetask` receives. -/
theorem head (pipeline : Pipeline g n main t c m i) (ordered : Kahn.Ordered n) (inside : k ≤ m)
    {p : Nat} {rest : List Nat} (isHead : naturals (n.rcvd (c k)) = p :: rest) : p = prime k :=
  (pipeline.cascade ordered).head (k := k) (by omega) (by simp [isHead])

/-- A `primetask` that has started the next one goes on. -/
theorem passing_moves (pipeline : Pipeline g n main t c m i) (inside : k < m)
    (code : n'.code = update n.code (t k) (some l)) (chans : n'.chans = n.chans)
    (rcvd : ∀ ch, ch ≠ c k → n'.rcvd ch = n.rcvd ch)
    (sent : ∀ ch, ch ≠ c (k + 1) → n'.sent ch = n.sent ch) (out : n'.out = n.out)
    (passing : Passing (c k) (c (k + 1)) l (naturals (n'.rcvd (c k)))
      (naturals (n'.sent (c (k + 1))))) : Pipeline g n' main t c m i := by
  have apart {j k : Nat} (insideJ : j ≤ m) (insideK : k ≤ m) (other : j ≠ k) : c j ≠ c k :=
    fun same => other (pipeline.chans j insideJ k insideK same)
  have codeOf {j : Nat} (insideJ : j ≤ m) (other : j ≠ k) : n'.code (t j) = n.code (t j) := by
    rw [code, update_of_ne fun same => other (pipeline.tasks j insideJ k (by omega) same)]
  refine ⟨?_, pipeline.bounds, ?_, ?_, ?_, pipeline.others, pipeline.tasks, pipeline.chans,
    chans ▸ pipeline.known, ?_, ?_⟩
  · rw [code, update_of_ne (pipeline.others k (by omega)).symm]
    exact pipeline.atMain
  · rw [sent _ (apart (by omega) (by omega) (by omega))]
    exact pipeline.source
  · intro j insideJ
    by_cases isSelf : j = k
    · subst isSelf
      exact ⟨l, by rw [code, update_self], passing⟩
    · obtain ⟨l', isAt, passing'⟩ := pipeline.passing j insideJ
      refine ⟨l', (codeOf (by omega) isSelf).trans isAt, ?_⟩
      rwa [rcvd _ (apart (by omega) (by omega) isSelf),
        sent _ (apart (by omega) (by omega) (by omega))]
  · obtain ⟨l', done, isAt, starting, isOut, below, count⟩ := pipeline.starting
    refine ⟨l', done, (codeOf le_rfl (by omega)).trans isAt, ?_, out.trans isOut, below,
      chans ▸ count⟩
    rw [rcvd _ (apart le_rfl (by omega) (by omega))]
    generalize naturals (n.rcvd (c m)) = received at starting
    cases starting with
    | primetask => exact .primetask
    | received => exact .received
    | printed => exact .printed
    | made isChan other => exact .made (chans ▸ isChan) other
  · intro ch noStage
    rw [sent _ (noStage (k + 1) inside), rcvd _ (noStage k (by omega))]
    exact pipeline.unused ch noStage
  · intro u l' isAt
    by_cases isSelf : u = t k
    · exact Or.inr ⟨k, by omega, isSelf⟩
    · rw [code, update_of_ne isSelf] at isAt
      exact pipeline.only u l' isAt

/-- The last `primetask` goes on. -/
theorem starting_moves (done : Nat) (pipeline : Pipeline g n main t c m i)
    (code : n'.code = update n.code (t m) (some l)) (chans : n.chans ⊆ n'.chans)
    (rcvd : ∀ ch, ch ≠ c m → n'.rcvd ch = n.rcvd ch) (sent : n'.sent = n.sent)
    (starting : Starting g n' c m l (naturals (n'.rcvd (c m))) done)
    (out : n'.out = text g ((List.range (m + done)).map prime))
    (below : ∀ k < m + done, prime k ≤ g.goal) (count : n'.chans.length = m + 1 + l.spare) :
    Pipeline g n' main t c m i := by
  refine ⟨?_, pipeline.bounds, ?_, ?_,
    ⟨l, done, by rw [code, update_self], starting, out, below, count⟩, pipeline.others,
    pipeline.tasks, pipeline.chans,
    fun k inside => chans (pipeline.known k inside), ?_, ?_⟩
  · rw [code, update_of_ne (pipeline.others m le_rfl).symm]
    exact pipeline.atMain
  · rw [sent]
    exact pipeline.source
  · intro j inside
    obtain ⟨l', isAt, passing⟩ := pipeline.passing j inside
    refine ⟨l', ?_, ?_⟩
    · rwa [code, update_of_ne fun same =>
        inside.ne (pipeline.tasks j (by omega) m le_rfl same)]
    · rwa [rcvd _ fun same => inside.ne (pipeline.chans j (by omega) m le_rfl same), sent]
  · intro ch noStage
    rw [sent, rcvd _ (noStage m le_rfl)]
    exact pipeline.unused ch noStage
  · intro u l' isAt
    by_cases isSelf : u = t m
    · exact Or.inr ⟨m, le_rfl, isSelf⟩
    · rw [code, update_of_ne isSelf] at isAt
      exact pipeline.only u l' isAt

/-- The main task sends the next number. -/
theorem main_moves (wide : 32 ≤ w) (pipeline : Pipeline g n main t c m i) (more : i ≠ 2 ^ 31) :
    Pipeline g ((n.put (c 0) (toUlong w i)).goTo main (increment (c 0) i)) main t c m
      (i + 1) := by
  have bounds := pipeline.bounds
  have codeOf {j : Nat} (inside : j ≤ m) :
      ((n.put (c 0) (toUlong w i)).goTo main (increment (c 0) i)).code (t j) = n.code (t j) := by
    simp [Kahn.Net.goTo, Kahn.Net.put, pipeline.others j inside]
  have sentOf {ch : ChanPtr} (other : ch ≠ c 0) :
      ((n.put (c 0) (toUlong w i)).goTo main (increment (c 0) i)).sent ch = n.sent ch := by
    simp [Kahn.Net.goTo, Kahn.Net.put, other]
  refine ⟨?_, by omega, ?_, ?_, ?_, pipeline.others, pipeline.tasks, pipeline.chans,
    pipeline.known, ?_, ?_⟩
  · have isLast : (i : Int) = 2 ^ 31 - 1 ↔ i + 1 = 2 ^ 31 := by omega
    simp only [Kahn.Net.goTo, update_self, increment, isLast]
    rfl
  · have isNext : i + 1 - 2 = (i - 2) + 1 := by omega
    have value := toNat_toUlong wide (x := i) (by omega)
    rw [isNext, List.range'_1_concat, ← pipeline.source]
    simp [Kahn.Net.goTo, Kahn.Net.put, naturals, value]
    omega
  · intro j inside
    obtain ⟨l', isAt, passing⟩ := pipeline.passing j inside
    refine ⟨l', (codeOf (by omega)).trans isAt, ?_⟩
    rwa [sentOf fun same => by have := pipeline.chans (j + 1) inside 0 (by omega) same; omega]
  · obtain ⟨l', done, isAt, starting, rest⟩ := pipeline.starting
    refine ⟨l', done, (codeOf le_rfl).trans isAt, ?_, rest⟩
    change Starting g _ c m l' (naturals (n.rcvd (c m))) done
    generalize naturals (n.rcvd (c m)) = received at starting
    cases starting with
    | primetask => exact .primetask
    | received => exact .received
    | printed => exact .printed
    | made isChan other => exact .made isChan other
  · intro ch noStage
    rw [sentOf (noStage 0 (by omega))]
    exact pipeline.unused ch noStage
  · intro u l' isAt
    by_cases isMain : u = main
    · exact Or.inl isMain
    · simp only [Kahn.Net.goTo, Kahn.Net.put, update_of_ne isMain] at isAt
      exact pipeline.only u l' isAt

/-- The last `primetask` starts the next one. -/
theorem spawn_moves {p : Nat} {nc : ChanPtr} {u : TaskPtr} (pipeline : Pipeline g n main t c m i)
    (isAt : n.code (t m) = some (.made (c m) p nc)) (fresh : n.code u = none) :
    Pipeline g ((n.goTo (t m) (.loop (c m) p nc)).goTo u (.primetask nc)) main
      (update t (m + 1) u) (update c (m + 1) nc) (m + 1) i := by
  obtain ⟨l, done, isAt', starting, out, below, count⟩ := pipeline.starting
  obtain rfl := Option.some.inj (isAt.symm.trans isAt')
  obtain ⟨isHead, isChan, other, rfl⟩ : naturals (n.rcvd (c m)) = [p] ∧ nc ∈ n.chans ∧
      (∀ k ≤ m, c k ≠ nc) ∧ done = 1 := by
    generalize naturals (n.rcvd (c m)) = received at starting
    generalize isCode : Code.made (c m) p nc = l at starting
    cases starting with
    | @made p' _ isChan other =>
        obtain ⟨-, samePrime, rfl⟩ := Code.made.inj isCode
        obtain rfl : p = p' := Int.ofNat.inj samePrime
        exact ⟨rfl, isChan, other, rfl⟩
    | _ => cases isCode
  obtain ⟨noSent, noRcvd⟩ := pipeline.unused nc fun k inside => (other k inside).symm
  have notMain : u ≠ main := by
    rintro rfl
    simp [pipeline.atMain] at fresh
  have notStage {k : Nat} (inside : k ≤ m) : t k ≠ u := by
    rintro rfl
    rcases inside.lt_or_eq with before | rfl
    · obtain ⟨l, isAt, -⟩ := pipeline.passing k before
      simp [isAt] at fresh
    · simp [isAt] at fresh
  have tOf {k : Nat} (inside : k ≤ m) : update t (m + 1) u k = t k := update_of_ne (by omega) ..
  have cOf {k : Nat} (inside : k ≤ m) : update c (m + 1) nc k = c k := update_of_ne (by omega) ..
  have codeOf {v : TaskPtr} (notNew : v ≠ u) (notLast : v ≠ t m) :
      ((n.goTo (t m) (.loop (c m) p nc)).goTo u (.primetask nc)).code v = n.code v := by
    simp [Kahn.Net.goTo, notNew, notLast]
  refine ⟨?_, pipeline.bounds, ?_, ?_, ?_, ?_, ?_, ?_, ?_, ?_, ?_⟩
  · rw [codeOf notMain.symm (pipeline.others m le_rfl).symm, cOf (by omega)]
    exact pipeline.atMain
  · rw [cOf (by omega)]
    exact pipeline.source
  · intro k inside
    rw [tOf (by omega), cOf (by omega)]
    rcases (Nat.lt_succ_iff.mp inside).lt_or_eq with before | rfl
    · obtain ⟨l, isAt, passing⟩ := pipeline.passing k before
      refine ⟨l, ?_, by rwa [cOf (by omega)]⟩
      rwa [codeOf (notStage (by omega)) fun same =>
        before.ne (pipeline.tasks k (by omega) m le_rfl same)]
    · refine ⟨.loop (c k) p nc, by simp [Kahn.Net.goTo, notStage le_rfl], ?_⟩
      have noSent : naturals (n.sent nc) = [] := by simp [noSent, naturals]
      have passing : Passing (c k) nc (.loop (c k) p nc) [p] [] := .loop
      simpa [Kahn.Net.goTo, isHead, noSent] using passing
  · refine ⟨.primetask nc, 0, by simp [Kahn.Net.goTo], ?_, out, below, count⟩
    have noRcvd : naturals (n.rcvd nc) = [] := by simp [noRcvd, naturals]
    have starts : Starting g ((n.goTo (t m) (.loop (c m) p nc)).goTo u (.primetask nc))
      (update c (m + 1) nc) (m + 1) (.primetask _) [] 0 := .primetask
    simpa [Kahn.Net.goTo, noRcvd] using starts
  · intro k inside
    rcases inside.lt_or_eq with before | rfl
    · rw [tOf (by omega)]
      exact pipeline.others k (by omega)
    · simpa using notMain
  · exact update_injective pipeline.tasks fun k inside => notStage inside
  · exact update_injective pipeline.chans other
  · intro k inside
    rcases inside.lt_or_eq with before | rfl
    · rw [cOf (by omega)]
      exact pipeline.known k (by omega)
    · simpa [Kahn.Net.goTo] using isChan
  · intro ch noStage
    exact pipeline.unused ch fun k inside => by simpa [cOf inside] using noStage k (by omega)
  · intro v l isAt'
    by_cases isNew : v = u
    · exact Or.inr ⟨m + 1, le_rfl, by simp [isNew]⟩
    · by_cases isLast : v = t m
      · exact Or.inr ⟨m, by omega, by rw [tOf le_rfl, isLast]⟩
      · rw [codeOf isNew isLast] at isAt'
        rcases pipeline.only v l isAt' with isMain | ⟨k, inside, isStage⟩
        · exact Or.inl isMain
        · exact Or.inr ⟨k, by omega, by rw [tOf inside, isStage]⟩

end Pipeline

/-- The main task before it sends. -/
inductive Begins (g : Globals) : Code → List ChanPtr → List String → Prop where
  | taskmain : Begins g .taskmain [] []
  | chancreate : Begins g .chancreate [] (text g [])
  | taskcreate {c : ChanPtr} : Begins g (.taskcreate c) [c] (text g [])

inductive Running (g : Globals) (n : Net w) : Prop where
  | begins (main : TaskPtr) (l : Code) : Begins g l n.chans n.out →
      n.code = update (fun _ => none) main (some l) →
      (∀ ch, n.sent ch = [] ∧ n.rcvd ch = []) → Running g n
  | pipeline {main : TaskPtr} {t : Nat → TaskPtr} {c : Nat → ChanPtr} {m i : Nat} :
      Pipeline g n main t c m i → Running g n

theorem begins_step {u : TaskPtr} (begins : Begins g l n.chans n.out)
    (code : n.code = update (fun _ => none) main (some l))
    (empty : ∀ ch, n.sent ch = [] ∧ n.rcvd ch = [])
    (moves : Kahn.Moves n u (primes g l) n') (isMain : u = main) : Running g n' := by
  subst isMain
  generalize isChans : n.chans = chans at begins
  generalize isOut : n.out = out at begins
  cases begins with
  | taskmain =>
      cases moves with
      | print =>
          refine .begins u .chancreate ?_ ?_ empty
          · simp only [Kahn.Net.goTo, isChans, isOut]
            simpa [text] using Begins.chancreate (g := g)
          · simp [Kahn.Net.goTo, code]
  | chancreate =>
      cases moves with
      | @create c₀ size next fresh =>
          refine .begins u (.taskcreate c₀) ?_ ?_ empty
          · simpa [Kahn.Net.goTo, isChans, isOut] using Begins.taskcreate (g := g)
          · simp [Kahn.Net.goTo, code]
  | @taskcreate c₀ =>
      cases moves with
      | @spawn v child next fresh =>
          have notMain : v ≠ u := by
            rintro rfl
            simp [code] at fresh
          suffices pipeline : Pipeline g _ u (fun _ => v) (fun _ => c₀) 0 2 from .pipeline pipeline
          refine ⟨?_, by omega, ?_, by omega, ?_, ?_, by omega, by omega, ?_, ?_, ?_⟩
          · simp [Kahn.Net.goTo, notMain.symm]
          · simp [Kahn.Net.goTo, naturals, empty]
          · refine ⟨.primetask c₀, 0, by simp [Kahn.Net.goTo], ?_, ?_, by simp, ?_⟩
            · simpa [Kahn.Net.goTo, naturals, empty] using Starting.primetask (g := g)
                (c := fun _ => c₀) (m := 0)
            · simpa [Kahn.Net.goTo] using isOut
            · simp [Kahn.Net.goTo, isChans, Code.spare]
          · exact fun _ _ => notMain
          · simp [Kahn.Net.goTo, isChans]
          · exact fun ch _ => empty ch
          · intro x l' isAt
            by_cases isNew : x = v
            · exact Or.inr ⟨0, le_rfl, isNew⟩
            · by_cases isMain : x = u
              · exact Or.inl isMain
              · simp [Kahn.Net.goTo, code, isNew, isMain] at isAt

/-- A `primetask` that has started the next one carries out its next command. -/
theorem passing_step (wide : 32 ≤ w) (pipeline : Pipeline g n main t c m i)
    (ordered : Kahn.Ordered n) (inside : k < m) (isAt : n.code (t k) = some l)
    (moves : Kahn.Moves n (t k) (primes g l) n') : Pipeline g n' main t c m i := by
  obtain ⟨l', isAt', passing⟩ := pipeline.passing k inside
  obtain rfl := Option.some.inj (isAt.symm.trans isAt')
  generalize isReceived : naturals (n.rcvd (c k)) = received at passing
  generalize isSent : naturals (n.sent (c (k + 1))) = sent at passing
  cases passing with
  | @loop p rest =>
      cases moves with
      | @recv _ v _ more =>
          have isInt := toInt_eq (pipeline.small ordered inside.le more)
          have positive : 0 < p := by
            rw [pipeline.head ordered inside.le isReceived]
            exact (prime_prime k).pos
          change Pipeline g ((n.take (c k) v).goTo (t k) (test (c k) p (c (k + 1)) (toInt v))) ..
          rw [isInt, test_eq (c k) (c (k + 1)) positive]
          refine pipeline.passing_moves inside rfl rfl ?_ (fun _ _ => rfl) rfl ?_
          · exact fun ch notOwn => update_of_ne notOwn ..
          have received : naturals ((n.take (c k) v).rcvd (c k)) = p :: (rest ++ [v.toNat]) := by
            simp only [Kahn.Net.take, naturals, update_self, List.map_append] at isReceived ⊢
            rw [isReceived]
            rfl
          simp only [Kahn.Net.goTo, received]
          by_cases divides : p ∣ v.toNat
          · rw [if_pos divides]
            have same : naturals (n.sent (c (k + 1))) =
                (rest ++ [v.toNat]).filter fun x => decide (¬p ∣ x) := by
              simp [isSent, divides]
            change Passing _ _ _ _ (naturals (n.sent (c (k + 1))))
            rw [same]
            exact .loop
          · rw [if_neg divides]
            change Passing _ _ _ _ (naturals (n.sent (c (k + 1))))
            rw [isSent]
            exact .passes divides
  | @passes p x rest notDivides =>
      cases moves with
      | send =>
          refine pipeline.passing_moves inside rfl rfl (fun _ _ => rfl) ?_ rfl ?_
          · exact fun ch notNext => update_of_ne notNext ..
          have reached : x ∈ naturals (n.rcvd (c k)) := by simp [isReceived]
          obtain ⟨v, isReceivedV, rfl⟩ := List.mem_map.mp reached
          have small : v.toNat < 2 ^ 31 := by
            have reaches := ((pipeline.cascade ordered).order k (by omega)).trans
              ((pipeline.cascade ordered).sent_reaches k (by omega))
            have := (mem_survivors.mp (reaches.subset reached)).1
            have := pipeline.bounds
            omega
          have sent : naturals ((n.put (c (k + 1)) (toUlong w v.toNat)).sent (c (k + 1))) =
              (rest ++ [v.toNat]).filter fun x => decide (¬p ∣ x) := by
            simpa [Kahn.Net.put, naturals, notDivides, toNat_toUlong wide small] using isSent
          simp only [Kahn.Net.goTo, sent]
          change Passing _ _ _ (naturals (n.rcvd (c k))) _
          rw [isReceived]
          exact .loop

/-- The last `primetask` carries out its next command. -/
theorem starting_step (pipeline : Pipeline g n main t c m i) (ordered : Kahn.Ordered n)
    (isAt : n.code (t m) = some l) (moves : Kahn.Moves n (t m) (primes g l) n') :
    Running g n' := by
  obtain ⟨l', done, isAt', starting, out, below, count⟩ := pipeline.starting
  obtain rfl := Option.some.inj (isAt.symm.trans isAt')
  generalize isReceived : naturals (n.rcvd (c m)) = received at starting
  -- the next channel, where the task has none yet
  have create {p : Nat} {n' : Net w} {size : Nat} (below : ∀ k < m + 1, prime k ≤ g.goal)
      (out : n.out = text g ((List.range (m + 1)).map prime))
      (isReceived : naturals (n.rcvd (c m)) = [p]) (count : n.chans.length = m + 1)
      (moves : Kahn.Moves n (t m) (.create size (Code.made (c m) p)) n') : Running g n' := by
    cases moves with
    | @create c₀ _ _ fresh =>
        refine .pipeline (pipeline.starting_moves 1 rfl (List.subset_cons_self ..)
          (fun _ _ => rfl) rfl ?_ out below (by simp [Kahn.Net.goTo, Code.spare, count]))
        change Starting g _ c m _ (naturals (n.rcvd (c m))) 1
        rw [isReceived]
        refine .made List.mem_cons_self ?_
        rintro k inside rfl
        exact fresh (pipeline.known k inside)
  cases starting with
  | primetask =>
      cases moves with
      | @recv _ v _ more =>
          refine .pipeline (pipeline.starting_moves 0 rfl (List.Subset.refl _) ?_ rfl ?_
            out below count)
          · exact fun ch notOwn => update_of_ne notOwn ..
          · have received : naturals ((n.take (c m) v).rcvd (c m)) = [v.toNat] := by
              simpa [Kahn.Net.take, naturals] using isReceived
            simp only [Kahn.Net.goTo, received, toInt_eq (pipeline.small ordered le_rfl more)]
            exact .received
  | @received p =>
      have isPrime := pipeline.head ordered le_rfl isReceived
      simp only [primes] at moves
      split at moves
      · cases moves
      · rename_i small
        have below : ∀ k < m + 1, prime k ≤ g.goal := by
          intro k inside
          rcases (Nat.lt_succ_iff.mp inside).lt_or_eq with before | rfl
          · exact below k before
          · rw [← isPrime]
            omega
        split at moves
        · rename_i loud
          cases moves with
          | print =>
              refine .pipeline (pipeline.starting_moves 1 rfl (List.Subset.refl _)
                (fun _ _ => rfl) rfl ?_ ?_ below count)
              · change Starting g _ c m _ (naturals (n.rcvd (c m))) 1
                rw [isReceived]
                exact .printed
              · simp [Kahn.Net.goTo, out, text, loud, List.range_succ, isPrime]
        · rename_i quiet
          exact create below (by simpa [text, quiet] using out) isReceived count moves
  | @printed p => exact create below out isReceived count moves
  | @made p nc isChan other =>
      cases moves with
      | spawn fresh => exact .pipeline (pipeline.spawn_moves isAt fresh)

/-- One step of the program. -/
theorem running_step (wide : 32 ≤ w) (running : Running g n) (ordered : Kahn.Ordered n)
    (stepped : Kahn.Step (primes g) n n') : Running g n' := by
  obtain ⟨u, l, isAt, moves⟩ := stepped
  cases running with
  | begins main l' begins code empty =>
      have isMain : u = main := by
        by_contra other
        simp [code, other] at isAt
      subst isMain
      obtain rfl : l' = l := by simpa [code] using isAt
      exact begins_step begins code empty moves rfl
  | @pipeline main t c m i pipeline =>
      rcases pipeline.only u l isAt with rfl | ⟨k, inside, rfl⟩
      · have isMain := Option.some.inj (isAt.symm.trans pipeline.atMain)
        by_cases isEnd : i = 2 ^ 31
        · rw [if_pos isEnd] at isMain
          subst isMain
          cases moves
        · rw [if_neg isEnd] at isMain
          subst isMain
          cases moves with
          | send => exact .pipeline (pipeline.main_moves wide isEnd)
      · rcases inside.lt_or_eq with before | rfl
        · exact .pipeline (passing_step wide pipeline ordered before isAt moves)
        · exact starting_step pipeline ordered isAt moves

end

end Primes

end Libtask
