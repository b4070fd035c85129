import Mathlib.Data.List.Infix
import Mathlib.Data.Nat.PrimeFin
import Mathlib.Data.Nat.Prime.Nth

/-!
# The sieve of Eratosthenes as a cascade

Each stage keeps the first number that it gets, and passes on the later ones that are no multiples
of it.  The numbers that the stages keep are the primes in order, and a bound on what is on its way
between the stages bounds how far the source is ahead.
-/

namespace Sieve

open Nat (nth count)

/-- The `k`-th prime, from 0 on. -/
noncomputable abbrev prime (k : Nat) : Nat := nth Nat.Prime k

theorem prime_prime (k : Nat) : (prime k).Prime :=
  Nat.nth_mem_of_infinite Nat.infinite_setOfPred_prime k

/-! ## The numbers that reach a stage -/

/-- The first `n` numbers from 2 on, without the multiples of the first `k` primes. -/
noncomputable def survivors (k n : Nat) : List Nat :=
  (List.range' 2 n).filter fun x => decide (∀ j < k, ¬prime j ∣ x)

variable {k n x : Nat}

theorem mem_survivors : x ∈ survivors k n ↔
    (2 ≤ x ∧ x < 2 + n) ∧ ∀ j < k, ¬prime j ∣ x := by
  simp [survivors]

@[simp] theorem survivors_zero (n : Nat) : survivors 0 n = List.range' 2 n := by
  simp [survivors]

theorem survivors_succ (k n : Nat) :
    survivors (k + 1) n = (survivors k n).filter fun x => decide (¬prime k ∣ x) := by
  rw [survivors, survivors, List.filter_filter]
  refine List.filter_congr fun x _ => ?_
  rw [← Bool.decide_and, decide_eq_decide]
  refine ⟨fun none => ⟨none k k.lt_succ_self, fun j small => none j (by omega)⟩, ?_⟩
  rintro ⟨last, others⟩ j small
  rcases Nat.lt_succ_iff_lt_or_eq.mp small with small | rfl
  · exact others j small
  · exact last

theorem prime_le_of_mem_survivors (member : x ∈ survivors k n) : prime k ≤ x := by
  obtain ⟨⟨two, -⟩, others⟩ := mem_survivors.mp member
  have isPrime := Nat.minFac_prime (n := x) (by omega)
  -- the least prime factor is none of the first `k` primes
  have isNth := Nat.nth_count isPrime
  have later : k ≤ count Nat.Prime x.minFac := by
    by_contra earlier
    refine others _ (not_le.mp earlier) ?_
    rw [prime, isNth]
    exact x.minFac_dvd
  calc prime k ≤ prime (count Nat.Prime x.minFac) :=
        Nat.nth_monotone Nat.infinite_setOfPred_prime later
    _ = x.minFac := isNth
    _ ≤ x := Nat.minFac_le (by omega)

theorem prime_mem_survivors {j : Nat} (later : k ≤ j) (inside : prime j < 2 + n) :
    prime j ∈ survivors k n := by
  refine mem_survivors.mpr ⟨⟨(prime_prime j).two_le, inside⟩, fun i small divides => ?_⟩
  have same := (Nat.prime_dvd_prime_iff_eq (prime_prime i) (prime_prime j)).mp divides
  have := Nat.nth_injective Nat.infinite_setOfPred_prime same
  omega

theorem survivors_sorted (k n : Nat) : (survivors k n).Pairwise (· < ·) :=
  (List.pairwise_lt_range' (s := 2) (n := n)).filter _

/-- The first number that reaches stage `k` is prime number `k`. -/
theorem head_survivors {rest : List Nat} (isHead : survivors k n = x :: rest) : x = prime k := by
  have member : x ∈ survivors k n := by simp [isHead]
  have atLeast := prime_le_of_mem_survivors member
  have inside : prime k < 2 + n := atLeast.trans_lt (mem_survivors.mp member).1.2
  have isThere := prime_mem_survivors le_rfl inside
  have sorted := survivors_sorted k n
  rw [isHead] at isThere sorted
  rcases List.mem_cons.mp isThere with same | later
  · exact same.symm
  · have := List.rel_of_pairwise_cons sorted later
    omega

/-- The primes from number `k` on are among the numbers that reach stage `k`. -/
theorem count_le_survivors (k n : Nat) :
    count Nat.Prime (n + 2) ≤ k + (survivors k n).length := by
  have inside (j : Nat) (small : j < count Nat.Prime (n + 2)) : prime j < 2 + n := by
    rw [Nat.add_comm]
    exact Nat.nth_lt_of_lt_count small
  let later := (List.range' k (count Nat.Prime (n + 2) - k)).map prime
  have subset : later ⊆ survivors k n := by
    intro x member
    obtain ⟨j, isIndex, rfl⟩ := List.mem_map.mp member
    have := List.mem_range'_1.mp isIndex
    exact prime_mem_survivors (by omega) (inside j (by omega))
  have nodup : later.Nodup :=
    (List.nodup_range' ..).map (Nat.nth_injective Nat.infinite_setOfPred_prime)
  have := (nodup.subperm subset).length_le
  simp only [later, List.length_map, List.length_range'] at this
  omega

theorem filter_prime_range (n : Nat) :
    (List.range n).filter (fun x => decide x.Prime) =
      (List.range (count Nat.Prime n)).map prime := by
  induction n with
  | zero => simp
  | succ n ih =>
      rw [List.range_succ, List.filter_append, ih, Nat.count_succ]
      by_cases isPrime : n.Prime
      · simp [isPrime, List.range_succ, prime, Nat.nth_count]
      · simp [isPrime]

/-- There are at least `k` primes up to `goal`. -/
theorem le_count {goal : Nat} (below : ∀ j < k, prime j ≤ goal) :
    k ≤ count Nat.Prime (goal + 1) := by
  by_contra fewer
  have outside := Nat.le_nth_count (p := Nat.Prime) Nat.infinite_setOfPred_prime (goal + 1)
  have := below _ (not_le.mp fewer)
  exact absurd (outside.trans this) (by omega)

/-- The first `k` primes, if they are at most `goal`, are the first ones up to `goal`. -/
theorem primes_initial {goal : Nat} (below : ∀ j < k, prime j ≤ goal) :
    (List.range k).map prime <+: (List.range (goal + 1)).filter fun x => decide x.Prime := by
  rw [filter_prime_range]
  obtain ⟨more, isCount⟩ := Nat.exists_eq_add_of_le (le_count below)
  rw [isCount, List.range_add, List.map_append]
  exact List.prefix_append _ _

/-- The primes up to `goal` are the first `k` ones, if the next one is greater. -/
theorem primes_upto {goal : Nat} (below : ∀ j < k, prime j ≤ goal) (above : goal < prime k) :
    (List.range (goal + 1)).filter (fun x => decide x.Prime) = (List.range k).map prime := by
  have isCount : count Nat.Prime (goal + 1) = k :=
    le_antisymm (Nat.le_nth_of_count_le above) (le_count below)
  rw [filter_prime_range, isCount]

/-! ## The cascade -/

/-- What the stages before `m` received and what was sent to them, where the first stage gets the
first `n` numbers from 2 on: a stage with a successor has passed on what is no multiple of the
first number, but for one number that it may still have. -/
structure Cascade (received sent : Nat → List Nat) (m n : Nat) : Prop where
  source : sent 0 = List.range' 2 n
  order : ∀ k < m, received k <+: sent k
  stage : ∀ k, k + 1 < m → ∃ p rest pending, received k = p :: rest ∧
    rest.filter (fun x => decide (¬p ∣ x)) = sent (k + 1) ++ pending ∧ pending.length ≤ 1

variable {received sent : Nat → List Nat} {m p : Nat}

namespace Cascade

theorem filter_received {rest : List Nat} (received : List Nat) (isHead : received = p :: rest) :
    received.filter (fun x => decide (¬p ∣ x)) = rest.filter (fun x => decide (¬p ∣ x)) := by
  rw [isHead, List.filter_cons_of_neg (by simp)]

/-- What reaches a stage is a part of what would reach it if all was passed on. -/
theorem sent_reaches (cascade : Cascade received sent m n) (k : Nat) (inside : k < m) :
    sent k <+: survivors k n := by
  induction k with
  | zero => rw [cascade.source, survivors_zero]
  | succ k ih =>
      obtain ⟨p, rest, pending, isHead, passes, -⟩ := cascade.stage k inside
      have before := (cascade.order k (by omega)).trans (ih (by omega))
      have isPrime : p = prime k := by
        rw [isHead] at before
        obtain ⟨more, same⟩ := before
        exact head_survivors same.symm
      calc sent (k + 1) <+: sent (k + 1) ++ pending := List.prefix_append _ _
        _ = (received k).filter fun x => decide (¬p ∣ x) := by
            rw [filter_received _ isHead, passes]
        _ <+: (survivors k n).filter fun x => decide (¬p ∣ x) := before.filter _
        _ = survivors (k + 1) n := by rw [survivors_succ, isPrime]

/-- The stages keep the primes in order. -/
theorem head (cascade : Cascade received sent m n) (inside : k < m)
    (isHead : (received k).head? = some p) : p = prime k := by
  obtain ⟨rest, same⟩ := List.head?_eq_some_iff.mp isHead
  obtain ⟨more, all⟩ := (cascade.order k inside).trans (cascade.sent_reaches k inside)
  rw [same] at all
  exact head_survivors all.symm

/-- Where at most `b` numbers are on their way to a stage, little is missing at stage `k`. -/
theorem survivors_le (cascade : Cascade received sent m n) {b : Nat}
    (inFlight : ∀ k < m, (sent k).length ≤ (received k).length + b) (k : Nat) (inside : k < m) :
    (survivors k n).length ≤ (sent k).length + k * (b + 1) := by
  induction k with
  | zero => simp [cascade.source]
  | succ k ih =>
      obtain ⟨p, rest, pending, isHead, passes, few⟩ := cascade.stage k inside
      obtain ⟨missing, survivorsEq⟩ := cascade.sent_reaches k (by omega)
      obtain ⟨buffered, sentEq⟩ := cascade.order k (by omega)
      have isPrime : p = prime k := cascade.head (k := k) (by omega) (by simp [isHead])
      have passed : (received k).filter (fun x => decide (¬p ∣ x)) = sent (k + 1) ++ pending := by
        rw [filter_received _ isHead, passes]
      have lengths := ih (by omega)
      have flight := inFlight k (by omega)
      have kept (xs : List Nat) : (xs.filter fun x => decide (¬p ∣ x)).length ≤ xs.length :=
        List.length_filter_le _ xs
      have := kept missing
      have := kept buffered
      rw [survivors_succ, ← isPrime, ← survivorsEq, ← sentEq, List.filter_append,
        List.filter_append, passed]
      rw [← survivorsEq, ← sentEq] at lengths
      rw [← sentEq] at flight
      simp only [List.length_append] at lengths flight ⊢
      rw [Nat.succ_mul]
      omega

/-- How far the source is ahead of the last stage, which has received at most one number. -/
theorem source_le (cascade : Cascade received sent (m + 1) n) {b : Nat}
    (inFlight : ∀ k < m + 1, (sent k).length ≤ (received k).length + b)
    (last : (received m).length ≤ 1) : n + 2 ≤ prime (m + (m + 1) * (b + 1)) := by
  refine (Nat.count_le_iff_le_nth (p := Nat.Prime) Nat.infinite_setOfPred_prime).mp ?_
  have := count_le_survivors m n
  have := cascade.survivors_le inFlight m (by omega)
  have := inFlight m (by omega)
  rw [Nat.succ_mul]
  omega

end Cascade

end Sieve
