import Mathlib.Algebra.BigOperators.Group.Finset.Piecewise
import Mathlib.Algebra.Order.BigOperators.Group.Finset

/-!
# Sums over changing parties

Each of finitely many parties has a weight.  From one state to the next some parties move, and the
others stay and lose no weight.
-/

namespace Potential

variable {τ : Type} {old new : Finset τ} {weight weight' : τ → Nat}

theorem sum_le_of_subset (apart : Finset τ) (kept : ∀ u ∈ apart, u ∈ new ∧ weight u ≤ weight' u) :
    apart.sum weight ≤ new.sum weight' :=
  (Finset.sum_le_sum fun u member => (kept u member).2).trans
    (Finset.sum_le_sum_of_subset fun u member => (kept u member).1)

theorem sum_le_mul {bound : Nat} (parties : Finset τ) (bounded : ∀ u, weight u ≤ bound) :
    parties.sum weight ≤ parties.card * bound :=
  Finset.sum_le_card_nsmul _ _ bound fun u _ => bounded u

variable [DecidableEq τ]

/-- What the parties that move can lose. -/
theorem sum_le {bound : Nat} (moved : Finset τ) (bounded : ∀ u, weight u ≤ bound)
    (others : ∀ u ∈ old, u ∉ moved → u ∈ new ∧ weight u ≤ weight' u) :
    old.sum weight ≤ new.sum weight' + moved.card * bound := by
  have rest : (old \ moved).sum weight ≤ new.sum weight' := by
    refine sum_le_of_subset _ fun u member => ?_
    obtain ⟨isOld, stays⟩ := Finset.mem_sdiff.mp member
    exact others u isOld stays
  have few : (old ∩ moved).card ≤ moved.card := Finset.card_le_card Finset.inter_subset_right
  calc old.sum weight
      = (old ∩ moved).sum weight + (old \ moved).sum weight :=
        (Finset.sum_inter_add_sum_sdiff old moved _).symm
    _ ≤ (old ∩ moved).card * bound + new.sum weight' :=
        Nat.add_le_add (sum_le_mul _ bounded) rest
    _ ≤ moved.card * bound + new.sum weight' :=
        Nat.add_le_add_right (Nat.mul_le_mul_right _ few) _
    _ = new.sum weight' + moved.card * bound := Nat.add_comm _ _

/-- One party gains weight. -/
theorem sum_lt {t : τ} (isOld : t ∈ old) (isNew : t ∈ new) (more : weight t < weight' t)
    (others : ∀ u ∈ old, u ≠ t → u ∈ new ∧ weight u ≤ weight' u) :
    old.sum weight < new.sum weight' := by
  have kept : ∀ u ∈ old, u ∈ new ∧ weight u ≤ weight' u := by
    intro u member
    by_cases isSelf : u = t
    · exact isSelf ▸ ⟨isNew, more.le⟩
    · exact others u member isSelf
  calc old.sum weight < old.sum weight' :=
        Finset.sum_lt_sum (fun u member => (kept u member).2) ⟨t, isOld, more⟩
    _ ≤ new.sum weight' := Finset.sum_le_sum_of_subset fun u member => (kept u member).1

/-- The value of one party changes, which is counted from then on. -/
theorem sum_insert_add {M : Type} [AddCommMonoid M] (f g : τ → M) {t : τ} (parties : Finset τ)
    (elsewhere : ∀ u, u ≠ t → g u = f u) (uncounted : t ∉ parties → f t = 0) :
    (insert t parties).sum g + f t = parties.sum f + g t := by
  have others : (parties.erase t).sum g = (parties.erase t).sum f :=
    Finset.sum_congr rfl fun u member => elsewhere u (Finset.ne_of_mem_erase member)
  have split : (insert t parties).sum g = g t + (parties.erase t).sum f := by
    rw [← Finset.add_sum_erase _ _ (Finset.mem_insert_self t parties), Finset.erase_insert_eq_erase,
      others]
  have whole : f t + (parties.erase t).sum f = parties.sum f := by
    by_cases counted : t ∈ parties
    · exact Finset.add_sum_erase parties f counted
    · rw [uncounted counted, zero_add, Finset.erase_eq_of_notMem counted]
  rw [split, add_assoc, add_comm _ (f t), whole, add_comm]

/-- One party gains one. -/
theorem sum_insert_succ {t : τ} (parties : Finset τ) (here : weight' t = weight t + 1)
    (elsewhere : ∀ u, u ≠ t → weight' u = weight u) (uncounted : t ∉ parties → weight t = 0) :
    (insert t parties).sum weight' = parties.sum weight + 1 := by
  have := sum_insert_add weight weight' parties elsewhere uncounted
  omega

end Potential
