import Mathlib.Data.List.Range
import Mathlib.Tactic.Common

/-!
# Ring buffers

A ring of `size` slots that holds `n` elements from slot `off` on.  A push stores
behind the newest element, and a pop takes the oldest one.
-/

namespace Ring

variable {α : Type} {slot slot' : Nat → α} {size off n : Nat}

/-- The elements of the ring, oldest first. -/
def contents (slot : Nat → α) (size off n : Nat) : List α :=
  (List.range n).map fun i => slot ((off + i) % size)

@[simp] theorem contents_zero (slot : Nat → α) (size off : Nat) :
    contents slot size off 0 = [] := rfl

/-- The slot behind the newest element is not in use. -/
theorem slot_ne (room : n < size) {i : Nat} (used : i < n) :
    (off + i) % size ≠ (off + n) % size := by
  intro same
  have divides : size ∣ n - i := by
    have := Nat.sub_mod_eq_zero_of_mod_eq same.symm
    rw [Nat.add_sub_add_left] at this
    exact Nat.dvd_of_mod_eq_zero this
  have := Nat.le_of_dvd (by omega) divides
  omega

theorem contents_congr (same : ∀ i, i < n → slot' ((off + i) % size) = slot ((off + i) % size)) :
    contents slot' size off n = contents slot size off n := by
  refine List.map_congr_left fun i member => ?_
  exact same i (List.mem_range.mp member)

/-- A push overwrites one slot. -/
theorem contents_push (slot slot' : Nat → α) (off : Nat) (room : n < size)
    (others : ∀ i, i < size → i ≠ (off + n) % size → slot' i = slot i) :
    contents slot' size off (n + 1) =
      contents slot size off n ++ [slot' ((off + n) % size)] := by
  rw [contents, List.range_succ, List.map_append, List.map_singleton]
  congr 1
  refine contents_congr fun i used => others _ (Nat.mod_lt _ (by omega)) ?_
  exact slot_ne room used

/-- A pop moves the start of the ring. -/
theorem contents_pop (slot : Nat → α) (size off n : Nat) :
    contents slot size off (n + 1) =
      slot (off % size) :: contents slot size ((off + 1) % size) n := by
  rw [contents, List.range_succ_eq_map, List.map_cons, List.map_map, Nat.add_zero]
  congr 1
  refine List.map_congr_left fun i _ => ?_
  simp only [Function.comp_apply, Nat.succ_eq_add_one]
  rw [Nat.mod_add_mod, Nat.add_right_comm, Nat.add_assoc]

end Ring
