import Mathlib.Data.List.Basic

/-!
# Byte memory

A memory maps addresses to bytes.  `read` and `write` move whole ranges, as
`memmove` does: the range is read before any of it is written.
-/

namespace Bytes

abbrev Memory := Nat → UInt8

/-- The `n` bytes at `p`. -/
def read (m : Memory) (p n : Nat) : List UInt8 :=
  (List.range n).map fun i => m (p + i)

/-- The memory after `bytes` were stored at `p`. -/
def write (m : Memory) (p : Nat) (bytes : List UInt8) : Memory :=
  fun a => if p ≤ a then (bytes[a - p]?).getD (m a) else m a

@[simp] theorem length_read (m : Memory) (p n : Nat) : (read m p n).length = n := by
  simp [read]

theorem write_of_lt (m : Memory) {p a : Nat} (bytes : List UInt8) (below : a < p) :
    write m p bytes a = m a := by
  simp [write, Nat.not_le.mpr below]

theorem write_of_ge (m : Memory) {p a : Nat} (bytes : List UInt8)
    (above : p + bytes.length ≤ a) : write m p bytes a = m a := by
  have none_at : bytes[a - p]? = none := List.getElem?_eq_none (by omega)
  simp [write, none_at]

@[simp] theorem write_nil (m : Memory) (p : Nat) : write m p [] = m := by
  funext a
  simp [write]

/-- Two ranges that are written one behind the other. -/
theorem write_append (m : Memory) (p : Nat) (xs ys : List UInt8) :
    write (write m p xs) (p + xs.length) ys = write m p (xs ++ ys) := by
  funext a
  rcases Nat.lt_or_ge a p with below | above
  · rw [write_of_lt _ _ (by omega), write_of_lt _ _ below, write_of_lt _ _ below]
  rcases Nat.lt_or_ge a (p + xs.length) with first | second
  · rw [write_of_lt _ _ first]
    simp [write, above, List.getElem?_append_left (show a - p < xs.length by omega)]
  · have inSecond : a - (p + xs.length) = a - p - xs.length := by omega
    rw [write, if_pos second, write_of_ge _ _ second, write, if_pos above, inSecond,
      List.getElem?_append_right (by omega)]

/-- Reading back the range just written. -/
@[simp] theorem read_write_self (m : Memory) (p : Nat) (bytes : List UInt8) :
    read (write m p bytes) p bytes.length = bytes := by
  apply List.ext_getElem
  · simp
  · intro i inRead inBytes
    simp [read, write, List.getElem?_eq_getElem inBytes]

/-- A disjoint range reads as before. -/
theorem read_write_of_disjoint (m : Memory) {p q n : Nat} (bytes : List UInt8)
    (disjoint : p + bytes.length ≤ q ∨ q + n ≤ p) :
    read (write m p bytes) q n = read m q n := by
  apply List.map_congr_left
  intro i member
  have inRange : i < n := List.mem_range.mp member
  rcases disjoint with below | above
  · exact write_of_ge m bytes (by omega)
  · exact write_of_lt m bytes (by omega)

end Bytes
