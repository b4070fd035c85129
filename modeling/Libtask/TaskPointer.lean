import Mathlib.Algebra.Group.Nat.Defs

/-!
# A Task pointer in two words

`makecontext` passes arguments of `uint` width, so `taskalloc` splits the pointer
of a new Task into `y` and `x`, and `taskstart` puts it together again.  `w` is the
width of `ulong` and of a pointer, and `uint` has 32 bits.
-/

namespace Libtask.TaskPointer

/-- The arguments `y` and `x` that `taskalloc` passes for a Task at `t`. -/
def taskalloc {w : Nat} (t : BitVec w) : BitVec 32 × BitVec 32 :=
  let z := t
  let y := z.setWidth 32
  let z := z >>> 16
  let x := (z >>> 16).setWidth 32
  (y, x)

/-- The pointer that `taskstart` uses.  The first shift is one of a `uint`. -/
def taskstart (w : Nat) (y x : BitVec 32) : BitVec w :=
  let z := (x <<< 16).setWidth w
  let z := z <<< 16
  z ||| y.setWidth w

/-- What survives the two words are the low 48 bits. -/
theorem taskstart_taskalloc (z : BitVec 64) :
    taskstart 64 (taskalloc z).1 (taskalloc z).2 = (z.setWidth 48).setWidth 64 := by
  apply BitVec.eq_of_getLsbD_eq
  intro i inWord
  simp only [taskstart, taskalloc, BitVec.getLsbD_or, BitVec.getLsbD_shiftLeft,
    BitVec.getLsbD_setWidth, BitVec.getLsbD_ushiftRight]
  rcases Nat.lt_or_ge i 32 with low | high
  · by_cases half : i < 16
    · simp [inWord, low, half, Nat.lt_trans half (by decide : 16 < 48)]
    · simp [inWord, low, show i < 48 by omega, show i - 16 < 16 by omega]
  · -- bit `i` of `z` is bit `i - 32` of `x`, which the `uint` shift keeps below 16
    have source : 16 + (16 + (i - 16 - 16)) = i := by omega
    by_cases kept : i < 48
    · simp [source, inWord, kept, show ¬ i < 32 by omega, show ¬ i < 16 by omega,
        show ¬ i - 16 < 16 by omega, show i - 16 < 64 by omega, show i - 16 < 32 by omega,
        show i - 16 - 16 < 32 by omega]
    · simp [kept, show ¬ i < 32 by omega, show ¬ i - 16 < 32 by omega]

theorem setWidth_low_eq_iff (z : BitVec 64) :
    (z.setWidth 48).setWidth 64 = z ↔ z.toNat < 2 ^ 48 := by
  rw [BitVec.toNat_eq]
  simp only [BitVec.toNat_setWidth]
  rw [Nat.mod_eq_of_lt (Nat.lt_trans (Nat.mod_lt _ (by decide)) (by decide : 2 ^ 48 < 2 ^ 64))]
  exact Nat.mod_eq_iff_lt (by decide)

/-- Where `ulong` is no wider than a word, the second argument is shifted out. -/
theorem taskstart_narrow (y x : BitVec 32) : taskstart 32 y x = y := by
  simp [taskstart, ← BitVec.shiftLeft_add]

/-- A pointer of 64 bits comes back if its upper 16 bits are zero.  One of 32 bits always does,
whatever arrives in the other word. -/
theorem pointer_restored_iff (z : BitVec 64) (z' x : BitVec 32) :
    (taskstart 64 (taskalloc z).1 (taskalloc z).2 = z ↔ z.toNat < 2 ^ 48) ∧
      taskstart 32 (taskalloc z').1 x = z' := by
  constructor
  · rw [taskstart_taskalloc]
    exact setWidth_low_eq_iff z
  · rw [taskstart_narrow]
    simp [taskalloc]

/-- A pointer of the upper half of the address space comes back as
`0x0000800000001000`. -/
theorem high_pointer_lost :
    taskstart 64 (taskalloc 0xffff800000001000#64).1 (taskalloc 0xffff800000001000#64).2 ≠
      0xffff800000001000#64 := by
  decide

end Libtask.TaskPointer
