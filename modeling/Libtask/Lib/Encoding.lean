import Libtask.Lib.Bytes
import Mathlib.Algebra.Group.Nat.Defs

/-!
# Values in byte memory

A type whose values a program keeps in memory, each in the same number of bytes, and the
little-endian encoding of machine words.
-/

namespace Bytes

/-- The `size` bytes at `p` and those at `q` do not overlap. -/
def Apart (size p q : Nat) : Prop := p + size ≤ q ∨ q + size ≤ p

instance (size p q : Nat) : Decidable (Apart size p q) := inferInstanceAs (Decidable (_ ∨ _))

theorem Apart.symm {size p q : Nat} (apart : Apart size p q) : Apart size q p := Or.symm apart

/-- Values of `V` as `size` bytes. -/
structure Encoding (V : Type) where
  size : Nat
  bytes : V → List UInt8
  value : List UInt8 → V
  length_bytes : ∀ v, (bytes v).length = size
  value_bytes : ∀ v, value (bytes v) = v

attribute [simp] Encoding.length_bytes Encoding.value_bytes

/-- The value at `p`. -/
def Encoding.load {V : Type} (e : Encoding V) (m : Memory) (p : Nat) : V :=
  e.value (read m p e.size)

/-! ## Machine words -/

/-- The `k` bytes of `n`, the lowest first. -/
def toBytes : Nat → Nat → List UInt8
  | 0, _ => []
  | k + 1, n => UInt8.ofNat n :: toBytes k (n / 256)

/-- The number whose bytes these are. -/
def ofBytes : List UInt8 → Nat
  | [] => 0
  | b :: rest => b.toNat + 256 * ofBytes rest

@[simp] theorem length_toBytes (k n : Nat) : (toBytes k n).length = k := by
  induction k generalizing n with
  | zero => rfl
  | succ k ih => simp [toBytes, ih]

theorem ofBytes_toBytes (k n : Nat) : ofBytes (toBytes k n) = n % 256 ^ k := by
  induction k generalizing n with
  | zero => simp [toBytes, ofBytes, Nat.mod_one]
  | succ k ih =>
      have low : (UInt8.ofNat n).toNat = n % 256 := UInt8.toNat_ofNat'
      calc ofBytes (toBytes (k + 1) n)
          = n % 256 + 256 * (n / 256 % 256 ^ k) := by rw [toBytes, ofBytes, ih, low]
        _ = n % (256 * 256 ^ k) := Nat.mod_mul.symm
        _ = n % 256 ^ (k + 1) := by rw [Nat.pow_succ, Nat.mul_comm]

/-- Words of `k` bytes, in little-endian order. -/
def littleEndian (k : Nat) : Encoding (BitVec (8 * k)) where
  size := k
  bytes v := toBytes k v.toNat
  value bs := BitVec.ofNat (8 * k) (ofBytes bs)
  length_bytes v := length_toBytes k v.toNat
  value_bytes v := by
    have range : v.toNat < 256 ^ k := by
      have bound := v.isLt
      rwa [Nat.pow_mul] at bound
    rw [ofBytes_toBytes, Nat.mod_eq_of_lt range, BitVec.ofNat_toNat, BitVec.setWidth_eq]

end Bytes
