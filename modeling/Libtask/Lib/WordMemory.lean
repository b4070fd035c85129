import Mathlib.Algebra.Group.Nat.Defs
import Mathlib.Data.Nat.Init

/-!
# Words in a byte memory

A memory maps addresses of `w` bits to bytes.  `store` and `load` move a word of
`k` bytes in either byte order.  Addresses wrap, so ranges are sets of addresses:
two of them are `Apart` when they share none.
-/

namespace WordMemory

inductive Endian where
  | little
  | big
  deriving DecidableEq, Repr

/-- Where the byte of significance `i` is in a word of `k` bytes.  Read the other
way, the significance of the byte at `i`. -/
def Endian.place : Endian → Nat → Nat → Nat
  | .little, _, i => i
  | .big, k, i => k - 1 - i

theorem Endian.place_lt (e : Endian) {k i : Nat} (inWord : i < k) : e.place k i < k := by
  cases e with
  | little => exact inWord
  | big => simp only [place]; omega

theorem Endian.place_place (e : Endian) {k i : Nat} (inWord : i < k) :
    e.place k (e.place k i) = i := by
  cases e with
  | little => rfl
  | big => simp only [place]; omega

abbrev Memory (w : Nat) := BitVec w → BitVec 8

/-- The word whose byte of significance `i` is `f i`, for `k` bytes. -/
def ofBytes {w : Nat} (f : Nat → BitVec 8) : Nat → BitVec w
  | 0 => 0
  | k + 1 => ofBytes f k ||| (f k).setWidth w <<< (8 * k)

theorem getLsbD_ofBytes {w : Nat} (f : Nat → BitVec 8) (k i : Nat) :
    (ofBytes f k : BitVec w).getLsbD i =
      (decide (i < w) && decide (i < 8 * k) && (f (i / 8)).getLsbD (i % 8)) := by
  induction k with
  | zero => simp [ofBytes]
  | succ k ih =>
      simp only [ofBytes, BitVec.getLsbD_or, ih, BitVec.getLsbD_shiftLeft,
        BitVec.getLsbD_setWidth]
      rcases Nat.lt_or_ge i (8 * k) with earlier | later
      · simp [earlier, show i < 8 * (k + 1) by omega]
      · rcases Nat.lt_or_ge i (8 * (k + 1)) with here | beyond
        · have position : i / 8 = k := by omega
          have bit : i - 8 * k = i % 8 := by omega
          simp only [here, position, bit]
          by_cases inWord : i < w
          · simp [inWord, Nat.not_lt.mpr later]
            omega
          · simp [inWord]
        · have high : 8 ≤ i - 8 * k := by omega
          simp [Nat.not_lt.mpr later, Nat.not_lt.mpr beyond, BitVec.getLsbD_of_ge _ _ high]

theorem ofBytes_congr {w : Nat} {f g : Nat → BitVec 8} {k : Nat}
    (same : ∀ i < k, f i = g i) : (ofBytes f k : BitVec w) = ofBytes g k := by
  induction k with
  | zero => rfl
  | succ k ih =>
      rw [ofBytes, ofBytes, same k (Nat.lt_succ_self k),
        ih fun i inWord => same i (Nat.lt_succ_of_lt inWord)]

section

variable {w : Nat} (e : Endian) (k : Nat)

/-- The word at `a`, with zeros above its `k` bytes. -/
def load (m : Memory w) (a : BitVec w) : BitVec w :=
  ofBytes (fun i => m (a + BitVec.ofNat w (e.place k i))) k

/-- The memory after the low `k` bytes of `v` were stored at `a`. -/
def store (a v : BitVec w) (m : Memory w) : Memory w := fun b =>
  if (b - a).toNat < k then (v >>> (8 * e.place k (b - a).toNat)).setWidth 8 else m b

/-- The memory after `n` bytes were moved from `src` to `dst`, which may overlap. -/
def memmove (dst src : BitVec w) (n : Nat) (m : Memory w) : Memory w := fun b =>
  if (b - dst).toNat < n then m (src + (b - dst)) else m b

/-- The memory after `n` bytes at `a` were set to `v`. -/
def memset (a : BitVec w) (v : BitVec 8) (n : Nat) (m : Memory w) : Memory w := fun b =>
  if (b - a).toNat < n then v else m b

end

/-! ## Ranges -/

/-- The `n` bytes at `a` and the `l` bytes at `b` share no address. -/
def Apart {w : Nat} (a : BitVec w) (n : Nat) (b : BitVec w) (l : Nat) : Prop :=
  ∀ i < n, ∀ j < l, a + BitVec.ofNat w i ≠ b + BitVec.ofNat w j

/-- The `n` bytes at `a` are the same in both memories. -/
def Same {w : Nat} (a : BitVec w) (n : Nat) (m m' : Memory w) : Prop :=
  ∀ i < n, m (a + BitVec.ofNat w i) = m' (a + BitVec.ofNat w i)

section

variable {w : Nat} {a b : BitVec w} {n l k : Nat}

theorem add_ofNat_add (a : BitVec w) (i j : Nat) :
    a + BitVec.ofNat w i + BitVec.ofNat w j = a + BitVec.ofNat w (i + j) := by
  rw [BitVec.add_assoc, BitVec.ofNat_add]

theorem Apart.symm (apart : Apart a n b l) : Apart b l a n :=
  fun j inB i inA => (apart i inA j inB).symm

/-- Parts of ranges that are apart. -/
theorem Apart.sub {i j p q : Nat} (apart : Apart a n b l) (inA : i + p ≤ n)
    (inB : j + q ≤ l) :
    Apart (a + BitVec.ofNat w i) p (b + BitVec.ofNat w j) q := by
  intro i' inA' j' inB'
  rw [add_ofNat_add, add_ofNat_add]
  exact apart (i + i') (by omega) (j + j') (by omega)

/-- Two fields of one block. -/
theorem apart_of_le {i j n l : Nat} (a : BitVec w) (apart : i + n ≤ j ∨ j + l ≤ i)
    (first : i + n ≤ 2 ^ w) (second : j + l ≤ 2 ^ w) :
    Apart (a + BitVec.ofNat w i) n (a + BitVec.ofNat w j) l := by
  intro i' inA j' inB equal
  rw [add_ofNat_add, add_ofNat_add, BitVec.add_right_inj] at equal
  have positions := congrArg BitVec.toNat equal
  rw [BitVec.toNat_ofNat, BitVec.toNat_ofNat, Nat.mod_eq_of_lt (by omega),
    Nat.mod_eq_of_lt (by omega)] at positions
  omega

/-- Two ranges at known addresses. -/
theorem apart_ofNat {i n j l : Nat} (below : i + n ≤ j) (fits : j + l ≤ 2 ^ w) :
    Apart (BitVec.ofNat w i) n (BitVec.ofNat w j) l := by
  have apart := apart_of_le (0#w) (i := i) (n := n) (.inl below) (by omega) fits
  rwa [BitVec.zero_add, BitVec.zero_add] at apart

theorem Same.refl (a : BitVec w) (n : Nat) (m : Memory w) : Same a n m m :=
  fun _ _ => rfl

theorem Same.trans {m₁ m₂ m₃ : Memory w} (first : Same a n m₁ m₂) (second : Same a n m₂ m₃) :
    Same a n m₁ m₃ :=
  fun i inRange => (first i inRange).trans (second i inRange)

theorem Same.sub {m m' : Memory w} {i n' : Nat} (same : Same a n m m') (inside : i + n' ≤ n) :
    Same (a + BitVec.ofNat w i) n' m m' := by
  intro i' inRange
  rw [add_ofNat_add]
  exact same (i + i') (by omega)

theorem load_congr {e : Endian} {m m' : Memory w} (same : Same a k m m') :
    load e k m a = load e k m' a :=
  ofBytes_congr fun _ inWord => same _ (e.place_lt inWord)

/-- An address at distance less than `k` from `a` is one of the `k` bytes at `a`. -/
theorem not_distance_lt (outside : ∀ j < k, b ≠ a + BitVec.ofNat w j) :
    ¬ (b - a).toNat < k := by
  intro inside
  apply outside _ inside
  rw [BitVec.ofNat_toNat, BitVec.setWidth_eq, BitVec.add_comm, BitVec.sub_add_cancel]

theorem same_store {e : Endian} {v : BitVec w} {m : Memory w} (apart : Apart b n a k) :
    Same b n (store e k a v m) m :=
  fun i inRange => if_neg (not_distance_lt (apart i inRange))

theorem distance_add_ofNat (a : BitVec w) {i : Nat} (fits : i < 2 ^ w) :
    (a + BitVec.ofNat w i - a).toNat = i := by
  rw [BitVec.add_comm, BitVec.add_sub_cancel, BitVec.toNat_ofNat, Nat.mod_eq_of_lt fits]

theorem load_store_apart {e e' : Endian} {v : BitVec w} {m : Memory w} (apart : Apart b n a k) :
    load e' n (store e k a v m) b = load e' n m b :=
  load_congr (same_store apart)

/-- The bytes of a stored word, by their significance. -/
theorem store_at {e : Endian} {v : BitVec w} {m : Memory w} {i : Nat} (inWord : i < k)
    (fits : k ≤ 2 ^ w) :
    store e k a v m (a + BitVec.ofNat w (e.place k i)) = (v >>> (8 * i)).setWidth 8 := by
  have place := e.place_lt inWord
  have distance := distance_add_ofNat a (Nat.lt_of_lt_of_le place fits)
  simp only [store, distance, if_pos place, e.place_place inWord]

/-- Loading a whole word that was just stored. -/
theorem load_store_self {e : Endian} {v : BitVec w} {m : Memory w} (whole : 8 * k = w)
    (fits : k ≤ 2 ^ w) : load e k (store e k a v m) a = v := by
  apply BitVec.eq_of_getLsbD_eq
  intro i inWord
  have byte : i / 8 < k := by omega
  rw [load, getLsbD_ofBytes, store_at byte fits, BitVec.getLsbD_setWidth,
    BitVec.getLsbD_ushiftRight]
  have bit : 8 * (i / 8) + i % 8 = i := Nat.div_add_mod i 8
  simp [inWord, bit, show i < 8 * k by omega, Nat.mod_lt]

/-- A word that was moved with the range around it. -/
theorem load_memmove {e : Endian} {src : BitVec w} {m : Memory w} {i : Nat}
    (inside : i + k ≤ n) (fits : n ≤ 2 ^ w) :
    load e k (memmove a src n m) (a + BitVec.ofNat w i) =
      load e k m (src + BitVec.ofNat w i) := by
  apply ofBytes_congr
  intro j inWord
  have place := e.place_lt inWord
  have distance := distance_add_ofNat a (i := i + e.place k j) (by omega)
  rw [add_ofNat_add, add_ofNat_add, memmove, if_pos (by omega)]
  congr 2
  rw [BitVec.add_comm, BitVec.add_sub_cancel]

end

end WordMemory
