import Libtask.PrintFormat

/-!
# Texts that are cut

What `vsnprint` leaves in a buffer that is too small.  `printstr` narrows a field to the room that
is left before it puts the string into it.  A string on the right then moves over the blanks in
front of it, so that the text is not always a prefix of the whole text.
-/

namespace Libtask

open Layout (Row)

variable {strerror : List UInt8} {n k : Nat} {m : Bytes.Memory} {arg : Nat → Arg}
  {f : List FormatPart} {t : List UInt8}

/-- The text in a buffer of `n` bytes, compared with the text `t` in one of `k` bytes.  It is the
line of the same cells, of `n - 1` characters.  It is a prefix of `t` unless a string that is on the
right of a field in `t`, behind blanks, moves when its field is narrowed. -/
theorem print_cut (positive : 1 ≤ n) (smaller : n ≤ k) (strings : ∀ i, 0 ∉ (arg i).str)
    (error : 0 ∉ strerror) (left : Leaves strerror k m (format f) arg t) (m' : Bytes.Memory) :
    ∃ t', Leaves strerror n m' (format f) arg t' ∧
      Row.fit blank (n - 1) (row strerror f arg) = some t' ∧
      t'.length = min (n - 1) t.length ∧
      (∀ whole, Row.full blank (row strerror f arg) = some whole →
        t'.length = min (n - 1) whole.length) ∧
      (t' = t.take (n - 1) ↔
        ¬Row.Shifts blank (n - 1) (Row.narrow blank (k - 1) (row strerror f arg))) := by
  have noNuls := zero_notMem_row (f := f) strings error
  rw [leaves_iff (by omega) noNuls] at left
  obtain ⟨t', fits, length, same⟩ := Row.fit_of_fit left (by omega : n - 1 ≤ k - 1)
  refine ⟨t', (leaves_iff positive noNuls).mpr fits, fits, length, fun whole isWhole => ?_, same⟩
  obtain ⟨t'', fits', length', -⟩ : ∃ t'', Row.fit blank (n - 1) (row strerror f arg) = some t'' ∧
      t''.length = min (n - 1) whole.length ∧ _ := Row.fit_of_full isWhole
  obtain rfl : t' = t'' := Option.some.inj (fits.symm.trans fits')
  exact length'

/-- `%5s` -/
def rightField : List FormatPart :=
  [.directive ['5'.toUInt8] 's'.toUInt8 (by decide) (by decide)]

/-- The argument `ab`. -/
def ab : Nat → Arg := fun _ => { str := ['a', 'b'].map Char.toUInt8 }

theorem zero_notMem_ab (i : Nat) : 0 ∉ (ab i).str := by
  unfold ab
  decide

theorem rightField_leaves {text : List UInt8} (positive : 1 ≤ n)
    (fits : Row.fit blank (n - 1) (row [] rightField ab) = some text) (m : Bytes.Memory) :
    Leaves [] n m (format rightField) ab text :=
  (leaves_iff positive (zero_notMem_row zero_notMem_ab (by decide))).mpr fits

/-- In a buffer of four bytes, `ab` moves over two of its three blanks. -/
theorem print_cut_right : ∃ t', Leaves [] 4 (fun _ => 1) (format rightField) ab t' ∧
    Row.fit blank 3 (row [] rightField ab) = some t' ∧ t'.length = min 3 5 ∧
    (∀ whole, Row.full blank (row [] rightField ab) = some whole →
      t'.length = min 3 whole.length) ∧
    (t' = ([' ', ' ', ' ', 'a', 'b'].map Char.toUInt8).take 3 ↔
      ¬Row.Shifts blank 3 (Row.narrow blank 5 (row [] rightField ab))) := by
  have left : Leaves [] 6 (fun _ => 1) (format rightField) ab
      ([' ', ' ', ' ', 'a', 'b'].map Char.toUInt8) :=
    rightField_leaves (by decide) (by decide) _
  have small : 1 ≤ 4 := by decide
  have smaller : 4 ≤ 6 := by decide
  exact print_cut small smaller zero_notMem_ab (by decide) left _

/-- ` ab` is no prefix of `   ab`. -/
theorem cut_no_prefix :
    ¬∀ (strerror : List UInt8) (n k : Nat) (m m' : Bytes.Memory) (f : List FormatPart)
      (arg : Nat → Arg) (t t' : List UInt8), 1 ≤ n → n ≤ k → (∀ i, 0 ∉ (arg i).str) →
      0 ∉ strerror → Leaves strerror n m' (format f) arg t' →
      Leaves strerror k m (format f) arg t → t' = t.take (min (n - 1) t.length) := by
  intro all
  have small : Leaves [] 4 (fun _ => 1) (format rightField) ab ([' ', 'a', 'b'].map Char.toUInt8) :=
    rightField_leaves (by decide) (by decide) _
  have large : Leaves [] 6 (fun _ => 1) (format rightField) ab
      ([' ', ' ', ' ', 'a', 'b'].map Char.toUInt8) :=
    rightField_leaves (by decide) (by decide) _
  exact absurd (all [] 4 6 _ _ rightField ab _ _ (by decide) (by decide) zero_notMem_ab
    (by decide) small large) (by decide)

end Libtask
