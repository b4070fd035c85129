import Libtask.Lib.Strtoul
import Libtask.Print

/-!
# The formatter stays in its buffer

`printstr` writes one field, which it cuts so that a NUL fits behind it.  The loop of `vseprint`
therefore always has room for the NUL.
-/

namespace Libtask

open Outcome (bind_eq_ok)

variable {b : Buffer} {dst edst size : Int} {s : List UInt8}

/-! ## Machine integers -/

/-- In the range of an `int`. -/
def IsInt (x : Int) : Prop := -2 ^ 31 ≤ x ∧ x < 2 ^ 31

theorem toInt_of_isInt {x : Int} (isInt : IsInt x) : toInt x = x := by
  obtain ⟨low, high⟩ := isInt
  apply Int.bmod_eq_of_le
  · simpa using low
  · simpa using high

theorem isInt_toInt (x : Int) : IsInt (toInt x) := by
  constructor
  · exact Int.le_bmod (by decide)
  · exact Int.bmod_lt (by decide)

/-! ## Fields -/

/-- The width that a directive asks for. -/
def fieldWidth (size : Int) : Int := if size < 0 then toInt (-size) else size

/-- The number of characters that are written for a string of length `l`, where `room`
characters are left. -/
def fieldLength (room l : Nat) (size : Int) : Nat :=
  min (max l (fieldWidth size).toNat) (room - 1)

/-- The field that `printstr` writes. -/
def field (room : Nat) (s : List UInt8) (size : Int) : List UInt8 :=
  let n := fieldLength room s.length size
  let l := min s.length n
  let pad := List.replicate (n - l) ' '.toUInt8
  if size < 0 then s.take l ++ pad else pad ++ s.take l

theorem length_field (room : Nat) (s : List UInt8) (size : Int) :
    (field room s size).length = fieldLength room s.length size := by
  unfold field
  dsimp only
  split <;> simp

theorem fieldLength_lt {room l : Nat} {size : Int} (positive : 0 < room) :
    fieldLength room l size < room := by
  unfold fieldLength
  omega

theorem store_ok {bytes : List UInt8} {p : Int} (low : 0 ≤ p)
    (high : p + bytes.length ≤ b.size) :
    b.store p bytes = .ok { b with mem := Bytes.write b.mem p.toNat bytes } :=
  if_pos ⟨low, high⟩

theorem memmove_ok {p : Int} {l : Nat} (low : 0 ≤ p) (high : p + l ≤ b.size)
    (short : l ≤ s.length) :
    b.memmove p s l = .ok { b with mem := Bytes.write b.mem p.toNat (s.take l) } := by
  rw [Buffer.memmove, if_pos ⟨by omega, by omega⟩, Int.toNat_natCast]
  apply store_ok low
  simp only [List.length_take]
  omega

theorem memset_ok {p : Int} {c : UInt8} {l : Nat} (low : 0 ≤ p) (high : p + l ≤ b.size) :
    b.memset p c l =
      .ok { b with mem := Bytes.write b.mem p.toNat (List.replicate l c) } := by
  rw [Buffer.memset, if_pos (by omega), Int.toNat_natCast]
  apply store_ok low
  simpa using high

theorem isInt_fieldWidth (isInt : IsInt size) : IsInt (fieldWidth size) := by
  unfold fieldWidth
  split
  · exact isInt_toInt _
  · exact isInt

/-- The clamp of the field to the width and to what is left of the buffer. -/
theorem clamp_eq {room l : Nat} (isInt : IsInt size) (positive : 0 < room)
    (short : l < 2 ^ 31) :
    (if (if (l : Int) < fieldWidth size then fieldWidth size else l) ≥ room then
        toInt (room - 1)
      else if (l : Int) < fieldWidth size then fieldWidth size else l) =
      fieldLength room l size := by
  have width := (isInt_fieldWidth isInt).2
  have wide : (if (l : Int) < fieldWidth size then fieldWidth size else l) =
      (max l (fieldWidth size).toNat : Nat) := by
    split <;> omega
  rw [wide]
  unfold fieldLength
  split
  next tooLong =>
    rw [toInt_of_isInt ⟨by omega, by omega⟩]
    omega
  next fits => omega

/-- `printstr` writes one field and returns the pointer behind it. -/
theorem printstr_eq (low : 0 ≤ dst) (below : dst < edst) (high : edst ≤ b.size)
    (short : s.length < 2 ^ 31) (isInt : IsInt size) :
    printstr b dst edst s size =
      .ok ({ b with mem := Bytes.write b.mem dst.toNat (field (edst - dst).toNat s size) },
        dst + (field (edst - dst).toNat s size).length) := by
  obtain ⟨room, roomEq⟩ : ∃ room : Nat, edst - dst = room := ⟨(edst - dst).toNat, by omega⟩
  have positive : 0 < room := by omega
  have clamped := clamp_eq isInt positive short
  have cut : ((if (s.length : Int) > fieldLength room s.length size then
      (fieldLength room s.length size : Int) else s.length)) =
      (min s.length (fieldLength room s.length size) : Nat) := by
    split <;> omega
  have fits : fieldLength room s.length size < room := fieldLength_lt positive
  have lengthEq : toInt s.length = s.length := toInt_of_isInt ⟨by omega, by omega⟩
  unfold fieldWidth at clamped
  simp only [length_field, roomEq, Int.toNat_natCast]
  unfold printstr
  simp only [if_neg (Int.not_le.mpr below), lengthEq, roomEq, clamped, cut]
  unfold field
  generalize fieldLength room s.length size = n at fits
  obtain ⟨l, lEq⟩ : ∃ l, min s.length n = l := ⟨_, rfl⟩
  obtain ⟨pad, padEq⟩ : ∃ pad, n - l = pad := ⟨_, rfl⟩
  have padInt : (n : Int) - l = pad := by omega
  simp only [lEq, padEq, padInt]
  have shortL : l ≤ s.length := by omega
  have lengthL : (s.take l).length = l := by
    rw [List.length_take]
    omega
  by_cases left : size < 0
  · have moved := memmove_ok (b := b) low (by omega : dst + l ≤ b.size) shortL
    simp only [if_pos left, moved, Outcome.ok_bind]
    rw [if_pos (by decide)]
    by_cases none : pad = 0
    · subst none
      simp only [List.replicate_zero, List.append_nil]
      rfl
    · rw [if_pos (by omega), memset_ok (by omega) (by dsimp only; omega)]
      simp only [Outcome.ok_bind]
      have behind : (dst + l).toNat = dst.toNat + (s.take l).length := by omega
      rw [behind, Bytes.write_append]
      rfl
  · simp only [if_neg left]
    rw [if_neg (by decide)]
    by_cases none : pad = 0
    · have start : dst + (n : Int) - l = dst := by omega
      subst none
      simp [start, memmove_ok low (by omega : dst + l ≤ b.size) shortL, Outcome.ok_bind]
    · rw [if_pos (by omega), memset_ok low (by omega)]
      simp only [Outcome.ok_bind]
      rw [memmove_ok (by omega) (by dsimp only; omega) shortL]
      have behind : (dst + n - l).toNat =
          dst.toNat + (List.replicate pad ' '.toUInt8).length := by
        rw [List.length_replicate]
        omega
      simp only [Outcome.ok_bind, behind, Bytes.write_append]
      rfl

/-! ## Numbers -/

theorem digits_getElem? : ∀ d < 16, digits[d]? = some (Strtoul.digitChar d) := by decide

/-- The loop writes the digits in front of what is in the array. -/
theorem pushDigits_eq {base fuel luv : Nat} {d : DigitBuf} (more : 1 < base) (few : base ≤ 16)
    (enough : (Nat.digits base luv).length ≤ fuel)
    (fits : (Nat.digits base luv).length ≤ d.room) :
    pushDigits base fuel luv d = .ok
      { room := d.room - (Nat.digits base luv).length
        text := Strtoul.digits base luv ++ d.text } := by
  induction fuel generalizing luv d with
  | zero =>
      have none : Nat.digits base luv = [] := List.eq_nil_of_length_eq_zero (by omega)
      obtain rfl : luv = 0 := Nat.digits_eq_nil_iff_eq_zero.mp none
      simp [pushDigits, Strtoul.digits]
  | succ fuel ih =>
      cases luv with
      | zero => simp [pushDigits, Strtoul.digits]
      | succ luv =>
          have parts := Nat.digits_eq_cons_digits_div more (Nat.succ_ne_zero luv)
          rw [parts, List.length_cons] at enough fits
          obtain ⟨room, text⟩ := d
          obtain ⟨room, rfl⟩ : ∃ room', room = room' + 1 := ⟨room - 1, by dsimp only at fits; omega⟩
          have small : (luv + 1) % base < 16 :=
            Nat.lt_of_lt_of_le (Nat.mod_lt _ (by omega)) few
          simp only [pushDigits, digits_getElem? _ small, Option.getD_some, DigitBuf.push,
            Outcome.ok_bind]
          rw [ih (by omega) (by dsimp only at fits ⊢; omega)]
          simp [Strtoul.digits, parts]

/-- The value whose digits are printed. -/
def Arg.magnitude (arg : Arg) (fl : Flags) : Nat :=
  (if ¬fl.unsigned ∧ (arg.luv fl).toInt < 0 then -arg.luv fl else arg.luv fl).toNat

/-- The string that is made for a number. -/
def numText (base n : Nat) : List UInt8 :=
  (if base = 8 ∨ n = 0 then ['0'.toUInt8] else []) ++
    ((if base = 16 then ['0'.toUInt8, 'x'.toUInt8] else []) ++ Strtoul.digits base n)

/-- The bases of the verbs. -/
def IsBase (base : Nat) : Prop := base = 8 ∨ base = 10 ∨ base = 16

theorem length_digits_le {base n : Nat} (isBase : IsBase base) (fits : n < 2 ^ 64) :
    (Nat.digits base n).length ≤ 22 := by
  rcases isBase with rfl | rfl | rfl
  · exact (Nat.digits_length_le_iff (by decide) n).mpr (by omega)
  · exact (Nat.digits_length_le_iff (by decide) n).mpr (by omega)
  · exact (Nat.digits_length_le_iff (by decide) n).mpr (by omega)

theorem length_numText_le {base n : Nat} (isBase : IsBase base) (fits : n < 2 ^ 64) :
    (numText base n).length ≤ 25 := by
  have digits := length_digits_le isBase fits
  have length : (Strtoul.digits base n).length = (Nat.digits base n).length := by
    simp [Strtoul.digits]
  unfold numText
  simp only [List.length_append, length]
  split <;> split <;> simp <;> omega

/-- The conversion of a number stays in its array of 30 bytes. -/
theorem num_eq {fl : Flags} {base : Nat} {arg : Arg} (isBase : IsBase base) :
    num fl base arg = .ok (numText base (arg.magnitude fl)) := by
  have more : 1 < base := by
    rcases isBase with rfl | rfl | rfl <;> decide
  have few : base ≤ 16 := by
    rcases isBase with rfl | rfl | rfl <;> decide
  unfold num Arg.magnitude
  dsimp only
  generalize (if ¬fl.unsigned ∧ (arg.luv fl).toInt < 0 then -arg.luv fl else arg.luv fl) = luv
  have length := length_digits_le isBase luv.isLt
  have zero : luv = 0 ↔ luv.toNat = 0 := by
    rw [← BitVec.toNat_inj]
    rfl
  have started : DigitBuf.push { room := 30, text := [] } 0 = .ok { room := 29, text := [0] } :=
    rfl
  have enough : (Nat.digits base luv.toNat).length ≤ 64 := by omega
  have pushed := pushDigits_eq (d := { room := 29, text := [] }) more few enough
    (by dsimp only; omega)
  rw [started, Outcome.ok_bind, pushed]
  obtain ⟨room, roomEq⟩ : ∃ room, 29 - (Nat.digits base luv.toNat).length = room + 3 :=
    ⟨29 - (Nat.digits base luv.toNat).length - 3, by omega⟩
  simp only [Outcome.ok_bind, roomEq, List.append_nil, zero]
  unfold numText
  by_cases hex : base = 16
  · simp only [if_pos hex, DigitBuf.push, Outcome.ok_bind]
    split
    · rfl
    · rfl
  · simp only [if_neg hex, DigitBuf.push, Outcome.ok_bind]
    split
    · rfl
    · rfl

/-! ## Formats -/

/-- What may stand between the `%` and the verb. -/
def isFlag (c : UInt8) : Bool :=
  c == '-'.toUInt8 || (decide ('0'.toUInt8 ≤ c) && decide (c ≤ '9'.toUInt8)) ||
    c == 'l'.toUInt8 || c == 'u'.toUInt8

/-- No directive is cut off by the end of the format; `inside` tells that one has begun. -/
def uncut : Bool → List UInt8 → Bool
  | inside, [] => !inside
  | false, c :: p => uncut (c == '%'.toUInt8) p
  | true, c :: p => uncut (isFlag c) p

/-- A flag is read, and any other character is the verb. -/
theorem directive_cons (fl : Flags) (size sign : Int) (c : UInt8) :
    (isFlag c = true ∧ ∃ fl' size' sign', ∀ p,
      directive fl size sign (c :: p) = directive fl' size' sign' p) ∨
    (isFlag c = false ∧ ∀ p,
      directive fl size sign (c :: p) = some (fl, toInt (size * sign), c, p)) := by
  by_cases isMinus : c = '-'.toUInt8
  · left
    exact ⟨by simp [isFlag, isMinus], _, _, _, fun p => by rw [directive, if_pos isMinus]⟩
  by_cases isDigit : '0'.toUInt8 ≤ c ∧ c ≤ '9'.toUInt8
  · left
    exact ⟨by simp [isFlag, isDigit], _, _, _, fun p => by
      rw [directive, if_neg isMinus, if_pos isDigit]⟩
  by_cases isLong : c = 'l'.toUInt8
  · left
    exact ⟨by simp [isFlag, isLong], _, _, _, fun p => by
      rw [directive, if_neg isMinus, if_neg isDigit, if_pos isLong]⟩
  by_cases isUnsigned : c = 'u'.toUInt8
  · left
    exact ⟨by simp [isFlag, isUnsigned], _, _, _, fun p => by
      rw [directive, if_neg isMinus, if_neg isDigit, if_neg isLong, if_pos isUnsigned]⟩
  · right
    refine ⟨by simpa [isFlag, isMinus, isLong, isUnsigned] using isDigit, fun p => ?_⟩
    rw [directive, if_neg isMinus, if_neg isDigit, if_neg isLong, if_neg isUnsigned]

/-- A directive that is not cut off has a verb. -/
theorem directive_ok (fl : Flags) (size sign : Int) {p : List UInt8}
    (whole : uncut true p = true) :
    ∃ fl' size' verb rest, directive fl size sign p = some (fl', size', verb, rest) ∧
      IsInt size' ∧ uncut false rest = true ∧ verb :: rest <:+ p := by
  induction p generalizing fl size sign with
  | nil => cases whole
  | cons c p ih =>
      rw [uncut] at whole
      rcases directive_cons fl size sign c with
        ⟨flag, fl', size', sign', step⟩ | ⟨isVerb, ended⟩
      · rw [flag] at whole
        obtain ⟨fl'', size'', verb, rest, found, isInt, whole', suffix'⟩ :=
          ih fl' size' sign' whole
        rw [step]
        exact ⟨fl'', size'', verb, rest, found, isInt, whole',
          suffix'.trans (List.suffix_cons c p)⟩
      · rw [isVerb] at whole
        exact ⟨_, _, c, p, ended p, isInt_toInt _, whole, List.suffix_refl _⟩

/-- What is printed for a verb is a string, which is long only if one that was passed is. -/
theorem verbText_ok {strerror : List UInt8} {fl : Flags} {verb : UInt8} {arg : Arg}
    {text : Except PrintFault (List UInt8)} (known : verbText strerror fl verb arg = some text) :
    ∃ s, text = .ok s ∧
      (arg.str.length < 2 ^ 31 → strerror.length < 2 ^ 31 → s.length < 2 ^ 31) := by
  have number : ∀ {base}, IsBase base → ∃ s, num fl base arg = .ok s ∧
      (arg.str.length < 2 ^ 31 → strerror.length < 2 ^ 31 → s.length < 2 ^ 31) := by
    intro base isBase
    have length := length_numText_le isBase (n := arg.magnitude fl) (BitVec.isLt _)
    exact ⟨_, num_eq isBase, fun _ _ => by omega⟩
  unfold verbText at known
  split at known
  · obtain rfl := Option.some.inj known
    exact number (by simp [IsBase])
  split at known
  · obtain rfl := Option.some.inj known
    exact number (by simp [IsBase])
  split at known
  · obtain rfl := Option.some.inj known
    exact number (by simp [IsBase])
  split at known
  · obtain rfl := Option.some.inj known
    refine ⟨_, rfl, fun _ _ => ?_⟩
    split <;> simp
  split at known
  · obtain rfl := Option.some.inj known
    exact ⟨_, rfl, fun string _ => string⟩
  split at known
  · obtain rfl := Option.some.inj known
    exact ⟨_, rfl, fun _ error => error⟩
  · cases known

/-! ## Turns of the loop -/

section

variable {strerror p q : List UInt8} {arg : Nat → Arg} {w : Int} {fuel ap : Nat} {c verb : UInt8}
  {fl : Flags}

/-- The loop stops where there is no room for another character. -/
theorem vseprintLoop_full (full : ¬w < edst - 1) :
    vseprintLoop strerror arg edst fuel b w p ap = .ok (b, w) := by
  cases p with
  | nil => cases fuel <;> rfl
  | cons c p =>
      unfold vseprintLoop
      rw [if_neg full]

/-- A character that is no `%` is stored. -/
theorem vseprintLoop_literal (literal : c ≠ '%'.toUInt8) (room : w < edst - 1) :
    vseprintLoop strerror arg edst (fuel + 1) b w (c :: p) ap =
      b.store w [c] >>= fun b => vseprintLoop strerror arg edst fuel b (w + 1) p ap := by
  conv_lhs => unfold vseprintLoop
  rw [if_pos room]
  simp only [if_pos literal]

/-- A directive with a known verb hands its string to `printstr`. -/
theorem vseprintLoop_percent (found : directive {} 0 1 q = some (fl, size, verb, p))
    (known : verbText strerror fl verb (arg ap) = some (.ok s)) (room : w < edst - 1) :
    vseprintLoop strerror arg edst (fuel + 1) b w ('%'.toUInt8 :: q) ap =
      printstr b w edst s size >>= fun r => vseprintLoop strerror arg edst fuel r.1 r.2 p
        (if verb = 'r'.toUInt8 then ap else ap + 1) := by
  conv_lhs => unfold vseprintLoop
  rw [if_pos room]
  simp only [ne_eq, not_true_eq_false, if_false, found, known, Outcome.ok_bind]

/-- With an unknown verb, the text for it takes the place of the rest of the format. -/
theorem vseprintLoop_unknown (found : directive {} 0 1 q = some (fl, size, verb, p))
    (unknown : verbText strerror fl verb (arg ap) = none) (room : w < edst - 1) :
    vseprintLoop strerror arg edst (fuel + 1) b w ('%'.toUInt8 :: q) ap =
      vseprintLoop strerror arg edst fuel b w badVerb.tail ap := by
  conv_lhs => unfold vseprintLoop
  rw [if_pos room]
  simp only [ne_eq, not_true_eq_false, if_false, found, unknown]

/-- A directive that is cut off leads behind the NUL. -/
theorem vseprintLoop_cutOff (cut : directive {} 0 1 q = none) (room : w < edst - 1) :
    vseprintLoop strerror arg edst (fuel + 1) b w ('%'.toUInt8 :: q) ap = .error .format := by
  conv_lhs => unfold vseprintLoop
  rw [if_pos room]
  simp only [ne_eq, not_true_eq_false, if_false, cut]

end

/-! ## The loop -/

/-- A number of turns after which the loop is at the end of the format.  The text `*verb*`,
which is six characters long, takes the place of an unknown verb and of all that follows. -/
def turns (p : List UInt8) : Nat := p.length + if '%'.toUInt8 ∈ p then 6 else 0

/-- `vseprint` gives the loop enough fuel. -/
theorem turns_le_fuel (fmt : List UInt8) : turns fmt ≤ fmt.length + 7 := by
  unfold turns
  split <;> omega

theorem turns_le {p q : List UInt8} (suffix' : p <:+ q) :
    turns p + (q.length - p.length) ≤ turns q := by
  have length := suffix'.length_le
  unfold turns
  by_cases member : '%'.toUInt8 ∈ p
  · rw [if_pos member, if_pos (suffix'.subset member)]
    omega
  · rw [if_neg member]
    omega

/-- What was written from `w` on, with room for one more byte in front of `edst`. -/
structure Wrote (w edst : Int) (b b' : Buffer) (w' : Int) : Prop where
  size : b'.size = b.size
  forward : w ≤ w'
  below : w' < edst
  outside : ∀ a : Nat, a < w ∨ edst ≤ a → b'.mem a = b.mem a

theorem Wrote.trans {w w₁ w₂ : Int} {b₁ b₂ : Buffer} (first : Wrote w edst b b₁ w₁)
    (second : Wrote w₁ edst b₁ b₂ w₂) : Wrote w edst b b₂ w₂ where
  size := second.size.trans first.size
  forward := first.forward.trans second.forward
  below := second.below
  outside a out := by
    have forward := first.forward
    rw [second.outside a (by omega), first.outside a out]

theorem Wrote.refl {w : Int} (b : Buffer) (below : w < edst) : Wrote w edst b b w :=
  ⟨rfl, Int.le_refl w, below, fun _ _ => rfl⟩

theorem wrote_bytes {w : Int} {bytes : List UInt8} (low : 0 ≤ w)
    (fits : w + bytes.length < edst) :
    Wrote w edst b { b with mem := Bytes.write b.mem w.toNat bytes } (w + bytes.length) where
  size := rfl
  forward := by omega
  below := fits
  outside a out := by
    rcases out with before | behind
    · exact Bytes.write_of_lt _ _ (by omega)
    · exact Bytes.write_of_ge _ _ (by omega)

/-- A character of the format. -/
theorem store_wrote {w : Int} (c : UInt8) (low : 0 ≤ w) (room : w < edst - 1)
    (high : edst ≤ b.size) : ∃ b', b.store w [c] = .ok b' ∧ Wrote w edst b b' (w + 1) := by
  have length : (([c] : List UInt8).length : Int) = 1 := rfl
  have wrote : Wrote w edst b { b with mem := Bytes.write b.mem w.toNat [c] } (w + 1) :=
    wrote_bytes low (by omega)
  exact ⟨_, store_ok low (by omega), wrote⟩

/-- `printstr` stays between `dst` and `edst`, and leaves room for one more byte. -/
theorem printstr_wrote (low : 0 ≤ dst) (below : dst < edst) (high : edst ≤ b.size)
    (short : s.length < 2 ^ 31) (isInt : IsInt size) :
    ∃ b' w, printstr b dst edst s size = .ok (b', w) ∧ Wrote dst edst b b' w := by
  refine ⟨_, _, printstr_eq low below high short isInt, wrote_bytes low ?_⟩
  have positive : 0 < (edst - dst).toNat := by omega
  have length : fieldLength (edst - dst).toNat s.length size < (edst - dst).toNat :=
    fieldLength_lt positive
  rw [length_field]
  omega

/-- The text of an unknown verb takes fewer turns than a format with a directive. -/
theorem turns_badVerb (p : List UInt8) : turns badVerb.tail < turns ('%'.toUInt8 :: p) := by
  have bad : turns badVerb.tail = 6 := by decide
  have percent : turns ('%'.toUInt8 :: p) = p.length + 1 + 6 := by simp [turns]
  omega

theorem vseprintLoop_wrote {strerror : List UInt8} {arg : Nat → Arg} {fuel : Nat} {w : Int}
    {p : List UInt8} (ap : Nat) (strings : ∀ i, (arg i).str.length < 2 ^ 31)
    (error : strerror.length < 2 ^ 31) (low : 0 ≤ w) (below : w < edst) (high : edst ≤ b.size)
    (whole : uncut false p = true) (enough : turns p ≤ fuel) :
    ∃ b' w', vseprintLoop strerror arg edst fuel b w p ap = .ok (b', w') ∧
      Wrote w edst b b' w' := by
  induction fuel generalizing b w p ap with
  | zero =>
      cases p with
      | nil => exact ⟨b, w, rfl, .refl b below⟩
      | cons c p =>
          simp only [turns, List.length_cons] at enough
          omega
  | succ fuel ih =>
      cases p with
      | nil => exact ⟨b, w, rfl, .refl b below⟩
      | cons c p =>
          have fewer := turns_le (List.suffix_cons c p)
          simp only [List.length_cons, Nat.add_sub_cancel_left] at fewer
          by_cases room : w < edst - 1
          · by_cases literal : c ≠ '%'.toUInt8
            · -- a character of the format
              obtain ⟨b₁, stored, wrote⟩ := store_wrote c low room high
              rw [vseprintLoop_literal literal room, stored, Outcome.ok_bind]
              have whole' : uncut false p = true := by
                rw [uncut, beq_eq_false_iff_ne.mpr literal] at whole
                exact whole
              obtain ⟨b', w', done, wrote'⟩ := ih ap (by omega) wrote.below
                (by rw [wrote.size]; exact high) whole' (by omega)
              exact ⟨b', w', done, wrote.trans wrote'⟩
            · -- a directive
              obtain rfl : c = '%'.toUInt8 := not_not.mp literal
              have whole' : uncut true p = true := by
                rw [uncut, beq_self_eq_true] at whole
                exact whole
              obtain ⟨fl, size, verb, rest, found, isInt, wholeRest, suffix'⟩ :=
                directive_ok {} 0 1 whole'
              have length := suffix'.length_le
              rw [List.length_cons] at length
              cases known : verbText strerror fl verb (arg ap) with
              | some text =>
                  obtain ⟨s, rfl, short⟩ := verbText_ok known
                  obtain ⟨b₁, w₁, printed, wrote⟩ :=
                    printstr_wrote low below high (short (strings ap) error) isInt
                  have fewer' := turns_le ((List.suffix_cons verb rest).trans suffix')
                  rw [vseprintLoop_percent found known room, printed, Outcome.ok_bind]
                  obtain ⟨b', w', done, wrote'⟩ := ih
                    (if verb = 'r'.toUInt8 then ap else ap + 1) (low.trans wrote.forward)
                    wrote.below (by rw [wrote.size]; exact high) wholeRest (by omega)
                  exact ⟨b', w', done, wrote.trans wrote'⟩
              | none =>
                  have fewer' := turns_badVerb p
                  rw [vseprintLoop_unknown found known room]
                  exact ih ap low below high (by decide) (by omega)
          · rw [vseprintLoop_full room]
            exact ⟨b, w, rfl, .refl b below⟩

/-! ## The whole -/

theorem vsnprint_ok {strerror : List UInt8} {n : Nat} {mem : Bytes.Memory} {fmt : List UInt8}
    {arg : Nat → Arg} (positive : 1 ≤ n) (whole : uncut false fmt = true)
    (strings : ∀ i, (arg i).str.length < 2 ^ 31) (error : strerror.length < 2 ^ 31) :
    ∃ b, vsnprint strerror n mem fmt arg = .ok b ∧ (∀ a, n ≤ a → b.mem a = mem a) ∧
      ∃ i, i < n ∧ b.mem i = 0 := by
  have enough := turns_le_fuel fmt
  obtain ⟨b, w, done, wrote⟩ : ∃ b w,
      vseprintLoop strerror arg n (fmt.length + 7) { size := n, mem } 0 fmt 0 = .ok (b, w) ∧
        Wrote 0 n { size := n, mem } b w :=
    vseprintLoop_wrote 0 strings error (Int.le_refl 0) (by omega) (Int.le_refl _) whole enough
  have forward := wrote.forward
  have below := wrote.below
  have size : b.size = n := wrote.size
  have stored : b.store w [0] = .ok { b with mem := Bytes.write b.mem w.toNat [0] } :=
    store_ok forward (by simp only [size, List.length_singleton]; omega)
  refine ⟨{ b with mem := Bytes.write b.mem w.toNat [0] }, ?_, fun a outside => ?_, w.toNat,
    by omega, ?_⟩
  · rw [vsnprint, vseprint, done, Outcome.ok_bind]
    simp only [if_pos below]
    exact stored
  · dsimp only
    rw [Bytes.write_of_ge _ _ (by simp only [List.length_singleton]; omega)]
    exact wrote.outside a (Or.inr (by omega))
  · simp [Bytes.write]

/-- If no directive is cut off and all strings are shorter than `2 ^ 31`, the formatter writes
only inside of its buffer, its assertion holds, and the result is terminated there, for every
width.  `printstr` returns a pointer that leaves room for the NUL, and the conversion of a
number stays in its array. -/
theorem print_safe :
    (∀ (strerror : List UInt8) (n : Nat) (mem : Bytes.Memory) (fmt : List UInt8)
      (arg : Nat → Arg), 1 ≤ n → uncut false fmt = true →
      (∀ i, (arg i).str.length < 2 ^ 31) → strerror.length < 2 ^ 31 →
      ∃ b, vsnprint strerror n mem fmt arg = .ok b ∧ (∀ a, n ≤ a → b.mem a = mem a) ∧
        ∃ i, i < n ∧ b.mem i = 0) ∧
    (∀ (strerror : List UInt8) (mem : Bytes.Memory) (fmt : List UInt8) (arg : Nat → Arg),
      uncut false fmt = true → (∀ i, (arg i).str.length < 2 ^ 31) → strerror.length < 2 ^ 31 →
      ∃ b, taskstate strerror mem fmt arg = .ok b ∧ ∃ i, i < 256 ∧ b.mem i = 0) ∧
    (∀ (b : Buffer) (dst edst size : Int) (s : List UInt8), 0 ≤ dst → dst < edst →
      edst ≤ b.size → s.length < 2 ^ 31 → IsInt size →
      ∃ b' w, printstr b dst edst s size = .ok (b', w) ∧ dst ≤ w ∧ w ≤ edst - 1 ∧
        ∀ a : Nat, a < dst ∨ edst ≤ a → b'.mem a = b.mem a) ∧
    ∀ (fl : Flags) (base : Nat) (arg : Arg), base = 8 ∨ base = 10 ∨ base = 16 →
      ∃ s, num fl base arg = .ok s := by
  refine ⟨?_, ?_, ?_, ?_⟩
  · intro strerror n mem fmt arg positive whole strings error
    exact vsnprint_ok positive whole strings error
  · intro strerror mem fmt arg whole strings error
    obtain ⟨b, done, -, terminated⟩ := vsnprint_ok (n := 256) (by decide) whole strings error
    exact ⟨b, done, terminated⟩
  · intro b dst edst size s low below high short isInt
    obtain ⟨b', w, done, wrote⟩ := printstr_wrote low below high short isInt
    have last := wrote.below
    exact ⟨b', w, done, wrote.forward, by omega, wrote.outside⟩
  · intro fl base arg isBase
    exact ⟨_, num_eq isBase⟩

/-- A field that is wider than the buffer of four bytes, whose width was `2 ^ 32 + 5`. -/
theorem print_safe_wide : ∃ b, vsnprint [] 4 (fun _ => 1)
    (['%', '4', '2', '9', '4', '9', '6', '7', '3', '0', '1', 'd'].map Char.toUInt8)
    (fun _ => {}) = .ok b ∧ b.mem 4 = 1 ∧ ∃ i, i < 4 ∧ b.mem i = 0 := by
  obtain ⟨b, done, outside, terminated⟩ := print_safe.1 [] 4 (fun _ => 1)
    (['%', '4', '2', '9', '4', '9', '6', '7', '3', '0', '1', 'd'].map Char.toUInt8) (fun _ => {})
    (by decide) (by decide) (by simp) (by decide)
  exact ⟨b, done, outside 4 (by decide), terminated⟩

end Libtask
