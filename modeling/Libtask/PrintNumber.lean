import Libtask.PrintText

/-!
# Numbers as text

How the text that a directive leaves for a number compares with the number.
-/

namespace Libtask

open Strtoul (Constant Number Numeral decimal natValue)

variable {strerror : List UInt8} {n : Nat} {m : Bytes.Memory} {letters s text : List UInt8}
  {verb : UInt8} {arg : Nat → Arg} {fl : Flags}

/-! ## The value of an argument -/

/-- The number that was passed, in the type that the flags select. -/
def Arg.value (arg : Arg) (fl : Flags) : Int :=
  match fl.longLong || fl.long, fl.unsigned with
  | true, true => arg.word.toNat
  | true, false => arg.word.toInt
  | false, true => (arg.word.setWidth 32).toNat
  | false, false => (arg.word.setWidth 32).toInt

theorem toNat_abs (x : BitVec 64) :
    (if x.toInt < 0 then -x else x).toNat = x.toInt.natAbs := by
  have small := x.isLt
  have value : x.toInt = if 2 * x.toNat < 2 ^ 64 then (x.toNat : Int) else x.toNat - 2 ^ 64 :=
    BitVec.toInt_eq_toNat_cond x
  split
  next negative =>
    rw [BitVec.toNat_neg]
    split at value <;> omega
  next nonneg => split at value <;> omega

/-- The code takes the absolute value, also of the least number of a type. -/
theorem Arg.magnitude_eq (arg : Arg) (fl : Flags) :
    arg.magnitude fl = (arg.value fl).natAbs := by
  obtain ⟨long, longLong, unsigned⟩ := fl
  cases unsigned with
  | false =>
      have abs := toNat_abs (arg.luv { long, longLong, unsigned := false })
      have same : (arg.luv { long, longLong, unsigned := false }).toInt =
          arg.value { long, longLong, unsigned := false } := by
        cases longLong <;> cases long <;>
          simp only [Arg.luv, Arg.value, Bool.or_self, Bool.or_false, Bool.or_true] <;>
          first
          | rfl
          | exact BitVec.toInt_signExtend_of_le (by decide)
      rw [← same, ← abs]
      simp [Arg.magnitude]
  | true =>
      have small := (arg.word.setWidth 32).isLt
      have narrow : ((arg.word.setWidth 32).setWidth 64).toNat = (arg.word.setWidth 32).toNat := by
        rw [BitVec.toNat_setWidth]
        exact Nat.mod_eq_of_lt (by omega)
      cases longLong <;> cases long
      · exact narrow
      all_goals rfl

/-! ## Strings in a buffer -/

/-- The directive leaves `text`, as a string, at the start of a buffer of `n` bytes. -/
def Prints (strerror : List UInt8) (n : Nat) (m : Bytes.Memory) (letters : List UInt8)
    (verb : UInt8) (arg : Nat → Arg) (text : List UInt8) : Prop :=
  ∃ b, vsnprint strerror n m ('%'.toUInt8 :: (letters ++ [verb])) arg = .ok b ∧
    Bytes.read b.mem 0 (text.length + 1) = text ++ [0]

/-- A string in memory ends at its first NUL. -/
theorem string_unique {mem : Bytes.Memory} {p : Nat} {s text : List UInt8}
    (first : Bytes.read mem p (s.length + 1) = s ++ [0])
    (second : Bytes.read mem p (text.length + 1) = text ++ [0])
    (noNul : (0 : UInt8) ∉ s) (noNul' : (0 : UInt8) ∉ text) : text = s := by
  have byte {s : List UInt8} (string : Bytes.read mem p (s.length + 1) = s ++ [0]) (i : Nat)
      (inString : i < s.length + 1) : (s ++ [0])[i]? = some (mem (p + i)) := by
    rw [← string]
    simp [Bytes.read, inString]
  have ends {s text : List UInt8} (first : Bytes.read mem p (s.length + 1) = s ++ [0])
      (second : Bytes.read mem p (text.length + 1) = text ++ [0])
      (noNul : (0 : UInt8) ∉ s) : s.length ≤ text.length := by
    by_contra longer
    have inS : text.length < s.length := Nat.not_le.mp longer
    have atEnd := byte second text.length (Nat.lt_succ_self _)
    have inside := byte first text.length (by omega)
    rw [List.getElem?_append_left inS] at inside
    simp only [List.getElem?_concat_length, Option.some.injEq] at atEnd
    exact noNul (List.mem_of_getElem? (inside.trans (congrArg some atEnd.symm)))
  have length : text.length = s.length :=
    Nat.le_antisymm (ends second first noNul') (ends first second noNul)
  rw [length] at second
  exact List.append_cancel_right (second.symm.trans first)

theorem prints_written (result : vsnprint strerror n m ('%'.toUInt8 :: (letters ++ [verb])) arg =
    .ok (written n m (s ++ [0]))) : Prints strerror n m letters verb arg s :=
  ⟨_, result, read_written n m s⟩

/-- What a directive prints is one string. -/
theorem Prints.unique (first : Prints strerror n m letters verb arg s)
    (second : Prints strerror n m letters verb arg text) (noNul : (0 : UInt8) ∉ s)
    (noNul' : (0 : UInt8) ∉ text) : text = s := by
  obtain ⟨b, result, string⟩ := first
  obtain ⟨b', result', string'⟩ := second
  obtain rfl : b = b' := Except.ok.inj (result.symm.trans result')
  exact string_unique string string' noNul noNul'

/-! ## What is printed for a number -/

/-- The verbs of numbers, with their bases. -/
inductive NumberVerb : UInt8 → Nat → Prop where
  | d : NumberVerb 'd'.toUInt8 10
  | o : NumberVerb 'o'.toUInt8 8
  | x : NumberVerb 'x'.toUInt8 16
  | p : NumberVerb 'p'.toUInt8 16

/-- The text is made of the absolute value alone. -/
theorem prints_number {base : Nat} (isVerb : NumberVerb verb base)
    (noWidth : ∀ c ∈ letters, IsLetter c)
    (large : (numText base ((arg 0).value (readFlags {} letters)).natAbs).length < n)
    (room : 1 < n) :
    Prints strerror n m letters verb arg
      (numText base ((arg 0).value (readFlags {} letters)).natAbs) := by
  rw [← Arg.magnitude_eq] at large ⊢
  have isBase : IsBase base := by
    cases isVerb <;> simp [IsBase]
  have known : verbText strerror (readFlags {} letters) verb (arg 0) =
      some (.ok (numText base ((arg 0).magnitude (readFlags {} letters)))) := by
    rw [← num_eq isBase]
    cases isVerb <;> rfl
  have notFlag : isFlag verb = false := by
    cases isVerb <;> rfl
  have short : (numText base ((arg 0).magnitude (readFlags {} letters))).length ≤ 25 :=
    length_numText_le isBase (BitVec.isLt _)
  exact prints_written (vsnprint_directive noWidth notFlag known (by omega) large room)

/-! ## Decimal -/

/-- The canonical text of a number. -/
def decimalText (v : Int) : List UInt8 :=
  (if v < 0 then ['-'.toUInt8] else []) ++ decimal v.natAbs

theorem zero_notMem_decimalText (v : Int) : (0 : UInt8) ∉ decimalText v := by
  have sign : (0 : UInt8) ∉ if v < 0 then ['-'.toUInt8] else [] := by
    split <;> decide
  simp [decimalText, sign, zero_notMem_decimal]

/-- The text reads back as the number, so that it belongs to no other. -/
theorem decimalText_numeral (v : Int) :
    ∃ number, Numeral (decimalText v) number ∧ number.value = v := by
  obtain ⟨base, constant, value⟩ := Strtoul.decimal_constant v.natAbs
  rw [decimalText]
  split
  next negative =>
    have numeral : Numeral ([] ++ ['-'.toUInt8] ++ decimal v.natAbs)
        ⟨true, base, decimal v.natAbs⟩ := .mk (by simp) .minus constant
    refine ⟨_, numeral, ?_⟩
    simp only [Number.value, Number.magnitude, value, if_true]
    omega
  next nonneg =>
    refine ⟨_, constant.numeral, ?_⟩
    simp only [Number.value, Number.magnitude, value, Bool.false_eq_true, if_false]
    omega

/-- `%d` writes the text of the number that was passed, which reads back as it. -/
def PrintsDecimal (strerror : List UInt8) (n : Nat) (m : Bytes.Memory) (letters : List UInt8)
    (arg : Nat → Arg) (v : Int) : Prop :=
  ∃ text number, Prints strerror n m letters 'd'.toUInt8 arg text ∧ text = decimalText v ∧
    Numeral text number ∧ number.value = v

theorem length_decimalText (v : Int) : (decimal v.natAbs).length ≤ (decimalText v).length ∧
    (v < 0 → (decimal v.natAbs).length < (decimalText v).length) := by
  unfold decimalText
  split <;> simp_all

theorem prints_decimal (noWidth : ∀ c ∈ letters, IsLetter c)
    (large : (decimalText ((arg 0).value (readFlags {} letters))).length < n) :
    Prints strerror n m letters 'd'.toUInt8 arg
      (decimal ((arg 0).value (readFlags {} letters)).natAbs) := by
  have shorter := (length_decimalText ((arg 0).value (readFlags {} letters))).1
  have positive := List.length_pos_iff.mpr
    (Strtoul.decimal_ne_nil ((arg 0).value (readFlags {} letters)).natAbs)
  rw [← numText_decimal]
  exact prints_number .d noWidth (by rw [numText_decimal]; omega) (by omega)

/-- The sign is not printed. -/
theorem not_printsDecimal_of_neg (noWidth : ∀ c ∈ letters, IsLetter c)
    (large : (decimalText ((arg 0).value (readFlags {} letters))).length < n)
    (negative : (arg 0).value (readFlags {} letters) < 0) :
    ¬ PrintsDecimal strerror n m letters arg ((arg 0).value (readFlags {} letters)) := by
  rintro ⟨text, number, printed, rfl, -⟩
  have same := (prints_decimal noWidth large).unique printed (zero_notMem_decimal _)
    (zero_notMem_decimalText _)
  have longer := (length_decimalText ((arg 0).value (readFlags {} letters))).2 negative
  rw [same] at longer
  exact Nat.lt_irrefl _ longer

theorem printsDecimal_iff (noWidth : ∀ c ∈ letters, IsLetter c)
    (large : (decimalText ((arg 0).value (readFlags {} letters))).length < n) :
    PrintsDecimal strerror n m letters arg ((arg 0).value (readFlags {} letters)) ↔
      0 ≤ (arg 0).value (readFlags {} letters) := by
  constructor
  · intro printed
    by_contra negative
    exact not_printsDecimal_of_neg noWidth large (Int.not_le.mp negative) printed
  · intro nonneg
    obtain ⟨number, numeral, value⟩ := decimalText_numeral ((arg 0).value (readFlags {} letters))
    refine ⟨_, number, ?_, rfl, numeral, value⟩
    rw [decimalText, if_neg (Int.not_lt.mpr nonneg)]
    exact prints_decimal noWidth large

/-- `%lud`, with the largest `ulong`. -/
theorem printsDecimal_max :
    PrintsDecimal [] 30 (fun _ => 1) ['l'.toUInt8, 'u'.toUInt8] (fun _ => { word := -1 })
      18446744073709551615 :=
  (@printsDecimal_iff [] 30 (fun _ => 1) ['l'.toUInt8, 'u'.toUInt8] (fun _ => { word := -1 })
    (by simp [IsLetter]) (by decide)).mpr (by decide)

/-- `%d` with -1 leaves `1`. -/
theorem minus_one_printed :
    ¬ PrintsDecimal [] 30 (fun _ => 1) [] (fun _ => { word := -1 }) (-1) :=
  @not_printsDecimal_of_neg [] 30 (fun _ => 1) [] (fun _ => { word := -1 }) (by simp)
    (by decide) (by decide)

/-! ## Octal and hexadecimal -/

/-- The literal of a number, in octal or with `0x` in front. -/
def literalText (base v : Nat) : List UInt8 :=
  if base = 8 then '0'.toUInt8 :: Strtoul.digits 8 v
  else '0'.toUInt8 :: 'x'.toUInt8 :: if v = 0 then ['0'.toUInt8] else Strtoul.digits 16 v

/-- A literal of the base that `strtoul` takes as a whole, and that denotes `v`. -/
structure IsLiteral (base v : Nat) (text : List UInt8) : Prop where
  constant : ∃ ds, Constant text base ds ∧ natValue base ds = v
  consumed : Strtoul.strtoul text = (BitVec.ofNat 64 v, [])

theorem Constant.isLiteral {base v : Nat} {ds : List UInt8} (constant : Constant text base ds)
    (value : natValue base ds = v) (fits : v < 2 ^ 64) : IsLiteral base v text where
  constant := ⟨ds, constant, value⟩
  consumed := by
    have scanned := Strtoul.scan_complete constant.numeral Strtoul.stops_nil
    rw [List.append_nil] at scanned
    rw [Strtoul.strtoul, scanned]
    simp only [Number.toULong, Number.value, Number.magnitude, value, if_pos fits]
    simp

theorem IsLiteral.zero_notMem {base v : Nat} (literal : IsLiteral base v text) :
    (0 : UInt8) ∉ text := by
  obtain ⟨ds, constant, -⟩ := literal.constant
  have noDigit (base : Nat) : Strtoul.isDigit base 0 ≠ true := by
    simp [Strtoul.isDigit, Strtoul.digit?]
  intro member
  cases constant with
  | decimal _ digits => exact noDigit _ (digits 0 member)
  | octal digits => exact noDigit _ (digits 0 member)
  | hex isX digits =>
      rcases List.mem_cons.mp member with zero | member
      · exact absurd zero (by decide)
      · rcases List.mem_cons.mp member with zero | member
        · rcases isX with rfl | rfl <;> exact absurd zero (by decide)
        · exact noDigit _ (digits 0 member)

/-- `00x` is no literal. -/
theorem not_isLiteral_zero (v : Nat) : ¬ IsLiteral 16 v (numText 16 0) := by
  intro literal
  have text : numText 16 0 = ['0', '0', 'x'].map Char.toUInt8 := by
    simp [numText, Strtoul.digits]
  have rest : (Strtoul.strtoul (numText 16 0)).2 = [] := congrArg Prod.snd literal.consumed
  rw [text] at rest
  exact absurd rest (by decide)

theorem isLiteral_octal {v : Nat} (fits : v < 2 ^ 64) : IsLiteral 8 v (numText 8 v) := by
  have text : numText 8 v = '0'.toUInt8 :: Strtoul.digits 8 v := by
    simp [numText]
  rw [text]
  apply Constant.isLiteral (.octal ?_) ?_ fits
  · intro c member
    rcases List.mem_cons.mp member with rfl | member
    · decide
    · exact Strtoul.isDigit_digits (by decide) (by decide) c member
  · exact Strtoul.natValue_digits v (by decide) (by decide)

theorem isLiteral_hex {v : Nat} (positive : v ≠ 0) (fits : v < 2 ^ 64) :
    IsLiteral 16 v (numText 16 v) := by
  obtain ⟨d, ds, digitsEq, -⟩ : ∃ d ds, Strtoul.digits 16 v = d :: ds ∧ d ≠ '0'.toUInt8 :=
    Strtoul.digits_eq_cons (by decide) (by decide) positive
  have text : numText 16 v = '0'.toUInt8 :: 'x'.toUInt8 :: d :: ds := by
    simp [numText, positive, digitsEq]
  have digits : ∀ c ∈ d :: ds, Strtoul.isDigit 16 c = true := by
    rw [← digitsEq]
    exact Strtoul.isDigit_digits (by decide) (by decide)
  have value : natValue 16 (d :: ds) = v := by
    rw [← digitsEq]
    exact Strtoul.natValue_digits v (by decide) (by decide)
  rw [text]
  exact Constant.isLiteral (.hex (.inl rfl) digits) value fits

/-- The verb prints a literal of `v`. -/
def PrintsLiteral (strerror : List UInt8) (n : Nat) (m : Bytes.Memory) (letters : List UInt8)
    (verb : UInt8) (arg : Nat → Arg) (base v : Nat) : Prop :=
  ∃ text, Prints strerror n m letters verb arg text ∧ IsLiteral base v text

/-- The number that the caller passes: for `p` the whole pointer, whatever the flags. -/
def Arg.literalValue (arg : Arg) (fl : Flags) (verb : UInt8) : Nat :=
  if verb = 'p'.toUInt8 then arg.word.toNat else (arg.value fl).toNat

/-- The greatest pointer that `%p` prints in full. -/
def pointerBound (fl : Flags) : Nat :=
  match fl.longLong || fl.long, fl.unsigned with
  | true, true => 2 ^ 64 - 1
  | true, false => 2 ^ 63
  | false, true => 2 ^ 32 - 1
  | false, false => 2 ^ 31

/-- `%p` prints the absolute value of what it fetched, which is at most the pointer. -/
theorem natAbs_value (arg : Arg) (fl : Flags) :
    (arg.value fl).natAbs ≤ arg.word.toNat ∧
      ((arg.value fl).natAbs = arg.word.toNat ↔ arg.word.toNat ≤ pointerBound fl) := by
  have small := arg.word.isLt
  have narrow : (arg.word.setWidth 32).toNat = arg.word.toNat % 2 ^ 32 := BitVec.toNat_setWidth ..
  have wideInt : arg.word.toInt =
      if 2 * arg.word.toNat < 2 ^ 64 then (arg.word.toNat : Int) else arg.word.toNat - 2 ^ 64 :=
    BitVec.toInt_eq_toNat_cond arg.word
  have narrowInt : (arg.word.setWidth 32).toInt =
      if 2 * (arg.word.setWidth 32).toNat < 2 ^ 32 then ((arg.word.setWidth 32).toNat : Int)
      else (arg.word.setWidth 32).toNat - 2 ^ 32 :=
    BitVec.toInt_eq_toNat_cond _
  unfold Arg.value pointerBound
  generalize (fl.longLong || fl.long) = long
  generalize fl.unsigned = unsigned
  cases long <;> cases unsigned <;> simp only
  · rw [narrowInt, narrow]
    split <;> omega
  · omega
  · rw [wideInt]
    split <;> omega
  · omega

/-- A number of a type without a sign is fetched as it is. -/
theorem natAbs_value_of_unsigned (arg : Arg) {fl : Flags} (unsigned : fl.unsigned = true) :
    (arg.value fl).natAbs = (arg.value fl).toNat := by
  unfold Arg.value
  rw [unsigned]
  cases fl.longLong || fl.long <;> rfl

theorem length_numText_le_literalText {base k v : Nat} (isBase : base = 8 ∨ base = 16)
    (le : k ≤ v) : (numText base k).length ≤ (literalText base v).length := by
  have digits : (Strtoul.digits base k).length ≤ (Strtoul.digits base v).length := by
    simpa [Strtoul.digits] using Nat.le_length_digits_le base k v le
  rcases isBase with rfl | rfl
  · simpa [numText, literalText] using digits
  · by_cases zero : k = 0
    · have none : (Strtoul.digits 16 0).length = 0 := by simp [Strtoul.digits]
      by_cases zero' : v = 0
      · simp [numText, literalText, zero, zero', none]
      · obtain ⟨d, ds, digitsEq, -⟩ : ∃ d ds, Strtoul.digits 16 v = d :: ds ∧
            d ≠ '0'.toUInt8 := Strtoul.digits_eq_cons (by decide) (by decide) zero'
        simp [numText, literalText, zero, zero', none, digitsEq]
    · have positive : v ≠ 0 := by omega
      simpa [numText, literalText, zero, positive] using digits

/-- The values for which the text is right: in octal all of them, in hexadecimal all but
zero, and with `p` those that the flags fetch in full. -/
def LiteralShown (fl : Flags) (verb : UInt8) (v : Nat) : Prop :=
  verb = 'o'.toUInt8 ∨ v ≠ 0 ∧ (verb = 'p'.toUInt8 → v ≤ pointerBound fl)

/-- The text is a literal of `v` where it is made of `v`, and is not `00x`. -/
theorem isLiteral_numText_iff {base k v : Nat} (isBase : base = 8 ∨ base = 16)
    (fits : k < 2 ^ 64) (fits' : v < 2 ^ 64) :
    IsLiteral base v (numText base k) ↔ (base = 8 ∨ v ≠ 0) ∧ k = v := by
  have same (right : IsLiteral base k (numText base k))
      (literal : IsLiteral base v (numText base k)) : k = v := by
    have word := congrArg Prod.fst (right.consumed.symm.trans literal.consumed)
    have number := congrArg BitVec.toNat word
    simp only [BitVec.toNat_ofNat] at number
    rwa [Nat.mod_eq_of_lt fits, Nat.mod_eq_of_lt fits'] at number
  rcases isBase with rfl | rfl
  · constructor
    · intro literal
      exact ⟨.inl rfl, same (isLiteral_octal fits) literal⟩
    · rintro ⟨-, rfl⟩
      exact isLiteral_octal fits
  · constructor
    · intro literal
      have positive : k ≠ 0 := by
        rintro rfl
        exact not_isLiteral_zero v literal
      obtain rfl := same (isLiteral_hex positive fits) literal
      exact ⟨.inr positive, rfl⟩
    · rintro ⟨shown, rfl⟩
      exact isLiteral_hex (shown.resolve_left (by decide)) fits

/-- What is fetched for a verb, beside the number that was passed. -/
theorem natAbs_literalValue (arg : Arg) {fl : Flags}
    (unsigned : verb ≠ 'p'.toUInt8 → fl.unsigned = true) :
    (arg.value fl).natAbs ≤ arg.literalValue fl verb ∧
      ((arg.value fl).natAbs = arg.literalValue fl verb ↔
        (verb = 'p'.toUInt8 → arg.literalValue fl verb ≤ pointerBound fl)) := by
  unfold Arg.literalValue
  split
  next isPointer => simpa [isPointer] using natAbs_value arg fl
  next notPointer => simp [notPointer, natAbs_value_of_unsigned arg (unsigned notPointer)]

theorem literalValue_lt (arg : Arg) {fl : Flags}
    (unsigned : verb ≠ 'p'.toUInt8 → fl.unsigned = true) :
    arg.literalValue fl verb < 2 ^ 64 := by
  unfold Arg.literalValue
  split
  next => exact arg.word.isLt
  next notPointer =>
    rw [← natAbs_value_of_unsigned arg (unsigned notPointer), ← Arg.magnitude_eq]
    exact BitVec.isLt _

theorem printsLiteral_iff {base : Nat} (isVerb : NumberVerb verb base) (notDecimal : base ≠ 10)
    (noWidth : ∀ c ∈ letters, IsLetter c)
    (unsigned : verb ≠ 'p'.toUInt8 → (readFlags {} letters).unsigned = true)
    (large : (literalText base ((arg 0).literalValue (readFlags {} letters) verb)).length < n) :
    PrintsLiteral strerror n m letters verb arg base
        ((arg 0).literalValue (readFlags {} letters) verb) ↔
      LiteralShown (readFlags {} letters) verb
        ((arg 0).literalValue (readFlags {} letters) verb) := by
  have isBase : base = 8 ∨ base = 16 := by
    cases isVerb <;> simp_all
  have octal : base = 8 ↔ verb = 'o'.toUInt8 := by
    cases isVerb <;> decide
  have pointer : verb = 'o'.toUInt8 → verb ≠ 'p'.toUInt8 := by
    rintro rfl
    decide
  obtain ⟨atMost, same⟩ := natAbs_literalValue (arg 0) unsigned
  have fits' := literalValue_lt (arg 0) unsigned
  have fits := Nat.lt_of_le_of_lt atMost fits'
  have shorter := length_numText_le_literalText isBase atMost
  have nonempty : 1 ≤ (literalText base
      ((arg 0).literalValue (readFlags {} letters) verb)).length := by
    unfold literalText
    split <;> simp
  have printed : Prints strerror n m letters verb arg
      (numText base ((arg 0).value (readFlags {} letters)).natAbs) :=
    prints_number isVerb noWidth (by omega) (by omega)
  have literalIff := isLiteral_numText_iff isBase fits fits'
  unfold LiteralShown
  constructor
  · rintro ⟨text, printed', literal⟩
    have noNul := @zero_notMem_numText base ((arg 0).value (readFlags {} letters)).natAbs
      (isBase.imp_right .inr)
    obtain rfl := printed.unique printed' noNul literal.zero_notMem
    obtain ⟨shown, equal⟩ := literalIff.mp literal
    rcases shown with isOctal | positive
    · exact .inl (octal.mp isOctal)
    · exact .inr ⟨positive, same.mp equal⟩
  · intro shown
    refine ⟨_, printed, literalIff.mpr ?_⟩
    rcases shown with isOctal | ⟨positive, bounded⟩
    · exact ⟨.inl (octal.mpr isOctal), same.mpr fun isPointer =>
        absurd isPointer (pointer isOctal)⟩
    · exact ⟨.inr positive, same.mpr bounded⟩

/-- `%lup`, with a pointer that `%p` cuts off. -/
theorem printsLiteral_pointer :
    PrintsLiteral [] 30 (fun _ => 1) ['l'.toUInt8, 'u'.toUInt8] 'p'.toUInt8
      (fun _ => { word := 0x7fff00000001 }) 16 0x7fff00000001 :=
  (@printsLiteral_iff [] 30 (fun _ => 1) ['l'.toUInt8, 'u'.toUInt8] 'p'.toUInt8
    (fun _ => { word := 0x7fff00000001 }) 16 .p (by decide) (by simp [IsLetter]) (by decide)
    (by simp [literalText, Arg.literalValue, Strtoul.digits])).mpr (.inr (by decide))

/-- `%ux` with zero leaves `00x`. -/
theorem zero_printed :
    ¬ PrintsLiteral [] 30 (fun _ => 1) ['u'.toUInt8] 'x'.toUInt8 (fun _ => {}) 16 0 := by
  rintro ⟨text, printed', literal⟩
  have zero : (({} : Arg).value (readFlags {} ['u'.toUInt8])).natAbs = 0 := by decide
  have printed : Prints [] 30 (fun _ => 1) ['u'.toUInt8] 'x'.toUInt8 (fun _ => {})
      (numText 16 (({} : Arg).value (readFlags {} ['u'.toUInt8])).natAbs) :=
    prints_number .x (by simp [IsLetter]) (by rw [zero]; simp [numText, Strtoul.digits]) (by decide)
  obtain rfl := printed.unique printed' (zero_notMem_numText (.inr (.inr rfl)))
    literal.zero_notMem
  exact not_isLiteral_zero 0 literal

end Libtask
