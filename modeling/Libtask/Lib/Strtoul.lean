import Mathlib.Data.List.TakeWhile
import Mathlib.Data.Nat.Digits.Lemmas

/-!
# Numbers in C strings

`strtoul` with base zero, for an `unsigned long` of 64 bits, as ISO C describes it.  A string
is the list of its bytes in front of the NUL.  `scan` finds the number that a string starts
with; the grammar of these numbers is `Numeral`, and `scan` takes the longest one.
-/

namespace Strtoul

/-- White space, in the C locale. -/
def isspace (c : UInt8) : Bool := decide (c.toNat = 32 ∨ 9 ≤ c.toNat ∧ c.toNat ≤ 13)

/-- The value of a digit or letter. -/
def digit? (c : UInt8) : Option Nat :=
  if 48 ≤ c.toNat ∧ c.toNat ≤ 57 then some (c.toNat - 48)
  else if 97 ≤ c.toNat ∧ c.toNat ≤ 122 then some (c.toNat - 87)
  else if 65 ≤ c.toNat ∧ c.toNat ≤ 90 then some (c.toNat - 55)
  else none

def isDigit (base : Nat) (c : UInt8) : Bool := (digit? c).any fun d => decide (d < base)

/-- What a string of digits denotes. -/
def natValue (base : Nat) (digits : List UInt8) : Nat :=
  digits.foldl (fun n c => n * base + (digit? c).getD 0) 0

structure Number where
  negative : Bool
  base : Nat
  digits : List UInt8
  deriving DecidableEq, Repr

def Number.magnitude (n : Number) : Nat := natValue n.base n.digits

/-- The mathematical value. -/
def Number.value (n : Number) : Int := if n.negative then -n.magnitude else n.magnitude

/-- The value as an `unsigned long`: a minus sign negates in that type, and what is too large
becomes `ULONG_MAX`. -/
def Number.toULong (n : Number) : BitVec 64 :=
  if n.magnitude < 2 ^ 64 then BitVec.ofInt 64 n.value else BitVec.allOnes 64

/-! ## Scanning -/

/-- An optional sign. -/
def skipSign : List UInt8 → Bool × List UInt8
  | [] => (false, [])
  | c :: p =>
      if c = '-'.toUInt8 then (true, p)
      else if c = '+'.toUInt8 then (false, p)
      else (false, c :: p)

/-- The digits behind `0x`, if there are any. -/
def hexDigits? : List UInt8 → Option (List UInt8)
  | z :: x :: d :: p =>
      if z = '0'.toUInt8 ∧ (x = 'x'.toUInt8 ∨ x = 'X'.toUInt8) ∧ isDigit 16 d = true then
        some (d :: p)
      else none
  | _ => none

/-- The base that the prefix tells, and the text from the first digit on. -/
def skipPrefix (p : List UInt8) : Nat × List UInt8 :=
  match hexDigits? p with
  | some q => (16, q)
  | none => if p.head? = some '0'.toUInt8 then (8, p) else (10, p)

/-- The number that a string starts with, and the text behind it. -/
def scan (s : List UInt8) : Option (Number × List UInt8) :=
  let (negative, p) := skipSign (s.dropWhile isspace)
  let (base, p) := skipPrefix p
  let digits := p.takeWhile (isDigit base)
  if digits = [] then none
  else some ({ negative, base, digits }, p.dropWhile (isDigit base))

/-- The result, and the text at `*endptr`. -/
def strtoul (s : List UInt8) : BitVec 64 × List UInt8 :=
  match scan s with
  | some (n, rest) => (n.toULong, rest)
  | none => (0, s)

/-! ## The grammar -/

inductive Sign : List UInt8 → Bool → Prop where
  | none : Sign [] false
  | plus : Sign ['+'.toUInt8] false
  | minus : Sign ['-'.toUInt8] true

/-- An unsigned integer constant, with its base and its digits. -/
inductive Constant : List UInt8 → Nat → List UInt8 → Prop where
  | decimal {d : UInt8} {ds : List UInt8} : d ≠ '0'.toUInt8 →
      (∀ c ∈ d :: ds, isDigit 10 c = true) → Constant (d :: ds) 10 (d :: ds)
  | octal {ds : List UInt8} : (∀ c ∈ '0'.toUInt8 :: ds, isDigit 8 c = true) →
      Constant ('0'.toUInt8 :: ds) 8 ('0'.toUInt8 :: ds)
  | hex {x d : UInt8} {ds : List UInt8} : x = 'x'.toUInt8 ∨ x = 'X'.toUInt8 →
      (∀ c ∈ d :: ds, isDigit 16 c = true) → Constant ('0'.toUInt8 :: x :: d :: ds) 16 (d :: ds)

/-- A number in the syntax of `strtoul` with base zero. -/
inductive Numeral : List UInt8 → Number → Prop where
  | mk {blanks sign body : List UInt8} {n : Number} : (∀ c ∈ blanks, isspace c = true) →
      Sign sign n.negative → Constant body n.base n.digits → Numeral (blanks ++ sign ++ body) n

/-! ## Characters -/

theorem isDigit_iff {base : Nat} {c : UInt8} :
    isDigit base c = true ↔ ∃ d, digit? c = some d ∧ d < base := by
  unfold isDigit
  cases digit? c <;> simp

/-- No digit is white space. -/
theorem isspace_of_digit {c : UInt8} {d : Nat} (digit : digit? c = some d) :
    isspace c = false := by
  unfold digit? at digit
  unfold isspace
  rw [decide_eq_false_iff_not]
  split at digit
  · omega
  split at digit
  · omega
  split at digit
  · omega
  · cases digit

theorem digit?_zero : digit? '0'.toUInt8 = some 0 := rfl

/-! ## A scan finds a numeral -/

theorem skipSign_sound (p : List UInt8) :
    ∃ sign, p = sign ++ (skipSign p).2 ∧ Sign sign (skipSign p).1 := by
  cases p with
  | nil => exact ⟨[], rfl, .none⟩
  | cons c p =>
      by_cases isMinus : c = '-'.toUInt8
      · subst isMinus
        exact ⟨['-'.toUInt8], rfl, .minus⟩
      by_cases isPlus : c = '+'.toUInt8
      · subst isPlus
        exact ⟨['+'.toUInt8], rfl, .plus⟩
      have unsigned : skipSign (c :: p) = (false, c :: p) := by
        simp only [skipSign, if_neg isMinus, if_neg isPlus]
      rw [unsigned]
      exact ⟨[], rfl, .none⟩

theorem hexDigits?_eq_some {p q : List UInt8} (found : hexDigits? p = some q) :
    ∃ x d ds, p = '0'.toUInt8 :: x :: d :: ds ∧ q = d :: ds ∧
      (x = 'x'.toUInt8 ∨ x = 'X'.toUInt8) ∧ isDigit 16 d = true := by
  unfold hexDigits? at found
  split at found
  next z x d ds =>
    split at found
    next isPrefix =>
      obtain ⟨rfl, isX, digit⟩ := isPrefix
      exact ⟨x, d, ds, rfl, (Option.some.inj found).symm, isX, digit⟩
    next => cases found
  next => cases found

theorem skipPrefix_sound (p : List UInt8) {base : Nat} {q : List UInt8}
    (skipped : skipPrefix p = (base, q)) (some_digit : q.takeWhile (isDigit base) ≠ []) :
    ∃ body, p = body ++ q.dropWhile (isDigit base) ∧
      Constant body base (q.takeWhile (isDigit base)) := by
  have digits : ∀ c ∈ q.takeWhile (isDigit base), isDigit base c = true :=
    fun c member => List.mem_takeWhile_imp member
  have parts : q.takeWhile (isDigit base) ++ q.dropWhile (isDigit base) = q :=
    List.takeWhile_append_dropWhile
  generalize dsEq : q.takeWhile (isDigit base) = ds at some_digit digits parts ⊢
  obtain ⟨d, ds, rfl⟩ := List.exists_cons_of_ne_nil some_digit
  unfold skipPrefix at skipped
  split at skipped
  next q' found =>
    obtain ⟨rfl, rfl⟩ := Prod.mk.inj skipped
    obtain ⟨x, d', ds', rfl, rfl, isX, -⟩ := hexDigits?_eq_some found
    refine ⟨'0'.toUInt8 :: x :: d :: ds, ?_, .hex isX digits⟩
    exact congrArg (fun text => '0'.toUInt8 :: x :: text) parts.symm
  next =>
    split at skipped
    next isZero =>
      obtain ⟨rfl, rfl⟩ := Prod.mk.inj skipped
      obtain rfl : d = '0'.toUInt8 := by
        rw [← parts] at isZero
        exact Option.some.inj isZero
      exact ⟨_, parts.symm, .octal digits⟩
    next notZero =>
      obtain ⟨rfl, rfl⟩ := Prod.mk.inj skipped
      refine ⟨_, parts.symm, .decimal ?_ digits⟩
      rintro rfl
      rw [← parts] at notZero
      exact notZero rfl

/-- What `scan` takes off a string is a numeral. -/
theorem scan_sound {s rest : List UInt8} {n : Number} (scanned : scan s = some (n, rest)) :
    ∃ text, s = text ++ rest ∧ Numeral text n := by
  obtain ⟨sign, signEq, isSign⟩ := skipSign_sound (s.dropWhile isspace)
  simp only [scan] at scanned
  generalize skipSign (s.dropWhile isspace) = signed at scanned signEq isSign
  obtain ⟨negative, p⟩ := signed
  generalize skipped : skipPrefix p = prefixed at scanned
  obtain ⟨base, q⟩ := prefixed
  simp only at scanned signEq isSign
  split at scanned
  next => cases scanned
  next some_digit =>
    obtain ⟨rfl, rfl⟩ := Prod.mk.inj (Option.some.inj scanned)
    obtain ⟨body, bodyEq, isConstant⟩ := skipPrefix_sound p skipped some_digit
    refine ⟨s.takeWhile isspace ++ sign ++ body, ?_, .mk ?_ isSign isConstant⟩
    · rw [List.append_assoc, ← bodyEq, List.append_assoc, ← signEq,
        List.takeWhile_append_dropWhile]
    · exact fun c member => List.mem_takeWhile_imp member

/-! ## A scan finds the longest numeral -/

/-- Text that no numeral goes on with. -/
def Stops (rest : List UInt8) : Prop := ∀ c, rest.head? = some c → digit? c = none

theorem span_digits {base : Nat} {ds rest : List UInt8}
    (digits : ∀ c ∈ ds, isDigit base c = true) (stops : Stops rest) :
    (ds ++ rest).takeWhile (isDigit base) = ds ∧
      (ds ++ rest).dropWhile (isDigit base) = rest := by
  rw [List.takeWhile_append_of_pos digits, List.dropWhile_append_of_pos digits]
  cases rest with
  | nil => simp
  | cons c rest =>
      have notDigit : ¬isDigit base c = true := by
        rw [isDigit_iff, stops c rfl]
        simp
      rw [List.takeWhile_cons_of_neg notDigit, List.dropWhile_cons_of_neg notDigit]
      simp

/-- A constant starts with a digit. -/
theorem Constant.head {body ds : List UInt8} {base : Nat} (constant : Constant body base ds) :
    ∃ c rest d, body = c :: rest ∧ digit? c = some d := by
  cases constant with
  | decimal _ digits =>
      obtain ⟨d, digit, -⟩ := isDigit_iff.mp (digits _ (List.mem_cons_self ..))
      exact ⟨_, _, d, rfl, digit⟩
  | octal => exact ⟨_, _, 0, rfl, digit?_zero⟩
  | hex => exact ⟨_, _, 0, rfl, digit?_zero⟩

theorem Constant.digits {body ds : List UInt8} {base : Nat} (constant : Constant body base ds) :
    ∀ c ∈ ds, isDigit base c = true := by
  cases constant with
  | decimal _ digits => exact digits
  | octal digits => exact digits
  | hex _ digits => exact digits

theorem skipSign_complete {sign body rest ds : List UInt8} {negative : Bool} {base : Nat}
    (isSign : Sign sign negative) (constant : Constant body base ds) :
    skipSign (sign ++ body ++ rest) = (negative, body ++ rest) := by
  obtain ⟨c, body, d, rfl, digit⟩ := constant.head
  have noSign : c ≠ '-'.toUInt8 ∧ c ≠ '+'.toUInt8 := by
    constructor
    · rintro rfl
      cases digit
    · rintro rfl
      cases digit
  cases isSign with
  | none => simp [skipSign, noSign]
  | plus => rfl
  | minus => rfl

/-- Behind an octal zero there is no `x`. -/
theorem hexDigits?_octal {ds rest : List UInt8} (digits : ∀ c ∈ ds, isDigit 8 c = true)
    (stops : Stops rest) : hexDigits? ('0'.toUInt8 :: ds ++ rest) = none := by
  cases found : hexDigits? ('0'.toUInt8 :: ds ++ rest) with
  | none => rfl
  | some q =>
      exfalso
      obtain ⟨x, d, tail, textEq, -, isX, -⟩ := hexDigits?_eq_some found
      have second : ds ++ rest = x :: d :: tail := (List.cons.inj textEq).2
      have letter : digit? x = some 33 := by
        rcases isX with rfl | rfl <;> rfl
      cases ds with
      | nil =>
          have head : rest.head? = some x := by
            rw [List.nil_append] at second
            rw [second]
            rfl
          rw [stops x head] at letter
          cases letter
      | cons c ds =>
          obtain rfl : c = x := (List.cons.inj second).1
          obtain ⟨d', digit, small⟩ := isDigit_iff.mp (digits c (List.mem_cons_self ..))
          rw [letter, Option.some.injEq] at digit
          omega

theorem skipPrefix_complete {body rest ds : List UInt8} {base : Nat}
    (constant : Constant body base ds) (stops : Stops rest) :
    skipPrefix (body ++ rest) = (base, ds ++ rest) := by
  unfold skipPrefix
  cases constant with
  | decimal notZero digits =>
      rename_i d ds
      have noHex : hexDigits? (d :: (ds ++ rest)) = none := by
        cases found : hexDigits? (d :: (ds ++ rest)) with
        | none => rfl
        | some q =>
            obtain ⟨x, d', tail, textEq, -⟩ := hexDigits?_eq_some found
            exact absurd (List.cons.inj textEq).1 notZero
      simp [noHex, notZero]
  | octal digits =>
      rename_i ds
      have noHex := hexDigits?_octal (fun c member => digits c (List.mem_cons_of_mem _ member))
        stops
      simp only [noHex]
      rfl
  | hex isX digits =>
      have first := digits _ (List.mem_cons_self ..)
      simp [hexDigits?, isX, first]

/-- `scan` takes a numeral as a whole, if it ends where the digits end. -/
theorem scan_complete {text rest : List UInt8} {n : Number} (numeral : Numeral text n)
    (stops : Stops rest) : scan (text ++ rest) = some (n, rest) := by
  obtain ⟨negative, base, digits⟩ := n
  cases numeral with
  | mk spaces isSign constant =>
      rename_i blanks sign body
      have unspaced : (blanks ++ sign ++ body ++ rest).dropWhile isspace =
          sign ++ body ++ rest := by
        rw [List.append_assoc blanks, List.append_assoc blanks,
          List.dropWhile_append_of_pos spaces]
        obtain ⟨c, body, d, rfl, digit⟩ := constant.head
        cases isSign with
        | none => simp [isspace_of_digit digit]
        | plus => rfl
        | minus => rfl
      obtain ⟨taken, dropped⟩ := span_digits constant.digits stops
      have nonempty : digits ≠ [] := by
        cases constant <;> simp
      simp only [scan, unspaced, skipSign_complete isSign constant,
        skipPrefix_complete constant stops, taken, dropped, if_neg nonempty]

theorem stops_nil : Stops [] := by
  simp [Stops]

theorem Numeral.ne_nil {text : List UInt8} {n : Number} (numeral : Numeral text n) :
    text ≠ [] := by
  rintro rfl
  have scanned := scan_complete numeral stops_nil
  cases scanned

/-! ## Numerals of numbers -/

/-- The digit that stands for a number below 36. -/
def digitChar (d : Nat) : UInt8 := if d < 10 then UInt8.ofNat (48 + d) else UInt8.ofNat (87 + d)

/-- The digits of a number, none for zero. -/
def digits (base n : Nat) : List UInt8 := ((Nat.digits base n).map digitChar).reverse

/-- The decimal text of a number. -/
def decimal (n : Nat) : List UInt8 := if n = 0 then ['0'.toUInt8] else digits 10 n

theorem digit?_digitChar : ∀ d < 36, digit? (digitChar d) = some d := by decide

theorem digitChar_eq_zero {d : Nat} (small : d < 36) (isZero : digitChar d = '0'.toUInt8) :
    d = 0 := by
  have digit := digit?_digitChar d small
  rw [isZero, digit?_zero] at digit
  exact (Option.some.inj digit).symm

theorem natValue_reverse {base : Nat} {ds : List Nat} (small : ∀ d ∈ ds, d < 36) :
    natValue base (ds.map digitChar).reverse = Nat.ofDigits base ds := by
  induction ds with
  | nil => rfl
  | cons d ds ih =>
      have first := digit?_digitChar d (small d (List.mem_cons_self ..))
      have rest := ih fun d member => small d (List.mem_cons_of_mem _ member)
      simp only [natValue] at rest
      rw [List.map_cons, List.reverse_cons, natValue, List.foldl_append, rest, Nat.ofDigits_cons]
      simp [first, Nat.mul_comm, Nat.add_comm]

theorem digits_lt {base n : Nat} (more : 1 < base) (few : base ≤ 36) :
    ∀ d ∈ Nat.digits base n, d < 36 := fun _ member =>
  Nat.lt_of_lt_of_le (Nat.digits_lt_base more member) few

theorem natValue_digits {base : Nat} (n : Nat) (more : 1 < base) (few : base ≤ 36) :
    natValue base (digits base n) = n := by
  rw [digits, natValue_reverse (digits_lt more few), Nat.ofDigits_digits]

theorem isDigit_digits {base n : Nat} (more : 1 < base) (few : base ≤ 36) :
    ∀ c ∈ digits base n, isDigit base c = true := by
  intro c member
  obtain ⟨d, isDigit, rfl⟩ := List.mem_map.mp (List.mem_reverse.mp member)
  rw [isDigit_iff]
  exact ⟨d, digit?_digitChar d (digits_lt more few d isDigit), Nat.digits_lt_base more isDigit⟩

/-- The first digit is not zero. -/
theorem digits_eq_cons {base n : Nat} (more : 1 < base) (few : base ≤ 36) (positive : n ≠ 0) :
    ∃ d ds, digits base n = d :: ds ∧ d ≠ '0'.toUInt8 := by
  have nonempty : Nat.digits base n ≠ [] := Nat.digits_ne_nil_iff_ne_zero.mpr positive
  refine ⟨digitChar ((Nat.digits base n).getLast nonempty),
    ((Nat.digits base n).dropLast.map digitChar).reverse, ?_, ?_⟩
  · rw [digits]
    conv_lhs => rw [← List.dropLast_append_getLast nonempty]
    simp
  · intro isZero
    refine Nat.getLast_digit_ne_zero base positive (digitChar_eq_zero ?_ isZero)
    exact digits_lt more few _ (List.getLast_mem nonempty)

theorem Constant.numeral {body ds : List UInt8} {base : Nat} (constant : Constant body base ds) :
    Numeral body ⟨false, base, ds⟩ := by
  have numeral : Numeral ([] ++ [] ++ body) ⟨false, base, ds⟩ := .mk (by simp) .none constant
  exact numeral

/-- The decimal text is a constant of the number. -/
theorem decimal_constant (n : Nat) :
    ∃ base, Constant (decimal n) base (decimal n) ∧ natValue base (decimal n) = n := by
  by_cases zero : n = 0
  · have text : decimal n = ['0'.toUInt8] := if_pos zero
    refine ⟨8, ?_, ?_⟩
    · rw [text]
      exact .octal (by simp [isDigit, digit?_zero])
    · rw [text, zero]
      rfl
  · have text : decimal n = digits 10 n := if_neg zero
    refine ⟨10, ?_, ?_⟩
    · obtain ⟨d, ds, digitsEq, notZero⟩ : ∃ d ds, digits 10 n = d :: ds ∧ d ≠ '0'.toUInt8 :=
        digits_eq_cons (by decide) (by decide) zero
      have all : ∀ c ∈ digits 10 n, isDigit 10 c = true :=
        isDigit_digits (by decide) (by decide)
      rw [digitsEq] at all
      rw [text, digitsEq]
      exact .decimal notZero all
    · rw [text]
      exact natValue_digits n (by decide) (by decide)

theorem decimal_numeral (n : Nat) :
    ∃ base, Numeral (decimal n) ⟨false, base, decimal n⟩ ∧ natValue base (decimal n) = n := by
  obtain ⟨base, constant, value⟩ := decimal_constant n
  exact ⟨base, constant.numeral, value⟩

theorem decimal_ne_nil (n : Nat) : decimal n ≠ [] := by
  obtain ⟨base, numeral, -⟩ := decimal_numeral n
  exact numeral.ne_nil

end Strtoul
