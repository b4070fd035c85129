import Libtask.PrintSafe

/-!
# The text of a directive

What `vseprint` leaves in a buffer that is large enough.
-/

namespace Libtask

variable {strerror : List UInt8} {arg : Nat → Arg} {edst : Int} {fuel ap size : Nat}
  {m : Bytes.Memory} {text p s : List UInt8}

theorem field_fits {room : Nat} {s : List UInt8} (fits : s.length < room) :
    field room s 0 = s := by
  have length : fieldLength room s.length 0 = s.length := by
    unfold fieldLength fieldWidth
    rw [if_neg (by decide)]
    omega
  simp [field, length]

/-- The state of the loop once `text` was written at the start of the buffer. -/
def written (size : Nat) (m : Bytes.Memory) (text : List UInt8) : Buffer :=
  { size, mem := Bytes.write m 0 text }

theorem written_nil (size : Nat) (m : Bytes.Memory) :
    written size m [] = { size, mem := m } := by
  simp [written]

/-- The string at the start of the buffer. -/
theorem read_written (size : Nat) (m : Bytes.Memory) (text : List UInt8) :
    Bytes.read (written size m (text ++ [0])).mem 0 (text.length + 1) = text ++ [0] := by
  have back := Bytes.read_write_self m 0 (text ++ [0])
  rwa [List.length_append, List.length_singleton] at back

/-- Bytes that are stored behind the text. -/
theorem store_written {bytes : List UInt8} (fits : text.length + bytes.length ≤ size) :
    (written size m text).store text.length bytes = .ok (written size m (text ++ bytes)) := by
  rw [store_ok (by omega) (by simp only [written]; omega)]
  simp only [written, Int.toNat_natCast]
  rw [show text.length = 0 + text.length by omega, Bytes.write_append]

theorem printstr_written {width : Int} (below : (text.length : Int) < edst)
    (within : edst ≤ size) (short : s.length < 2 ^ 31) (isInt : IsInt width) :
    printstr (written size m text) text.length edst s width =
      .ok (written size m (text ++ field (edst - text.length).toNat s width),
        (text ++ field (edst - text.length).toNat s width).length) := by
  rw [printstr_eq (by omega) below within short isInt]
  simp only [written, Int.toNat_natCast, List.length_append]
  rw [show text.length = 0 + text.length by omega, Bytes.write_append]
  simp

/-! ## One turn of the loop -/

/-- A character that is no `%` is copied. -/
theorem vseprintLoop_char {c : UInt8} (literal : c ≠ '%'.toUInt8) (within : edst ≤ size)
    (fits : ((text ++ [c]).length : Int) < edst) :
    vseprintLoop strerror arg edst (fuel + 1) (written size m text) text.length (c :: p) ap =
      vseprintLoop strerror arg edst fuel (written size m (text ++ [c])) (text ++ [c]).length
        p ap := by
  rw [List.length_append, List.length_singleton] at fits ⊢
  have stored : (written size m text).store text.length [c] =
      .ok (written size m (text ++ [c])) :=
    store_written (by simp only [List.length_singleton]; omega)
  rw [vseprintLoop_literal literal (by omega), stored]
  rfl

/-- A directive with a known verb writes one field. -/
theorem vseprintLoop_directive {q : List UInt8} {fl : Flags} {width : Int} {verb : UInt8}
    (found : directive {} 0 1 q = some (fl, width, verb, p))
    (known : verbText strerror fl verb (arg ap) = some (.ok s)) (isInt : IsInt width)
    (short : s.length < 2 ^ 31) (within : edst ≤ size) (room : (text.length : Int) < edst - 1) :
    vseprintLoop strerror arg edst (fuel + 1) (written size m text) text.length
        ('%'.toUInt8 :: q) ap =
      vseprintLoop strerror arg edst fuel
        (written size m (text ++ field (edst - text.length).toNat s width))
        (text ++ field (edst - text.length).toNat s width).length p
        (if verb = 'r'.toUInt8 then ap else ap + 1) := by
  have below : (text.length : Int) < edst := by omega
  rw [vseprintLoop_percent found known room, printstr_written below within short isInt]
  rfl

/-! ## Flags -/

/-- A flag that is no digit of a width. -/
def IsLetter (c : UInt8) : Prop := c = '-'.toUInt8 ∨ c = 'l'.toUInt8 ∨ c = 'u'.toUInt8

/-- What the letters in front of a verb set. -/
def readFlags (fl : Flags) : List UInt8 → Flags
  | [] => fl
  | c :: letters =>
      if c = 'l'.toUInt8 then readFlags fl.setLong letters
      else if c = 'u'.toUInt8 then readFlags { fl with unsigned := true } letters
      else readFlags fl letters

/-- Without digits there is no width. -/
theorem directive_letters {letters : List UInt8} {fl : Flags} {sign : Int} {verb : UInt8}
    (noWidth : ∀ c ∈ letters, IsLetter c) (isVerb : isFlag verb = false) :
    directive fl 0 sign (letters ++ verb :: p) = some (readFlags fl letters, 0, verb, p) := by
  induction letters generalizing fl sign with
  | nil =>
      rcases directive_cons fl 0 sign verb with ⟨flag, -⟩ | ⟨-, ended⟩
      · rw [flag] at isVerb
        cases isVerb
      · rw [List.nil_append, ended, Int.zero_mul]
        rfl
  | cons c letters ih =>
      have rest (fl : Flags) (sign : Int) : directive fl 0 sign (letters ++ verb :: p) =
          some (readFlags fl letters, 0, verb, p) :=
        ih fun c member => noWidth c (List.mem_cons_of_mem _ member)
      rcases noWidth c (List.mem_cons_self ..) with rfl | rfl | rfl
      · exact rest fl (-1)
      · exact rest fl.setLong sign
      · exact rest { fl with unsigned := true } sign

/-! ## A format of one directive -/

theorem numText_decimal (n : Nat) : numText 10 n = Strtoul.decimal n := by
  by_cases zero : n = 0
  · simp [numText, Strtoul.decimal, zero, Strtoul.digits]
  · simp [numText, Strtoul.decimal, zero]

/-- There is no NUL in the text of a number. -/
theorem zero_notMem_numText {base n : Nat} (isBase : IsBase base) :
    (0 : UInt8) ∉ numText base n := by
  have digits : (0 : UInt8) ∉ Strtoul.digits base n := by
    intro member
    rcases isBase with rfl | rfl | rfl
    · exact absurd (Strtoul.isDigit_digits (by decide) (by decide) 0 member) (by decide)
    · exact absurd (Strtoul.isDigit_digits (by decide) (by decide) 0 member) (by decide)
    · exact absurd (Strtoul.isDigit_digits (by decide) (by decide) 0 member) (by decide)
  have octal : (0 : UInt8) ∉ if base = 8 ∨ n = 0 then ['0'.toUInt8] else [] := by
    split <;> decide
  have hex : (0 : UInt8) ∉ if base = 16 then ['0'.toUInt8, 'x'.toUInt8] else [] := by
    split <;> decide
  simp [numText, digits, octal, hex]

theorem zero_notMem_decimal (n : Nat) : (0 : UInt8) ∉ Strtoul.decimal n := by
  rw [← numText_decimal]
  exact zero_notMem_numText (.inr (.inl rfl))

theorem vsnprint_directive {n : Nat} {letters : List UInt8} {verb : UInt8}
    (noWidth : ∀ c ∈ letters, IsLetter c) (isVerb : isFlag verb = false)
    (known : verbText strerror (readFlags {} letters) verb (arg 0) = some (.ok s))
    (short : s.length < 2 ^ 31) (large : s.length < n) (room : 1 < n) :
    vsnprint strerror n m ('%'.toUInt8 :: (letters ++ [verb])) arg =
      .ok (written n m (s ++ [0])) := by
  have found : directive {} 0 1 (letters ++ [verb]) = some (readFlags {} letters, 0, verb, []) :=
    directive_letters noWidth isVerb
  have fits : field ((n : Int) - ([] : List UInt8).length).toNat s 0 = s :=
    field_fits (by simp only [List.length_nil]; omega)
  have ended : vseprintLoop strerror arg n (letters.length + 8 + 1) (written n m [])
      ([] : List UInt8).length ('%'.toUInt8 :: (letters ++ [verb])) 0 =
      .ok (written n m s, s.length) := by
    rw [vseprintLoop_directive found known (by simp [IsInt]) short (Int.le_refl _)
      (by simp only [List.length_nil]; omega), fits, List.nil_append]
    unfold vseprintLoop
    rfl
  rw [written_nil] at ended
  have length : ('%'.toUInt8 :: (letters ++ [verb])).length + 7 = letters.length + 8 + 1 := by
    simp
  rw [vsnprint, vseprint, length]
  refine (congrArg (· >>= _) ended).trans ?_
  rw [Outcome.ok_bind]
  simp only [if_pos (show (s.length : Int) < n by omega)]
  exact store_written (by simp only [List.length_singleton]; omega)

end Libtask
