import Libtask.ParseIp
import Libtask.PrintText

/-!
# The text of an address

`netaccept` writes the address of its peer in decimal, and `parseip` reads it back.
-/

namespace Libtask

open Strtoul (Number Numeral decimal)

variable {strerror : List UInt8} {arg : Nat → Arg} {edst : Int} {fuel ap size : Nat}
  {m : Bytes.Memory} {text p : List UInt8}

/-! ## Formatting -/

/-- `%d` writes the decimal text of a number that is not negative. -/
theorem vseprintLoop_d {n : Nat} (magnitude : (arg ap).magnitude {} = n)
    (within : edst ≤ size) (fits : ((text ++ decimal n).length : Int) < edst) :
    vseprintLoop strerror arg edst (fuel + 1) (written size m text) text.length
        ('%'.toUInt8 :: 'd'.toUInt8 :: p) ap =
      vseprintLoop strerror arg edst fuel (written size m (text ++ decimal n))
        (text ++ decimal n).length p (ap + 1) := by
  have found : directive {} 0 1 ('d'.toUInt8 :: p) = some ({}, 0, 'd'.toUInt8, p) := rfl
  have isBase : IsBase 10 := by simp [IsBase]
  have known : verbText strerror {} 'd'.toUInt8 (arg ap) = some (.ok (decimal n)) := by
    rw [← numText_decimal, ← magnitude, ← num_eq isBase]
    rfl
  have short : (decimal n).length < 2 ^ 31 := by
    have bound := length_numText_le isBase (magnitude ▸ BitVec.isLt _ : n < 2 ^ 64)
    rw [numText_decimal] at bound
    omega
  have positive := List.length_pos_iff.mpr (Strtoul.decimal_ne_nil n)
  rw [List.length_append] at fits
  rw [vseprintLoop_directive found known (by simp [IsInt]) short within (by omega),
    field_fits (by omega)]
  rfl

/-- `%d.` -/
theorem vseprintLoop_component {n : Nat} (text : List UInt8)
    (magnitude : (arg ap).magnitude {} = n) (within : edst ≤ size)
    (fits : ((text ++ decimal n ++ ['.'.toUInt8]).length : Int) < edst) :
    vseprintLoop strerror arg edst (fuel + 2) (written size m text) text.length
        ('%'.toUInt8 :: 'd'.toUInt8 :: '.'.toUInt8 :: p) ap =
      vseprintLoop strerror arg edst fuel (written size m (text ++ decimal n ++ ['.'.toUInt8]))
        (text ++ decimal n ++ ['.'.toUInt8]).length p (ap + 1) := by
  have number : ((text ++ decimal n).length : Int) < edst := by
    rw [List.length_append, List.length_singleton] at fits
    omega
  rw [vseprintLoop_d magnitude within number, vseprintLoop_char (by decide) within fits]

/-- A byte is printed as it is. -/
theorem magnitude_byte (x : UInt8) :
    ({ word := BitVec.ofNat 64 x.toNat } : Arg).magnitude {} = x.toNat := by
  have all : ∀ v < 256, ({ word := BitVec.ofNat 64 v } : Arg).magnitude {} = v := by
    decide +kernel
  exact all _ x.toNat_lt

theorem length_decimal_byte (x : UInt8) : (decimal x.toNat).length ≤ 3 := by
  have byte := x.toNat_lt
  unfold decimal
  split
  · decide
  · rw [Strtoul.digits, List.length_reverse, List.length_map]
    exact (Nat.digits_length_le_iff (by decide) _).mpr (by omega)

/-- The text of an address. -/
def dottedText (a b c d : UInt8) : List UInt8 :=
  decimal a.toNat ++ '.'.toUInt8 :: (decimal b.toNat ++ '.'.toUInt8 ::
    (decimal c.toNat ++ '.'.toUInt8 :: decimal d.toNat))

theorem length_dottedText_lt (a b c d : UInt8) : (dottedText a b c d).length < 16 := by
  have first := length_decimal_byte a
  have second := length_decimal_byte b
  have third := length_decimal_byte c
  have fourth := length_decimal_byte d
  simp only [dottedText, List.length_append, List.length_cons]
  omega

/-- `netaccept` writes the whole text, and a NUL behind it. -/
theorem netacceptServer_eq (server : Bytes.Memory) (a b c d : UInt8) :
    netacceptServer strerror server [a, b, c, d] =
      .ok (written 16 server (dottedText a b c d ++ [0])) := by
  have bound := length_dottedText_lt a b c d
  simp only [dottedText, List.length_append, List.length_cons] at bound
  generalize argEq : (fun k : Nat =>
    ({ word := BitVec.ofNat 64 ((([a, b, c, d] : List UInt8)[k]?).getD 0).toNat } : Arg)) = arg
  have magnitude : (arg 0).magnitude {} = a.toNat ∧ (arg 1).magnitude {} = b.toNat ∧
      (arg 2).magnitude {} = c.toNat ∧ (arg 3).magnitude {} = d.toNat := by
    subst argEq
    exact ⟨magnitude_byte a, magnitude_byte b, magnitude_byte c, magnitude_byte d⟩
  have textEq : [] ++ decimal a.toNat ++ ['.'.toUInt8] ++ decimal b.toNat ++ ['.'.toUInt8] ++
      decimal c.toNat ++ ['.'.toUInt8] ++ decimal d.toNat = dottedText a b c d := by
    simp [dottedText]
  have printed : vseprintLoop strerror arg (16 : Nat) 18 (written 16 server [])
      ([] : List UInt8).length serverFormat 0 =
      .ok (written 16 server (dottedText a b c d), (dottedText a b c d).length) := by
    have format : serverFormat = '%'.toUInt8 :: 'd'.toUInt8 :: '.'.toUInt8 :: '%'.toUInt8 ::
      'd'.toUInt8 :: '.'.toUInt8 :: '%'.toUInt8 :: 'd'.toUInt8 :: '.'.toUInt8 ::
      ['%'.toUInt8, 'd'.toUInt8] := rfl
    rw [format]
    rw [vseprintLoop_component [] magnitude.1 (Int.le_refl _) (by simp; omega)]
    rw [vseprintLoop_component _ magnitude.2.1 (Int.le_refl _) (by simp; omega)]
    rw [vseprintLoop_component _ magnitude.2.2.1 (Int.le_refl _) (by simp; omega)]
    rw [vseprintLoop_d magnitude.2.2.2 (Int.le_refl _) (by simp; omega), textEq]
    rfl
  have start : ({ size := 16, mem := server } : Buffer) = written 16 server [] :=
    (written_nil 16 server).symm
  have stored : (written 16 server (dottedText a b c d)).store (dottedText a b c d).length [0] =
      .ok (written 16 server (dottedText a b c d ++ [0])) :=
    store_written (length_dottedText_lt a b c d)
  have below : ((dottedText a b c d).length : Int) < (16 : Nat) := by
    have short := length_dottedText_lt a b c d
    omega
  unfold netacceptServer vsnprint vseprint
  rw [argEq, start]
  have printed' : vseprintLoop strerror arg (16 : Nat) (serverFormat.length + 7)
      (written 16 server []) 0 serverFormat 0 =
      .ok (written 16 server (dottedText a b c d), (dottedText a b c d).length) := printed
  rw [printed', Outcome.ok_bind]
  simp only [if_pos below]
  exact stored

/-! ## Parsing -/

theorem decimal_component (x : UInt8) :
    ∃ n, Numeral (decimal x.toNat) n ∧ n.value = x.toNat := by
  obtain ⟨base, numeral, value⟩ := Strtoul.decimal_numeral x.toNat
  exact ⟨_, numeral, by simp [Number.value, Number.magnitude, value]⟩

theorem Field.byte_of_number {f : Field} {n : Number} {x : UInt8} (number : f.number = some n)
    (value : n.value = x.toNat) : f.int = x.toNat ∧ f.byte = x := by
  have byte := x.toNat_lt
  have intEq : f.int = x.toNat := by
    rw [Field.int_of_number number (by omega) (by omega), value]
  refine ⟨intEq, ?_⟩
  rw [Field.byte, intEq]
  simp

/-- `parseip` reads the text back. -/
theorem parseip_dottedText (a b c d : UInt8) (addr : Nat → UInt8) :
    parseip (dottedText a b c d) addr = some [a, b, c, d] := by
  obtain ⟨na, isA, valueA⟩ := decimal_component a
  obtain ⟨nb, isB, valueB⟩ := decimal_component b
  obtain ⟨nc, isC, valueC⟩ := decimal_component c
  obtain ⟨nd, isD, valueD⟩ := decimal_component d
  have dotted : Dotted (dottedText a b c d) [na, nb, nc, nd] :=
    .more isA (.more isB (.more isC (.last isD)))
  obtain ⟨numbers, -, separated⟩ := dotted.fields (Nat.le_refl 4)
  obtain ⟨fa, rest₁, fieldsEq, numberA, numbers₁⟩ := List.map_eq_cons_iff.mp numbers
  obtain ⟨fb, rest₂, rfl, numberB, numbers₂⟩ := List.map_eq_cons_iff.mp numbers₁
  obtain ⟨fc, rest₃, rfl, numberC, numbers₃⟩ := List.map_eq_cons_iff.mp numbers₂
  obtain ⟨fd, rest₄, rfl, numberD, numbers₄⟩ := List.map_eq_cons_iff.mp numbers₃
  obtain rfl := List.map_eq_nil_iff.mp numbers₄
  obtain ⟨intA, byteA⟩ := Field.byte_of_number numberA valueA
  obtain ⟨intB, byteB⟩ := Field.byte_of_number numberB valueB
  obtain ⟨intC, byteC⟩ := Field.byte_of_number numberC valueC
  obtain ⟨intD, byteD⟩ := Field.byte_of_number numberD valueD
  have inRange : ∀ (f : Field) (x : UInt8), f.int = x.toNat → 0 ≤ f.int ∧ f.int < 256 := by
    intro f x intEq
    have byte := x.toNat_lt
    omega
  rw [parseip_eq_some, fieldsEq]
  rw [fieldsEq] at separated
  refine ⟨fun f member => ⟨?_, separated f member⟩, by simp [Taken], ?_⟩
  · simp only [List.mem_cons, List.not_mem_nil, or_false] at member
    rcases member with rfl | rfl | rfl | rfl
    · exact inRange _ a intA
    · exact inRange _ b intB
    · exact inRange _ c intC
    · exact inRange _ d intD
  · simp [origins, stored, fieldsEq, byteA, byteB, byteC, byteD]

/-- The text that `netaccept` writes for an address fits in its 16 bytes as a whole, and
`parseip` reads the same four bytes back. -/
theorem address_roundtrip (strerror : List UInt8) (server : Bytes.Memory)
    (addr : Nat → UInt8) (a b c d : UInt8) :
    ∃ buf text, netacceptServer strerror server [a, b, c, d] = .ok buf ∧
      text = dottedText a b c d ∧ text.length < 16 ∧ (0 : UInt8) ∉ text ∧
      Bytes.read buf.mem 0 text.length = text ∧ buf.mem text.length = 0 ∧
      parseip text addr = some [a, b, c, d] := by
  refine ⟨_, dottedText a b c d, netacceptServer_eq server a b c d, rfl,
    length_dottedText_lt a b c d, ?_, ?_, ?_, parseip_dottedText a b c d addr⟩
  · have dot : (0 : UInt8) ≠ '.'.toUInt8 := by decide
    simp [dottedText, zero_notMem_decimal, dot]
  · have apart := Bytes.write_append server 0 (dottedText a b c d) [0]
    simp only [written, ← apart]
    rw [Bytes.read_write_of_disjoint _ _ (Or.inr (Nat.le_refl _)), Bytes.read_write_self]
  · simp [written, Bytes.write]

end Libtask
