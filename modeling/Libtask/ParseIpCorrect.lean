import Libtask.ParseIp

/-!
# Where parseip goes wrong

`parseip` checks the fields that its loop reads and their number.  It does not check that a
field has digits, that its value was below 256 before the conversions, that the name ends
behind the last field, or that anything was read at all; and it has no rule for first bytes
from 192 on, for which it uses whatever is in `addr`.
-/

namespace Libtask

open Strtoul (Number)

variable {fourth : Nat → Prop} {name : List UInt8} {addr : Nat → UInt8}

/-- `parseip` accepts only complete addresses, and `netlookup` resolves all other names. -/
def OnlyComplete (fourth : Nat → Prop) (name : List UInt8) (addr : Nat → UInt8) : Prop :=
  (∀ ip, parseip name addr = some ip → Complete fourth name) ∧
  (¬Complete fourth name → parseip name addr = none ∧
    ∀ gethostbyname, netlookup gethostbyname name addr = gethostbyname name)

/-- The names that slip through: they pass all checks, but nothing was read, or a field has no
digits, or the conversions brought its value below 256, or a dot is behind the last field, or
the class does not allow the number of fields. -/
structure Slip (fourth : Nat → Prop) (name : List UInt8) (addr : Nat → UInt8) : Prop where
  passes : ∀ f ∈ fields 4 name, f.Passes
  taken : Taken (nameClass name addr) (fields 4 name).length
  wrong : name = [] ∨ (∃ f ∈ fields 4 name, f.number = none) ∨
    (∃ f ∈ fields 4 name, ∃ n, f.number = some n ∧ ¬(0 ≤ n.value ∧ n.value < 256)) ∨
    (∃ f, (fields 4 name).getLast? = some f ∧ f.rest.head? = some '.'.toUInt8) ∨
    192 ≤ (firstByte name addr).toNat ∧ ¬fourth (fields 4 name).length

theorem Field.Passes.byte {f : Field} (passes : f.Passes) : (f.byte.toNat : Int) = f.int := by
  obtain ⟨⟨low, high⟩, -⟩ := passes
  rw [Field.byte, UInt8.toNat_ofNat']
  omega

theorem firstByte_of_head {first : Field} (isHead : (fields 4 name).head? = some first) :
    firstByte name addr = first.byte := by
  cases fieldsEq : fields 4 name with
  | nil =>
      rw [fieldsEq] at isHead
      cases isHead
  | cons f fs =>
      rw [fieldsEq] at isHead
      obtain rfl : f = first := Option.some.inj isHead
      simp [firstByte, fieldsEq]

theorem nameClass_eq : nameClass name addr = (firstByte name addr).toNat / 64 := by
  rw [nameClass, Nat.shiftRight_eq_div_pow]

/-- A name that slips through is accepted and not complete. -/
theorem Slip.not_only (slip : Slip fourth name addr) : ¬OnlyComplete fourth name addr := by
  rintro ⟨only, -⟩
  have complete := only _ (parseip_eq_some.mpr ⟨slip.passes, slip.taken, rfl⟩)
  obtain ⟨first, isHead, good, ends, allowed⟩ := complete_iff.mp complete
  rcases slip.wrong with
    rfl | ⟨f, member, noNumber⟩ | ⟨f, member, n, number, range⟩ | ⟨f, isLast, dot⟩ | ⟨high, refused⟩
  · cases isHead
  · obtain ⟨n, number, -⟩ := (good f member).1
    rw [noNumber] at number
    cases number
  · obtain ⟨m, number', range'⟩ := (good f member).1
    obtain rfl : m = n := Option.some.inj (number'.symm.trans number)
    exact range range'
  · rw [ends f isLast] at dot
    cases dot
  · have byte := (good first (List.mem_of_mem_head? isHead)).2.byte
    rw [firstByte_of_head isHead] at high
    unfold ClassAllows at allowed
    rw [if_neg (by omega), if_neg (by omega)] at allowed
    exact refused allowed

/-- Something is read of every name but the empty one. -/
theorem head_of_ne_nil (nonempty : name ≠ []) :
    ∃ first, (fields 4 name).head? = some first := by
  simp [fields, nonempty]

/-- The class of a name that the `switch` takes allows the number of its fields, unless it has
no rule for it. -/
theorem classAllows_of_taken {first : Field} (isHead : (fields 4 name).head? = some first)
    (passes : first.Passes) (taken : Taken (nameClass name addr) (fields 4 name).length)
    (rule : 192 ≤ (firstByte name addr).toNat → fourth (fields 4 name).length) :
    ClassAllows fourth first.int (fields 4 name).length := by
  have byte := passes.byte
  rw [nameClass_eq, firstByte_of_head isHead] at taken
  rw [firstByte_of_head isHead] at rule
  unfold ClassAllows
  split
  next => exact taken.1 (by omega)
  next =>
    split
    next => exact taken.2 (by omega)
    next => exact rule (by omega)

/-- `parseip` accepts only complete addresses, and the others go on to name resolution, unless
the name is one of those that slip through. -/
theorem parseip_only_complete (fourth : Nat → Prop) (name : List UInt8) (addr : Nat → UInt8) :
    OnlyComplete fourth name addr ↔ ¬Slip fourth name addr := by
  constructor
  · exact fun only slip => slip.not_only only
  · intro noSlip
    have only : ∀ ip, parseip name addr = some ip → Complete fourth name := by
      intro ip accepted
      obtain ⟨passes, taken, -⟩ := parseip_eq_some.mp accepted
      have right := fun wrong => noSlip ⟨passes, taken, wrong⟩
      obtain ⟨first, isHead⟩ := head_of_ne_nil fun empty => right (Or.inl empty)
      have genuine : ∀ f ∈ fields 4 name, f.Genuine := by
        intro f member
        cases number : f.number with
        | none => exact absurd (Or.inr (Or.inl ⟨f, member, number⟩)) right
        | some n =>
            refine ⟨n, number, ?_⟩
            by_contra range
            exact right (Or.inr (Or.inr (Or.inl ⟨f, member, n, number, range⟩)))
      have ends : Ends (fields 4 name) := by
        intro f isLast
        refine (passes f (List.mem_of_mem_getLast? isLast)).2.resolve_left fun dot => ?_
        exact right (Or.inr (Or.inr (Or.inr (Or.inl ⟨f, isLast, dot⟩))))
      have rule : 192 ≤ (firstByte name addr).toNat → fourth (fields 4 name).length := by
        intro high
        by_contra refused
        exact right (Or.inr (Or.inr (Or.inr (Or.inr ⟨high, refused⟩))))
      have firstPasses := passes first (List.mem_of_mem_head? isHead)
      exact complete_iff.mpr ⟨first, isHead, fun f member => ⟨genuine f member, passes f member⟩,
        ends, classAllows_of_taken isHead firstPasses taken rule⟩
    refine ⟨only, fun incomplete => ?_⟩
    have rejected : parseip name addr = none := by
      rw [Option.eq_none_iff_forall_ne_some]
      exact fun ip accepted => incomplete (only ip accepted)
    exact ⟨rejected, fun gethostbyname => by simp [netlookup, rejected]⟩

/-- `1.2.3.4.example.com` -/
def hostName : List UInt8 :=
  ['1', '.', '2', '.', '3', '.', '4', '.', 'e', 'x', 'a', 'm', 'p', 'l', 'e', '.', 'c', 'o',
    'm'].map Char.toUInt8

/-- A host name is taken for the address in front of it. -/
theorem parseip_hostName : parseip hostName (fun _ => 0) = some [1, 2, 3, 4] ∧
    ¬∃ fourth, OnlyComplete fourth hostName fun _ => 0 := by
  refine ⟨by decide +kernel, ?_⟩
  rintro ⟨fourth, only⟩
  have slip : Slip fourth hostName fun _ => 0 := by
    refine ⟨by decide +kernel, by decide +kernel, ?_⟩
    refine Or.inr (Or.inr (Or.inr (Or.inl ?_)))
    have last : ((fields 4 hostName).getLast?.map fun f => f.rest.head?) =
        some (some '.'.toUInt8) := by decide +kernel
    obtain ⟨f, isLast, dot⟩ := Option.map_eq_some_iff.mp last
    exact ⟨f, isLast, dot⟩
  exact slip.not_only only

/-! ## The result as a function of the name -/

/-- A byte of the address, of which `o` says from which component it is. -/
def component (name : List UInt8) (o : Option Nat) : UInt8 :=
  match o with
  | some k => (((fields 4 name).map Field.byte)[k]?).getD 0
  | none => 0

/-- Whatever `addr` holds at first, the result is the same, and its bytes are those of the
components, or zeros of the class rules. -/
def Determined (name : List UInt8) : Prop :=
  (∀ addr addr', parseip name addr = parseip name addr') ∧
  ∀ addr ip, parseip name addr = some ip →
    ip = (origins (nameClass name addr) (fields 4 name).length).map (component name) ∧
    ∀ k, some k ∈ origins (nameClass name addr) (fields 4 name).length →
      k < (fields 4 name).length

/-- Names whose result depends on what `addr` holds: the empty one, and those with fewer than
four fields, which pass the checks, and a first byte from 192 on. -/
def Leaks (name : List UInt8) : Prop :=
  name = [] ∨ (∀ f ∈ fields 4 name, f.Passes) ∧ (fields 4 name).length < 4 ∧
    ∃ first, (fields 4 name).head? = some first ∧ 192 ≤ first.byte.toNat

/-- Only bytes that the loop stored are moved by the rules of the `switch`. -/
theorem origins_lt {cls i k : Nat} (taken : Taken cls i) (four : 3 ≤ cls → 4 ≤ i)
    (moved : some k ∈ origins cls i) : k < i := by
  obtain ⟨low, middle⟩ := taken
  unfold origins at moved
  split at moved
  next rule => simp at moved; omega
  next =>
    split at moved
    next rule => simp at moved; omega
    next =>
      split at moved
      next rule => simp at moved; omega
      next => simp at moved; omega

/-- The empty name is accepted or not, by the leftover byte. -/
theorem parseip_nil : parseip [] (fun _ => 0) = none ∧
    parseip [] (fun _ => 255) = some [255, 255, 255, 255] := by
  constructor <;> rfl

/-- The last byte of a name that leaks is the leftover one. -/
theorem parseip_leaks (addr : Nat → UInt8) {first : Field} (passes : ∀ f ∈ fields 4 name, f.Passes)
    (short : (fields 4 name).length < 4) (isHead : (fields 4 name).head? = some first)
    (high : 192 ≤ first.byte.toNat) :
    ∃ ip, parseip name addr = some ip ∧ ip[3]? = some (addr 3) := by
  have cls : nameClass name addr = 3 := by
    have byte := first.byte.toNat_lt
    rw [nameClass_eq, firstByte_of_head isHead]
    omega
  have taken : Taken (nameClass name addr) (fields 4 name).length := by
    simp [Taken, cls]
  refine ⟨_, parseip_eq_some.mpr ⟨passes, taken, rfl⟩, ?_⟩
  have beyond : ((fields 4 name).map Field.byte)[3]? = none := by
    rw [List.getElem?_eq_none_iff, List.length_map]
    omega
  simp [cls, origins, stored, beyond]

/-- The result of `parseip` is a function of the name, unless the name is one of those that
leak. -/
theorem parseip_determined (name : List UInt8) : Determined name ↔ ¬Leaks name := by
  constructor
  · rintro ⟨same, -⟩ (rfl | ⟨passes, short, first, isHead, high⟩)
    · have different := same (fun _ => 0) fun _ => 255
      rw [parseip_nil.1, parseip_nil.2] at different
      cases different
    · obtain ⟨ip, accepted, last⟩ := parseip_leaks (fun _ => 0) passes short isHead high
      obtain ⟨ip', accepted', last'⟩ :=
        parseip_leaks (fun _ => 1) passes short isHead high
      obtain rfl : ip = ip' := by
        rw [same _ fun _ => 1, accepted'] at accepted
        exact (Option.some.inj accepted).symm
      rw [last] at last'
      exact absurd (Option.some.inj last') (by decide)
  · intro tight
    obtain ⟨first, isHead⟩ := head_of_ne_nil fun empty => tight (Or.inl empty)
    have cls : ∀ addr addr', nameClass name addr = nameClass name addr' := fun addr addr' => by
      rw [nameClass, nameClass, firstByte_of_head isHead, firstByte_of_head isHead]
    -- what is accepted is put together from components
    have composed : ∀ addr ip, parseip name addr = some ip →
        ip = (origins (nameClass name addr) (fields 4 name).length).map (component name) ∧
        ∀ k, some k ∈ origins (nameClass name addr) (fields 4 name).length →
          k < (fields 4 name).length := by
      intro addr ip accepted
      obtain ⟨passes, taken, ipEq⟩ := parseip_eq_some.mp accepted
      have four : 3 ≤ nameClass name addr → 4 ≤ (fields 4 name).length := by
        intro high
        by_contra few
        refine tight (Or.inr ⟨passes, by omega, first, isHead, ?_⟩)
        rw [nameClass_eq, firstByte_of_head isHead] at high
        omega
      have inside := fun k => origins_lt (k := k) taken four
      refine ⟨ipEq.trans (List.map_congr_left fun o member => ?_), inside⟩
      cases o with
      | none => rfl
      | some k =>
          have read : k < ((fields 4 name).map Field.byte).length := by
            rw [List.length_map]
            exact inside k member
          simp [stored, component, List.getElem?_eq_getElem read]
    refine ⟨fun addr addr' => ?_, composed⟩
    cases result : parseip name addr with
    | some ip =>
        obtain ⟨passes, taken, -⟩ := parseip_eq_some.mp result
        have accepted := parseip_eq_some.mpr ⟨passes, cls addr addr' ▸ taken, rfl⟩
        rw [accepted, (composed _ _ result).1, (composed _ _ accepted).1, cls addr addr']
    | none =>
        symm
        rw [parseip_eq_none] at result ⊢
        rw [cls addr' addr]
        exact result

/-- The last two bytes for `224.1` are leftovers. -/
theorem parseip_multicast :
    parseip (['2', '2', '4', '.', '1'].map Char.toUInt8) (fun _ => 0) = some [224, 1, 0, 0] ∧
    parseip (['2', '2', '4', '.', '1'].map Char.toUInt8) (fun _ => 9) = some [224, 1, 9, 9] ∧
    ¬Determined (['2', '2', '4', '.', '1'].map Char.toUInt8) := by
  have zeros : parseip (['2', '2', '4', '.', '1'].map Char.toUInt8) (fun _ => 0) =
      some [224, 1, 0, 0] := by decide +kernel
  have nines : parseip (['2', '2', '4', '.', '1'].map Char.toUInt8) (fun _ => 9) =
      some [224, 1, 9, 9] := by decide +kernel
  refine ⟨zeros, nines, ?_⟩
  rintro ⟨same, -⟩
  have different := same (fun _ => 0) fun _ => 9
  rw [zeros, nines] at different
  exact absurd different (by decide)

end Libtask
