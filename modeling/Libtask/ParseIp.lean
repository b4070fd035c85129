import Libtask.Net

/-!
# What parseip accepts

The loop of `parseip` reads at most four fields.  A name is a complete address if it follows
the grammar `Dotted`; `parseip` accepts these names, and some more.
-/

namespace Libtask

open Function (update update_self update_of_ne)
open Strtoul (Number Numeral scan)

/-! ## Fields -/

/-- What one call of `strtoul` reads: the number, if there is one, and the text behind it. -/
structure Field where
  number : Option Number
  rest : List UInt8

def readField (p : List UInt8) : Field :=
  match scan p with
  | some (n, rest) => { number := some n, rest }
  | none => { number := none, rest := p }

/-- The fields that the loop reads in this many turns. -/
def fields : Nat → List UInt8 → List Field
  | 0, _ => []
  | left + 1, p =>
      if p = [] then []
      else
        let f := readField p
        f :: if f.rest.head? = some '.'.toUInt8 then fields left f.rest.tail else []

/-- The variable `x`. -/
def Field.int (f : Field) : Int :=
  (((f.number.map Number.toULong).getD 0).setWidth 32).toInt

def Field.byte (f : Field) : UInt8 := UInt8.ofNat f.int.toNat

/-- The two checks of the loop. -/
def Field.Passes (f : Field) : Prop :=
  (0 ≤ f.int ∧ f.int < 256) ∧ (f.rest.head? = some '.'.toUInt8 ∨ f.rest = [])

instance (f : Field) : Decidable f.Passes := inferInstanceAs (Decidable (_ ∧ _))

/-- The field is a number of a byte. -/
def Field.Genuine (f : Field) : Prop := ∃ n, f.number = some n ∧ 0 ≤ n.value ∧ n.value < 256

/-- The array with `bytes` stored from index `i` on. -/
def fill (addr : Nat → UInt8) : Nat → List UInt8 → Nat → UInt8
  | _, [] => addr
  | i, x :: bytes => fill (update addr i x) (i + 1) bytes

theorem strtoul_readField (p : List UInt8) :
    Strtoul.strtoul p =
      (((readField p).number.map Number.toULong).getD 0, (readField p).rest) := by
  unfold Strtoul.strtoul readField
  cases scan p with
  | none => rfl
  | some found => rfl

theorem length_fields_le (left : Nat) (p : List UInt8) : (fields left p).length ≤ left := by
  induction left generalizing p with
  | zero => simp [fields]
  | succ left ih =>
      unfold fields
      split
      · simp
      · dsimp only
        split
        · simpa using ih _
        · simp

theorem parseipLoop_nil (left : Nat) (addr : Nat → UInt8) :
    parseipLoop left addr [] = some (addr, 4 - left) := by
  cases left <;> simp [parseipLoop]

/-- The loop stores the bytes of its fields, if all of them pass. -/
theorem parseipLoop_eq {left : Nat} {addr : Nat → UInt8} {p : List UInt8} (four : left ≤ 4) :
    parseipLoop left addr p =
      if ∀ f ∈ fields left p, f.Passes then
        some (fill addr (4 - left) ((fields left p).map Field.byte),
          4 - left + (fields left p).length)
      else none := by
  induction left generalizing addr p with
  | zero => simp [parseipLoop, fields, fill]
  | succ left ih =>
      have next : 4 - (left + 1) + 1 = 4 - left := by omega
      unfold parseipLoop fields
      by_cases atEnd : p = []
      · simp [atEnd, fill]
      · simp only [if_neg atEnd, strtoul_readField p]
        generalize readField p = f
        change (if f.int < 0 ∨ f.int ≥ 256 then none
          else if f.rest.head? ≠ some '.'.toUInt8 ∧ f.rest ≠ [] then none
          else parseipLoop left (update addr (4 - (left + 1)) f.byte)
            (if f.rest.head? = some '.'.toUInt8 then f.rest.tail else f.rest)) = _
        by_cases passes : f.Passes
        · obtain ⟨⟨low, high⟩, behind⟩ := passes
          rw [if_neg (by omega), if_neg (by tauto)]
          by_cases dot : f.rest.head? = some '.'.toUInt8
          · simp only [if_pos dot]
            rw [ih (by omega)]
            simp only [List.forall_mem_cons, List.map_cons, fill, next, List.length_cons]
            have passes : f.Passes := ⟨⟨low, high⟩, behind⟩
            simp only [passes, true_and]
            split
            · rw [show 4 - left + (fields left f.rest.tail).length =
                4 - (left + 1) + ((fields left f.rest.tail).length + 1) by omega]
            · rfl
          · have ends : f.rest = [] := behind.resolve_left dot
            have passes : f.Passes := ⟨⟨low, high⟩, behind⟩
            rw [if_neg dot, if_neg dot, ends, parseipLoop_nil, ← next]
            simp [passes, fill]
        · have stops : ¬∀ g ∈ f :: (if f.rest.head? = some '.'.toUInt8 then
              fields left f.rest.tail else []), g.Passes := fun all =>
            passes (all f (List.mem_cons_self ..))
          rw [if_neg stops]
          by_cases inRange : f.int < 0 ∨ f.int ≥ 256
          · rw [if_pos inRange]
          · rw [if_neg inRange, if_pos]
            by_contra separated
            exact passes ⟨⟨by omega, by omega⟩, by tauto⟩

/-- What is done with the fields of a name. -/
theorem parseip_eq (name : List UInt8) (addr : Nat → UInt8) :
    parseip name addr =
      if ∀ f ∈ fields 4 name, f.Passes then
        (classRules (fill addr 0 ((fields 4 name).map Field.byte)) (fields 4 name).length).map
          fun addr => [addr 0, addr 1, addr 2, addr 3]
      else none := by
  unfold parseip
  rw [parseipLoop_eq (Nat.le_refl 4)]
  split
  · simp only [Nat.sub_self, Nat.zero_add]
    generalize fill addr 0 ((fields 4 name).map Field.byte) = filled
    cases ruled : classRules filled (fields 4 name).length with
    | none => simp [ruled, bind, Option.bind]
    | some a => simp [ruled, bind, Option.bind, pure]
  · rfl

/-! ## The class rules -/

/-- The numbers of components that the `switch` takes for a class. -/
def Taken (cls i : Nat) : Prop := (cls ≤ 1 → 2 ≤ i) ∧ (cls = 2 → 3 ≤ i)

instance (cls i : Nat) : Decidable (Taken cls i) := inferInstanceAs (Decidable (_ ∧ _))

theorem CLASS_lt (addr : Nat → UInt8) : CLASS addr < 4 := by
  have byte := (addr 0).toNat_lt
  unfold CLASS
  rw [Nat.shiftRight_eq_div_pow]
  omega

/-- The byte that each byte of the address is taken from; nothing for a zero of the rules. -/
def origins (cls i : Nat) : List (Option Nat) :=
  if cls ≤ 1 ∧ i = 3 then [some 0, none, some 1, some 2]
  else if cls ≤ 1 ∧ i = 2 then [some 0, none, none, some 1]
  else if cls = 2 ∧ i = 3 then [some 0, some 1, none, some 2]
  else [some 0, some 1, some 2, some 3]

/-- The `switch` moves the bytes as `origins` says. -/
theorem classRules_eq {addr : Nat → UInt8} {i : Nat} (four : i ≤ 4) :
    (classRules addr i).map (fun addr => [addr 0, addr 1, addr 2, addr 3]) =
      if Taken (CLASS addr) i then
        some ((origins (CLASS addr) i).map fun o => (o.map addr).getD 0)
      else none := by
  have cls := CLASS_lt addr
  unfold classRules Taken origins
  generalize CLASS addr = c at cls
  obtain rfl | rfl | rfl | rfl : c = 0 ∨ c = 1 ∨ c = 2 ∨ c = 3 := by omega
  all_goals
    obtain rfl | rfl | rfl | rfl | rfl : i = 0 ∨ i = 1 ∨ i = 2 ∨ i = 3 ∨ i = 4 := by omega
    all_goals simp

theorem fill_eq (addr : Nat → UInt8) (i : Nat) (bytes : List UInt8) (k : Nat) :
    fill addr i bytes k = if k < i then addr k else (bytes[k - i]?).getD (addr k) := by
  induction bytes generalizing addr i with
  | nil => simp [fill]
  | cons x bytes ih =>
      rw [fill, ih]
      rcases Nat.lt_trichotomy k i with before | rfl | behind
      · simp [before, Nat.lt_succ_of_lt before, Nat.ne_of_lt before]
      · simp
      · obtain ⟨d, rfl⟩ : ∃ d, k = i + (d + 1) := ⟨k - i - 1, by omega⟩
        have later : i + (d + 1) - (i + 1) = d := by omega
        simp [later]

/-- The first byte that the `switch` looks at: the one of the first field, or what was there
before. -/
def firstByte (name : List UInt8) (addr : Nat → UInt8) : UInt8 :=
  (((fields 4 name).map Field.byte)[0]?).getD (addr 0)

/-- The class that the `switch` looks at. -/
def nameClass (name : List UInt8) (addr : Nat → UInt8) : Nat := (firstByte name addr).toNat >>> 6

/-- The bytes that are stored for a name, where `o` says which. -/
def stored (name : List UInt8) (addr : Nat → UInt8) (o : Option Nat) : UInt8 :=
  match o with
  | some k => (((fields 4 name).map Field.byte)[k]?).getD (addr k)
  | none => 0

/-- The names that `parseip` accepts, and the bytes that it stores for them. -/
theorem parseip_eq_some {name : List UInt8} {addr : Nat → UInt8} {ip : List UInt8} :
    parseip name addr = some ip ↔
      (∀ f ∈ fields 4 name, f.Passes) ∧
        Taken (nameClass name addr) (fields 4 name).length ∧
        ip = (origins (nameClass name addr) (fields 4 name).length).map (stored name addr) := by
  have cls : CLASS (fill addr 0 ((fields 4 name).map Field.byte)) = nameClass name addr := by
    simp [CLASS, nameClass, firstByte, fill_eq]
  have bytes : (fun o : Option Nat =>
      (o.map (fill addr 0 ((fields 4 name).map Field.byte))).getD 0) = stored name addr := by
    funext o
    cases o <;> simp [stored, fill_eq]
  rw [parseip_eq, classRules_eq (length_fields_le 4 name), cls, bytes]
  by_cases passes : ∀ f ∈ fields 4 name, f.Passes
  · by_cases taken : Taken (nameClass name addr) (fields 4 name).length
    · simp only [if_pos passes, if_pos taken, Option.some.injEq]
      exact ⟨fun same => ⟨passes, taken, same.symm⟩, fun same => same.2.2.symm⟩
    · simp [taken]
  · simp [passes]

theorem parseip_eq_none {name : List UInt8} {addr : Nat → UInt8} :
    parseip name addr = none ↔
      ¬((∀ f ∈ fields 4 name, f.Passes) ∧
        Taken (nameClass name addr) (fields 4 name).length) := by
  rw [Option.eq_none_iff_forall_ne_some]
  constructor
  · rintro never ⟨passes, taken⟩
    exact never _ (parseip_eq_some.mpr ⟨passes, taken, rfl⟩)
  · intro rejected ip accepted
    obtain ⟨passes, taken, -⟩ := parseip_eq_some.mp accepted
    exact rejected ⟨passes, taken⟩

/-! ## The grammar of addresses -/

/-- Components that are separated by single dots. -/
inductive Dotted : List UInt8 → List Number → Prop where
  | last {text : List UInt8} {n : Number} : Numeral text n → Dotted text [n]
  | more {text rest : List UInt8} {n : Number} {ns : List Number} : Numeral text n →
      Dotted rest ns → Dotted (text ++ '.'.toUInt8 :: rest) (n :: ns)

/-- The numbers of components that a class allows.  The code has no rule for first bytes from
192 on: what they allow is a parameter. -/
def ClassAllows (fourth : Nat → Prop) (first : Int) (count : Nat) : Prop :=
  if first < 128 then 2 ≤ count else if first < 192 then 3 ≤ count else fourth count

/-- The name is a complete dotted address. -/
def Complete (fourth : Nat → Prop) (name : List UInt8) : Prop :=
  ∃ ns first, Dotted name ns ∧ ns.length ≤ 4 ∧ (∀ n ∈ ns, 0 ≤ n.value ∧ n.value < 256) ∧
    ns.head? = some first ∧ ClassAllows fourth first.value ns.length

/-- Nothing is left behind the last field. -/
def Ends (fs : List Field) : Prop := ∀ f, fs.getLast? = some f → f.rest = []

theorem stops_dot (rest : List UInt8) : Strtoul.Stops ('.'.toUInt8 :: rest) := by
  intro c isHead
  obtain rfl := Option.some.inj isHead
  rfl

theorem readField_numeral {text rest : List UInt8} {n : Number} (numeral : Numeral text n)
    (stops : Strtoul.Stops rest) : readField (text ++ rest) = { number := some n, rest } := by
  simp only [readField, Strtoul.scan_complete numeral stops]

/-- The fields of an address are its components. -/
theorem Dotted.fields {p : List UInt8} {ns : List Number} (dotted : Dotted p ns) {left : Nat}
    (few : ns.length ≤ left) :
    (fields left p).map Field.number = ns.map some ∧ Ends (fields left p) ∧
      ∀ f ∈ Libtask.fields left p, f.rest.head? = some '.'.toUInt8 ∨ f.rest = [] := by
  induction dotted generalizing left with
  | last numeral =>
      rename_i text n
      obtain ⟨left, rfl⟩ : ∃ left', left = left' + 1 := ⟨left - 1, by simp at few; omega⟩
      have read := readField_numeral numeral Strtoul.stops_nil
      rw [List.append_nil] at read
      simp [Libtask.fields, numeral.ne_nil, read, Ends]
  | more numeral dotted ih =>
      rename_i text rest n ns
      obtain ⟨left, rfl⟩ : ∃ left', left = left' + 1 := ⟨left - 1, by simp at few; omega⟩
      obtain ⟨numbers, ends, separated⟩ := ih (by simpa using few : ns.length ≤ left)
      have read := readField_numeral numeral (stops_dot rest)
      have unfolded : Libtask.fields (left + 1) (text ++ '.'.toUInt8 :: rest) =
          { number := some n, rest := '.'.toUInt8 :: rest } :: Libtask.fields left rest := by
        simp [Libtask.fields, read]
      rw [unfolded]
      have nonempty : Libtask.fields left rest ≠ [] := by
        intro none
        rw [none] at numbers
        cases dotted
        all_goals cases numbers
      refine ⟨by simp [numbers], ?_, ?_⟩
      · intro f isLast
        rw [List.getLast?_cons_of_ne_nil nonempty] at isLast
        exact ends f isLast
      · rw [List.forall_mem_cons]
        exact ⟨Or.inl rfl, separated⟩

/-- Fields that are numbers up to the end of the name are the components of an address. -/
theorem fields_dotted {left : Nat} {p : List UInt8} (nonempty : fields left p ≠ [])
    (numbers : ∀ f ∈ fields left p, f.number ≠ none)
    (separated : ∀ f ∈ fields left p, f.rest.head? = some '.'.toUInt8 ∨ f.rest = [])
    (ends : Ends (fields left p)) :
    ∃ ns, Dotted p ns ∧ (fields left p).map Field.number = ns.map some := by
  induction left generalizing p with
  | zero => exact absurd rfl nonempty
  | succ left ih =>
      unfold fields at nonempty numbers separated ends ⊢
      split at nonempty
      next => exact absurd rfl nonempty
      next inside =>
        simp only [if_neg inside] at numbers separated ends ⊢
        -- the first field is a numeral
        have isNumber := numbers _ (List.mem_cons_self ..)
        have behind := separated _ (List.mem_cons_self ..)
        obtain ⟨n, rest, scanned⟩ : ∃ n rest, scan p = some (n, rest) := by
          cases scanned : scan p with
          | none => simp [readField, scanned] at isNumber
          | some found => exact ⟨found.1, found.2, rfl⟩
        obtain ⟨text, rfl, numeral⟩ := Strtoul.scan_sound scanned
        have read : readField (text ++ rest) = { number := some n, rest } := by
          simp only [readField, scanned]
        simp only [read] at numbers separated ends behind ⊢
        rcases behind with dot | atEnd
        · obtain ⟨q, rfl⟩ : ∃ q, rest = '.'.toUInt8 :: q := by
            cases rest with
            | nil => cases dot
            | cons c q => exact ⟨q, by rw [Option.some.inj dot]⟩
          simp only [dot, if_true, List.tail_cons] at numbers separated ends ⊢
          have more : fields left q ≠ [] := by
            intro none
            have last := ends { number := some n, rest := '.'.toUInt8 :: q } (by rw [none]; rfl)
            cases last
          obtain ⟨ns, dotted, same⟩ := ih more
            (fun f member => numbers f (List.mem_cons_of_mem _ member))
            (fun f member => separated f (List.mem_cons_of_mem _ member))
            (fun f isLast => ends f (by rw [List.getLast?_cons_of_ne_nil more]; exact isLast))
          exact ⟨n :: ns, .more numeral dotted, by simp [same]⟩
        · subst atEnd
          refine ⟨[n], ?_, by simp⟩
          rw [List.append_nil]
          exact .last numeral

/-! ## Complete addresses -/

/-- Nothing is lost of the number of a byte on the way into the array. -/
theorem Field.int_of_number {f : Field} {n : Number} (number : f.number = some n)
    (low : 0 ≤ n.value) (high : n.value < 256) : f.int = n.value := by
  have fits : n.magnitude < 2 ^ 64 := by
    unfold Number.value at low high
    cases sign : n.negative
    · simp only [sign, Bool.false_eq_true, if_false] at high
      omega
    · simp only [sign, if_true] at low
      omega
  obtain ⟨v, valueEq⟩ : ∃ v : Nat, n.value = v := ⟨n.value.toNat, by omega⟩
  simp only [Field.int, number, Option.map_some, Option.getD_some, Number.toULong, if_pos fits,
    valueEq]
  have small : v < 256 := by omega
  rw [BitVec.ofInt_natCast, BitVec.toInt_eq_toNat_of_lt]
  · rw [BitVec.toNat_setWidth, BitVec.toNat_ofNat]
    omega
  · rw [BitVec.toNat_setWidth, BitVec.toNat_ofNat]
    omega

theorem Field.Genuine.int {f : Field} (genuine : f.Genuine) :
    ∃ n, f.number = some n ∧ f.int = n.value ∧ 0 ≤ n.value ∧ n.value < 256 := by
  obtain ⟨n, number, low, high⟩ := genuine
  exact ⟨n, number, Field.int_of_number number low high, low, high⟩

/-- What the fields of such an address are. -/
theorem fields_of_complete {fourth : Nat → Prop} {name : List UInt8}
    (complete : Complete fourth name) :
    ∃ first, (fields 4 name).head? = some first ∧
      (∀ f ∈ fields 4 name, f.Genuine ∧ f.Passes) ∧ Ends (fields 4 name) ∧
      ClassAllows fourth first.int (fields 4 name).length := by
  obtain ⟨ns, n, dotted, few, values, isHead, allowed⟩ := complete
  obtain ⟨numbers, ends, separated⟩ := dotted.fields few
  have genuine : ∀ f ∈ fields 4 name, f.Genuine := by
    intro f member
    have isNumber : f.number ∈ ns.map some := by
      rw [← numbers]
      exact List.mem_map_of_mem member
    obtain ⟨n, isIn, number⟩ := List.mem_map.mp isNumber
    exact ⟨n, number.symm, values n isIn⟩
  have lengthEq : (fields 4 name).length = ns.length := by
    have lengths := congrArg List.length numbers
    simpa using lengths
  cases fieldsEq : fields 4 name with
  | nil =>
      rw [fieldsEq] at numbers
      cases dotted
      all_goals cases numbers
  | cons first rest =>
      rw [fieldsEq] at numbers genuine separated ends lengthEq
      obtain ⟨m, ms, rfl⟩ : ∃ m ms, ns = m :: ms := by
        cases ns with
        | nil => cases isHead
        | cons m ms => exact ⟨m, ms, rfl⟩
      obtain rfl : m = n := Option.some.inj isHead
      have number : first.number = some m := (List.cons.inj numbers).1
      have value := values m (List.mem_cons_self ..)
      refine ⟨first, rfl, fun f member => ⟨genuine f member, ?_, separated f member⟩, ends, ?_⟩
      · obtain ⟨k, -, intEq, range⟩ := (genuine f member).int
        rw [intEq]
        exact range
      · rw [Field.int_of_number number value.1 value.2, lengthEq]
        exact allowed

theorem complete_of_fields {fourth : Nat → Prop} {name : List UInt8} {first : Field}
    (isHead : (fields 4 name).head? = some first)
    (good : ∀ f ∈ fields 4 name, f.Genuine ∧ f.Passes) (ends : Ends (fields 4 name))
    (allowed : ClassAllows fourth first.int (fields 4 name).length) : Complete fourth name := by
  have nonempty : fields 4 name ≠ [] := by
    intro none
    rw [none] at isHead
    cases isHead
  obtain ⟨ns, dotted, numbers⟩ := fields_dotted nonempty
    (fun f member => by
      obtain ⟨n, number, -⟩ := (good f member).1
      simp [number])
    (fun f member => (good f member).2.2) ends
  have lengthEq : (fields 4 name).length = ns.length := by
    have lengths := congrArg List.length numbers
    simpa using lengths
  have values : ∀ n ∈ ns, 0 ≤ n.value ∧ n.value < 256 := by
    intro n member
    have isNumber : some n ∈ (fields 4 name).map Field.number := by
      rw [numbers]
      exact List.mem_map_of_mem member
    obtain ⟨f, isField, number⟩ := List.mem_map.mp isNumber
    obtain ⟨m, number', range⟩ := (good f isField).1
    obtain rfl : m = n := Option.some.inj (number'.symm.trans number)
    exact range
  obtain ⟨n, number, intEq, -⟩ := (good first (List.mem_of_mem_head? isHead)).1.int
  refine ⟨ns, n, dotted, lengthEq ▸ length_fields_le 4 name, values, ?_, ?_⟩
  · cases fieldsEq : fields 4 name with
    | nil => exact absurd fieldsEq nonempty
    | cons f fs =>
        rw [fieldsEq] at isHead numbers
        obtain rfl : f = first := Option.some.inj isHead
        cases ns with
        | nil => cases numbers
        | cons m ms =>
            have same := (List.cons.inj numbers).1
            rw [number] at same
            exact same.symm
  · rw [← intEq, ← lengthEq]
    exact allowed

/-- A complete address, in terms of the fields that the loop reads. -/
theorem complete_iff {fourth : Nat → Prop} {name : List UInt8} :
    Complete fourth name ↔
      ∃ first, (fields 4 name).head? = some first ∧
        (∀ f ∈ fields 4 name, f.Genuine ∧ f.Passes) ∧ Ends (fields 4 name) ∧
        ClassAllows fourth first.int (fields 4 name).length := by
  constructor
  · exact fields_of_complete
  · rintro ⟨first, isHead, good, ends, allowed⟩
    exact complete_of_fields isHead good ends allowed

end Libtask
