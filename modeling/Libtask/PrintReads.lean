import Libtask.PrintText

/-!
# What the formatter reads of the format

`vseprint` once more, with its pointer `p`.  The inner loop, over the flags and the width, stops
at the NUL.  The outer loop then moves on to the next character all the same.
-/

namespace Libtask

open Outcome (ok_bind bind_eq_error bind_eq_ok)

variable {strerror : List UInt8} {arg : Nat → Arg} {edst w : Int} {fuel ap i : Nat} {b : Buffer}
  {fmt p q s text : List UInt8} {fl fl' : Flags} {size size' sign : Int} {verb c : UInt8}

/-! ## Directives in a longer format -/

/-- What stands behind a directive does not matter for it. -/
theorem directive_append (found : directive fl size sign text = some (fl', size', verb, q)) :
    directive fl size sign (text ++ p) = some (fl', size', verb, q ++ p) := by
  induction text generalizing fl size sign with
  | nil => cases found
  | cons c text ih =>
      rw [List.cons_append]
      rcases directive_cons fl size sign c with ⟨-, _, _, _, step⟩ | ⟨-, ended⟩
      · rw [step] at found ⊢
        exact ih found
      · rw [ended] at found ⊢
        obtain ⟨⟩ := found
        rfl

/-- The directive ends with its verb. -/
theorem directive_text (found : directive fl size sign q = some (fl', size', verb, p)) :
    ∃ text, q = text ++ p ∧ directive fl size sign text = some (fl', size', verb, []) := by
  induction q generalizing fl size sign with
  | nil => cases found
  | cons c q ih =>
      rcases directive_cons fl size sign c with ⟨-, _, _, _, step⟩ | ⟨-, ended⟩
      · rw [step] at found
        obtain ⟨text, split, whole⟩ := ih found
        refine ⟨c :: text, by rw [split, List.cons_append], ?_⟩
        rw [step]
        exact whole
      · rw [ended] at found
        obtain ⟨⟩ := found
        exact ⟨[verb], rfl, ended []⟩

/-- A directive is cut off if there are only flags and digits in it. -/
theorem directive_eq_none : directive fl size sign q = none ↔ ∀ c ∈ q, isFlag c = true := by
  induction q generalizing fl size sign with
  | nil => simp [directive]
  | cons c q ih =>
      rcases directive_cons fl size sign c with ⟨flag, _, _, _, step⟩ | ⟨isVerb, ended⟩
      · rw [step, ih]
        simp [flag]
      · rw [ended]
        simp [isVerb]

theorem directive_isInt (found : directive fl size sign q = some (fl', size', verb, p)) :
    IsInt size' := by
  induction q generalizing fl size sign with
  | nil => cases found
  | cons c q ih =>
      rcases directive_cons fl size sign c with ⟨-, _, _, _, step⟩ | ⟨-, ended⟩
      · rw [step] at found
        exact ih found
      · rw [ended] at found
        obtain ⟨⟩ := found
        exact isInt_toInt _

/-! ## Strings of any length -/

theorem toInt_le (l : Nat) : toInt l ≤ l := by
  simp only [toInt, Int.bmod_def]
  split <;> omega

theorem memmove_take {dst l : Int} {n : Nat} (short : l ≤ n) (within : n ≤ s.length) :
    b.memmove dst (s.take n) l = b.memmove dst s l := by
  have counts : (0 ≤ l ∧ l ≤ (s.take n).length) ↔ (0 ≤ l ∧ l ≤ s.length) := by
    rw [List.length_take]
    omega
  have same : (s.take n).take l.toNat = s.take l.toNat := by
    rw [List.take_take, Nat.min_eq_left (by omega)]
  simp only [Buffer.memmove, counts, same]

/-- `strlen`, as an `int`, may be less than the length of a huge string, of which the rest is
then left out. -/
theorem printstr_take {dst : Int} (proper : 0 ≤ toInt s.length) :
    printstr b dst edst (s.take (toInt s.length).toNat) size = printstr b dst edst s size := by
  have small := toInt_le s.length
  have isInt := isInt_toInt s.length
  obtain ⟨n, nEq⟩ : ∃ n : Nat, toInt s.length = n := ⟨(toInt s.length).toNat, by omega⟩
  rw [nEq] at small isInt
  have length : (s.take n).length = n := by
    rw [List.length_take]
    omega
  have cut {m : Int} : (if (n : Int) > m then m else n) ≤ n := by
    split <;> omega
  simp only [printstr, nEq, Int.toNat_natCast, length, toInt_of_isInt isInt,
    memmove_take cut (Int.ofNat_le.mp small)]

/-- A length that is no `int` makes a negative count of bytes. -/
theorem printstr_negative (b : Buffer) {dst : Int} (size : Int) (below : dst < edst)
    (negative : toInt s.length < 0) : ∃ e, printstr b dst edst s size = .error e := by
  unfold printstr
  simp only [if_neg (Int.not_le.mpr below)]
  generalize (if toInt s.length < _ then _ else toInt s.length) = wide
  generalize (if wide ≥ edst - dst then toInt (edst - dst - 1) else wide) = n
  generalize lEq : (if toInt s.length > n then n else toInt s.length) = l
  have negative' : l < 0 := by
    split at lEq <;> omega
  have stops (b : Buffer) (p : Int) : b.memmove p s l = .error .load :=
    if_neg fun counts => Int.not_le.mpr negative' counts.1
  simp only [stops]
  by_cases left : size < 0
  · rw [if_pos left, if_pos (by decide)]
    exact ⟨_, rfl⟩
  · rw [if_neg left, if_neg (by decide)]
    by_cases padded : n - l ≠ 0
    · rw [if_pos padded]
      exact Outcome.bind_stops fun _ => ⟨_, rfl⟩
    · rw [if_neg padded]
      exact ⟨_, rfl⟩

/-- A string whose length is an `int` is printed to its width, as far as there is room. -/
theorem printstr_wrote_length {dst : Int} (low : 0 ≤ dst) (below : dst < edst)
    (high : edst ≤ b.size) (isInt : IsInt size) (proper : 0 ≤ toInt s.length) :
    ∃ b', printstr b dst edst s size =
        .ok (b', dst + fieldLength (edst - dst).toNat (toInt s.length).toNat size) ∧
      b'.size = b.size := by
  have small := toInt_le s.length
  have isInt' := (isInt_toInt s.length).2
  have length : (s.take (toInt s.length).toNat).length = (toInt s.length).toNat := by
    rw [List.length_take]
    omega
  rw [← printstr_take proper, printstr_eq low below high (by omega) isInt, length_field, length]
  exact ⟨_, rfl, rfl⟩

/-- Faults that are no fault of a single field. -/
def IsLoopFault (e : PrintFault) : Prop := e = .format ∨ e = .fuel

theorem store_avoids (b : Buffer) (p : Int) (bytes : List UInt8) :
    Outcome.Avoids IsLoopFault (b.store p bytes) :=
  .ite (.ok _) (.error (by simp [IsLoopFault]))

theorem memmove_avoids (b : Buffer) (p : Int) (s : List UInt8) (l : Int) :
    Outcome.Avoids IsLoopFault (b.memmove p s l) :=
  .ite (store_avoids b p _) (.error (by simp [IsLoopFault]))

theorem memset_avoids (b : Buffer) (p : Int) (c : UInt8) (l : Int) :
    Outcome.Avoids IsLoopFault (b.memset p c l) :=
  .ite (store_avoids b p _) (.error (by simp [IsLoopFault]))

theorem printstr_avoids (b : Buffer) (dst edst : Int) (s : List UInt8) (size : Int) :
    Outcome.Avoids IsLoopFault (printstr b dst edst s size) := by
  unfold printstr
  refine .ite (.ok _) (.ite ?_ ?_)
  · apply Outcome.Avoids.bind (memmove_avoids _ _ _ _)
    intro b' _
    exact .ite (.bind (memset_avoids _ _ _ _) fun _ _ => .ok _) (.ok _)
  · refine .ite (.bind (memset_avoids _ _ _ _) ?_) (.bind (.ok _) ?_)
    all_goals
      intro b' _
      exact .bind (memmove_avoids _ _ _ _) fun _ _ => .ok _

/-! ## The pointer -/

/-- The pointer `p`: into the format, or into the text for an unknown verb. -/
inductive Cursor where
  | fmt (i : Nat)
  | badVerb (i : Nat)
  deriving DecidableEq, Repr

namespace Cursor

/-- The string that is pointed into, and the position in it. -/
def string (fmt : List UInt8) : Cursor → List UInt8
  | .fmt _ => fmt
  | .badVerb _ => Libtask.badVerb

def index : Cursor → Nat
  | .fmt i => i
  | .badVerb i => i

/-- `p++` -/
def next : Cursor → Cursor
  | .fmt i => .fmt (i + 1)
  | .badVerb i => .badVerb (i + 1)

/-- `*p`: a character of the string or its NUL. -/
def fetch (fmt : List UInt8) (p : Cursor) : Except PrintFault UInt8 :=
  match (p.string fmt ++ [0])[p.index]? with
  | some c => .ok c
  | none => .error .format

/-- Not behind the NUL. -/
def Inside (fmt : List UInt8) (p : Cursor) : Prop := p.index ≤ (p.string fmt).length

/-- What is left of the string. -/
def rest (fmt : List UInt8) (p : Cursor) : List UInt8 := (p.string fmt).drop p.index

@[simp] theorem string_next (fmt : List UInt8) (p : Cursor) :
    p.next.string fmt = p.string fmt := by
  cases p <;> rfl

@[simp] theorem index_next (p : Cursor) : p.next.index = p.index + 1 := by
  cases p <;> rfl

variable {p : Cursor}

theorem fetch_nil (inside : p.Inside fmt) (ended : p.rest fmt = []) : p.fetch fmt = .ok 0 := by
  have last : p.index = (p.string fmt).length :=
    Nat.le_antisymm inside (List.drop_eq_nil_iff.mp ended)
  simp [fetch, last]

theorem fetch_cons (more : p.rest fmt = c :: q) : p.fetch fmt = .ok c := by
  have found : (p.string fmt)[p.index]? = some c := by
    rw [← List.head?_drop, ← rest, more, List.head?_cons]
  have within : p.index < (p.string fmt).length := (List.getElem?_eq_some_iff.mp found).1
  simp [fetch, List.getElem?_append_left within, found]

theorem next_cons (more : p.rest fmt = c :: q) :
    p.next.Inside fmt ∧ p.next.rest fmt = q := by
  have within : p.index < (p.string fmt).length := by
    apply Nat.lt_of_not_le
    intro behind
    rw [rest, List.drop_eq_nil_of_le behind] at more
    cases more
  refine ⟨by simpa [Inside] using within, ?_⟩
  have parts := List.drop_eq_getElem_cons within
  rw [← rest, more] at parts
  simpa [rest] using (List.cons.inj parts).2.symm

/-- A read behind the NUL. -/
theorem fetch_next_nil (ended : p.rest fmt = []) : p.next.fetch fmt = .error .format := by
  have last : (p.string fmt).length ≤ p.index := List.drop_eq_nil_iff.mp ended
  have none : (p.string fmt ++ [0])[p.index + 1]? = none :=
    List.getElem?_eq_none (by simpa using last)
  simp [fetch, none]

end Cursor

/-! ## The loops -/

/-- The loop over the flags and the width.  It leaves `p` at the verb or, if there is none, at
the NUL. -/
def directiveAt (fmt : List UInt8) : Nat → Flags → Int → Int → Cursor →
    Except PrintFault (Option (Flags × Int × UInt8) × Cursor)
  | fuel, fl, size, sign, p => do
      let c ← p.fetch fmt
      if c = 0 then return (none, p)
      else
        match fuel with
        | 0 => .error .fuel
        | fuel + 1 =>
            if c = '-'.toUInt8 then directiveAt fmt fuel fl size (-1) p.next
            else if '0'.toUInt8 ≤ c ∧ c ≤ '9'.toUInt8 then
              directiveAt fmt fuel fl (toInt (size * 10 + c.toNat - '0'.toUInt8.toNat)) sign p.next
            else if c = 'l'.toUInt8 then directiveAt fmt fuel fl.setLong size sign p.next
            else if c = 'u'.toUInt8 then
              directiveAt fmt fuel { fl with unsigned := true } size sign p.next
            else return (some (fl, toInt (size * sign), c), p)

/-- The main loop of `vseprint`, with the pointer that it ends with. -/
def vseprintAt (strerror : List UInt8) (arg : Nat → Arg) (edst : Int) (fmt : List UInt8) :
    Nat → Buffer → Int → Cursor → Nat → Except PrintFault (Buffer × Int × Cursor)
  | fuel, b, w, p, ap => do
      let c ← p.fetch fmt
      if c ≠ 0 ∧ w < edst - 1 then
        match fuel with
        | 0 => .error .fuel
        | fuel + 1 =>
            if c ≠ '%'.toUInt8 then do
              let b ← b.store w [c]
              vseprintAt strerror arg edst fmt fuel b (w + 1) p.next ap
            else do
              let (found, p) ← directiveAt fmt (p.string fmt).length {} 0 1 p.next
              match found with
              | none => vseprintAt strerror arg edst fmt fuel b w p.next ap
              | some (fl, size, verb) =>
                  match verbText strerror fl verb (arg ap) with
                  | some text => do
                      let s ← text
                      let (b, w) ← printstr b w edst s size
                      let ap := if verb = 'r'.toUInt8 then ap else ap + 1
                      vseprintAt strerror arg edst fmt fuel b w p.next ap
                  | none => vseprintAt strerror arg edst fmt fuel b w (Cursor.badVerb 0).next ap
      else return (b, w, p)

/-- The inner loop finds what `directive` finds. -/
theorem directiveAt_spec (fuel : Nat) (fl : Flags) (size sign : Int) {p : Cursor}
    (inside : p.Inside fmt) (isString : 0 ∉ p.rest fmt)
    (enough : (p.rest fmt).length ≤ fuel) :
    (directive fl size sign (p.rest fmt) = none ∧
      ∃ p', directiveAt fmt fuel fl size sign p = .ok (none, p') ∧ p'.rest fmt = []) ∨
    ∃ fl' size' verb q p', directive fl size sign (p.rest fmt) = some (fl', size', verb, q) ∧
      directiveAt fmt fuel fl size sign p = .ok (some (fl', size', verb), p') ∧
      p'.rest fmt = verb :: q := by
  induction fuel generalizing fl size sign p with
  | zero =>
      have ended : p.rest fmt = [] := List.eq_nil_of_length_eq_zero (by omega)
      left
      rw [directiveAt, Cursor.fetch_nil inside ended, ended]
      exact ⟨rfl, p, rfl, ended⟩
  | succ fuel ih =>
      rw [directiveAt]
      rcases more : p.rest fmt with _ | ⟨c, q⟩
      · left
        rw [Cursor.fetch_nil inside more]
        exact ⟨rfl, p, rfl, more⟩
      · obtain ⟨inside', rest'⟩ := Cursor.next_cons more
        rw [more] at isString enough
        obtain ⟨notNul, isString'⟩ := List.ne_and_not_mem_of_not_mem_cons isString
        rw [← rest'] at isString'
        have enough' : (p.next.rest fmt).length ≤ fuel := by
          rw [rest']
          simpa using enough
        rw [Cursor.fetch_cons more, ok_bind, if_neg (Ne.symm notNul), directive, ← rest']
        split
        · exact ih _ _ _ inside' isString' enough'
        split
        · exact ih _ _ _ inside' isString' enough'
        split
        · exact ih _ _ _ inside' isString' enough'
        split
        · exact ih _ _ _ inside' isString' enough'
        · right
          exact ⟨_, _, c, _, p, rfl, rfl, by rw [more, rest']⟩

/-- The loop that is given its pointer does what the loop that is given its string does, and
does not end behind the NUL. -/
theorem vseprintAt_eq (strerror : List UInt8) (arg : Nat → Arg) (edst : Int) (fuel : Nat)
    (b : Buffer) (w : Int) (ap : Nat) {p : Cursor} (inside : p.Inside fmt)
    (isString : 0 ∉ p.rest fmt) :
    ∃ p' : Cursor, p'.Inside fmt ∧ vseprintAt strerror arg edst fmt fuel b w p ap =
      vseprintLoop strerror arg edst fuel b w (p.rest fmt) ap >>= fun r =>
        .ok (r.1, r.2, p') := by
  induction fuel generalizing b w p ap with
  | zero =>
      refine ⟨p, inside, ?_⟩
      rw [vseprintAt]
      rcases more : p.rest fmt with _ | ⟨c, q⟩
      · rw [Cursor.fetch_nil inside more]
        rfl
      · rw [more] at isString
        rw [Cursor.fetch_cons more, ok_bind]
        have notNul := (List.ne_and_not_mem_of_not_mem_cons isString).1.symm
        simp only [notNul, ne_eq, not_false_eq_true, true_and, vseprintLoop]
        split <;> rfl
  | succ fuel ih =>
      rw [vseprintAt]
      rcases more : p.rest fmt with _ | ⟨c, q⟩
      · refine ⟨p, inside, ?_⟩
        rw [Cursor.fetch_nil inside more]
        rfl
      · obtain ⟨inside', rest'⟩ := Cursor.next_cons more
        rw [more] at isString
        obtain ⟨notNul, isString'⟩ := List.ne_and_not_mem_of_not_mem_cons isString
        rw [Cursor.fetch_cons more, ok_bind]
        simp only [Ne.symm notNul, ne_eq, not_false_eq_true, true_and, vseprintLoop]
        split
        next room =>
          split
          next literal =>
            rcases b.store w [c] with e | b'
            · exact ⟨p, inside, rfl⟩
            · rw [← rest'] at isString' ⊢
              exact ih _ _ _ inside' isString'
          next percent =>
            rw [← rest'] at isString' ⊢
            rcases directiveAt_spec (p.string fmt).length {} 0 1 inside' isString'
              (by simp [Cursor.rest]) with
              ⟨cut, p', found, ended⟩ | ⟨fl, size, verb, q', p', whole, found, atVerb⟩
            · refine ⟨p, inside, ?_⟩
              rw [found, cut, ok_bind]
              dsimp only
              rw [vseprintAt, Cursor.fetch_next_nil ended]
              rfl
            · obtain ⟨inside'', rest''⟩ := Cursor.next_cons atVerb
              rw [found, whole, ok_bind]
              dsimp only
              rcases verbText strerror fl verb (arg ap) with _ | (e | s)
              · exact ih _ _ _ (show 1 ≤ badVerb.length by decide)
                  (show 0 ∉ badVerb.tail by decide)
              · exact ⟨p, inside, rfl⟩
              · rcases printed : printstr b w edst s size with e | ⟨b', w'⟩
                · refine ⟨p, inside, ?_⟩
                  simp only [ok_bind, printed]
                  rfl
                · obtain ⟨text, parts, -⟩ := directive_text whole
                  rw [parts] at isString'
                  simp only [ok_bind, printed]
                  rw [← rest'']
                  apply ih _ _ _ inside''
                  rw [rest'']
                  exact fun nul => isString' (List.mem_append_right _ nul)
        next full => exact ⟨p, inside, rfl⟩

/-! ## How far the loop gets -/

/-- A field that leaves room was not cut. -/
theorem fieldLength_eq {room l : Nat} (short : fieldLength room l size + 1 < room) :
    fieldLength room l size = max l (fieldWidth size).toNat := by
  unfold fieldLength at short ⊢
  omega

/-- The number of characters that the front of a format stands for, where `ap` arguments were
read before: one for each character, and the width of each field. -/
inductive PrintsLength (strerror : List UInt8) (arg : Nat → Arg) :
    Nat → List UInt8 → Nat → Prop where
  | nil (ap : Nat) : PrintsLength strerror arg ap [] 0
  | char {ap : Nat} {c : UInt8} {p : List UInt8} {len : Nat} (literal : c ≠ '%'.toUInt8)
      (rest : PrintsLength strerror arg ap p len) :
      PrintsLength strerror arg ap (c :: p) (len + 1)
  | directive {ap : Nat} {text p s : List UInt8} {fl : Flags} {size : Int} {verb : UInt8}
      {len : Nat} (found : directive {} 0 1 text = some (fl, size, verb, []))
      (known : verbText strerror fl verb (arg ap) = some (.ok s)) (proper : 0 ≤ toInt s.length)
      (rest : PrintsLength strerror arg (if verb = 'r'.toUInt8 then ap else ap + 1) p len) :
      PrintsLength strerror arg ap ('%'.toUInt8 :: (text ++ p))
        (max (toInt s.length).toNat (fieldWidth size).toNat + len)

theorem vseprintLoop_cut {pre flags : List UInt8} {len : Nat}
    (printed : PrintsLength strerror arg ap pre len) (cut : ∀ c ∈ flags, isFlag c = true)
    (low : 0 ≤ w) (room : w + len < edst - 1) (high : edst ≤ b.size)
    (enough : pre.length < fuel) :
    vseprintLoop strerror arg edst fuel b w (pre ++ '%'.toUInt8 :: flags) ap =
      .error .format := by
  induction printed generalizing w b fuel with
  | nil ap =>
      obtain ⟨fuel, rfl⟩ : ∃ fuel', fuel = fuel' + 1 := ⟨fuel - 1, by omega⟩
      rw [List.nil_append, vseprintLoop_cutOff (directive_eq_none.mpr cut) (by omega)]
  | @char ap c p len literal rest ih =>
      obtain ⟨fuel, rfl⟩ : ∃ fuel', fuel = fuel' + 1 := ⟨fuel - 1, by omega⟩
      obtain ⟨b', stored, wrote⟩ := store_wrote c low (by omega : w < edst - 1) high
      rw [List.cons_append, vseprintLoop_literal literal (by omega), stored, ok_bind]
      rw [List.length_cons] at enough
      exact ih (by omega) (by omega) (by rw [wrote.size]; exact high) (by omega)
  | @directive ap text p s fl size verb len found known proper rest ih =>
      obtain ⟨fuel, rfl⟩ : ∃ fuel', fuel = fuel' + 1 := ⟨fuel - 1, by omega⟩
      have below : w < edst := by omega
      obtain ⟨b', printed, size'⟩ :=
        printstr_wrote_length low below high (directive_isInt found) proper
      have whole : fieldLength (edst - w).toNat (toInt s.length).toNat size =
          max (toInt s.length).toNat (fieldWidth size).toNat := by
        unfold fieldLength
        omega
      rw [whole] at printed
      rw [List.cons_append, List.append_assoc,
        vseprintLoop_percent (directive_append found) known (by omega), printed, ok_bind]
      rw [List.length_cons, List.length_append] at enough
      exact ih (by omega) (by omega) (by rw [size']; exact high) (by omega)

/-- From `p` on, the loop gets to a directive that is cut off by the end of the format, while there
is room for another character. -/
def ReachesCut (strerror : List UInt8) (arg : Nat → Arg) (edst w : Int) (ap : Nat)
    (p : List UInt8) : Prop :=
  ∃ pre flags len, p = pre ++ '%'.toUInt8 :: flags ∧ (∀ c ∈ flags, isFlag c = true) ∧
    PrintsLength strerror arg ap pre len ∧ w + len < edst - 1

theorem ReachesCut.char (literal : c ≠ '%'.toUInt8)
    (cut : ReachesCut strerror arg edst (w + 1) ap p) :
    ReachesCut strerror arg edst w ap (c :: p) := by
  obtain ⟨pre, flags, len, split, isCut, printed, reached⟩ := cut
  exact ⟨c :: pre, flags, len + 1, by rw [split, List.cons_append], isCut,
    .char literal printed, by omega⟩

theorem ReachesCut.directive (found : directive {} 0 1 q = some (fl, size, verb, p))
    (known : verbText strerror fl verb (arg ap) = some (.ok s)) (proper : 0 ≤ toInt s.length)
    (cut : ReachesCut strerror arg edst
      (w + fieldLength (edst - w).toNat (toInt s.length).toNat size)
      (if verb = 'r'.toUInt8 then ap else ap + 1) p) :
    ReachesCut strerror arg edst w ap ('%'.toUInt8 :: q) := by
  obtain ⟨text, split, whole⟩ := directive_text found
  obtain ⟨pre, flags, len, split', isCut, printed, reached⟩ := cut
  have notCut := fieldLength_eq (by omega : fieldLength (edst - w).toNat
    (toInt s.length).toNat size + 1 < (edst - w).toNat)
  refine ⟨_, flags, _, ?_, isCut, .directive whole known proper printed, ?_⟩
  · rw [split, split', List.cons_append, List.append_assoc]
  · rw [notCut] at reached
    rw [Int.natCast_add, ← Int.add_assoc]
    exact reached

/-- Without a `%` there is no directive. -/
theorem not_reachesCut (noPercent : '%'.toUInt8 ∉ p) :
    ¬ReachesCut strerror arg edst w ap p := by
  rintro ⟨pre, flags, len, split, -⟩
  rw [split] at noPercent
  exact noPercent (List.mem_append_right _ (List.mem_cons_self ..))

/-- The loop does not run out of turns, and reads behind the format only if it gets to a directive
that is cut off. -/
theorem vseprintLoop_error {e : PrintFault} (low : 0 ≤ w) (high : edst ≤ b.size)
    (enough : turns p ≤ fuel) (stopped : vseprintLoop strerror arg edst fuel b w p ap = .error e) :
    e ≠ .fuel ∧ (e = .format → ReachesCut strerror arg edst w ap p) := by
  induction fuel generalizing b w p ap with
  | zero =>
      cases p with
      | nil => cases stopped
      | cons c p =>
          simp only [turns, List.length_cons] at enough
          omega
  | succ fuel ih =>
      cases p with
      | nil => cases stopped
      | cons c q =>
          have fewer := turns_le (List.suffix_cons c q)
          rw [List.length_cons] at fewer
          by_cases room : w < edst - 1
          · by_cases literal : c ≠ '%'.toUInt8
            · -- a character
              obtain ⟨b', stored, wrote⟩ := store_wrote c low room high
              rw [vseprintLoop_literal literal room, stored, ok_bind] at stopped
              obtain ⟨notFuel, cut⟩ :=
                ih (by omega) (by rw [wrote.size]; exact high) (by omega) stopped
              exact ⟨notFuel, fun format => .char literal (cut format)⟩
            · -- a directive
              obtain rfl : c = '%'.toUInt8 := not_not.mp literal
              cases found : directive {} 0 1 q with
              | none =>
                  rw [vseprintLoop_cutOff found room] at stopped
                  obtain rfl := Except.error.inj stopped
                  exact ⟨by decide, fun _ =>
                    ⟨[], q, 0, rfl, directive_eq_none.mp found, .nil ap, by omega⟩⟩
              | some parts =>
                  obtain ⟨fl, size, verb, rest⟩ := parts
                  cases known : verbText strerror fl verb (arg ap) with
                  | none =>
                      -- the rest of the format is not read
                      rw [vseprintLoop_unknown found known room] at stopped
                      have fewer' := turns_badVerb q
                      obtain ⟨notFuel, cut⟩ := ih low high (by omega) stopped
                      exact ⟨notFuel, fun format =>
                        absurd (cut format) (not_reachesCut (by decide))⟩
                  | some string =>
                      obtain ⟨s, rfl, -⟩ := verbText_ok known
                      rw [vseprintLoop_percent found known room] at stopped
                      have below : w < edst := by omega
                      by_cases proper : 0 ≤ toInt s.length
                      · obtain ⟨b', printed, size'⟩ :=
                          printstr_wrote_length low below high (directive_isInt found) proper
                        rw [printed, ok_bind] at stopped
                        obtain ⟨text, split, -⟩ := directive_text found
                        have fewer' := turns_le (List.suffix_append text rest)
                        rw [← split] at fewer'
                        obtain ⟨notFuel, cut⟩ :=
                          ih (by omega) (by rw [size']; exact high) (by omega) stopped
                        exact ⟨notFuel, fun format =>
                          .directive found known proper (cut format)⟩
                      · obtain ⟨e', printed⟩ :=
                          printstr_negative b size below (Int.not_le.mp proper)
                        rw [printed] at stopped
                        obtain rfl := Except.error.inj stopped
                        have good := printstr_avoids b w edst s size _ printed
                        exact ⟨fun fuel => good (.inr fuel),
                          fun format => absurd (.inl format) good⟩
          · rw [vseprintLoop_full room] at stopped
            cases stopped

/-! ## The whole -/

/-- The loop looks at no character behind the NUL of the format and does not end behind it.  A
string that is too long for an `int` ends the run with a fault of its own. -/
def ReadsInside (strerror : List UInt8) (n : Nat) (m : Bytes.Memory) (fmt : List UInt8)
    (arg : Nat → Arg) : Prop :=
  match vseprintAt strerror arg n fmt (fmt.length + 7) { size := n, mem := m } 0 (.fmt 0) 0 with
  | .ok (_, _, p) => p.Inside fmt
  | .error e => e ≠ .format ∧ e ≠ .fuel

/-- `vseprint` stays in its format unless it gets to a directive that the NUL cuts off. -/
theorem readsInside_iff {n : Nat} {m : Bytes.Memory} (isString : 0 ∉ fmt) :
    ReadsInside strerror n m fmt arg ↔ ¬ReachesCut strerror arg n 0 0 fmt := by
  have start : (Cursor.fmt 0).rest fmt = fmt := rfl
  have startInside : (Cursor.fmt 0).Inside fmt := Nat.zero_le _
  obtain ⟨p, inside, same⟩ := vseprintAt_eq strerror arg n (fmt.length + 7)
    { size := n, mem := m } 0 0 startInside (by rw [start]; exact isString)
  rw [start] at same
  rw [ReadsInside, same]
  constructor
  · rintro reads ⟨pre, flags, len, rfl, isCut, printed, reached⟩
    have fault := vseprintLoop_cut (b := { size := n, mem := m }) printed isCut
      (Int.le_refl 0) reached (Int.le_refl _)
      (by rw [List.length_append]; omega : pre.length < (pre ++ '%'.toUInt8 :: flags).length + 7)
    rw [fault] at reads
    exact reads.1 rfl
  · intro notCut
    have enough := turns_le_fuel fmt
    rcases run : vseprintLoop strerror arg n (fmt.length + 7) { size := n, mem := m } 0 fmt 0 with
      e | ⟨b, w⟩
    · have high : (n : Int) ≤ ({ size := n, mem := m } : Buffer).size := Int.le_refl _
      obtain ⟨notFuel, cut⟩ := vseprintLoop_error (Int.le_refl 0) high enough run
      exact ⟨fun format => notCut (cut format), notFuel⟩
    · exact inside

/-- In `"a%"` the `%` is cut off, but in a buffer of two bytes there is no room for another
character. -/
theorem a_percent_inside :
    ReadsInside [] 2 (fun _ => 0) ['a'.toUInt8, '%'.toUInt8] (fun _ => {}) ∧
      ¬ReachesCut [] (fun _ => {}) 2 0 0 ['a'.toUInt8, '%'.toUInt8] := by
  have inside : ReadsInside [] 2 (fun _ => 0) ['a'.toUInt8, '%'.toUInt8] (fun _ => {}) :=
    show 1 ≤ 2 by decide
  exact ⟨inside, (readsInside_iff (by decide)).mp inside⟩

/-- A format that ends with a `%`. -/
theorem percent_read_behind :
    ¬∀ fmt : List UInt8, 0 ∉ fmt → ReadsInside [] 256 (fun _ => 0) fmt fun _ => {} := by
  intro all
  exact (all ['%'.toUInt8] (by decide)).1 rfl

end Libtask
