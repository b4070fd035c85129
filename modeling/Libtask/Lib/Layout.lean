import Mathlib.Data.List.Basic

/-!
# Text in cells

A cell is a text that is padded with blanks to a width, behind the text or in front of it.  A row
puts cells one behind the other.  Where the room for a row is limited, the cell that does not fit
is narrowed to what is left, and the cells behind it are dropped.

What is in a narrowed cell is a prefix of the whole cell, unless the text stands on the right: then
the blanks give way first.
-/

namespace Layout

variable {α : Type} (blank : α)

structure Cell (α : Type) where
  text : List α
  width : Nat := 0
  /-- The text stands on the left. -/
  left : Bool := false
  deriving DecidableEq, Repr

namespace Cell

def full (c : Cell α) : List α :=
  let pad := List.replicate (c.width - c.text.length) blank
  if c.left then c.text ++ pad else pad ++ c.text

def narrow (room : Nat) (c : Cell α) : Cell α :=
  { c with text := c.text.take room, width := min c.width room }

/-- The cell, where `room` characters are left for it. -/
def fit (room : Nat) (c : Cell α) : List α := (c.narrow room).full blank

/-- The text moves when the cell is narrowed to `room`: there are blanks in front of it that give
way, and what is left of it is visible. -/
def Shifts (room : Nat) (c : Cell α) : Prop :=
  c.left = false ∧ c.text.length < c.width ∧ room < c.width ∧ ∃ a ∈ c.text.take room, a ≠ blank

variable {blank} {room : Nat} {c : Cell α}

@[simp] theorem length_full : (c.full blank).length = max c.text.length c.width := by
  unfold full
  dsimp only
  split
  · rw [List.length_append, List.length_replicate]
    omega
  · rw [List.length_append, List.length_replicate]
    omega

@[simp] theorem length_fit : (c.fit blank room).length = min room (c.full blank).length := by
  simp only [fit, narrow, length_full, List.length_take]
  omega

theorem narrow_narrow {less : Nat} (fewer : less ≤ room) :
    (c.narrow room).narrow less = c.narrow less := by
  simp [narrow, List.take_take, Nat.min_assoc, Nat.min_eq_left fewer, Nat.min_eq_right fewer]

theorem narrow_of_le (enough : (c.full blank).length ≤ room) : c.narrow room = c := by
  rw [length_full] at enough
  rw [narrow, List.take_of_length_le (by omega), Nat.min_eq_left (by omega)]

theorem fit_of_le (enough : (c.full blank).length ≤ room) : c.fit blank room = c.full blank := by
  rw [fit, narrow_of_le enough]

theorem not_shifts_zero : ¬c.Shifts blank 0 := by
  rintro ⟨-, -, -, a, member, -⟩
  rw [List.take_zero] at member
  cases member

/-- Blanks behind the text, or none at all. -/
theorem fit_eq_take (prefixed : c.left = true ∨ c.width ≤ c.text.length) :
    c.fit blank room = (c.full blank).take room := by
  unfold fit full
  simp only [narrow, List.length_take]
  rcases prefixed with left | none
  · rw [if_pos left, if_pos left, List.take_append, List.take_replicate]
    congr 2
    omega
  · have pad : min c.width room - min room c.text.length = 0 := by omega
    have pad' : c.width - c.text.length = 0 := by omega
    simp [pad, pad']

end Cell

variable {blank}

/-- A text that was moved to the right, behind more blanks, is the same only if it is blank. -/
theorem all_blank_of_shift {text : List α} {less more room : Nat} (moved : less < more)
    (inside : less + (text.take room).length ≤ room)
    (same : List.replicate less blank ++ text.take room =
      (List.replicate more blank ++ text).take room) : ∀ a ∈ text.take room, a = blank := by
  have entry (i : Nat) (a : α) (isEntry : (text.take room)[i]? = some a) : a = blank := by
    induction i using Nat.strongRecOn generalizing a with
    | _ i ih =>
        have inText : i < (text.take room).length := (List.getElem?_eq_some_iff.mp isEntry).1
        have inRoom : less + i < room := by omega
        have moved' : ((List.replicate more blank ++ text).take room)[less + i]? = some a := by
          rw [← same, List.getElem?_append_right (by simp), List.length_replicate,
            Nat.add_sub_cancel_left]
          exact isEntry
        rw [List.getElem?_take_of_lt inRoom] at moved'
        by_cases pad : less + i < more
        · rw [List.getElem?_append_left (by simpa using pad),
            List.getElem?_replicate_of_lt pad] at moved'
          exact (Option.some.inj moved').symm
        · -- an entry further on the left
          rw [List.getElem?_append_right (by simpa using pad), List.length_replicate] at moved'
          refine ih (less + i - more) (by omega) a ?_
          rw [List.getElem?_take_of_lt (by omega)]
          exact moved'
  intro a member
  obtain ⟨i, isEntry⟩ := List.mem_iff_getElem?.mp member
  exact entry i a isEntry

/-- A blank text may be moved. -/
theorem shift_eq_iff {text : List α} {less more room : Nat} (moved : less < more)
    (filled : less + (text.take room).length = room) :
    List.replicate less blank ++ text.take room = (List.replicate more blank ++ text).take room ↔
      ∀ a ∈ text.take room, a = blank := by
  refine ⟨all_blank_of_shift moved (Nat.le_of_eq filled), fun blanks => ?_⟩
  have first : List.replicate less blank ++ text.take room = List.replicate room blank := by
    rw [List.eq_replicate_iff]
    constructor
    · rw [List.length_append, List.length_replicate, filled]
    · intro a member
      rcases List.mem_append.mp member with pad | inText
      · exact List.eq_of_mem_replicate pad
      · exact blanks a inText
  have second : (List.replicate more blank ++ text).take room = List.replicate room blank := by
    rw [List.eq_replicate_iff]
    constructor
    · rw [List.length_take] at filled
      rw [List.length_take, List.length_append, List.length_replicate]
      omega
    · intro a member
      rw [List.take_append] at member
      rcases List.mem_append.mp member with pad | inText
      · exact List.eq_of_mem_replicate (List.mem_of_mem_take pad)
      · exact blanks a (List.take_subset_take_left _ (Nat.sub_le _ _) inText)
  rw [first, second]

/-- A text on the right gives up its blanks first, and then its end. -/
theorem Cell.fit_right {room : Nat} {c : Cell α} (right : c.left = false) (cut : room ≤ c.width) :
    c.fit blank room =
      List.replicate (room - (c.text.take room).length) blank ++ c.text.take room := by
  simp [fit, narrow, full, right, Nat.min_eq_right cut]

/-- A narrowed cell is a prefix of the whole one, unless its text moves. -/
theorem Cell.fit_eq_take_iff {room : Nat} {c : Cell α} :
    c.fit blank room = (c.full blank).take room ↔ ¬c.Shifts blank room := by
  by_cases prefixed : c.left = true ∨ c.width ≤ c.text.length
  · have notShifts : ¬c.Shifts blank room := by
      rintro ⟨right, padded, -⟩
      rcases prefixed with left | none
      · rw [right] at left
        cases left
      · omega
    simp [fit_eq_take prefixed, notShifts]
  rw [not_or, Bool.not_eq_true, Nat.not_le] at prefixed
  obtain ⟨right, padded⟩ := prefixed
  by_cases enough : c.width ≤ room
  · have whole : (c.full blank).length ≤ room := by
      rw [length_full]
      omega
    rw [fit_of_le whole, List.take_of_length_le whole]
    simp [Shifts, Nat.not_lt.mpr enough]
  · -- the cell is cut, with blanks in front of its text
    have cut := Nat.not_le.mp enough
    have fullEq : c.full blank =
        List.replicate (c.width - c.text.length) blank ++ c.text := by
      simp [full, right]
    have length : (c.text.take room).length = min room c.text.length := List.length_take
    rw [fit_right right (Nat.le_of_lt cut), fullEq, shift_eq_iff (by omega) (by omega)]
    simp [Shifts, right, padded, cut]

/-! ## Rows -/

/-- The cells of a line.  Nothing can be laid out from a missing one on. -/
abbrev Row (α : Type) := List (Option (Cell α))

namespace Row

variable (blank)

def full : Row α → Option (List α)
  | [] => some []
  | none :: _ => none
  | some c :: row => (full row).map (c.full blank ++ ·)

def narrow : Nat → Row α → Row α
  | _, [] => []
  | 0, _ :: _ => []
  | _ + 1, none :: _ => [none]
  | room + 1, some c :: row =>
      some (c.narrow (room + 1)) :: narrow (room + 1 - (c.full blank).length) row

/-- The row in a line of `room` characters. -/
def fit (room : Nat) (row : Row α) : Option (List α) := full blank (narrow blank room row)

/-- The text of a cell moves when the row is narrowed. -/
def Shifts : Nat → Row α → Prop
  | _, [] => False
  | _, none :: _ => False
  | room, some c :: row =>
      c.Shifts blank room ∨ Shifts (room - (c.full blank).length) row

variable {blank} {room less : Nat} {row front back : Row α} {c : Cell α} {text text' : List α}

@[simp] theorem fit_nil : fit blank room ([] : Row α) = some [] := by
  cases room <;> rfl

@[simp] theorem fit_zero : fit blank 0 row = some [] := by
  cases row <;> rfl

theorem fit_some : fit blank (room + 1) (some c :: row) =
    (fit blank (room + 1 - (c.full blank).length) row).map (c.fit blank (room + 1) ++ ·) := rfl

/-! ### Rows one behind the other -/

theorem full_append : full blank (front ++ back) =
    (full blank front).bind fun text => (full blank back).map (text ++ ·) := by
  induction front with
  | nil => simp [full]
  | cons cell front ih =>
      cases cell with
      | none => rfl
      | some c =>
          rw [List.cons_append, full, full, ih]
          cases full blank front <;> cases full blank back <;> simp

/-- Where the front of a row fits, what is left of the room goes to the back. -/
theorem fit_append (whole : full blank front = some text) (enough : text.length ≤ room) :
    fit blank room (front ++ back) =
      (fit blank (room - text.length) back).map (text ++ ·) := by
  induction front generalizing room text with
  | nil =>
      obtain rfl := Option.some.inj whole
      simp
  | cons cell front ih =>
      cases cell with
      | none => cases whole
      | some c =>
          obtain ⟨rest, restEq, rfl⟩ := Option.map_eq_some_iff.mp whole
          rw [List.length_append] at enough ⊢
          cases room with
          | zero =>
              have noText : c.full blank ++ rest = [] := List.eq_nil_of_length_eq_zero (by
                rw [List.length_append]
                omega)
              simp [noText]
          | succ room =>
              rw [List.cons_append, fit_some, ih restEq (by omega), Cell.fit_of_le (by omega),
                Nat.sub_sub, Option.map_map]
              simp [Function.comp_def]

/-- A line that was not filled up holds the whole row. -/
theorem full_of_fit (fits : fit blank room row = some text) (short : text.length < room) :
    full blank row = some text := by
  induction row generalizing room text with
  | nil =>
      rw [fit_nil] at fits
      exact fits
  | cons cell row ih =>
      obtain ⟨room, rfl⟩ : ∃ room', room = room' + 1 := ⟨room - 1, by omega⟩
      cases cell with
      | none => cases fits
      | some c =>
          obtain ⟨rest, restEq, rfl⟩ := Option.map_eq_some_iff.mp fits
          rw [List.length_append] at short
          have length : ((c.narrow (room + 1)).full blank).length =
              min (room + 1) (c.full blank).length := Cell.length_fit
          have whole : (c.full blank).length ≤ room + 1 := by omega
          rw [full, ih restEq (by omega), Option.map_some, Cell.narrow_of_le whole]

theorem fit_eq_full (whole : full blank row = some text) (enough : text.length ≤ room) :
    fit blank room row = some text := by
  have fits : fit blank room (row ++ []) = _ := fit_append whole enough
  rwa [List.append_nil, fit_nil, Option.map_some, List.append_nil] at fits

/-! ### Narrowed rows -/

theorem not_shifts_zero : ¬Shifts blank 0 row := by
  induction row with
  | nil => exact id
  | cons cell row ih =>
      cases cell with
      | none => exact id
      | some c =>
          rw [Shifts, Nat.zero_sub]
          exact not_or.mpr ⟨Cell.not_shifts_zero, ih⟩

/-- What is in a line, compared with the whole row. -/
theorem fit_of_full (whole : full blank row = some text) :
    ∃ text', fit blank room row = some text' ∧ text'.length = min room text.length ∧
      (text' = text.take room ↔ ¬Shifts blank room row) := by
  induction row generalizing room text with
  | nil =>
      obtain rfl := Option.some.inj whole
      exact ⟨[], fit_nil, by simp, by simp [Shifts]⟩
  | cons cell row ih =>
      cases cell with
      | none => cases whole
      | some c =>
          cases room with
          | zero => exact ⟨[], fit_zero, by simp, by simp [not_shifts_zero]⟩
          | succ room =>
              obtain ⟨rest, restEq, rfl⟩ := Option.map_eq_some_iff.mp whole
              obtain ⟨rest', fits, length, same⟩ :=
                @ih (room + 1 - (c.full blank).length) rest restEq
              refine ⟨_, by rw [fit_some, fits, Option.map_some], ?_, ?_⟩
              · rw [List.length_append, List.length_append, Cell.length_fit]
                omega
              · have parts : c.fit blank (room + 1) ++ rest' =
                    (c.full blank).take (room + 1) ++
                      rest.take (room + 1 - (c.full blank).length) ↔
                    c.fit blank (room + 1) = (c.full blank).take (room + 1) ∧
                      rest' = rest.take (room + 1 - (c.full blank).length) := by
                  refine ⟨fun both => List.append_inj both ?_, fun both => ?_⟩
                  · rw [Cell.length_fit, List.length_take]
                  · rw [both.1, both.2]
                rw [List.take_append, parts, Cell.fit_eq_take_iff, same, Shifts, not_or]

theorem fit_narrow (fewer : less ≤ room) :
    fit blank less (narrow blank room row) = fit blank less row := by
  induction row generalizing room less with
  | nil => cases room <;> rfl
  | cons cell row ih =>
      cases less with
      | zero => rw [fit_zero, fit_zero]
      | succ less =>
          obtain ⟨room, rfl⟩ : ∃ room', room = room' + 1 := ⟨room - 1, by omega⟩
          cases cell with
          | none => rfl
          | some c =>
              have length : ((c.narrow (room + 1)).full blank).length =
                  min (room + 1) (c.full blank).length := Cell.length_fit
              have left : less + 1 - min (room + 1) (c.full blank).length =
                  less + 1 - (c.full blank).length := by
                omega
              have narrowed : (c.narrow (room + 1)).fit blank (less + 1) =
                  c.fit blank (less + 1) := by
                rw [Cell.fit, Cell.narrow_narrow fewer, Cell.fit]
              rw [narrow, fit_some, fit_some, length, left, ih (by omega), narrowed]

/-- Two lines of the same row.  The shorter one is a prefix of the longer one, unless a text that
is visible in the longer one moves. -/
theorem fit_of_fit (fits : fit blank room row = some text) (fewer : less ≤ room) :
    ∃ text', fit blank less row = some text' ∧ text'.length = min less text.length ∧
      (text' = text.take less ↔ ¬Shifts blank less (narrow blank room row)) := by
  rw [← fit_narrow fewer]
  exact fit_of_full fits

theorem length_le_of_fit (fits : fit blank room row = some text) : text.length ≤ room := by
  obtain ⟨text', fits', length, -⟩ := fit_of_fit fits (Nat.le_refl room)
  obtain rfl : text = text' := Option.some.inj (fits.symm.trans fits')
  omega

/-! ### Entries -/

theorem Cell.mem_full {a : α} (member : a ∈ c.full blank) : a = blank ∨ a ∈ c.text := by
  unfold Cell.full at member
  dsimp only at member
  split at member
  · rcases List.mem_append.mp member with inText | pad
    · exact .inr inText
    · exact .inl (List.eq_of_mem_replicate pad)
  · rcases List.mem_append.mp member with pad | inText
    · exact .inl (List.eq_of_mem_replicate pad)
    · exact .inr inText

/-- There is nothing in a line but blanks and what is in the texts of the cells. -/
theorem mem_fit {a : α} (fits : fit blank room row = some text) (member : a ∈ text) :
    a = blank ∨ ∃ c, some c ∈ row ∧ a ∈ c.text := by
  induction row generalizing room text with
  | nil =>
      rw [fit_nil] at fits
      obtain rfl := Option.some.inj fits
      cases member
  | cons cell row ih =>
      cases room with
      | zero =>
          rw [fit_zero] at fits
          obtain rfl := Option.some.inj fits
          cases member
      | succ room =>
          cases cell with
          | none => cases fits
          | some c =>
              obtain ⟨rest, restEq, rfl⟩ := Option.map_eq_some_iff.mp fits
              rcases List.mem_append.mp member with here | behind
              · rcases Cell.mem_full here with isBlank | inText
                · exact .inl isBlank
                · exact .inr ⟨c, List.mem_cons_self .., List.mem_of_mem_take inText⟩
              · rcases ih restEq behind with isBlank | ⟨c', member', inText⟩
                · exact .inl isBlank
                · exact .inr ⟨c', List.mem_cons_of_mem _ member', inText⟩

end Row

end Layout
