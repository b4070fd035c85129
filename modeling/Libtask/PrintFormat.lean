import Libtask.Lib.Layout
import Libtask.PrintNumber
import Libtask.PrintReads

/-!
# Whole formats

A format is made of characters and of complete directives.  Each directive prints a cell of its own,
from its own flags and its own argument, and `vsnprint` lays the cells out in the buffer.
-/

namespace Libtask

open Layout (Cell Row)
open Outcome (ok_bind toOption_eq_some toOption_eq_none)

variable {strerror : List UInt8} {n fuel ap : Nat} {m : Bytes.Memory} {arg : Nat → Arg}
  {text s : List UInt8}

/-! ## Parts of a format -/

/-- The verbs.  `r` takes no argument. -/
def isVerb (c : UInt8) : Bool :=
  (['d', 'o', 'x', 'p', 'c', 's', 'r'].map Char.toUInt8).contains c

/-- A character, or a directive with a known verb. -/
inductive FormatPart where
  | char (c : UInt8) (literal : c ≠ '%'.toUInt8) (notNul : c ≠ 0)
  | directive (flags : List UInt8) (verb : UInt8) (areFlags : flags.all isFlag = true)
      (known : isVerb verb = true)

/-- How the part is written in a format. -/
def FormatPart.spelling : FormatPart → List UInt8
  | .char c _ _ => [c]
  | .directive flags verb _ _ => '%'.toUInt8 :: (flags ++ [verb])

def format (f : List FormatPart) : List UInt8 := f.flatMap FormatPart.spelling

/-- The number of arguments that are read. -/
def argCount : List FormatPart → Nat
  | [] => 0
  | .char .. :: f => argCount f
  | .directive _ verb _ _ :: f => argCount f + if verb = 'r'.toUInt8 then 0 else 1

/-- What a directive prints by itself.  Nothing if `strlen` is no `int`: `printstr` then moves a
negative number of bytes. -/
def directiveCell (strerror flags : List UInt8) (verb : UInt8) (arg : Arg) :
    Option (Cell UInt8) :=
  match directive {} 0 1 (flags ++ [verb]) with
  | none => none
  | some (fl, size, verb, _) =>
      match verbText strerror fl verb arg with
      | some (.ok s) =>
          if 0 ≤ toInt s.length then
            some
              { text := s.take (toInt s.length).toNat
                width := (fieldWidth size).toNat
                left := decide (size < 0) }
          else none
      | _ => none

/-- The cells of a format.  Each directive reads the next argument. -/
def row (strerror : List UInt8) : List FormatPart → (Nat → Arg) → Row UInt8
  | [], _ => []
  | .char c _ _ :: f, arg => some { text := [c] } :: row strerror f arg
  | .directive flags verb _ _ :: f, arg =>
      directiveCell strerror flags verb (arg 0) ::
        row strerror f (if verb = 'r'.toUInt8 then arg else fun i => arg (i + 1))

/-- A character of the padding. -/
def blank : UInt8 := ' '.toUInt8

/-! ## One directive -/

theorem isFlag_of_isVerb {verb : UInt8} (known : isVerb verb = true) : isFlag verb = false := by
  simp only [isVerb, List.map_cons, List.map_nil, List.contains_iff_mem, List.mem_cons,
    List.not_mem_nil, or_false] at known
  rcases known with rfl | rfl | rfl | rfl | rfl | rfl | rfl <;> rfl

/-- Flags and a verb are a directive. -/
theorem directive_flags {flags : List UInt8} {verb : UInt8}
    (areFlags : flags.all isFlag = true) (notFlag : isFlag verb = false) (fl : Flags)
    (size sign : Int) :
    ∃ fl' size', directive fl size sign (flags ++ [verb]) = some (fl', size', verb, []) := by
  induction flags generalizing fl size sign with
  | nil =>
      rcases directive_cons fl size sign verb with ⟨flag, -⟩ | ⟨-, ended⟩
      · rw [notFlag] at flag
        cases flag
      · exact ⟨_, _, ended []⟩
  | cons c flags ih =>
      rw [List.all_cons, Bool.and_eq_true] at areFlags
      obtain ⟨isFlag, areFlags⟩ := areFlags
      rcases directive_cons fl size sign c with ⟨-, fl', size', sign', step⟩ | ⟨notFlag', -⟩
      · obtain ⟨fl'', size'', found⟩ := ih areFlags fl' size' sign'
        exact ⟨fl'', size'', (step _).trans found⟩
      · rw [isFlag] at notFlag'
        cases notFlag'

/-- There is a string for each verb. -/
theorem verbText_of_isVerb {verb : UInt8} (known : isVerb verb = true) (strerror : List UInt8)
    (fl : Flags) (arg : Arg) : ∃ s, verbText strerror fl verb arg = some (.ok s) := by
  have isKnown : ∃ text, verbText strerror fl verb arg = some text := by
    simp only [isVerb, List.map_cons, List.map_nil, List.contains_iff_mem, List.mem_cons,
      List.not_mem_nil, or_false] at known
    rcases known with rfl | rfl | rfl | rfl | rfl | rfl | rfl <;> exact ⟨_, rfl⟩
  obtain ⟨text, isText⟩ := isKnown
  obtain ⟨s, rfl, -⟩ := verbText_ok isText
  exact ⟨s, isText⟩

/-- The field that `printstr` writes is a cell in the room that is left. -/
theorem field_eq_fit (room : Nat) (s : List UInt8) (size : Int) :
    field room s size = Cell.fit blank (room - 1)
      { text := s, width := (fieldWidth size).toNat, left := decide (size < 0) } := by
  have taken : s.take (min s.length (fieldLength room s.length size)) = s.take (room - 1) := by
    rw [List.take_eq_take_iff]
    unfold fieldLength
    omega
  have pad : fieldLength room s.length size - min s.length (fieldLength room s.length size) =
      min (fieldWidth size).toNat (room - 1) - (s.take (room - 1)).length := by
    rw [List.length_take]
    unfold fieldLength
    omega
  simp only [field, taken, pad, Cell.fit, Cell.narrow, Cell.full, blank, decide_eq_true_eq]

/-! ## The loop -/

/-- `printstr` writes the cell of a directive, or stops if there is none. -/
theorem printstr_cell {flags : List UInt8} {verb : UInt8} {a : Arg} {fl : Flags} {size : Int}
    (found : directive {} 0 1 (flags ++ [verb]) = some (fl, size, verb, []))
    (known : verbText strerror fl verb a = some (.ok s)) (below : text.length < n) :
    (∃ c, directiveCell strerror flags verb a = some c ∧
      printstr (written n m text) text.length n s size =
        .ok (written n m (text ++ c.fit blank (n - 1 - text.length)),
          (text ++ c.fit blank (n - 1 - text.length)).length)) ∨
    (directiveCell strerror flags verb a = none ∧
      ∃ e, printstr (written n m text) text.length n s size = .error e) := by
  simp only [directiveCell, found, known]
  by_cases proper : 0 ≤ toInt s.length
  · left
    have small := toInt_le s.length
    have isInt := (isInt_toInt s.length).2
    have short : (s.take (toInt s.length).toNat).length < 2 ^ 31 := by
      rw [List.length_take]
      omega
    have room : ((n : Int) - text.length).toNat - 1 = n - 1 - text.length := by omega
    refine ⟨_, if_pos proper, ?_⟩
    rw [← printstr_take proper, printstr_written (by omega) (Int.le_refl _) short
      (directive_isInt found), field_eq_fit, room]
  · right
    exact ⟨if_neg proper, printstr_negative (written n m text) size (by omega)
      (Int.not_le.mp proper)⟩

/-- The loop writes the line of the cells, or it stops at one that is missing. -/
theorem vseprintLoop_row (f : List FormatPart) (below : text.length < n)
    (enough : f.length ≤ fuel) :
    (vseprintLoop strerror arg n fuel (written n m text) text.length (format f) ap).toOption =
      (Row.fit blank (n - 1 - text.length) (row strerror f fun i => arg (ap + i))).map fun t =>
        (written n m (text ++ t), ((text ++ t).length : Int)) := by
  induction f generalizing fuel text ap with
  | nil =>
      rw [row, Row.fit_nil, Option.map_some, List.append_nil]
      cases fuel <;> rfl
  | cons part f ih =>
      by_cases room : n - 1 - text.length = 0
      · rw [room, Row.fit_zero, Option.map_some, List.append_nil, vseprintLoop_full (by omega)]
        rfl
      obtain ⟨left, leftEq⟩ : ∃ left, n - 1 - text.length = left + 1 :=
        ⟨n - 1 - text.length - 1, by omega⟩
      obtain ⟨fuel, rfl⟩ : ∃ fuel', fuel = fuel' + 1 :=
        ⟨fuel - 1, by rw [List.length_cons] at enough; omega⟩
      have enough' : f.length ≤ fuel := Nat.le_of_succ_le_succ enough
      rw [leftEq]
      cases part with
      | char c literal notNul =>
          have length : (text ++ [c]).length = text.length + 1 := List.length_append
          have left' : left = n - 1 - (text ++ [c]).length := by omega
          have whole : Cell.fit blank (left + 1) { text := [c] } = [c] :=
            Cell.fit_of_le (by simp [Cell.length_full])
          change (vseprintLoop strerror arg n (fuel + 1) (written n m text) text.length
            (c :: format f) ap).toOption = _
          rw [vseprintLoop_char literal (Int.le_refl _) (by omega), ih (by omega) enough', row,
            Row.fit_some, whole, Cell.length_full, ← left', Option.map_map]
          simp [Function.comp_def]
      | directive flags verb areFlags known =>
          obtain ⟨fl, size, found⟩ := directive_flags areFlags (isFlag_of_isVerb known) {} 0 1
          obtain ⟨s, isText⟩ := verbText_of_isVerb known strerror fl (arg ap)
          have next : (fun i => arg ((if verb = 'r'.toUInt8 then ap else ap + 1) + i)) =
              if verb = 'r'.toUInt8 then fun i => arg (ap + i)
              else fun i => arg (ap + (i + 1)) := by
            split
            · rfl
            · simp only [Nat.add_assoc, Nat.add_comm 1]
          change (vseprintLoop strerror arg n (fuel + 1) (written n m text) text.length
            ('%'.toUInt8 :: ((flags ++ [verb]) ++ format f)) ap).toOption = _
          rw [vseprintLoop_percent (directive_append found) isText (by omega), row]
          simp only [Nat.add_zero, ← next]
          rcases printstr_cell found isText below with ⟨c, cell, printed⟩ | ⟨noCell, e, stopped⟩
          · rw [leftEq] at printed
            have length : (text ++ c.fit blank (left + 1)).length =
                text.length + min (left + 1) (c.full blank).length := by
              rw [List.length_append, Cell.length_fit]
            have left' : left + 1 - (c.full blank).length =
                n - 1 - (text ++ c.fit blank (left + 1)).length := by
              omega
            rw [cell, printed, ok_bind]
            dsimp only [List.nil_append]
            rw [ih (by omega) enough', Row.fit_some, left', Option.map_map]
            simp [Function.comp_def]
          · rw [noCell, stopped]
            rfl

theorem length_le_format (f : List FormatPart) : f.length ≤ (format f).length := by
  induction f with
  | nil => exact Nat.le_refl _
  | cons part f ih =>
      have spelled : 1 ≤ part.spelling.length := by
        cases part <;> simp [FormatPart.spelling]
      simp only [format, List.flatMap_cons, List.length_append, List.length_cons] at ih ⊢
      omega

/-- `vsnprint` lays out the cells and leaves room for the NUL. -/
theorem vsnprint_row (f : List FormatPart) (positive : 1 ≤ n) :
    (vsnprint strerror n m (format f) arg).toOption =
      (Row.fit blank (n - 1) (row strerror f arg)).map fun t => written n m (t ++ [0]) := by
  have enough : f.length ≤ (format f).length + 7 := Nat.le_trans (length_le_format f) (by omega)
  have looped : (vseprintLoop strerror arg n ((format f).length + 7) (written n m [])
      ([] : List UInt8).length (format f) 0).toOption =
      (Row.fit blank (n - 1) (row strerror f fun i => arg (0 + i))).map fun t =>
        (written n m ([] ++ t), (([] ++ t).length : Int)) :=
    vseprintLoop_row f positive enough
  simp only [written_nil, Nat.zero_add, List.nil_append] at looped
  rw [vsnprint, vseprint]
  cases fits : Row.fit blank (n - 1) (row strerror f arg) with
  | none =>
      rw [fits] at looped
      obtain ⟨e, stopped⟩ := toOption_eq_none.mp looped
      refine toOption_eq_none.mpr ⟨e, ?_⟩
      exact congrArg (· >>= _) stopped
  | some t =>
      have short := Row.length_le_of_fit fits
      rw [fits] at looped
      refine toOption_eq_some.mpr ?_
      refine (congrArg (· >>= _) (toOption_eq_some.mp looped)).trans ?_
      rw [ok_bind]
      simp only [if_pos (show (t.length : Int) < n by omega)]
      exact store_written (by rw [List.length_singleton]; omega)

/-! ## Strings -/

/-- `vsnprint` leaves the string `t` in a buffer of `n` bytes. -/
def Leaves (strerror : List UInt8) (n : Nat) (m : Bytes.Memory) (fmt : List UInt8)
    (arg : Nat → Arg) (t : List UInt8) : Prop :=
  vsnprint strerror n m fmt arg = .ok (written n m (t ++ [0])) ∧ 0 ∉ t

/-- There is one string in a buffer. -/
theorem written_unique {t t' : List UInt8} (same : written n m (t ++ [0]) = written n m (t' ++ [0]))
    (noNul : 0 ∉ t) (noNul' : 0 ∉ t') : t = t' := by
  have first := read_written n m t
  rw [same] at first
  exact string_unique (read_written n m t') first noNul' noNul

/-- No string holds a NUL. -/
theorem zero_notMem_verbText {fl : Flags} {verb : UInt8} {a : Arg} (string : 0 ∉ a.str)
    (error : 0 ∉ strerror) (known : verbText strerror fl verb a = some (.ok s)) : 0 ∉ s := by
  have number {base : Nat} (isBase : IsBase base) (isNumber : num fl base a = .ok s) : 0 ∉ s := by
    rw [num_eq isBase] at isNumber
    obtain rfl := Except.ok.inj isNumber
    exact zero_notMem_numText isBase
  unfold verbText at known
  split at known
  · exact number (by simp [IsBase]) (Option.some.inj known)
  split at known
  · exact number (by simp [IsBase]) (Option.some.inj known)
  split at known
  · exact number (by simp [IsBase]) (Option.some.inj known)
  split at known
  · obtain rfl := Except.ok.inj (Option.some.inj known)
    split
    next => exact List.not_mem_nil
    next notNul => exact fun member => notNul (List.mem_singleton.mp member).symm
  split at known
  · obtain rfl := Except.ok.inj (Option.some.inj known)
    exact string
  split at known
  · obtain rfl := Except.ok.inj (Option.some.inj known)
    exact error
  · cases known

theorem zero_notMem_directiveCell {flags : List UInt8} {verb : UInt8} {a : Arg} {c : Cell UInt8}
    (string : 0 ∉ a.str) (error : 0 ∉ strerror)
    (isCell : directiveCell strerror flags verb a = some c) : 0 ∉ c.text := by
  unfold directiveCell at isCell
  split at isCell
  next => cases isCell
  next =>
    split at isCell
    next s known =>
      split at isCell
      next =>
        generalize (toInt s.length).toNat = l at isCell
        obtain rfl := Option.some.inj isCell
        exact fun member => zero_notMem_verbText string error known (List.mem_of_mem_take member)
      next => cases isCell
    next => cases isCell

/-- No cell holds a NUL. -/
theorem zero_notMem_row {f : List FormatPart} (strings : ∀ i, 0 ∉ (arg i).str)
    (error : 0 ∉ strerror) (c : Cell UInt8) (member : some c ∈ row strerror f arg) : 0 ∉ c.text := by
  induction f generalizing arg with
  | nil => cases member
  | cons part f ih =>
      cases part with
      | char c' literal notNul =>
          rcases List.mem_cons.mp member with here | behind
          · obtain rfl := Option.some.inj here
            intro isNul
            exact notNul (List.mem_singleton.mp isNul).symm
          · exact ih strings behind
      | directive flags verb areFlags known =>
          rcases List.mem_cons.mp member with here | behind
          · exact zero_notMem_directiveCell (strings 0) error here.symm
          · refine ih ?_ behind
            split
            · exact strings
            · exact fun i => strings (i + 1)

/-- The string that is left is the line of the cells. -/
theorem leaves_iff {f : List FormatPart} {t : List UInt8} (positive : 1 ≤ n)
    (noNuls : ∀ c, some c ∈ row strerror f arg → 0 ∉ c.text) :
    Leaves strerror n m (format f) arg t ↔
      Row.fit blank (n - 1) (row strerror f arg) = some t := by
  have laidOut : (vsnprint strerror n m (format f) arg).toOption = _ := vsnprint_row f positive
  have noNul {t : List UInt8} (fits : Row.fit blank (n - 1) (row strerror f arg) = some t) :
      0 ∉ t := by
    intro member
    rcases Row.mem_fit fits member with isBlank | ⟨c, inRow, inText⟩
    · exact absurd isBlank (by decide)
    · exact noNuls c inRow inText
  constructor
  · rintro ⟨left, string⟩
    rw [left] at laidOut
    obtain ⟨t', fits, same⟩ := Option.map_eq_some_iff.mp laidOut.symm
    rw [fits, written_unique same (noNul fits) string]
  · intro fits
    rw [fits] at laidOut
    exact ⟨toOption_eq_some.mp laidOut, noNul fits⟩

/-! ## Formats one behind the other -/

/-- What `va_arg` reads: the arguments that were passed, and anything behind them. -/
def passed : List Arg → (Nat → Arg) → Nat → Arg
  | [], rest, i => rest i
  | a :: _, _, 0 => a
  | _ :: args, rest, i + 1 => passed args rest i

theorem passed_append (args args' : List Arg) (rest : Nat → Arg) :
    passed (args ++ args') rest = passed args (passed args' rest) := by
  funext i
  induction args generalizing i with
  | nil => rfl
  | cons a args ih =>
      cases i with
      | zero => rfl
      | succ i => exact ih i

/-- What holds of the arguments and of an empty one. -/
theorem passed_of_forall {p : Arg → Prop} {args : List Arg} (all : ∀ a ∈ args, p a) (none : p {})
    (i : Nat) : p (passed args (fun _ => {}) i) := by
  induction args generalizing i with
  | nil => exact none
  | cons a args ih =>
      obtain ⟨first, others⟩ := List.forall_mem_cons.mp all
      cases i with
      | zero => exact first
      | succ i => exact ih others i

theorem argCount_append (f g : List FormatPart) : argCount (f ++ g) = argCount f + argCount g := by
  induction f with
  | nil => exact (Nat.zero_add _).symm
  | cons part f ih =>
      cases part with
      | char c literal notNul => exact ih
      | directive flags verb areFlags known =>
          rw [List.cons_append, argCount, argCount, ih]
          omega

theorem format_append (f g : List FormatPart) : format (f ++ g) = format f ++ format g :=
  List.flatMap_append

/-- `r` reads no argument. -/
theorem directiveCell_error {flags : List UInt8} (areFlags : flags.all isFlag = true)
    (a a' : Arg) : directiveCell strerror flags 'r'.toUInt8 a =
      directiveCell strerror flags 'r'.toUInt8 a' := by
  obtain ⟨fl, size, found⟩ := directive_flags areFlags
    (show isFlag 'r'.toUInt8 = false from rfl) {} 0 1
  simp only [directiveCell, found]
  rfl

/-- The directives of the first format read their own arguments, and the others read theirs. -/
theorem row_append {f g : List FormatPart} {args : List Arg} {rest : Nat → Arg}
    (matching : args.length = argCount f) :
    row strerror (f ++ g) (passed args rest) =
      row strerror f (passed args fun _ => {}) ++ row strerror g rest := by
  induction f generalizing args with
  | nil =>
      obtain rfl := List.eq_nil_of_length_eq_zero matching
      rfl
  | cons part f ih =>
      cases part with
      | char c literal notNul => exact congrArg (_ :: ·) (ih matching)
      | directive flags verb areFlags known =>
          rw [List.cons_append, row, row]
          by_cases isError : verb = 'r'.toUInt8
          · subst isError
            rw [directiveCell_error areFlags _ (passed args (fun _ => {}) 0)]
            exact congrArg (_ :: ·) (ih matching)
          · rw [argCount, if_neg isError] at matching
            obtain ⟨a, args, rfl⟩ := List.exists_cons_of_length_eq_add_one matching
            rw [if_neg isError, if_neg isError]
            exact congrArg (_ :: ·) (ih (Nat.succ.inj matching))

/-- `t` is the text of a format with its arguments: it is left in every buffer that is large
enough, whatever was in the buffer and whatever is behind the arguments. -/
def IsText (strerror : List UInt8) (f : List FormatPart) (args : List Arg)
    (t : List UInt8) : Prop :=
  ∀ (n : Nat) (m : Bytes.Memory) (rest : Nat → Arg), t.length < n →
    Leaves strerror n m (format f) (passed args rest) t

/-- The text is the whole row of the cells. -/
theorem isText_iff {f : List FormatPart} {args : List Arg} {t : List UInt8}
    (matching : args.length = argCount f) (strings : ∀ a ∈ args, 0 ∉ a.str)
    (error : 0 ∉ strerror) :
    IsText strerror f args t ↔
      Row.full blank (row strerror f (passed args fun _ => {})) = some t := by
  have same (rest : Nat → Arg) : row strerror f (passed args rest) =
      row strerror f (passed args fun _ => {}) := by
    have whole : row strerror (f ++ []) (passed args rest) = _ := row_append matching
    rwa [List.append_nil, row, List.append_nil] at whole
  have noNuls := zero_notMem_row (f := f) (passed_of_forall strings List.not_mem_nil) error
  constructor
  · intro isText
    have left := isText (t.length + 2) (fun _ => 0) (fun _ => {}) (by omega)
    rw [leaves_iff (by omega) noNuls] at left
    exact Row.full_of_fit left (by omega)
  · intro whole n m rest large
    rw [leaves_iff (by omega) (by rw [same]; exact noNuls), same]
    exact Row.fit_eq_full whole (by omega)

/-! ### Strings whose length is an `int` -/

theorem directiveCell_short {flags : List UInt8} {verb : UInt8} {a : Arg}
    (areFlags : flags.all isFlag = true) (known : isVerb verb = true)
    (short : a.str.length < 2 ^ 31) (shortError : strerror.length < 2 ^ 31) :
    ∃ c, directiveCell strerror flags verb a = some c := by
  obtain ⟨fl, size, found⟩ := directive_flags areFlags (isFlag_of_isVerb known) {} 0 1
  obtain ⟨text, isText⟩ := verbText_of_isVerb known strerror fl a
  obtain ⟨s, isString, short'⟩ := verbText_ok isText
  obtain rfl := Except.ok.inj isString
  have length := short' short shortError
  have proper : 0 ≤ toInt text.length := by
    rw [toInt_of_isInt ⟨by omega, by omega⟩]
    omega
  simp only [directiveCell, found, isText, if_pos proper]
  exact ⟨_, rfl⟩

theorem row_short {f : List FormatPart} (short : ∀ i, (arg i).str.length < 2 ^ 31)
    (shortError : strerror.length < 2 ^ 31) :
    ∃ t, Row.full blank (row strerror f arg) = some t := by
  induction f generalizing arg with
  | nil => exact ⟨[], rfl⟩
  | cons part f ih =>
      cases part with
      | char c literal notNul =>
          obtain ⟨t, whole⟩ := ih short
          rw [row, Row.full, whole]
          exact ⟨_, rfl⟩
      | directive flags verb areFlags known =>
          obtain ⟨c, cell⟩ := directiveCell_short areFlags known (short 0) shortError
          obtain ⟨t, whole⟩ : ∃ t, Row.full blank (row strerror f
              (if verb = 'r'.toUInt8 then arg else fun i => arg (i + 1))) = some t := by
            apply ih
            split
            · exact short
            · exact fun i => short (i + 1)
          rw [row, cell, Row.full, whole]
          exact ⟨_, rfl⟩

/-- The text of two formats, one behind the other, is made of the texts of both, each with its own
arguments.  There is one if the lengths of the strings are in the range of an `int`. -/
theorem print_append {f g : List FormatPart} {args args' : List Arg}
    (matching : args.length = argCount f) (matching' : args'.length = argCount g)
    (strings : ∀ a ∈ args ++ args', 0 ∉ a.str) (error : 0 ∉ strerror) :
    format (f ++ g) = format f ++ format g ∧
    (∀ t, IsText strerror (f ++ g) (args ++ args') t ↔
      ∃ t₁ t₂, t = t₁ ++ t₂ ∧ IsText strerror f args t₁ ∧ IsText strerror g args' t₂) ∧
    ((∀ a ∈ args ++ args', a.str.length < 2 ^ 31) → strerror.length < 2 ^ 31 →
      ∃ t, IsText strerror (f ++ g) (args ++ args') t) := by
  obtain ⟨strings₁, strings₂⟩ := List.forall_mem_append.mp strings
  have matching'' : (args ++ args').length = argCount (f ++ g) := by
    rw [List.length_append, matching, matching', argCount_append]
  simp only [isText_iff matching strings₁ error, isText_iff matching' strings₂ error,
    isText_iff matching'' strings error]
  refine ⟨format_append f g, ?_, ?_⟩
  · intro t
    rw [passed_append, row_append matching, Row.full_append, Option.bind_eq_some_iff]
    constructor
    · rintro ⟨t₁, whole₁, both⟩
      obtain ⟨t₂, whole₂, rfl⟩ := Option.map_eq_some_iff.mp both
      exact ⟨t₁, t₂, rfl, whole₁, whole₂⟩
    · rintro ⟨t₁, t₂, rfl, whole₁, whole₂⟩
      exact ⟨t₁, whole₁, Option.map_eq_some_iff.mpr ⟨t₂, whole₂, rfl⟩⟩
  · intro short shortError
    exact row_short (passed_of_forall short (by decide)) shortError

/-- `%-4d` with 7, and `|%x` with 10. -/
theorem print_append_columns : IsText []
    ([.directive (['-', '4'].map Char.toUInt8) 'd'.toUInt8 (by decide) (by decide)] ++
      [.char '|'.toUInt8 (by decide) (by decide),
        .directive [] 'x'.toUInt8 (by decide) (by decide)])
    ([{ word := 7 }] ++ [{ word := 10 }])
    (['7', ' ', ' ', ' ', '|', '0', 'x', 'a'].map Char.toUInt8) := by
  refine ((print_append rfl rfl (by decide) (by decide)).2.1 _).mpr
    ⟨['7', ' ', ' ', ' '].map Char.toUInt8, ['|', '0', 'x', 'a'].map Char.toUInt8, rfl, ?_, ?_⟩
  · exact (isText_iff rfl (by decide) (by decide)).mpr (by decide)
  · exact (isText_iff rfl (by decide) (by decide)).mpr (by decide)

end Libtask
