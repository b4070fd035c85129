import Mathlib.Data.List.Sort

/-!
# Agendas

A list of entries in the order of their deadlines.  What is due at some time is a front
part of the list, and a new entry goes in front of those that are not earlier.
-/

namespace Agenda

variable {α κ : Type} [LinearOrder κ]

/-- The entries are in the order of their deadlines. -/
def Sorted (key : α → κ) (xs : List α) : Prop := xs.Pairwise fun x y => key x ≤ key y

/-- Add an entry. -/
def enter (key : α → κ) (x : α) (xs : List α) : List α :=
  xs.orderedInsert (fun a b => key a ≤ key b) x

/-- The front part that is due at `now`. -/
def due (key : α → κ) (now : κ) (xs : List α) : List α := xs.takeWhile fun x => key x ≤ now

/-- What is left after that. -/
def later (key : α → κ) (now : κ) (xs : List α) : List α := xs.dropWhile fun x => key x ≤ now

variable {key key' : α → κ} {now : κ} {x y : α} {xs : List α}

theorem Sorted.congr (sorted : Sorted key xs) (same : ∀ x ∈ xs, key' x = key x) :
    Sorted key' xs := by
  apply List.Pairwise.imp_of_mem _ sorted
  intro a b aIn bIn le
  rw [same a aIn, same b bIn]
  exact le

theorem Sorted.enter (sorted : Sorted key xs) (x : α) : Sorted key (enter key x xs) := by
  have : Std.Total fun a b : α => key a ≤ key b := ⟨fun a b => le_total (key a) (key b)⟩
  have : IsTrans α fun a b => key a ≤ key b := ⟨fun _ _ _ => le_trans⟩
  exact List.Pairwise.orderedInsert x xs sorted

theorem enter_perm (key : α → κ) (x : α) (xs : List α) : (enter key x xs).Perm (x :: xs) :=
  List.perm_orderedInsert _ x xs

/-- The new entry goes behind those that are earlier. -/
theorem enter_eq {p : α → Bool} (earlier : ∀ y ∈ xs, p y = decide (key y < key x)) :
    enter key x xs = xs.takeWhile p ++ x :: xs.dropWhile p := by
  induction xs with
  | nil => rfl
  | cons y rest ih =>
      have rest' := ih fun z member => earlier z (List.mem_cons_of_mem y member)
      have first := earlier y (List.mem_cons_self ..)
      by_cases less : key y < key x
      · rw [decide_eq_true less] at first
        simp only [enter, List.orderedInsert_cons, not_le.mpr less, if_false, first,
          List.takeWhile_cons_of_pos, List.dropWhile_cons_of_pos, List.cons_append]
        exact congrArg _ rest'
      · rw [decide_eq_false less] at first
        simp [enter, not_lt.mp less, first]

/-- Nothing that is due stands behind an entry that is not. -/
theorem Sorted.later_eq_filter (sorted : Sorted key xs) (now : κ) :
    Agenda.later key now xs = xs.filter fun x => now < key x := by
  induction xs with
  | nil => rfl
  | cons x rest ih =>
      obtain ⟨first, sortedRest⟩ := List.pairwise_cons.mp sorted
      by_cases isDue : key x ≤ now
      · simp only [Agenda.later, isDue, decide_true, List.dropWhile_cons_of_pos,
          not_lt.mpr isDue, decide_false, Bool.false_eq_true, not_false_eq_true,
          List.filter_cons_of_neg]
        exact ih sortedRest
      · have all : ∀ y ∈ x :: rest, now < key y := by
          intro y member
          rcases List.mem_cons.mp member with rfl | inRest
          · exact not_le.mp isDue
          · exact (not_le.mp isDue).trans_le (first y inRest)
        rw [List.filter_eq_self.mpr fun y member => by simpa using all y member]
        simp [Agenda.later, isDue]

/-- Everything that is due stands in front. -/
theorem Sorted.due_eq_filter (sorted : Sorted key xs) (now : κ) :
    Agenda.due key now xs = xs.filter fun x => key x ≤ now := by
  induction xs with
  | nil => rfl
  | cons x rest ih =>
      obtain ⟨first, sortedRest⟩ := List.pairwise_cons.mp sorted
      by_cases isDue : key x ≤ now
      · simp only [Agenda.due, isDue, decide_true, List.takeWhile_cons_of_pos,
          List.filter_cons_of_pos, List.cons.injEq, true_and]
        exact ih sortedRest
      · have none : ∀ y ∈ x :: rest, ¬key y ≤ now := by
          intro y member
          rcases List.mem_cons.mp member with rfl | inRest
          · exact isDue
          · exact not_le.mpr ((not_le.mp isDue).trans_le (first y inRest))
        rw [List.filter_eq_nil_iff.mpr fun y member => by simpa using none y member]
        simp [Agenda.due, isDue]

theorem Sorted.mem_later (sorted : Sorted key xs) :
    x ∈ Agenda.later key now xs ↔ x ∈ xs ∧ now < key x := by
  simp [sorted.later_eq_filter]

/-- The first entry has the earliest deadline. -/
theorem Sorted.head_le (sorted : Sorted key xs) (isHead : xs.head? = some x) (member : y ∈ xs) :
    key x ≤ key y := by
  obtain ⟨rest, rfl⟩ := List.head?_eq_some_iff.mp isHead
  rcases List.mem_cons.mp member with rfl | inRest
  · exact le_rfl
  · exact (List.pairwise_cons.mp sorted).1 y inRest

end Agenda
