import Mathlib.Data.List.Nodup
import Mathlib.Data.List.Perm.Basic

/-!
# Removal from an unordered array

An array whose order does not matter gives up entry `i` by moving its last entry
there.
-/

namespace SwapRemove

variable {α : Type}

/-- The last entry takes the place of entry `i`. -/
def swapRemove (xs : List α) (i : Nat) : List α :=
  match xs.getLast? with
  | some last => (xs.set i last).dropLast
  | none => xs

theorem swapRemove_snoc (xs : List α) (last : α) (i : Nat) :
    swapRemove (xs ++ [last]) i =
      if i < xs.length then xs.set i last else xs := by
  have unfolded : swapRemove (xs ++ [last]) i = ((xs ++ [last]).set i last).dropLast := by
    simp [swapRemove]
  rw [unfolded]
  by_cases inside : i < xs.length
  · simp [List.set_append_left, inside]
  · rcases Nat.lt_or_ge xs.length i with beyond | atMost
    · rw [List.set_eq_of_length_le (by simp; omega)]
      simp [inside]
    · obtain rfl : i = xs.length := by omega
      simp

/-- The other entries are all kept, up to their order. -/
theorem cons_swapRemove_perm {xs : List α} {i : Nat} (inside : i < xs.length) :
    (xs[i] :: swapRemove xs i).Perm xs := by
  rcases List.eq_nil_or_concat' xs with rfl | ⟨front, last, rfl⟩
  · simp at inside
  · rw [swapRemove_snoc]
    by_cases before : i < front.length
    · simp only [before, if_true, List.getElem_append_left]
      have moved : (front.set i last).Perm (last :: front.eraseIdx i) :=
        List.set_perm_cons_eraseIdx before last
      have kept : (front[i] :: front.eraseIdx i).Perm front :=
        List.getElem_cons_eraseIdx_perm before
      exact ((moved.cons _).trans (List.Perm.swap _ _ _)).trans
        ((kept.cons _).trans (List.perm_append_singleton last front).symm)
    · obtain rfl : i = front.length := by
        simp only [List.length_append, List.length_singleton] at inside
        omega
      simpa using (List.perm_append_singleton last front).symm

theorem length_swapRemove (xs : List α) (i : Nat) :
    (swapRemove xs i).length = xs.length - 1 := by
  rcases List.eq_nil_or_concat' xs with rfl | ⟨front, last, rfl⟩
  · rfl
  · rw [swapRemove_snoc]
    split <;> simp

theorem nodup_swapRemove {xs : List α} (nodup : xs.Nodup) {i : Nat}
    (inside : i < xs.length) : (swapRemove xs i).Nodup :=
  (List.nodup_cons.mp ((cons_swapRemove_perm inside).nodup_iff.mpr nodup)).2

/-- Without duplicates, exactly one value is gone. -/
theorem mem_swapRemove_iff {xs : List α} (nodup : xs.Nodup) {i : Nat}
    (inside : i < xs.length) (x : α) :
    x ∈ swapRemove xs i ↔ x ∈ xs ∧ x ≠ xs[i] := by
  have perm := cons_swapRemove_perm inside
  have fresh := (List.nodup_cons.mp (perm.nodup_iff.mpr nodup)).1
  rw [← perm.mem_iff, List.mem_cons]
  constructor
  · intro member
    exact ⟨Or.inr member, fun same => fresh (same ▸ member)⟩
  · rintro ⟨same | member, different⟩
    · exact absurd same different
    · exact member

/-- Entry `j` of the smaller array is the old one, except where the last entry
was moved to. -/
theorem getElem?_swapRemove {xs : List α} {last : α} (lastEq : xs.getLast? = some last)
    {i j : Nat} (inside : i < xs.length) :
    (swapRemove xs i)[j]? =
      if j < xs.length - 1 then (if j = i then some last else xs[j]?) else none := by
  rcases List.eq_nil_or_concat' xs with rfl | ⟨front, last', rfl⟩
  · simp at lastEq
  · obtain rfl : last' = last := by simpa using lastEq
    rw [swapRemove_snoc]
    simp only [List.length_append, List.length_singleton] at inside ⊢
    by_cases short : j < front.length
    · by_cases before : i < front.length
      · simp only [before, if_true, List.getElem?_set, Nat.add_sub_cancel, short,
          List.getElem?_append_left]
        by_cases same : j = i
        · simp [same]
        · simp [same, Ne.symm same]
      · simp [before, short, show j ≠ i by omega, List.getElem?_append_left]
    · by_cases before : i < front.length <;> simp [before, short]

/-! ## Sweeps -/

/-- From entry `i` on, each entry with a property is removed, and then the one that took its
place is looked at again.  The sweep turns `xs` into `kept` and removes `removed`. -/
inductive Sweeps (p : α → Bool) : Nat → List α → List α → List α → Prop where
  | done {i : Nat} {xs : List α} : xs.length ≤ i → Sweeps p i xs xs []
  | keep {i : Nat} {xs kept removed : List α} (inside : i < xs.length) : p xs[i] = false →
      Sweeps p (i + 1) xs kept removed → Sweeps p i xs kept removed
  | remove {i : Nat} {xs kept removed : List α} (inside : i < xs.length) : p xs[i] = true →
      Sweeps p i (swapRemove xs i) kept removed → Sweeps p i xs kept (xs[i] :: removed)

/-- Behind the end there is nothing to sweep. -/
theorem Sweeps.beyond {p : α → Bool} {i : Nat} {xs kept removed : List α}
    (sweeps : Sweeps p i xs kept removed) (atEnd : xs.length ≤ i) :
    kept = xs ∧ removed = [] := by
  cases sweeps with
  | done => exact ⟨rfl, rfl⟩
  | keep inside => omega
  | remove inside => omega

/-- The entries in front of the removed one stay. -/
theorem getElem_swapRemove_lt {xs : List α} {i j : Nat} (inside : i < xs.length) (before : j < i)
    (short : j < (swapRemove xs i).length) : (swapRemove xs i)[j] = xs[j] := by
  obtain ⟨last, lastEq⟩ : ∃ last, xs.getLast? = some last := by
    cases lastEq : xs.getLast? with
    | none =>
        rw [List.getLast?_eq_none_iff] at lastEq
        simp [lastEq] at inside
    | some last => exact ⟨last, rfl⟩
  have atIndex := getElem?_swapRemove lastEq (j := j) inside
  rw [if_pos (by omega), if_neg (by omega), List.getElem?_eq_getElem short,
    List.getElem?_eq_getElem (by omega)] at atIndex
  exact Option.some.inj atIndex

/-- Nothing is lost, and the two parts are told apart by the property. -/
theorem Sweeps.parts {p : α → Bool} {i : Nat} {xs kept removed : List α}
    (sweeps : Sweeps p i xs kept removed)
    (swept : ∀ j (short : j < xs.length), j < i → p xs[j] = false) :
    (removed ++ kept).Perm xs ∧ (∀ x ∈ kept, p x = false) ∧ ∀ x ∈ removed, p x = true := by
  induction sweeps with
  | done beyond =>
      refine ⟨.refl _, fun x member => ?_, by simp⟩
      obtain ⟨j, short, rfl⟩ := List.getElem_of_mem member
      exact swept j short (Nat.lt_of_lt_of_le short beyond)
  | keep inside stays _ ih =>
      refine ih fun j short before => ?_
      rcases Nat.lt_succ_iff_lt_or_eq.mp before with earlier | rfl
      · exact swept j short earlier
      · exact stays
  | remove inside goes _ ih =>
      obtain ⟨perm, stay, go⟩ := ih fun j short before => by
        rw [getElem_swapRemove_lt inside before short]
        exact swept j (by omega) before
      refine ⟨(perm.cons _).trans (cons_swapRemove_perm inside), stay, ?_⟩
      intro x member
      rcases List.mem_cons.mp member with rfl | later
      · exact goes
      · exact go x later

/-- A whole sweep removes the entries with the property and keeps the others. -/
theorem Sweeps.perm {p : α → Bool} {xs kept removed : List α}
    (sweeps : Sweeps p 0 xs kept removed) :
    removed.Perm (xs.filter p) ∧ kept.Perm (xs.filter fun x => !p x) := by
  obtain ⟨perm, stay, go⟩ := sweeps.parts (by simp)
  constructor
  · have filtered := perm.filter p
    rw [List.filter_append, List.filter_eq_self.mpr go,
      List.filter_eq_nil_iff.mpr fun x member => by simp [stay x member],
      List.append_nil] at filtered
    exact filtered
  · have filtered := perm.filter fun x => !p x
    rw [List.filter_append, List.filter_eq_nil_iff.mpr fun x member => by simp [go x member],
      List.filter_eq_self.mpr fun x member => by simp [stay x member],
      List.nil_append] at filtered
    exact filtered

end SwapRemove
