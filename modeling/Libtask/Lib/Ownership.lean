import Libtask.Lib.Interaction
import Mathlib.Algebra.Order.Group.Multiset
import Mathlib.Data.Multiset.UnionInter
import Mathlib.Data.Set.Basic

/-!
# Programs that own resources

A call may gain a resource, and another one gives it back.  A program owns what it has gained, and
may pass it to a program that it starts.  Where each program gives back only what it owns, and ends
with nothing but what it may leave, no resource is given back twice and no other one is lost, in any
order of the steps.

A program may share in a resource that another one owns.  The right to do so is passed on apart
from the resource.  As long as nothing is gained to which somebody still has the right, nobody else
has it.
-/

namespace Ownership

open Function (update update_of_ne)
open Interaction (Meets Net Prog Proc Reaches Spec Step)

variable {τ W C A L S R : Type} [DecidableEq τ]

/-! ## What is held, and by whom -/

/-- The resources that are held are those `before`, those `lost`, and what the parties own, each of
which has one owner. -/
structure Parted (before lost : Set R) (own : τ → Set R) (held : R → Prop) : Prop where
  held : ∀ r, held r ↔ r ∈ before ∨ r ∈ lost ∨ ∃ t, r ∈ own t
  apart : ∀ t u r, r ∈ own t → r ∈ own u → t = u
  fresh : ∀ t r, r ∈ own t → r ∉ before ∧ r ∉ lost

namespace Parted

variable {before lost : Set R} {own : τ → Set R} {held held' : R → Prop} {t u : τ}

omit [DecidableEq τ] in
theorem of_owner (parted : Parted before lost own held) {r : R} (owner : r ∈ own t) : held r :=
  (parted.held r).mpr (Or.inr (Or.inr ⟨t, owner⟩))

/-- A party gives some of its resources back and gains others. -/
theorem exchange (parted : Parted before lost own held) {freed gained : Set R}
    (owned : freed ⊆ own t) (unheld : ∀ r ∈ gained, ¬held r)
    (after : ∀ r, held' r ↔ held r ∧ r ∉ freed ∨ r ∈ gained) :
    Parted before lost (update own t (own t \ freed ∪ gained)) held' := by
  have mine {r : R} : r ∈ update own t (own t \ freed ∪ gained) t ↔
      r ∈ own t ∧ r ∉ freed ∨ r ∈ gained := by simp
  have theirs {v : τ} (other : v ≠ t) :
      update own t (own t \ freed ∪ gained) v = own v := update_of_ne other ..
  have keeps {v : τ} {r : R} (other : v ≠ t) (member : r ∈ own v) : r ∉ freed := fun isFreed =>
    other (parted.apart v t r member (owned isFreed))
  have isNew (v : τ) {r : R} (isGained : r ∈ gained) : r ∉ own v := fun member =>
    unheld r isGained (parted.of_owner member)
  refine ⟨fun r => ?_, fun v v' r member member' => ?_, fun v r member => ?_⟩
  · rw [after, parted.held]
    constructor
    · rintro (⟨isBefore | isLost | ⟨v, member⟩, notFreed⟩ | isGained)
      · exact Or.inl isBefore
      · exact Or.inr (Or.inl isLost)
      · refine Or.inr (Or.inr ⟨v, ?_⟩)
        by_cases same : v = t
        · subst same
          exact mine.mpr (Or.inl ⟨member, notFreed⟩)
        · rwa [theirs same]
      · exact Or.inr (Or.inr ⟨t, mine.mpr (Or.inr isGained)⟩)
    · rintro (isBefore | isLost | ⟨v, member⟩)
      · exact Or.inl ⟨Or.inl isBefore, fun isFreed => (parted.fresh t r (owned isFreed)).1 isBefore⟩
      · exact Or.inl ⟨Or.inr (Or.inl isLost), fun isFreed =>
          (parted.fresh t r (owned isFreed)).2 isLost⟩
      · by_cases same : v = t
        · subst same
          rcases mine.mp member with ⟨member, notFreed⟩ | isGained
          · exact Or.inl ⟨Or.inr (Or.inr ⟨v, member⟩), notFreed⟩
          · exact Or.inr isGained
        · rw [theirs same] at member
          exact Or.inl ⟨Or.inr (Or.inr ⟨v, member⟩), keeps same member⟩
  · by_cases same : v = t <;> by_cases same' : v' = t
    · rw [same, same']
    · subst same
      rw [theirs same'] at member'
      rcases mine.mp member with ⟨member, -⟩ | isGained
      · exact parted.apart v v' r member member'
      · exact absurd member' (isNew v' isGained)
    · subst same'
      rw [theirs same] at member
      rcases mine.mp member' with ⟨member', -⟩ | isGained
      · exact parted.apart v v' r member member'
      · exact absurd member (isNew v isGained)
    · rw [theirs same] at member
      rw [theirs same'] at member'
      exact parted.apart v v' r member member'
  · by_cases same : v = t
    · subst same
      rcases mine.mp member with ⟨member, -⟩ | isGained
      · exact parted.fresh v r member
      · have unheld := unheld r isGained
        rw [parted.held] at unheld
        exact ⟨fun isBefore => unheld (Or.inl isBefore),
          fun isLost => unheld (Or.inr (Or.inl isLost))⟩
    · exact parted.fresh v r (theirs same ▸ member)

/-- A party passes some of its resources to a new one. -/
theorem pass (parted : Parted before lost own held) {passed : Set R} (owned : passed ⊆ own t)
    (isNew : own u = ∅) (other : u ≠ t) :
    Parted before lost (update (update own t (own t \ passed)) u passed) held := by
  have giver {r : R} : r ∈ update (update own t (own t \ passed)) u passed t ↔
      r ∈ own t ∧ r ∉ passed := by simp [update_of_ne (Ne.symm other)]
  have taker {r : R} : r ∈ update (update own t (own t \ passed)) u passed u ↔ r ∈ passed := by simp
  have rest {v : τ} (notGiver : v ≠ t) (notTaker : v ≠ u) :
      update (update own t (own t \ passed)) u passed v = own v := by
    rw [update_of_ne notTaker, update_of_ne notGiver]
  -- the owner before
  have owner {v : τ} {r : R} (member : r ∈ update (update own t (own t \ passed)) u passed v) :
      v = u ∧ r ∈ passed ∧ r ∈ own t ∨ v ≠ u ∧ r ∈ own v ∧ (v = t → r ∉ passed) := by
    by_cases isTaker : v = u
    · subst isTaker
      exact Or.inl ⟨rfl, taker.mp member, owned (taker.mp member)⟩
    · by_cases isGiver : v = t
      · subst isGiver
        exact Or.inr ⟨isTaker, (giver.mp member).1, fun _ => (giver.mp member).2⟩
      · exact Or.inr ⟨isTaker, rest isGiver isTaker ▸ member, fun same => absurd same isGiver⟩
  refine ⟨fun r => ?_, fun v v' r member member' => ?_, fun v r member => ?_⟩
  · rw [parted.held]
    refine or_congr_right (or_congr_right ⟨?_, ?_⟩)
    · rintro ⟨v, member⟩
      by_cases isPassed : r ∈ passed
      · exact ⟨u, taker.mpr isPassed⟩
      · refine ⟨v, ?_⟩
        by_cases isGiver : v = t
        · subst isGiver
          exact giver.mpr ⟨member, isPassed⟩
        · have notTaker : v ≠ u := by
            rintro rfl
            simp [isNew] at member
          rwa [rest isGiver notTaker]
    · rintro ⟨v, member⟩
      rcases owner member with ⟨-, -, member⟩ | ⟨-, member, -⟩
      · exact ⟨t, member⟩
      · exact ⟨v, member⟩
  · rcases owner member with ⟨rfl, isPassed, owned⟩ | ⟨notTaker, owned, kept⟩ <;>
      rcases owner member' with ⟨rfl, isPassed', owned'⟩ | ⟨notTaker', owned', kept'⟩
    · rfl
    · exact absurd isPassed (kept' (parted.apart v' t r owned' owned))
    · exact absurd isPassed' (kept (parted.apart v t r owned owned'))
    · exact parted.apart v v' r owned owned'
  · rcases owner member with ⟨-, -, owned⟩ | ⟨-, owned, -⟩
    · exact parted.fresh t r owned
    · exact parted.fresh v r owned

/-- A party ends, and what it owns is lost. -/
theorem lose (parted : Parted before lost own held) :
    Parted before (lost ∪ own t) (update own t ∅) held := by
  have owner {v : τ} {r : R} (member : r ∈ update own t ∅ v) : v ≠ t ∧ r ∈ own v := by
    by_cases same : v = t
    · subst same
      simp at member
    · exact ⟨same, by rwa [update_of_ne same] at member⟩
  refine ⟨fun r => ?_, fun v v' r member member' => ?_, fun v r member => ?_⟩
  · rw [parted.held, Set.mem_union]
    constructor
    · rintro (isBefore | isLost | ⟨v, member⟩)
      · exact Or.inl isBefore
      · exact Or.inr (Or.inl (Or.inl isLost))
      · by_cases same : v = t
        · exact Or.inr (Or.inl (Or.inr (same ▸ member)))
        · exact Or.inr (Or.inr ⟨v, by rwa [update_of_ne same]⟩)
    · rintro (isBefore | (isLost | isOwn) | ⟨v, member⟩)
      · exact Or.inl isBefore
      · exact Or.inr (Or.inl isLost)
      · exact Or.inr (Or.inr ⟨t, isOwn⟩)
      · exact Or.inr (Or.inr ⟨v, (owner member).2⟩)
  · exact parted.apart v v' r (owner member).2 (owner member').2
  · obtain ⟨other, member⟩ := owner member
    obtain ⟨notBefore, notLost⟩ := parted.fresh v r member
    refine ⟨notBefore, ?_⟩
    rintro (isLost | isOwn)
    · exact notLost isLost
    · exact other (parted.apart v t r member isOwn)

end Parted

/-! ## The discipline -/

/-- What a program has in hand. -/
structure Account (R : Type) where
  /-- what it gives back or passes on before it ends -/
  own : Multiset R := 0
  /-- how many of these it may leave instead, and which -/
  few : Nat := 0
  left : Set R := ∅
  /-- what it has the right to share in -/
  rights : Multiset R := 0
  /-- what it was started to share in without owning it -/
  lent : Set R := ∅

/-- The second account allows what the first one does. -/
structure Account.Le (h h' : Account R) : Prop where
  own : h.own = h'.own
  few : h.few = h'.few
  left : h.left ⊆ h'.left
  rights : h.rights ≤ h'.rights
  lent : h.lent ⊆ h'.lent

theorem Account.Le.refl (h : Account R) : h.Le h := ⟨rfl, rfl, subset_rfl, le_rfl, subset_rfl⟩

theorem Account.Le.trans {h h' h'' : Account R} (first : h.Le h') (second : h'.Le h'') :
    h.Le h'' where
  own := first.own.trans second.own
  few := first.few.trans second.few
  left := first.left.trans second.left
  rights := first.rights.trans second.rights
  lent := first.lent.trans second.lent

variable [DecidableEq R]

/-- Which calls gain, use and free resources, and what a program has in hand at its labels. -/
structure Discipline (C A L R : Type) where
  possible : C → A → Prop
  gains : C → A → Option R
  frees : C → Option R
  /-- what the caller must own -/
  uses : C → Option R
  frees_uses : ∀ c r, frees c = some r → uses c = some r
  /-- what the caller must have the right to, as the owner or without being the owner -/
  shares : C → Option R
  /-- what the caller may leave from then on -/
  marks : C → A → Option R
  marks_uses : ∀ c a r, marks c a = some r → uses c = some r ∧ frees c = none
  account : L → Account R

namespace Discipline

/-- A resource, or none. -/
def ofOption (r : Option R) : Multiset R := r.elim 0 fun r => {r}

omit [DecidableEq R] in
@[simp] theorem ofOption_none : ofOption (none : Option R) = 0 := rfl

omit [DecidableEq R] in
@[simp] theorem ofOption_some (r : R) : ofOption (some r) = {r} := rfl

omit [DecidableEq R] in
@[simp] theorem mem_ofOption {r : R} {o : Option R} : r ∈ ofOption o ↔ o = some r := by
  cases o with
  | none => simp
  | some r' => simp [eq_comm]

omit [DecidableEq R] in
theorem nodup_ofOption (o : Option R) : (ofOption o).Nodup := by
  cases o <;> simp

variable (d : Discipline C A L R)

/-- What a program owns after a call, or has the right to. -/
def after (own : Multiset R) (c : C) (a : A) : Multiset R :=
  own - ofOption (d.frees c) + ofOption (d.gains c a)

theorem after_mono {own own' : Multiset R} (c : C) (a : A) (more : own ≤ own') :
    d.after own c a ≤ d.after own' c a :=
  Multiset.add_le_add_right (tsub_le_tsub_right more _)

theorem mem_after {own : Multiset R} {c : C} {r : R} (a : A) (owned : r ∈ own)
    (kept : d.frees c ≠ some r) : r ∈ d.after own c a := by
  refine Multiset.mem_add.mpr (Or.inl ?_)
  cases isFreed : d.frees c with
  | none => simpa using owned
  | some r' =>
      rw [ofOption_some, Multiset.sub_singleton]
      exact (Multiset.mem_erase_of_ne fun same => kept (by rw [isFreed, same])).mpr owned

theorem nodup_after {own : Multiset R} {c : C} {a : A} (nodup : own.Nodup)
    (isNew : ∀ r, d.gains c a = some r → r ∉ own) : (d.after own c a).Nodup := by
  refine Multiset.nodup_add.mpr
    ⟨Multiset.nodup_of_le (Multiset.sub_le_self _ _) nodup, nodup_ofOption _, ?_⟩
  refine Multiset.disjoint_left.mpr fun {r} isKept isGained => ?_
  exact isNew r (mem_ofOption.mp isGained) (Multiset.mem_of_le (Multiset.sub_le_self _ _) isKept)

theorem mem_after_of_nodup {own : Multiset R} {c : C} {a : A} {r : R} (nodup : own.Nodup) :
    r ∈ d.after own c a ↔ r ∈ own ∧ d.frees c ≠ some r ∨ d.gains c a = some r := by
  simp [after, Multiset.mem_sub_of_nodup nodup]

/-- The account after a call. -/
def called (h : Account R) (c : C) (a : A) : Account R :=
  { h with
    own := d.after h.own c a
    left := {r | r ∈ h.left ∧ d.frees c ≠ some r ∨ d.marks c a = some r}
    rights := d.after h.rights c a }

/-- The account after another program was started. -/
def passed (h child : Account R) : Account R :=
  { h with
    own := h.own - child.own
    left := {r | r ∈ h.left ∧ r ∈ h.own - child.own}
    rights := h.rights - child.rights }

/-- The ghost state is what a program has in hand. -/
def spec : Spec C A L (Account R) where
  possible := d.possible
  start := d.account
  called := d.called
  spawned h child := passed h (d.account child)
  inv l h := (d.account l).Le h
  calls h c := (∀ r, d.uses c = some r → r ∈ h.own) ∧
    ∀ r, d.shares c = some r → r ∈ h.rights ∧ (r ∈ h.own ∨ r ∈ h.lent)
  spawns h child := (d.account child).own ≤ h.own ∧ (d.account child).rights ≤ h.rights ∧
    (d.account child).few = 0 ∧ (d.account child).left = ∅
  ends h := h.own.card ≤ h.few ∧ ∀ r ∈ h.own, r ∈ h.left

variable {d} in
/-- A program that keeps to the discipline does so with more in hand. -/
theorem valid_mono {code : Prog C A L S} {h h' : Account R} (valid : d.spec.Valid h code)
    (more : h.Le h') : d.spec.Valid h' code := by
  induction code generalizing h h' with
  | goto l => exact Account.Le.trans valid more
  | call c next ih =>
      obtain ⟨⟨uses, shares⟩, goesOn⟩ := valid
      refine ⟨⟨fun r isUse => more.own ▸ uses r isUse, fun r isShare => ?_⟩,
        fun a isPossible => ih a (goesOn a isPossible) ?_⟩
      · obtain ⟨right, owner⟩ := shares r isShare
        exact ⟨Multiset.mem_of_le more.rights right, owner.imp (more.own ▸ ·) (more.lent ·)⟩
      · exact ⟨congrArg (d.after · c a) more.own, more.few,
          fun r => Or.imp_left (And.imp_left (more.left ·)), d.after_mono c a more.rights,
          more.lent⟩
  | spawn child next ih =>
      obtain ⟨⟨owned, rights, few, left⟩, goesOn⟩ := valid
      refine ⟨⟨more.own ▸ owned, rights.trans more.rights, few, left⟩, ih goesOn
        ⟨congrArg (· - _) more.own, more.few, ?_, tsub_le_tsub_right more.rights _, more.lent⟩⟩
      exact fun r member => ⟨more.left member.1, more.own ▸ member.2⟩
  | ret =>
      exact ⟨more.own ▸ more.few ▸ valid.1, fun r member =>
        more.left (valid.2 r (more.own ▸ member))⟩
  | stop why => trivial

/-- What a program in execution has in hand. -/
def hand (p : Proc C A L S) : Account R := d.spec.ghost p

/-- What a program in execution owns: what it was started with, and what it gained since then and
neither freed nor passed on. -/
def owned (p : Proc C A L S) : Multiset R := (d.hand p).own

/-- What a program in execution has the right to. -/
def rights (p : Proc C A L S) : Multiset R := (d.hand p).rights

/-- What the party at `t` owns. -/
def ownedAt (n : Net τ W C A L S) (t : τ) : Set R := (n.proc t).elim ∅ fun p => {r | r ∈ d.owned p}

section
variable (p : Proc C A L S) (c : C) (a : A) (child : L) (next : Prog C A L S)

@[simp] theorem hand_called (next : A → Prog C A L S) :
    d.hand (p.called c a next) = d.called (d.hand p) c a := Spec.ghost_called ..

@[simp] theorem hand_spawned :
    d.hand (p.spawned child next) = passed (d.hand p) (d.account child) := Spec.ghost_spawned ..

@[simp] theorem owned_called (next : A → Prog C A L S) :
    d.owned (p.called c a next) = d.after (d.owned p) c a :=
  congrArg Account.own (d.hand_called p c a next)

@[simp] theorem rights_called (next : A → Prog C A L S) :
    d.rights (p.called c a next) = d.after (d.rights p) c a :=
  congrArg Account.rights (d.hand_called p c a next)

@[simp] theorem rights_spawned :
    d.rights (p.spawned child next) = d.rights p - (d.account child).rights :=
  congrArg Account.rights (d.hand_spawned p child next)

@[simp] theorem owned_spawned :
    d.owned (p.spawned child next) = d.owned p - (d.account child).own :=
  congrArg Account.own (d.hand_spawned p child next)

end

variable {d} in
/-- What was lent to a program stays the same. -/
theorem hand_lent (p : Proc C A L S) : (d.hand p).lent = (d.account p.entry).lent := by
  have follows (h : Account R) (events : List (Interaction.Event C A L)) :
      (events.foldl d.spec.update h).lent = h.lent := by
    induction events generalizing h with
    | nil => rfl
    | cons e rest ih =>
        rw [List.foldl_cons, ih]
        cases e <;> rfl
  exact follows _ _

/-- How the world answers calls that gain and free resources, and which ones it shows as marked. -/
structure Laws (does : W → C → A → Option W) (held marked : W → R → Prop) : Prop where
  possible : ∀ w c a w', does w c a = some w' → d.possible c a
  fresh : ∀ w c a w' r, does w c a = some w' → d.gains c a = some r → ¬held w r
  after : ∀ w c a w', does w c a = some w' →
    ∀ r, held w' r ↔ held w r ∧ d.frees c ≠ some r ∨ d.gains c a = some r
  marks : ∀ w c a w' r, does w c a = some w' → d.marks c a = some r → held w r → marked w' r
  stays : ∀ w c a w' r, does w c a = some w' → held w r → marked w r → d.frees c ≠ some r →
    marked w' r

/-- The programs that may leave something when they end: at most one, and none when something is
lost already. -/
structure Leaves (few : Nat) (n : Net τ W C A L S) (lost : Multiset R) : Prop where
  one : ∀ t u p q, n.proc t = some p → n.proc u = some q → (d.hand p).few ≠ 0 →
    (d.hand q).few ≠ 0 → t = u
  most : ∀ t p, n.proc t = some p → (d.hand p).few ≤ few
  spent : lost ≠ 0 → ∀ t p, n.proc t = some p → (d.hand p).few = 0

/-- Each resource that is held has one owner, up to those `before` and a few that are `lost`, which
are marked. -/
structure Tidy (held marked : W → R → Prop) (before : Set R) (few : Nat) (n : Net τ W C A L S)
    (lost : Multiset R) : Prop where
  meets : Meets d.spec n
  nodup : ∀ t p, n.proc t = some p → (d.owned p).Nodup
  parted : Parted before {r | r ∈ lost} (d.ownedAt n) (held n.world)
  card : lost.card ≤ few
  leaves : d.Leaves few n lost
  left : ∀ t p r, n.proc t = some p → r ∈ (d.hand p).left → r ∈ d.owned p ∧ marked n.world r
  marked : ∀ r ∈ lost, marked n.world r

variable {d} {code : L → Prog C A L S} {does : W → C → A → Option W} {held marked : W → R → Prop}
variable {before : Set R} {few : Nat} {n n' : Net τ W C A L S} {lost : Multiset R} {t : τ}

theorem ownedAt_set (n : Net τ W C A L S) (t : τ) (p : Option (Proc C A L S)) :
    d.ownedAt (n.set t p) = update (d.ownedAt n) t (p.elim ∅ fun p => {r | r ∈ d.owned p}) := by
  funext u
  by_cases same : u = t
  · subst same
    simp [ownedAt, Net.set]
  · simp [ownedAt, Net.set, same]

omit [DecidableEq τ] in
theorem ownedAt_some {p : Proc C A L S} (isProc : n.proc t = some p) :
    d.ownedAt n t = {r | r ∈ d.owned p} := by
  simp [ownedAt, isProc]

omit [DecidableEq τ] in
theorem mem_ownedAt {r : R} :
    r ∈ d.ownedAt n t ↔ ∃ p, n.proc t = some p ∧ r ∈ d.owned p := by
  cases isProc : n.proc t with
  | none => simp [ownedAt, isProc]
  | some p => simp [ownedAt, isProc]

theorem nodup_set {p : Option (Proc C A L S)}
    (nodup : ∀ u q, n.proc u = some q → (d.owned q).Nodup)
    (here : ∀ q, p = some q → (d.owned q).Nodup) :
    ∀ u q, (n.set t p).proc u = some q → (d.owned q).Nodup := by
  intro u q isProc
  rcases Net.proc_set isProc with ⟨-, same⟩ | ⟨-, isProc⟩
  · exact here q same
  · exact nodup u q isProc

/-- The program at `t` goes on, or another one is there that may leave nothing. -/
theorem Leaves.set (leaves : d.Leaves few n lost) (p : Proc C A L S)
    (kept : (∃ q, n.proc t = some q ∧ (d.hand q).few = (d.hand p).few) ∨
      (d.hand p).few = 0) : d.Leaves few (n.set t (some p)) lost := by
  -- a program that may leave something was there before
  have earlier {u : τ} {q : Proc C A L S} (isProc : (n.set t (some p)).proc u = some q)
      (some : (d.hand q).few ≠ 0) :
      ∃ q', n.proc u = Option.some q' ∧ (d.hand q').few = (d.hand q).few := by
    rcases Net.proc_set isProc with ⟨rfl, ⟨⟩⟩ | ⟨-, isProc⟩
    · exact kept.resolve_right some
    · exact ⟨q, isProc, rfl⟩
  refine ⟨fun u v q q' isProc isProc' some some' => ?_, fun u q isProc => ?_,
    fun isLost u q isProc => ?_⟩
  · obtain ⟨q₁, isProc₁, same⟩ := earlier isProc some
    obtain ⟨q₂, isProc₂, same'⟩ := earlier isProc' some'
    exact leaves.one u v q₁ q₂ isProc₁ isProc₂ (same ▸ some) (same' ▸ some')
  · by_cases some : (d.hand q).few = 0
    · omega
    · obtain ⟨q', isProc', same⟩ := earlier isProc some
      exact same ▸ leaves.most u q' isProc'
  · by_contra some
    obtain ⟨q', isProc', same⟩ := earlier isProc some
    exact some (same ▸ leaves.spent isLost u q' isProc')

/-- The program at `t` ends, and leaves what it owns. -/
theorem Leaves.ret {p : Proc C A L S} (leaves : d.Leaves few n lost) (isProc : n.proc t = some p)
    (left : (d.owned p).card ≤ (d.hand p).few) (card : lost.card ≤ few) :
    d.Leaves few (n.set t none) (lost + d.owned p) ∧ (lost + d.owned p).card ≤ few := by
  have others {u : τ} {q : Proc C A L S} (isProc : (n.set t none).proc u = some q) :
      u ≠ t ∧ n.proc u = some q := by
    rcases Net.proc_set isProc with ⟨-, ⟨⟩⟩ | others
    exact others
  constructor
  · refine ⟨fun u v q q' isProc isProc' => leaves.one u v q q' (others isProc).2 (others isProc').2,
      fun u q isProc => leaves.most u q (others isProc).2, fun isLost u q isProc' => ?_⟩
    obtain ⟨other, isProc'⟩ := others isProc'
    by_cases none : (d.hand p).few = 0
    · have nothing : d.owned p = 0 := Multiset.card_eq_zero.mp (by omega)
      rw [nothing, Multiset.add_zero] at isLost
      exact leaves.spent isLost u q isProc'
    · by_contra some
      exact other (leaves.one u t q p isProc' isProc some none)
  · by_cases none : (d.hand p).few = 0
    · have nothing : d.owned p = 0 := Multiset.card_eq_zero.mp (by omega)
      rwa [nothing, Multiset.add_zero]
    · have notLost : lost = 0 := by
        by_contra isLost
        exact none (leaves.spent isLost t p isProc)
      rw [notLost, Multiset.zero_add]
      exact left.trans (leaves.most t p isProc)

omit [DecidableEq τ] in
theorem Tidy.apart {u : τ} {p q : Proc C A L S} {r : R}
    (tidy : d.Tidy held marked before few n lost) (isProc : n.proc t = some p)
    (isProc' : n.proc u = some q) (owned : r ∈ d.owned p) (owned' : r ∈ d.owned q) : t = u :=
  tidy.parted.apart t u r (mem_ownedAt.mpr ⟨p, isProc, owned⟩)
    (mem_ownedAt.mpr ⟨q, isProc', owned'⟩)

omit [DecidableEq τ] in
theorem Tidy.holds {p : Proc C A L S} {r : R} (tidy : d.Tidy held marked before few n lost)
    (isProc : n.proc t = some p) (owned : r ∈ d.owned p) : held n.world r :=
  tidy.parted.of_owner (t := t) (by rwa [ownedAt_some isProc])

/-- The program at `t` is replaced by one that may leave only what is marked. -/
theorem left_set {w : W} {q : Option (Proc C A L S)}
    (others : ∀ u p r, u ≠ t → n.proc u = some p → r ∈ (d.hand p).left →
      r ∈ d.owned p ∧ marked w r)
    (here : ∀ p, q = some p → ∀ r ∈ (d.hand p).left, r ∈ d.owned p ∧ marked w r) :
    ∀ u p r, (n.set t q).proc u = some p → r ∈ (d.hand p).left → r ∈ d.owned p ∧ marked w r := by
  intro u p r isProc isLeft
  rcases Net.proc_set isProc with ⟨-, same⟩ | ⟨other, isProc⟩
  · exact here p same r isLeft
  · exact others u p r other isProc isLeft

omit [DecidableEq τ] in
/-- What a call uses is owned, and held. -/
theorem Tidy.uses {p : Proc C A L S} {c : C} {next : A → Prog C A L S} {r : R}
    (tidy : d.Tidy held marked before few n lost) (isProc : n.proc t = some p)
    (isCode : p.code = .call c next) (isUse : d.uses c = some r) :
    r ∈ d.owned p ∧ held n.world r := by
  have valid := tidy.meets t p isProc
  rw [isCode] at valid
  have owned : r ∈ d.owned p := valid.1.1 r isUse
  exact ⟨owned, tidy.holds isProc owned⟩

omit [DecidableEq τ] in
/-- What a call shares in is owned, and held, or was lent to the program when it was started. -/
theorem Tidy.shares {p : Proc C A L S} {c : C} {next : A → Prog C A L S} {r : R}
    (tidy : d.Tidy held marked before few n lost) (isProc : n.proc t = some p)
    (isCode : p.code = .call c next) (isShare : d.shares c = some r) :
    r ∈ d.owned p ∧ held n.world r ∨ r ∈ (d.account p.entry).lent := by
  have valid := tidy.meets t p isProc
  rw [isCode] at valid
  rcases (valid.1.2 r isShare).2 with owned | isLent
  · exact Or.inl ⟨owned, tidy.holds isProc owned⟩
  · exact Or.inr (d.hand_lent p ▸ isLent)

omit [DecidableEq τ] in
/-- What the caller does not own stays marked. -/
theorem Tidy.kept {p : Proc C A L S} {c : C} {a : A} {next : A → Prog C A L S} {w : W} {r : R}
    (tidy : d.Tidy held marked before few n lost) (laws : d.Laws does held marked)
    (isProc : n.proc t = some p) (isCode : p.code = .call c next)
    (done : does n.world c a = some w) (notOwned : r ∉ d.owned p) (isHeld : held n.world r)
    (isMarked : marked n.world r) : marked w r := by
  refine laws.stays _ _ _ _ r done isHeld isMarked fun isFreed => ?_
  exact notOwned (tidy.uses isProc isCode (d.frees_uses c r isFreed)).1

omit [DecidableEq τ] in
/-- What a program may leave after a call is marked. -/
theorem Tidy.left_called {p : Proc C A L S} {c : C} {a : A} {next : A → Prog C A L S} {w : W}
    {r : R} (tidy : d.Tidy held marked before few n lost) (laws : d.Laws does held marked)
    (isProc : n.proc t = some p) (isCode : p.code = .call c next)
    (done : does n.world c a = some w) (isLeft : r ∈ (d.called (d.hand p) c a).left) :
    r ∈ d.after (d.owned p) c a ∧ marked w r := by
  rcases isLeft with ⟨isLeft, notFreed⟩ | isMarked
  · obtain ⟨owned, wasMarked⟩ := tidy.left t p r isProc isLeft
    have isHeld := tidy.holds isProc owned
    exact ⟨d.mem_after a owned notFreed, laws.stays _ _ _ _ r done isHeld wasMarked notFreed⟩
  · obtain ⟨isUse, freesNone⟩ := d.marks_uses c a r isMarked
    obtain ⟨owned, isHeld⟩ := tidy.uses isProc isCode isUse
    exact ⟨d.mem_after a owned (by simp [freesNone]), laws.marks _ _ _ _ r done isMarked isHeld⟩

/-- A call gives back what the caller owns, and what it gains is new. -/
theorem Tidy.call {p : Proc C A L S} {c : C} {a : A} {next : A → Prog C A L S} {w : W}
    (tidy : d.Tidy held marked before few n lost) (laws : d.Laws does held marked)
    (isProc : n.proc t = some p) (isCode : p.code = .call c next)
    (done : does n.world c a = some w)
    (meets : Meets d.spec ({ n with world := w }.set t (some (p.called c a next)))) :
    d.Tidy held marked before few ({ n with world := w }.set t (some (p.called c a next)))
      lost := by
  have nodup := tidy.nodup t p isProc
  have owned := d.owned_called p c a next
  have notOwned {r : R} (isGained : d.gains c a = some r) : r ∉ d.owned p := fun member =>
    laws.fresh _ _ _ _ r done isGained (tidy.holds isProc member)
  refine
    { meets
      nodup := nodup_set (n := { n with world := w }) tidy.nodup ?_
      parted := ?_
      card := tidy.card
      leaves := ?_
      left := left_set (n := { n with world := w }) (fun u q r other isProc' isLeft => ?_) ?_
      marked := fun r isLost => ?_ }
  · rintro q ⟨⟩
    rw [owned]
    exact d.nodup_after nodup fun r => notOwned
  · have sets : {r | r ∈ d.owned (p.called c a next)} =
        d.ownedAt n t \ {r | d.frees c = some r} ∪ {r | d.gains c a = some r} := by
      ext r
      rw [ownedAt_some isProc, owned]
      exact d.mem_after_of_nodup nodup
    rw [ownedAt_set, Option.elim_some, sets]
    refine tidy.parted.exchange (fun r isFreed => ?_) (fun r => laws.fresh _ _ _ _ r done) ?_
    · rw [ownedAt_some isProc]
      exact (tidy.uses isProc isCode (d.frees_uses c r isFreed)).1
    · exact laws.after _ _ _ _ done
  · have leaves : d.Leaves few { n with world := w } lost :=
      ⟨tidy.leaves.one, tidy.leaves.most, tidy.leaves.spent⟩
    exact leaves.set _ (Or.inl ⟨p, isProc, by rw [hand_called]; rfl⟩)
  · obtain ⟨isOwned, isMarked⟩ := tidy.left u q r isProc' isLeft
    refine ⟨isOwned, tidy.kept laws isProc isCode done ?_ (tidy.holds isProc' isOwned) isMarked⟩
    exact fun mine => other (tidy.apart isProc' isProc isOwned mine)
  · rintro q ⟨⟩ r isLeft
    rw [owned]
    rw [hand_called] at isLeft
    exact tidy.left_called laws isProc isCode done isLeft
  · refine tidy.kept laws isProc isCode done (fun mine => ?_)
      ((tidy.parted.held r).mpr (Or.inr (Or.inl isLost))) (tidy.marked r isLost)
    exact (tidy.parted.fresh t r (by rwa [ownedAt_some isProc])).2 isLost

/-- A program passes what it owns to the one that it starts. -/
theorem Tidy.spawn {p : Proc C A L S} {u : τ} {child : L} {next : Prog C A L S}
    (tidy : d.Tidy held marked before few n lost) (isProc : n.proc t = some p)
    (isCode : p.code = .spawn child next) (fresh : n.proc u = none)
    (meets : Meets d.spec
      ((n.set t (some (p.spawned child next))).set u (some (Proc.start child)))) :
    d.Tidy held marked before few
      ((n.set t (some (p.spawned child next))).set u (some (Proc.start child))) lost := by
  have valid := tidy.meets t p isProc
  rw [isCode] at valid
  obtain ⟨⟨passes, -, isFew, isLeft⟩, -⟩ := valid
  have nodup := tidy.nodup t p isProc
  have other : u ≠ t := by
    rintro rfl
    rw [isProc] at fresh
    cases fresh
  have owned := d.owned_spawned p child next
  refine
    { meets
      nodup := nodup_set (nodup_set tidy.nodup ?_) ?_
      parted := ?_
      card := tidy.card
      leaves := ?_
      left := left_set (fun v q r _ => left_set (fun v q r _ => tidy.left v q r) ?_ v q r) ?_
      marked := tidy.marked }
  · rintro q ⟨⟩
    rw [owned]
    exact Multiset.nodup_of_le (Multiset.sub_le_self _ _) nodup
  · rintro q ⟨⟩
    exact Multiset.nodup_of_le passes nodup
  · have sets : {r | r ∈ d.owned (p.spawned child next)} =
        d.ownedAt n t \ {r | r ∈ (d.account child).own} := by
      ext r
      rw [ownedAt_some isProc, owned]
      simp [Multiset.mem_sub_of_nodup nodup]
    rw [ownedAt_set, ownedAt_set, Option.elim_some, Option.elim_some, sets]
    refine tidy.parted.pass ?_ ?_ other
    · rw [ownedAt_some isProc]
      exact fun r member => Multiset.mem_of_le passes member
    · simp [ownedAt, fresh]
  · have leaves := tidy.leaves.set (p.spawned child next)
      (Or.inl ⟨p, isProc, by rw [hand_spawned]; rfl⟩)
    exact leaves.set _ (Or.inr isFew)
  · rintro q ⟨⟩ r isLeft
    rw [hand_spawned] at isLeft
    rw [owned]
    exact ⟨isLeft.2, (tidy.left t p r isProc isLeft.1).2⟩
  · rintro q ⟨⟩ r member
    change r ∈ (d.account child).left at member
    rw [isLeft] at member
    cases member

/-- A program ends, and what it leaves is marked. -/
theorem Tidy.ret {p : Proc C A L S} (tidy : d.Tidy held marked before few n lost)
    (isProc : n.proc t = some p) (isCode : p.code = .ret) (meets : Meets d.spec (n.set t none)) :
    d.Tidy held marked before few (n.set t none) (lost + d.owned p) := by
  have valid := tidy.meets t p isProc
  rw [isCode] at valid
  obtain ⟨leaves, card⟩ := tidy.leaves.ret isProc valid.1 tidy.card
  refine
    { meets
      nodup := nodup_set tidy.nodup (by rintro q ⟨⟩)
      parted := ?_
      card
      leaves
      left := left_set (fun u q r _ => tidy.left u q r) (by rintro q ⟨⟩)
      marked := fun r isLost => ?_ }
  · have sets : {r | r ∈ lost + d.owned p} = {r | r ∈ lost} ∪ d.ownedAt n t := by
      ext r
      rw [ownedAt_some isProc]
      simp
    rw [ownedAt_set, Option.elim_none, sets]
    exact tidy.parted.lose
  · rcases Multiset.mem_add.mp isLost with wasLost | isOwned
    · exact tidy.marked r wasLost
    · exact (tidy.left t p r isProc (valid.2 r isOwned)).2

/-- One step of a program. -/
theorem Tidy.step (tidy : d.Tidy held marked before few n lost) (sound : d.spec.Sound code)
    (laws : d.Laws does held marked) (stepped : Step code does n n') :
    ∃ lost', d.Tidy held marked before few n' lost' := by
  have meets := tidy.meets.step sound laws.possible stepped
  obtain ⟨t, moves⟩ := stepped
  cases moves with
  | @goto p l isProc isCode =>
      refine ⟨lost, meets, nodup_set tidy.nodup ?_, ?_, tidy.card,
        tidy.leaves.set _ (Or.inl ⟨p, isProc, rfl⟩), left_set (fun u q r _ => tidy.left u q r) ?_,
        tidy.marked⟩
      · rintro q ⟨⟩
        exact tidy.nodup t p isProc
      · have same : update (d.ownedAt n) t {r | r ∈ d.owned { p with code := code l }} =
            d.ownedAt n := Function.update_eq_self_iff.mpr (ownedAt_some isProc).symm
        rw [ownedAt_set, Option.elim_some, same]
        exact tidy.parted
      · rintro q ⟨⟩ r
        exact tidy.left t p r isProc
  | call isProc isCode done => exact ⟨lost, tidy.call laws isProc isCode done meets⟩
  | spawn isProc isCode fresh => exact ⟨lost, tidy.spawn isProc isCode fresh meets⟩
  | ret isProc isCode => exact ⟨_, tidy.ret isProc isCode meets⟩

/-- The first program owns nothing. -/
theorem start_tidy {w : W} {l : L}
    (meets : Meets d.spec (Net.start w t l : Net τ W C A L S)) (nothing : (d.account l).own = 0)
    (noLeft : (d.account l).left = ∅) :
    d.Tidy held marked {r | held w r} (d.account l).few (Net.start w t l : Net τ W C A L S) 0 := by
  have ownsNothing : d.owned (Proc.start l : Proc C A L S) = 0 := nothing
  have nobody (u : τ) : d.ownedAt (Net.start w t l : Net τ W C A L S) u = ∅ := by
    cases isProc : (Net.start w t l : Net τ W C A L S).proc u with
    | none => simp [ownedAt, isProc]
    | some p =>
        obtain ⟨-, rfl⟩ := Net.proc_start isProc
        rw [ownedAt_some isProc, ownsNothing]
        exact Set.eq_empty_of_forall_notMem Multiset.notMem_zero
  refine ⟨meets, ?_, ⟨?_, ?_, ?_⟩, by simp, ⟨?_, ?_, ?_⟩, ?_, by simp⟩
  · intro u p isProc
    obtain ⟨-, rfl⟩ := Net.proc_start isProc
    rw [ownsNothing]
    exact Multiset.nodup_zero
  · intro r
    change held w r ↔ _
    simp [nobody]
  · intro u v r member
    simp [nobody] at member
  · intro u r member
    simp [nobody] at member
  · intro u v p q isProc isProc' _ _
    rw [(Net.proc_start isProc).1, (Net.proc_start isProc').1]
  · intro u p isProc
    obtain ⟨-, rfl⟩ := Net.proc_start isProc
    exact le_rfl
  · exact fun isLost => absurd rfl isLost
  · intro u p r isProc member
    obtain ⟨-, rfl⟩ := Net.proc_start isProc
    change r ∈ (d.account l).left at member
    rw [noLeft] at member
    cases member

/-- In any order of the steps, what is held has one owner each. -/
theorem reaches_tidy {w : W} {l : L}
    (reaches : Reaches code does (Net.start w t l) n) (sound : d.spec.Sound code)
    (laws : d.Laws does held marked) (nothing : (d.account l).own = 0)
    (noLeft : (d.account l).left = ∅) :
    ∃ lost, d.Tidy held marked {r | held w r} (d.account l).few n lost := by
  refine Reaches.invariant
    (fun n => ∃ lost, d.Tidy held marked {r | held w r} (d.account l).few n lost) reaches
    ⟨0, start_tidy (Reaches.meets .refl sound laws.possible (.refl _)) nothing noLeft⟩ ?_
  intro n n' ⟨lost, tidy⟩ stepped
  exact tidy.step sound laws stepped

/-! ## Rights -/

/-- Each right is with one program. -/
structure Exclusive (n : Net τ W C A L S) : Prop where
  nodup : ∀ t p, n.proc t = some p → (d.rights p).Nodup
  apart : ∀ t u p q r, n.proc t = some p → n.proc u = some q → r ∈ d.rights p →
    r ∈ d.rights q → t = u

/-- Nothing is gained that a program still has the right to. -/
def Fresh (held : W → R → Prop) (n n' : Net τ W C A L S) : Prop :=
  ∀ t p r, n.proc t = some p → r ∈ d.rights p → held n'.world r → held n.world r

/-- What a call gains, nobody has the right to. -/
theorem Fresh.gained {c : C} {a : A} {w : W} {q : Option (Proc C A L S)}
    (fresh : d.Fresh held n ({ n with world := w }.set t q)) (laws : d.Laws does held marked)
    (done : does n.world c a = some w) {r : R} (isGained : d.gains c a = some r) {u : τ}
    {p : Proc C A L S} (isProc : n.proc u = some p) : r ∉ d.rights p := fun member =>
  laws.fresh _ _ _ _ r done isGained
    (fresh u p r isProc member ((laws.after _ _ _ _ done r).mpr (Or.inr isGained)))

/-- The program at `t` has new rights that nobody else has. -/
theorem Exclusive.set (exclusive : d.Exclusive n) {p : Proc C A L S}
    (nodup : (d.rights p).Nodup)
    (others : ∀ u q r, u ≠ t → n.proc u = some q → r ∈ d.rights p →
      r ∉ d.rights q) : d.Exclusive (n.set t (some p)) := by
  refine ⟨fun u q isProc => ?_, fun u v q q' r isProc isProc' member member' => ?_⟩
  · rcases Net.proc_set isProc with ⟨-, ⟨⟩⟩ | ⟨-, isProc⟩
    · exact nodup
    · exact exclusive.nodup u q isProc
  · rcases Net.proc_set isProc with ⟨rfl, ⟨⟩⟩ | ⟨other, was⟩ <;>
      rcases Net.proc_set isProc' with ⟨rfl, ⟨⟩⟩ | ⟨other', was'⟩
    · rfl
    · exact absurd member' (others v q' r other' was' member)
    · exact absurd member (others u q r other was member')
    · exact exclusive.apart u v q q' r was was' member member'

/-- A call gains a right that nobody has. -/
theorem Exclusive.call {p : Proc C A L S} {c : C} {a : A} {next : A → Prog C A L S} {w : W}
    (exclusive : d.Exclusive n) (laws : d.Laws does held marked) (isProc : n.proc t = some p)
    (done : does n.world c a = some w)
    (fresh : d.Fresh held n ({ n with world := w }.set t (some (p.called c a next)))) :
    d.Exclusive ({ n with world := w }.set t (some (p.called c a next))) := by
  have nodup := exclusive.nodup t p isProc
  have exclusive : d.Exclusive { n with world := w } := ⟨exclusive.nodup, exclusive.apart⟩
  refine exclusive.set ?_ fun u q r other isProc' member => ?_
  · rw [rights_called]
    exact d.nodup_after nodup fun r isGained => fresh.gained laws done isGained isProc
  · rw [rights_called] at member
    rcases (d.mem_after_of_nodup nodup).mp member with ⟨wasMine, -⟩ | isGained
    · exact fun theirs => other (exclusive.apart u t q p r isProc' isProc theirs wasMine)
    · exact fresh.gained laws done isGained isProc'

/-- A program passes rights to the one that it starts. -/
theorem Exclusive.spawn {p : Proc C A L S} {u : τ} {child : L} {next : Prog C A L S}
    (exclusive : d.Exclusive n) (meets : Meets d.spec n) (isProc : n.proc t = some p)
    (isCode : p.code = .spawn child next) :
    d.Exclusive ((n.set t (some (p.spawned child next))).set u (some (Proc.start child))) := by
  have valid := meets t p isProc
  rw [isCode] at valid
  have passes : (d.account child).rights ≤ d.rights p := valid.1.2.1
  have nodup := exclusive.nodup t p isProc
  have rights := d.rights_spawned p child next
  have less {r : R} (member : r ∈ d.rights (p.spawned child next)) :
      r ∈ d.rights p ∧ r ∉ (d.account child).rights := by
    rwa [rights, Multiset.mem_sub_of_nodup nodup] at member
  have giver : d.Exclusive (n.set t (some (p.spawned child next))) := by
    refine exclusive.set ?_ fun v q r other isProc' member theirs => ?_
    · rw [rights]
      exact Multiset.nodup_of_le (Multiset.sub_le_self _ _) nodup
    · exact other (exclusive.apart v t q p r isProc' isProc theirs (less member).1)
  refine giver.set (Multiset.nodup_of_le passes nodup) fun v q r other isProc' member theirs => ?_
  rcases Net.proc_set isProc' with ⟨-, ⟨⟩⟩ | ⟨notGiver, isProc'⟩
  · exact (less theirs).2 member
  · exact notGiver
      (exclusive.apart v t q p r isProc' isProc theirs (Multiset.mem_of_le passes member))

theorem start_exclusive {w : W} {l : L} (nodup : (d.account l).rights.Nodup) :
    d.Exclusive (Net.start w t l : Net τ W C A L S) := by
  refine ⟨fun u p isProc => ?_, fun u v p q r isProc isProc' _ _ => ?_⟩
  · obtain ⟨-, rfl⟩ := Net.proc_start isProc
    exact nodup
  · rw [(Net.proc_start isProc).1, (Net.proc_start isProc').1]

/-- One step that gains nothing that a program still has the right to. -/
theorem Exclusive.step (exclusive : d.Exclusive n) (meets : Meets d.spec n)
    (laws : d.Laws does held marked) (stepped : Step code does n n') (fresh : d.Fresh held n n') :
    d.Exclusive n' := by
  obtain ⟨t, moves⟩ := stepped
  cases moves with
  | @goto p l isProc isCode =>
      exact exclusive.set (exclusive.nodup t p isProc) fun u q r other isProc' mine theirs =>
        other (exclusive.apart u t q p r isProc' isProc theirs mine)
  | call isProc isCode done => exact exclusive.call laws isProc done fresh
  | spawn isProc isCode isNew => exact exclusive.spawn meets isProc isCode
  | ret isProc isCode =>
      have others {u : τ} {q : Proc C A L S} (isProc : (n.set t none).proc u = some q) :
          n.proc u = some q := by
        rcases Net.proc_set isProc with ⟨-, ⟨⟩⟩ | ⟨-, isProc⟩
        exact isProc
      exact ⟨fun u q isProc => exclusive.nodup u q (others isProc), fun u v q q' r isProc isProc' =>
        exclusive.apart u v q q' r (others isProc) (others isProc')⟩

end Discipline

end Ownership
