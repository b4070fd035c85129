import Mathlib.Logic.Function.Basic
import Mathlib.Data.List.Basic
import Mathlib.Data.List.Induction
import Mathlib.Data.List.Nodup

/-!
# Intrusive doubly linked lists

Any number of lists share one pair of link fields per node.  The link level is
the pointer surgery itself; the sequence level says which nodes each list holds,
and in which order.  `Dlists` carries both together with the proof that they
agree, so a value of it is a well-formed family of pairwise disjoint lists.
-/

namespace Dlist

variable {ν ι : Type} [DecidableEq ν] [DecidableEq ι]

open Function (update update_of_ne)

/-- Link fields of every node and the two ends of every list. -/
structure Links (ν ι : Type) where
  next : ν → Option ν
  prev : ν → Option ν
  head : ι → Option ν
  tail : ι → Option ν

/-- The nodes of a segment are chained in order in both directions, between the
neighbours `before` and `after`. -/
def Segment (next prev : ν → Option ν) :
    Option ν → List ν → Option ν → Prop
  | _, [], _ => True
  | before, x :: xs, after =>
      prev x = before ∧ next x = xs.head?.or after ∧
        Segment next prev (some x) xs after

/-! ## Segments -/

omit [DecidableEq ν] in
theorem segment_append (next prev : ν → Option ν) (before after : Option ν)
    (left right : List ν) :
    Segment next prev before (left ++ right) after ↔
      Segment next prev before left (right.head?.or after) ∧
        Segment next prev (left.getLast?.or before) right after := by
  induction left generalizing before with
  | nil => simp [Segment]
  | cons x left ih =>
      simp only [List.cons_append, Segment, ih]
      cases left with
      | nil => simp [Segment, and_assoc]
      | cons y left => simp [and_assoc, List.getLast?_cons]

omit [DecidableEq ν] in
/-- A segment depends on the link fields of its own nodes only. -/
theorem Segment.congr {next prev next' prev' : ν → Option ν}
    {before after : Option ν} {nodes : List ν}
    (segment : Segment next prev before nodes after)
    (nextSame : ∀ x ∈ nodes, next' x = next x)
    (prevSame : ∀ x ∈ nodes, prev' x = prev x) :
    Segment next' prev' before nodes after := by
  induction nodes generalizing before with
  | nil => trivial
  | cons x nodes ih =>
      obtain ⟨prevEq, nextEq, rest⟩ := segment
      refine ⟨?_, ?_, ?_⟩
      · rw [prevSame x (by simp), prevEq]
      · rw [nextSame x (by simp), nextEq]
      · exact ih rest (fun y member => nextSame y (by simp [member]))
          (fun y member => prevSame y (by simp [member]))

omit [DecidableEq ν] in
/-- Redirecting the `next` field of the last node changes what follows the
segment. -/
theorem Segment.changeNext {next prev next' prev' : ν → Option ν}
    {before after after' : Option ν} {nodes : List ν}
    (segment : Segment next prev before nodes after) (nodup : nodes.Nodup)
    (nextLast : ∀ x, nodes.getLast? = some x → next' x = after')
    (nextSame : ∀ x ∈ nodes, nodes.getLast? ≠ some x → next' x = next x)
    (prevSame : ∀ x ∈ nodes, prev' x = prev x) :
    Segment next' prev' before nodes after' := by
  rcases List.eq_nil_or_concat nodes with rfl | ⟨front, last, rfl⟩
  · trivial
  · rw [List.concat_eq_append] at *
    rw [segment_append] at segment ⊢
    obtain ⟨frontSegment, lastSegment⟩ := segment
    have lastFresh : last ∉ front := by
      intro member
      exact (List.nodup_append.mp nodup).2.2 last member last (by simp) rfl
    constructor
    · apply frontSegment.congr
      · intro x member
        apply nextSame x (by simp [member])
        rintro equal
        simp only [List.getLast?_concat, Option.some.injEq] at equal
        exact lastFresh (equal ▸ member)
      · exact fun x member => prevSame x (by simp [member])
    · simp only [Segment] at lastSegment ⊢
      refine ⟨?_, ?_, trivial⟩
      · rw [prevSame last (by simp), lastSegment.1]
      · rw [nextLast last (by simp)]
        rfl

omit [DecidableEq ν] in
/-- Redirecting the `prev` field of the first node changes what precedes the
segment. -/
theorem Segment.changePrev {next prev next' prev' : ν → Option ν}
    {before before' after : Option ν} {nodes : List ν}
    (segment : Segment next prev before nodes after) (nodup : nodes.Nodup)
    (prevFirst : ∀ x, nodes.head? = some x → prev' x = before')
    (prevSame : ∀ x ∈ nodes, nodes.head? ≠ some x → prev' x = prev x)
    (nextSame : ∀ x ∈ nodes, next' x = next x) :
    Segment next' prev' before' nodes after := by
  cases nodes with
  | nil => trivial
  | cons x rest =>
      obtain ⟨-, nextEq, restSegment⟩ := segment
      refine ⟨prevFirst x rfl, ?_, restSegment.congr ?_ ?_⟩
      · rw [nextSame x (by simp), nextEq]
      · exact fun y member => nextSame y (by simp [member])
      · intro y member
        apply prevSame y (by simp [member])
        intro equal
        simp only [List.head?_cons, Option.some.injEq] at equal
        exact (List.nodup_cons.mp nodup).1 (equal ▸ member)

namespace Links

/-- `links` holds exactly the nodes `nodes` in list `l`, in this order. -/
def Linked (links : Links ν ι) (l : ι) (nodes : List ν) : Prop :=
  links.head l = nodes.head? ∧ links.tail l = nodes.getLast? ∧
    Segment links.next links.prev none nodes none

/-! ## The operations -/

/-- Append `t` behind the tail of `l`. -/
def pushBack (links : Links ν ι) (l : ι) (t : ν) : Links ν ι :=
  match links.tail l with
  | some last =>
      { next := update (update links.next last (some t)) t none
        prev := update links.prev t (some last)
        head := links.head
        tail := update links.tail l (some t) }
  | none =>
      { next := update links.next t none
        prev := update links.prev t none
        head := update links.head l (some t)
        tail := update links.tail l (some t) }

/-- Make the two neighbours of `t` skip it, or move the ends of `l`. -/
def unlink (links : Links ν ι) (l : ι) (t : ν) : Links ν ι :=
  let links := match links.prev t with
    | some p => { links with next := update links.next p (links.next t) }
    | none => { links with head := update links.head l (links.next t) }
  match links.next t with
  | some n => { links with prev := update links.prev n (links.prev t) }
  | none => { links with tail := update links.tail l (links.prev t) }

/-- Put `t` into `l` in front of `position`, or behind the tail for `none`. -/
def insertBefore (links : Links ν ι) (l : ι) (t : ν) (position : Option ν) :
    Links ν ι :=
  let links := match position with
    | some u =>
        { links with
          prev := update links.prev t (links.prev u)
          next := update links.next t (some u) }
    | none =>
        { links with
          prev := update links.prev t (links.tail l)
          next := update links.next t none }
  let links := match links.prev t with
    | some p => { links with next := update links.next p (some t) }
    | none => { links with head := update links.head l (some t) }
  match links.next t with
  | some n => { links with prev := update links.prev n (some t) }
  | none => { links with tail := update links.tail l (some t) }

/-- Clear the link fields of `t`. -/
def clear (links : Links ν ι) (t : ν) : Links ν ι :=
  { links with next := update links.next t none, prev := update links.prev t none }

/-- The node that `insertBefore` finds in front of `position`. -/
def predecessor (links : Links ν ι) (l : ι) : Option ν → Option ν
  | some u => links.prev u
  | none => links.tail l

/-- Put `t` into `l` between the neighbours `before` and `after`. -/
def splice (links : Links ν ι) (l : ι) (t : ν) (before after : Option ν) : Links ν ι where
  next := match before with
    | some p => update (update links.next t after) p (some t)
    | none => update links.next t after
  prev := match after with
    | some u => update (update links.prev t before) u (some t)
    | none => update links.prev t before
  head := match before with
    | some _ => links.head
    | none => update links.head l (some t)
  tail := match after with
    | some _ => links.tail
    | none => update links.tail l (some t)

section

variable {links : Links ν ι} {l : ι} {t x : ν} {before after : Option ν}

theorem splice_next_of_ne (other : x ≠ t) (notBefore : before ≠ some x) :
    (links.splice l t before after).next x = links.next x := by
  cases before with
  | none => simp [splice, update_of_ne other]
  | some p =>
      have different : x ≠ p := fun equal => notBefore (by rw [equal])
      simp [splice, update_of_ne different, update_of_ne other]

theorem splice_prev_of_ne (other : x ≠ t) (notAfter : after ≠ some x) :
    (links.splice l t before after).prev x = links.prev x := by
  cases after with
  | none => simp [splice, update_of_ne other]
  | some u =>
      have different : x ≠ u := fun equal => notAfter (by rw [equal])
      simp [splice, update_of_ne different, update_of_ne other]

theorem splice_next_new (notBefore : before ≠ some t) :
    (links.splice l t before after).next t = after := by
  cases before with
  | none => simp [splice]
  | some p =>
      have different : t ≠ p := fun equal => notBefore (by rw [equal])
      simp [splice, update_of_ne different]

theorem splice_prev_new (notAfter : after ≠ some t) :
    (links.splice l t before after).prev t = before := by
  cases after with
  | none => simp [splice]
  | some u =>
      have different : t ≠ u := fun equal => notAfter (by rw [equal])
      simp [splice, update_of_ne different]

end

theorem insertBefore_eq_splice (links : Links ν ι) (l : ι) (t : ν) (position : Option ν)
    (apart : links.predecessor l position ≠ some t) :
    links.insertBefore l t position =
      links.splice l t (links.predecessor l position) position := by
  cases position with
  | none =>
      simp only [predecessor] at apart ⊢
      cases tailEq : links.tail l with
      | none => simp [insertBefore, splice, tailEq]
      | some p =>
          have different : t ≠ p := fun equal => apart (by rw [tailEq, equal])
          simp [insertBefore, splice, tailEq, update_of_ne different]
  | some u =>
      simp only [predecessor] at apart ⊢
      cases prevEq : links.prev u with
      | none => simp [insertBefore, splice, prevEq]
      | some p =>
          have different : t ≠ p := fun equal => apart (by rw [prevEq, equal])
          simp [insertBefore, splice, prevEq, update_of_ne different]

theorem pushBack_eq_splice (links : Links ν ι) (l : ι) (t : ν)
    (apart : links.tail l ≠ some t) :
    links.pushBack l t = links.splice l t (links.tail l) none := by
  cases tailEq : links.tail l with
  | none => simp [pushBack, splice, tailEq]
  | some p =>
      have different : t ≠ p := fun equal => apart (by rw [tailEq, equal])
      simp [pushBack, splice, tailEq, Function.update_comm different]

omit [DecidableEq ν] [DecidableEq ι] in
theorem Linked.predecessor_eq {links : Links ν ι} {l : ι} {left right : List ν}
    (linked : links.Linked l (left ++ right)) :
    links.predecessor l right.head? = left.getLast? := by
  obtain ⟨-, tailEq, segment⟩ := linked
  rw [segment_append] at segment
  cases right with
  | nil => simpa [predecessor] using tailEq
  | cons u right => simpa [predecessor] using segment.2.1

theorem Linked.splice {links : Links ν ι} {l : ι} {left right : List ν} {t : ν}
    (linked : links.Linked l (left ++ right)) (nodup : (left ++ right).Nodup)
    (fresh : t ∉ left ++ right) :
    (links.splice l t left.getLast? right.head?).Linked l (left ++ t :: right) := by
  obtain ⟨headEq, tailEq, segment⟩ := linked
  rw [segment_append] at segment
  obtain ⟨leftSegment, rightSegment⟩ := segment
  obtain ⟨leftNodup, rightNodup, apart⟩ := List.nodup_append.mp nodup
  have leftFresh : ∀ x ∈ left, x ≠ t := by
    rintro x member rfl
    exact fresh (by simp [member])
  have rightFresh : ∀ x ∈ right, x ≠ t := by
    rintro x member rfl
    exact fresh (by simp [member])
  refine ⟨?_, ?_, ?_⟩
  · cases left with
    | nil => simp [Links.splice]
    | cons x left => simp [Links.splice, List.getLast?_cons, headEq]
  · cases right with
    | nil => simp [Links.splice]
    | cons x right => simp [Links.splice, List.getLast?_cons, tailEq, List.getLast?_append]
  · rw [segment_append]
    refine ⟨?_, ?_, ?_, ?_⟩
    · apply leftSegment.changeNext leftNodup
      · intro x isLast
        simp [Links.splice, isLast]
      · exact fun x member notLast => Links.splice_next_of_ne (leftFresh x member) notLast
      · intro x member
        apply Links.splice_prev_of_ne (leftFresh x member)
        exact fun isFirst => apart x member x (List.mem_of_mem_head? isFirst) rfl
    · have notFirst : right.head? ≠ some t :=
        fun isFirst => rightFresh t (List.mem_of_mem_head? isFirst) rfl
      rw [Links.splice_prev_new notFirst, Option.or_none]
    · have notLast : left.getLast? ≠ some t :=
        fun isLast => leftFresh t (List.mem_of_getLast? isLast) rfl
      rw [Links.splice_next_new notLast, Option.or_none]
    · apply rightSegment.changePrev rightNodup
      · intro x isFirst
        simp [Links.splice, isFirst]
      · exact fun x member notFirst => Links.splice_prev_of_ne (rightFresh x member) notFirst
      · intro x member
        apply Links.splice_next_of_ne (rightFresh x member)
        exact fun isLast => apart x (List.mem_of_getLast? isLast) x member rfl

/-- Splicing into one list leaves every list without the touched nodes alone. -/
theorem Linked.splice_other {links : Links ν ι} {l other : ι} {t : ν}
    {before after : Option ν} {nodes : List ν}
    (linked : links.Linked other nodes) (different : other ≠ l) (fresh : t ∉ nodes)
    (beforeOut : ∀ p, before = some p → p ∉ nodes)
    (afterOut : ∀ u, after = some u → u ∉ nodes) :
    (links.splice l t before after).Linked other nodes := by
  obtain ⟨headEq, tailEq, segment⟩ := linked
  have apart : ∀ x ∈ nodes, x ≠ t := fun x member equal => fresh (equal ▸ member)
  refine ⟨?_, ?_, segment.congr ?_ ?_⟩
  · cases before <;> simp [Links.splice, headEq, update_of_ne different]
  · cases after <;> simp [Links.splice, tailEq, update_of_ne different]
  · exact fun x member =>
      Links.splice_next_of_ne (apart x member) fun isBefore => beforeOut x isBefore member
  · exact fun x member =>
      Links.splice_prev_of_ne (apart x member) fun isAfter => afterOut x isAfter member

/-- Join the neighbours `before` and `after` of a node that leaves `l`. -/
def bypass (links : Links ν ι) (l : ι) (before after : Option ν) : Links ν ι where
  next := match before with
    | some p => update links.next p after
    | none => links.next
  prev := match after with
    | some n => update links.prev n before
    | none => links.prev
  head := match before with
    | some _ => links.head
    | none => update links.head l after
  tail := match after with
    | some _ => links.tail
    | none => update links.tail l before

section

variable {links : Links ν ι} {l : ι} {x : ν} {before after : Option ν}

theorem bypass_next_of_ne (notBefore : before ≠ some x) :
    (links.bypass l before after).next x = links.next x := by
  cases before with
  | none => rfl
  | some p =>
      have different : x ≠ p := fun equal => notBefore (by rw [equal])
      simp [bypass, update_of_ne different]

theorem bypass_prev_of_ne (notAfter : after ≠ some x) :
    (links.bypass l before after).prev x = links.prev x := by
  cases after with
  | none => rfl
  | some u =>
      have different : x ≠ u := fun equal => notAfter (by rw [equal])
      simp [bypass, update_of_ne different]

end

theorem unlink_eq_bypass (links : Links ν ι) (l : ι) (t : ν)
    (apart : links.prev t ≠ some t) :
    links.unlink l t = links.bypass l (links.prev t) (links.next t) := by
  cases prevEq : links.prev t with
  | none => cases nextEq : links.next t <;> simp [unlink, bypass, prevEq, nextEq]
  | some p =>
      have different : t ≠ p := fun equal => apart (by rw [prevEq, equal])
      cases nextEq : links.next t <;>
        simp [unlink, bypass, prevEq, nextEq, update_of_ne different]

omit [DecidableEq ν] [DecidableEq ι] in
/-- The link fields of a listed node name its neighbours in the list. -/
theorem Linked.neighbours {links : Links ν ι} {l : ι} {left right : List ν} {t : ν}
    (linked : links.Linked l (left ++ t :: right)) :
    links.prev t = left.getLast? ∧ links.next t = right.head? := by
  have segment := linked.2.2
  rw [segment_append] at segment
  obtain ⟨-, prevEq, nextEq, -⟩ := segment
  exact ⟨by simpa using prevEq, by simpa using nextEq⟩

theorem Linked.bypass {links : Links ν ι} {l : ι} {left right : List ν} {t : ν}
    (linked : links.Linked l (left ++ t :: right)) (nodup : (left ++ t :: right).Nodup) :
    (links.bypass l left.getLast? right.head?).Linked l (left ++ right) := by
  obtain ⟨headEq, tailEq, segment⟩ := linked
  rw [segment_append] at segment
  obtain ⟨leftSegment, -, -, rightSegment⟩ := segment
  obtain ⟨leftNodup, restNodup, apart⟩ := List.nodup_append.mp nodup
  have rightNodup := (List.nodup_cons.mp restNodup).2
  have apart : ∀ x ∈ left, ∀ y ∈ right, x ≠ y :=
    fun x xIn y yIn => apart x xIn y (by simp [yIn])
  refine ⟨?_, ?_, ?_⟩
  · cases left with
    | nil => simp [Links.bypass]
    | cons x left => simpa [Links.bypass, List.getLast?_cons] using headEq
  · cases right with
    | nil => simp [Links.bypass]
    | cons x right => simpa [Links.bypass, List.getLast?_cons, List.getLast?_append] using tailEq
  · rw [segment_append]
    constructor
    · apply leftSegment.changeNext leftNodup
      · intro x isLast
        simp [Links.bypass, isLast]
      · exact fun x member notLast => Links.bypass_next_of_ne notLast
      · intro x member
        apply Links.bypass_prev_of_ne
        exact fun isFirst => apart x member x (List.mem_of_mem_head? isFirst) rfl
    · apply rightSegment.changePrev rightNodup
      · intro x isFirst
        simp [Links.bypass, isFirst]
      · exact fun x member notFirst => Links.bypass_prev_of_ne notFirst
      · intro x member
        apply Links.bypass_next_of_ne
        exact fun isLast => apart x (List.mem_of_getLast? isLast) x member rfl

/-- Removing a node from one list leaves every list without its neighbours
alone. -/
theorem Linked.bypass_other {links : Links ν ι} {l other : ι}
    {before after : Option ν} {nodes : List ν}
    (linked : links.Linked other nodes) (different : other ≠ l)
    (beforeOut : ∀ p, before = some p → p ∉ nodes)
    (afterOut : ∀ u, after = some u → u ∉ nodes) :
    (links.bypass l before after).Linked other nodes := by
  obtain ⟨headEq, tailEq, segment⟩ := linked
  refine ⟨?_, ?_, segment.congr ?_ ?_⟩
  · cases before <;> simp [Links.bypass, headEq, update_of_ne different]
  · cases after <;> simp [Links.bypass, tailEq, update_of_ne different]
  · exact fun x member =>
      Links.bypass_next_of_ne fun isBefore => beforeOut x isBefore member
  · exact fun x member =>
      Links.bypass_prev_of_ne fun isAfter => afterOut x isAfter member

/-- Store any values in the link fields of `t`. -/
def overwrite (links : Links ν ι) (t : ν) (next prev : Option ν) : Links ν ι :=
  { links with next := update links.next t next, prev := update links.prev t prev }

omit [DecidableEq ι] in
/-- The link fields of a node in no list do not matter. -/
theorem Linked.overwrite {links : Links ν ι} {l : ι} {nodes : List ν} {t : ν}
    {next prev : Option ν} (linked : links.Linked l nodes) (fresh : t ∉ nodes) :
    (links.overwrite t next prev).Linked l nodes := by
  obtain ⟨headEq, tailEq, segment⟩ := linked
  refine ⟨headEq, tailEq, segment.congr ?_ ?_⟩ <;>
    exact fun x member => update_of_ne (ne_of_mem_of_not_mem member fresh) _ _

omit [DecidableEq ι] in
/-- Clearing a node in no list changes no list. -/
theorem Linked.clear {links : Links ν ι} {l : ι} {nodes : List ν} {t : ν}
    (linked : links.Linked l nodes) (fresh : t ∉ nodes) :
    (links.clear t).Linked l nodes :=
  linked.overwrite fresh

end Links

/-! ## Walks -/

/-- Following `next` from a node visits `nodes`, in this order, and then ends. -/
inductive Walk (next : ν → Option ν) : Option ν → List ν → Prop where
  | nil : Walk next none []
  | cons {x : ν} {nodes : List ν} (rest : Walk next (next x) nodes) :
      Walk next (some x) (x :: nodes)

omit [DecidableEq ν] in
/-- There is one walk from each node. -/
theorem Walk.unique {next : ν → Option ν} {start : Option ν} {nodes nodes' : List ν}
    (walk : Walk next start nodes) (walk' : Walk next start nodes') : nodes = nodes' := by
  induction walk generalizing nodes' with
  | nil =>
      cases walk'
      rfl
  | cons rest ih =>
      cases walk' with
      | cons rest' => rw [ih rest']

omit [DecidableEq ν] in
theorem Segment.walk_next {next prev : ν → Option ν} {before : Option ν} {nodes : List ν}
    (segment : Segment next prev before nodes none) : Walk next nodes.head? nodes := by
  induction nodes generalizing before with
  | nil => exact .nil
  | cons x nodes ih =>
      obtain ⟨-, nextEq, rest⟩ := segment
      refine .cons ?_
      rw [nextEq, Option.or_none]
      exact ih rest

omit [DecidableEq ν] in
theorem Segment.walk_prev {next prev : ν → Option ν} {after : Option ν} {nodes : List ν}
    (segment : Segment next prev none nodes after) :
    Walk prev nodes.getLast? nodes.reverse := by
  induction nodes using List.reverseRecOn generalizing after with
  | nil => exact .nil
  | append_singleton nodes x ih =>
      rw [segment_append] at segment
      obtain ⟨front, prevEq, -⟩ := segment
      rw [List.getLast?_concat, List.reverse_append]
      refine .cons ?_
      rw [prevEq, Option.or_none]
      exact ih front

omit [DecidableEq ν] [DecidableEq ι] in
/-- Both walks through a list visit its nodes. -/
theorem Links.Linked.walks {links : Links ν ι} {l : ι} {nodes : List ν}
    (linked : links.Linked l nodes) : Walk links.next (links.head l) nodes ∧
      Walk links.prev (links.tail l) nodes.reverse := by
  obtain ⟨headEq, tailEq, segment⟩ := linked
  rw [headEq, tailEq]
  exact ⟨segment.walk_next, segment.walk_prev⟩

omit [DecidableEq ν] [DecidableEq ι] in
/-- Nothing stands in front of the head. -/
theorem Links.Linked.prev_head {links : Links ν ι} {l : ι} {nodes : List ν} {t : ν}
    (linked : links.Linked l nodes) (isHead : links.head l = some t) :
    links.prev t = none := by
  cases nodes with
  | nil => cases linked.1.symm.trans isHead
  | cons x nodes =>
      obtain rfl : x = t := Option.some.inj (linked.1.symm.trans isHead)
      exact linked.2.2.1

omit [DecidableEq ν] [DecidableEq ι] in
/-- Nothing stands behind the tail. -/
theorem Links.Linked.next_tail {links : Links ν ι} {l : ι} {nodes : List ν} {t : ν}
    (linked : links.Linked l nodes) (isTail : links.tail l = some t) :
    links.next t = none := by
  have last : nodes.getLast? = some t := linked.2.1.symm.trans isTail
  obtain ⟨front, rfl⟩ := List.getLast?_eq_some_iff.mp last
  exact linked.neighbours.2

/-! ## Families of disjoint lists -/

/-- The sequence-level insertion of `t` in front of `position`, or at the end. -/
def insertAt (t : ν) (position : Option ν) : List ν → List ν
  | [] => [t]
  | x :: xs => if position = some x then t :: x :: xs else x :: insertAt t position xs

/-- A position in a list splits it, and `insertAt` inserts at the split. -/
theorem insertAt_split (t : ν) (position : Option ν) (nodes : List ν)
    (known : ∀ u, position = some u → u ∈ nodes) :
    ∃ left right, nodes = left ++ right ∧ right.head? = position ∧
      insertAt t position nodes = left ++ t :: right := by
  induction nodes with
  | nil =>
      refine ⟨[], [], rfl, ?_, rfl⟩
      cases position with
      | none => rfl
      | some u => simpa using known u rfl
  | cons x xs ih =>
      by_cases here : position = some x
      · exact ⟨[], x :: xs, rfl, by simp [here], by simp [insertAt, here]⟩
      · obtain ⟨left, right, split, headEq, inserted⟩ := ih (by
          rintro u rfl
          have member := known u rfl
          simp only [Option.some.injEq] at here
          simpa [here] using member)
        exact ⟨x :: left, right, by simp [split], headEq, by simp [insertAt, here, inserted]⟩

/-- Insertion in front of the first entry that does not have a property. -/
theorem insertAt_dropWhile (t : ν) (p : ν → Bool) {nodes : List ν} (nodup : nodes.Nodup) :
    insertAt t (nodes.dropWhile p).head? nodes =
      nodes.takeWhile p ++ t :: nodes.dropWhile p := by
  induction nodes with
  | nil => rfl
  | cons x xs ih =>
      obtain ⟨fresh, nodupRest⟩ := List.nodup_cons.mp nodup
      by_cases has : p x
      · have elsewhere : (xs.dropWhile p).head? ≠ some x := fun isHead =>
          fresh ((List.dropWhile_sublist p).subset (List.mem_of_head? isHead))
        simp [has, insertAt, elsewhere, ih nodupRest]
      · simp [has, insertAt]

@[simp] theorem mem_insertAt (t : ν) (position : Option ν) (nodes : List ν) (x : ν) :
    x ∈ insertAt t position nodes ↔ x = t ∨ x ∈ nodes := by
  induction nodes with
  | nil => simp [insertAt]
  | cons y ys ih =>
      by_cases here : position = some y
      · simp [insertAt, here]
      · simp only [insertAt, here, if_false, List.mem_cons, ih]
        exact or_left_comm

theorem nodup_insertAt (t : ν) (position : Option ν) {nodes : List ν}
    (nodup : nodes.Nodup) (fresh : t ∉ nodes) : (insertAt t position nodes).Nodup := by
  induction nodes with
  | nil => simp [insertAt]
  | cons y ys ih =>
      simp only [List.mem_cons, not_or] at fresh
      obtain ⟨yFresh, ysNodup⟩ := List.nodup_cons.mp nodup
      by_cases here : position = some y
      · simp [insertAt, here, fresh, nodup]
      · simp only [insertAt, here, if_false, List.nodup_cons, mem_insertAt]
        exact ⟨by simp [yFresh, Ne.symm fresh.1], ih ysNodup fresh.2⟩

/-- Well-formed, pairwise disjoint lists over shared link fields.  The links are
the data; `seq` and `home` are what they represent. -/
structure Dlists (ν ι : Type) where
  links : Links ν ι
  seq : ι → List ν
  home : ν → Option ι
  linked : ∀ l, links.Linked l (seq l)
  mem_seq : ∀ x l, x ∈ seq l ↔ home x = some l
  nodup : ∀ l, (seq l).Nodup

namespace Dlists

/-- All lists empty, all link fields nil. -/
def empty : Dlists ν ι where
  links := ⟨fun _ => none, fun _ => none, fun _ => none, fun _ => none⟩
  seq := fun _ => []
  home := fun _ => none
  linked := fun _ => ⟨rfl, rfl, trivial⟩
  mem_seq := by simp
  nodup := by simp

omit [DecidableEq ν] [DecidableEq ι] in
@[simp] theorem head_eq (lists : Dlists ν ι) (l : ι) :
    lists.links.head l = (lists.seq l).head? :=
  (lists.linked l).1

omit [DecidableEq ν] [DecidableEq ι] in
theorem not_mem_of_home {lists : Dlists ν ι} {t : ν} {l : ι}
    (away : lists.home t ≠ some l) : t ∉ lists.seq l :=
  fun member => away ((lists.mem_seq t l).mp member)

omit [DecidableEq ν] [DecidableEq ι] in
/-- Two lists share no node. -/
theorem disjoint (lists : Dlists ν ι) {l l' : ι} (different : l ≠ l') {t : ν}
    (member : t ∈ lists.seq l) : t ∉ lists.seq l' := by
  intro other
  have here := (lists.mem_seq t l).mp member
  have there := (lists.mem_seq t l').mp other
  exact different (Option.some.inj (here.symm.trans there))

/-- Membership after `t` was added to list `l`. -/
theorem mem_seq_added (lists : Dlists ν ι) {l : ι} {t : ν} {nodes : List ν}
    (free : lists.home t = none) (nodesIff : ∀ x, x ∈ nodes ↔ x = t ∨ x ∈ lists.seq l)
    (x : ν) (l' : ι) :
    x ∈ update lists.seq l nodes l' ↔ update lists.home t (some l) x = some l' := by
  by_cases sameList : l' = l
  · subst sameList
    by_cases sameNode : x = t
    · simp [sameNode, nodesIff]
    · simp [sameNode, nodesIff, lists.mem_seq]
  · rw [update_of_ne sameList, lists.mem_seq]
    by_cases sameNode : x = t
    · simp [sameNode, free, Ne.symm sameList]
    · simp [sameNode]

/-- The lists after `t`, so far in no list, was linked into `l` in front of
`position`. -/
def insert (lists : Dlists ν ι) (l : ι) (t : ν) (position : Option ν)
    (free : lists.home t = none) (known : ∀ u ∈ position, u ∈ lists.seq l) :
    Dlists ν ι where
  links := lists.links.insertBefore l t position
  seq := update lists.seq l (insertAt t position (lists.seq l))
  home := update lists.home t (some l)
  linked := by
    intro l'
    have fresh : ∀ l, t ∉ lists.seq l := fun l => not_mem_of_home (by simp [free])
    obtain ⟨left, right, split, headEq, inserted⟩ :=
      insertAt_split t position (lists.seq l) known
    have linked := lists.linked l
    rw [split] at linked
    have predecessorEq := linked.predecessor_eq
    rw [headEq] at predecessorEq
    rw [Links.insertBefore_eq_splice]
    · rw [predecessorEq]
      by_cases same : l' = l
      · subst same
        rw [Function.update_self, inserted, ← headEq]
        exact linked.splice (split ▸ lists.nodup l') (split ▸ fresh l')
      · rw [Function.update_of_ne same]
        apply (lists.linked l').splice_other same (fresh l')
        · intro p isLast
          exact lists.disjoint (Ne.symm same)
            (split ▸ List.mem_append_left _ (List.mem_of_getLast? isLast))
        · exact fun u isPosition => lists.disjoint (Ne.symm same) (known u isPosition)
    · rw [predecessorEq]
      intro isLast
      exact fresh l (split ▸ List.mem_append_left _ (List.mem_of_getLast? isLast))
  mem_seq := lists.mem_seq_added free (by simp)
  nodup := by
    intro l'
    by_cases same : l' = l
    · subst same
      rw [Function.update_self]
      exact nodup_insertAt t position (lists.nodup l') (not_mem_of_home (by simp [free]))
    · rw [Function.update_of_ne same]
      exact lists.nodup l'

/-- The lists after `t`, so far in no list, was appended to `l`. -/
def push (lists : Dlists ν ι) (l : ι) (t : ν) (free : lists.home t = none) :
    Dlists ν ι where
  links := lists.links.pushBack l t
  seq := update lists.seq l (lists.seq l ++ [t])
  home := update lists.home t (some l)
  linked := by
    intro l'
    have fresh : ∀ l, t ∉ lists.seq l := fun l => not_mem_of_home (by simp [free])
    have linked := lists.linked l
    rw [Links.pushBack_eq_splice, linked.2.1]
    · by_cases same : l' = l
      · subst same
        rw [← List.append_nil (lists.seq l')] at linked
        rw [Function.update_self]
        exact linked.splice (by simpa using lists.nodup l') (by simpa using fresh l')
      · rw [Function.update_of_ne same]
        apply (lists.linked l').splice_other same (fresh l')
        · exact fun p isLast =>
            lists.disjoint (Ne.symm same) (List.mem_of_getLast? isLast)
        · simp
    · rw [linked.2.1]
      exact fun isLast => fresh l (List.mem_of_getLast? isLast)
  mem_seq := lists.mem_seq_added free (by simp [or_comm])
  nodup := by
    intro l'
    by_cases same : l' = l
    · subst same
      have fresh : t ∉ lists.seq l' := not_mem_of_home (by simp [free])
      rw [Function.update_self]
      exact List.nodup_append.mpr ⟨lists.nodup l', by simp, by
        rintro x member y isT equal
        simp only [List.mem_singleton] at isT
        exact fresh (isT ▸ equal ▸ member)⟩
    · rw [Function.update_of_ne same]
      exact lists.nodup l'

/-- The lists after `t` was unlinked from the list `l` that holds it. -/
def remove (lists : Dlists ν ι) (l : ι) (t : ν) (held : lists.home t = some l) :
    Dlists ν ι where
  links := lists.links.unlink l t
  seq := update lists.seq l ((lists.seq l).erase t)
  home := update lists.home t none
  linked := by
    intro l'
    have member : t ∈ lists.seq l := (lists.mem_seq t l).mpr held
    obtain ⟨left, right, split⟩ := List.append_of_mem member
    have linked := lists.linked l
    have nodup := lists.nodup l
    rw [split] at linked nodup
    obtain ⟨prevEq, nextEq⟩ := linked.neighbours
    obtain ⟨-, -, apart⟩ := List.nodup_append.mp nodup
    have leftFresh : t ∉ left := fun inLeft => apart t inLeft t (by simp) rfl
    rw [Links.unlink_eq_bypass, prevEq, nextEq]
    · by_cases same : l' = l
      · subst same
        rw [Function.update_self, split, List.erase_append_right _ leftFresh,
          List.erase_cons_head]
        exact linked.bypass nodup
      · rw [Function.update_of_ne same]
        apply (lists.linked l').bypass_other same
        · intro p isLast
          apply lists.disjoint (Ne.symm same)
          rw [split]
          exact List.mem_append_left _ (List.mem_of_getLast? isLast)
        · intro u isFirst
          apply lists.disjoint (Ne.symm same)
          rw [split]
          exact List.mem_append_right _ (List.mem_cons_of_mem _ (List.mem_of_mem_head? isFirst))
    · rw [prevEq]
      exact fun isLast => leftFresh (List.mem_of_getLast? isLast)
  mem_seq := by
    intro x l'
    by_cases sameNode : x = t
    · subst sameNode
      by_cases sameList : l' = l
      · subst sameList
        simp [(lists.nodup l').mem_erase_iff]
      · simp [Function.update_of_ne sameList, lists.mem_seq, held, Ne.symm sameList]
    · by_cases sameList : l' = l
      · subst sameList
        simp [sameNode, (lists.nodup l').mem_erase_iff, lists.mem_seq]
      · simp [sameNode, Function.update_of_ne sameList, lists.mem_seq]
  nodup := by
    intro l'
    by_cases same : l' = l
    · subst same
      simpa using (lists.nodup l').erase t
    · simpa [Function.update_of_ne same] using lists.nodup l'

/-- The lists after the link fields of a node in no list were cleared. -/
def clear (lists : Dlists ν ι) (t : ν) (free : lists.home t = none) : Dlists ν ι :=
  { lists with
    links := lists.links.clear t
    linked := fun l => (lists.linked l).clear (not_mem_of_home (by simp [free])) }

/-- The lists after values were stored in the link fields of a node in no list. -/
def overwrite (lists : Dlists ν ι) (t : ν) (next prev : Option ν)
    (free : lists.home t = none) : Dlists ν ι :=
  { lists with
    links := lists.links.overwrite t next prev
    linked := fun l => (lists.linked l).overwrite (not_mem_of_home (by simp [free])) }

/-! ### Checked operations

Each operation has a precondition under which it is the operation on sequences;
the checked form yields nothing where it fails. -/

def push? (lists : Dlists ν ι) (l : ι) (t : ν) : Option (Dlists ν ι) :=
  if free : lists.home t = none then some (lists.push l t free) else none

def insert? (lists : Dlists ν ι) (l : ι) (t : ν) (position : Option ν) :
    Option (Dlists ν ι) :=
  if pre : lists.home t = none ∧ ∀ u ∈ position, u ∈ lists.seq l then
    some (lists.insert l t position pre.1 pre.2)
  else none

def remove? (lists : Dlists ν ι) (l : ι) (t : ν) : Option (Dlists ν ι) :=
  if held : lists.home t = some l then some (lists.remove l t held) else none

def clear? (lists : Dlists ν ι) (t : ν) : Option (Dlists ν ι) :=
  if free : lists.home t = none then some (lists.clear t free) else none

theorem push?_eq_some {lists lists' : Dlists ν ι} {l : ι} {t : ν}
    (pushed : lists.push? l t = some lists') :
    lists.home t = none ∧ lists'.seq = update lists.seq l (lists.seq l ++ [t]) ∧
      lists'.home = update lists.home t (some l) := by
  unfold push? at pushed
  split at pushed
  next free =>
    obtain rfl := Option.some.inj pushed
    exact ⟨free, rfl, rfl⟩
  next => cases pushed

theorem push?_links {lists lists' : Dlists ν ι} {l : ι} {t : ν}
    (pushed : lists.push? l t = some lists') : lists'.links = lists.links.pushBack l t := by
  unfold push? at pushed
  split at pushed
  next =>
    obtain rfl := Option.some.inj pushed
    rfl
  next => cases pushed

theorem insert?_eq_some {lists lists' : Dlists ν ι} {l : ι} {t : ν} {position : Option ν}
    (inserted : lists.insert? l t position = some lists') :
    lists.home t = none ∧
      lists'.seq = update lists.seq l (insertAt t position (lists.seq l)) ∧
      lists'.home = update lists.home t (some l) := by
  unfold insert? at inserted
  split at inserted
  next pre =>
    obtain rfl := Option.some.inj inserted
    exact ⟨pre.1, rfl, rfl⟩
  next => cases inserted

theorem insert?_links {lists lists' : Dlists ν ι} {l : ι} {t : ν} {position : Option ν}
    (inserted : lists.insert? l t position = some lists') :
    lists'.links = lists.links.insertBefore l t position := by
  unfold insert? at inserted
  split at inserted
  next =>
    obtain rfl := Option.some.inj inserted
    rfl
  next => cases inserted

theorem remove?_eq_some {lists lists' : Dlists ν ι} {l : ι} {t : ν}
    (removed : lists.remove? l t = some lists') :
    lists.home t = some l ∧ lists'.seq = update lists.seq l ((lists.seq l).erase t) ∧
      lists'.home = update lists.home t none := by
  unfold remove? at removed
  split at removed
  next held =>
    obtain rfl := Option.some.inj removed
    exact ⟨held, rfl, rfl⟩
  next => cases removed

theorem remove?_links {lists lists' : Dlists ν ι} {l : ι} {t : ν}
    (removed : lists.remove? l t = some lists') : lists'.links = lists.links.unlink l t := by
  unfold remove? at removed
  split at removed
  next =>
    obtain rfl := Option.some.inj removed
    rfl
  next => cases removed

omit [DecidableEq ι] in
theorem clear?_eq_some {lists lists' : Dlists ν ι} {t : ν}
    (cleared : lists.clear? t = some lists') :
    lists.home t = none ∧ lists'.seq = lists.seq ∧ lists'.home = lists.home := by
  unfold clear? at cleared
  split at cleared
  next free =>
    obtain rfl := Option.some.inj cleared
    exact ⟨free, rfl, rfl⟩
  next => cases cleared

end Dlists

end Dlist
