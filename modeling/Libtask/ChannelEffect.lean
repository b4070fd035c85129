import Libtask.Frame
import Libtask.Lib.SwapRemove

/-!
# Effects of the operations on channels

What each function of `channel.c` does when it goes through, and under which
conditions on the queues of alternatives it goes through.
-/

namespace Libtask

open Function (update)
open Outcome (bind_eq_ok)
open SwapRemove

/-! ## Queues -/

/-- The fields of a channel that the queue operations leave alone. -/
def Channel.core (chan : Channel) : Channel := { chan with asend := {}, arecv := {} }

@[simp] theorem queue_setQueue (chan : Channel) (dir dir' : Dir) (ar : Altarray) :
    (chan.setQueue dir ar).queue dir' = if dir' = dir then ar else chan.queue dir' := by
  cases dir <;> cases dir' <;> rfl

@[simp] theorem core_setQueue (chan : Channel) (dir : Dir) (ar : Altarray) :
    (chan.setQueue dir ar).core = chan.core := by
  cases dir <;> rfl

theorem queue_chan_setQueue (s : St) (c : ChanPtr) (dir : Dir) (ar : Altarray) (c' : ChanPtr)
    (dir' : Dir) : ((setQueue s c dir ar).chan c').queue dir' =
      if c' = c ∧ dir' = dir then ar else (s.chan c').queue dir' := by
  by_cases same : c' = c
  · subst same
    simp [setQueue, St.setChan]
  · simp [setQueue, St.setChan, same]

theorem core_chan_setQueue (s : St) (c : ChanPtr) (dir : Dir) (ar : Altarray) (c' : ChanPtr) :
    ((setQueue s c dir ar).chan c').core = (s.chan c').core := by
  by_cases same : c' = c
  · subst same
    simp [setQueue, St.setChan]
  · simp [setQueue, St.setChan, same]

/-- The contents of a queue. -/
def St.queue (s : St) (c : ChanPtr) (dir : Dir) : List AltPtr := ((s.chan c).queue dir).a

theorem core_fields {chan chan' : Channel} (same : chan'.core = chan.core) :
    chan'.bufsize = chan.bufsize ∧ chan'.elemsize = chan.elemsize ∧ chan'.buf = chan.buf ∧
      chan'.bufbytes = chan.bufbytes ∧ chan'.nbuf = chan.nbuf ∧ chan'.off = chan.off := by
  have fields := congrArg (fun c => (c.bufsize, c.elemsize, c.buf, c.bufbytes, c.nbuf, c.off))
    same
  simpa [Channel.core] using fields

def Altarray.Fits (ar : Altarray) : Prop := ar.n ≤ ar.m

theorem fits_addarray {ar : Altarray} (fits : ar.Fits) (p : AltPtr) :
    (addarray ar p).Fits := by
  unfold Altarray.Fits at fits ⊢
  have length : (addarray ar p).n = ar.n + 1 := by simp [addarray, Altarray.n]
  rw [length]
  by_cases full : ar.n = ar.m
  · simp [addarray, full]
  · simp only [addarray, full, if_false]
    omega

theorem delarray_a (ar : Altarray) (i : Nat) : (delarray ar i).a = swapRemove ar.a i := by
  unfold delarray swapRemove
  cases ar.a.getLast? <;> rfl

theorem fits_delarray {ar : Altarray} (fits : ar.Fits) (i : Nat) : (delarray ar i).Fits := by
  have capacity : (delarray ar i).m = ar.m := by
    unfold delarray
    cases ar.a.getLast? <;> rfl
  simp only [Altarray.Fits, Altarray.n, delarray_a, length_swapRemove, capacity] at fits ⊢
  omega

/-- Every pointer in a queue names an alternative for that queue, and is there
once; every array has room for its entries. -/
structure Queues (s : St) : Prop where
  entry : ∀ c dir p, p ∈ s.queue c dir →
    ∃ alt, s.alt? p = some alt ∧ alt.c = c ∧ chanarray alt.op = some dir
  nodup : ∀ c dir, (s.queue c dir).Nodup
  fits : ∀ c dir, ((s.chan c).queue dir).Fits

theorem Queues.congr {s s' : St} (queues : Queues s)
    (queue : ∀ c dir, s'.queue c dir = s.queue c dir)
    (fits : ∀ c dir, ((s'.chan c).queue dir).Fits)
    (alts : ∀ c dir p, p ∈ s.queue c dir → s'.alt? p = s.alt? p) : Queues s' := by
  refine ⟨fun c dir p member => ?_, fun c dir => ?_, fits⟩
  · rw [queue] at member
    rw [alts c dir p member]
    exact queues.entry c dir p member
  · rw [queue]
    exact queues.nodup c dir

/-- The queues lose the pointers that are `gone`, and nothing else changes. -/
structure Dequeued (s s' : St) (gone : AltPtr → Prop) : Prop where
  rest : ∃ chan, s' = { s with chan }
  core : ∀ c, (s'.chan c).core = (s.chan c).core
  member : ∀ c dir q, q ∈ s'.queue c dir ↔ q ∈ s.queue c dir ∧ ¬gone q
  nodup : ∀ c dir, (s'.queue c dir).Nodup
  fits : ∀ c dir, ((s'.chan c).queue dir).Fits

theorem Dequeued.queues {s s' : St} {gone : AltPtr → Prop} (queues : Queues s)
    (dequeued : Dequeued s s' gone) : Queues s' := by
  refine ⟨fun c dir p member => ?_, dequeued.nodup, dequeued.fits⟩
  obtain ⟨chan, rfl⟩ := dequeued.rest
  exact queues.entry c dir p ((dequeued.member c dir p).mp member).1

theorem Dequeued.refl {s : St} (queues : Queues s) {gone : AltPtr → Prop}
    (absent : ∀ c dir q, q ∈ s.queue c dir → ¬gone q) : Dequeued s s gone where
  rest := ⟨s.chan, rfl⟩
  core _ := rfl
  member c dir q := ⟨fun member => ⟨member, absent c dir q member⟩, And.left⟩
  nodup := queues.nodup
  fits := queues.fits

theorem Dequeued.trans {s₁ s₂ s₃ : St} {gone gone' both : AltPtr → Prop}
    (first : Dequeued s₁ s₂ gone) (second : Dequeued s₂ s₃ gone')
    (union : ∀ q, both q ↔ gone q ∨ gone' q) : Dequeued s₁ s₃ both where
  rest := by
    obtain ⟨chan, rfl⟩ := first.rest
    obtain ⟨chan', rfl⟩ := second.rest
    exact ⟨chan', rfl⟩
  core c := (second.core c).trans (first.core c)
  member c dir q := by
    rw [second.member, first.member, union, not_or, and_assoc]
  nodup := second.nodup
  fits := second.fits

/-- `altdequeue` finds a queued alternative, and removes it. -/
theorem altdequeue_queued {s : St} {p : AltPtr} {a : Alt} {dir : Dir} (queues : Queues s)
    (altEq : s.alt? p = some a) (dirEq : chanarray a.op = some dir)
    (queued : p ∈ s.queue a.c dir) :
    ∃ s', altdequeue s p a = .ok s' ∧ Dequeued s s' (· = p) := by
  obtain ⟨i, indexEq⟩ : ∃ i, ((s.chan a.c).queue dir).a.idxOf? p = some i := by
    cases found : ((s.chan a.c).queue dir).a.idxOf? p with
    | none => exact absurd queued (List.idxOf?_eq_none_iff.mp found)
    | some i => exact ⟨i, rfl⟩
  obtain ⟨inside, found, -⟩ := List.findIdx?_eq_some_iff_getElem.mp indexEq
  have atIndex : ((s.chan a.c).queue dir).a[i] = p := by simpa using found
  refine ⟨setQueue s a.c dir (delarray ((s.chan a.c).queue dir) i), ?_, ?_⟩
  · simp [altdequeue, dirEq, indexEq]
  have queueEq := queue_chan_setQueue s a.c dir (delarray ((s.chan a.c).queue dir) i)
  constructor
  · exact ⟨_, rfl⟩
  · exact core_chan_setQueue s _ _ _
  · intro c' dir' q
    simp only [St.queue, queueEq]
    split
    next here =>
      obtain ⟨rfl, rfl⟩ := here
      have nodup : ((s.chan a.c).queue dir').a.Nodup := queues.nodup a.c dir'
      rw [delarray_a, mem_swapRemove_iff nodup inside, atIndex]
    next elsewhere =>
      refine ⟨fun member => ⟨member, ?_⟩, And.left⟩
      rintro rfl
      obtain ⟨alt, altEq', channel, dirEq'⟩ := queues.entry c' dir' q member
      rw [altEq] at altEq'
      obtain rfl := Option.some.inj altEq'
      rw [dirEq] at dirEq'
      exact elsewhere ⟨channel.symm, (Option.some.inj dirEq').symm⟩
  · intro c' dir'
    simp only [St.queue, queueEq]
    split
    · rw [delarray_a]
      exact nodup_swapRemove (queues.nodup a.c dir) inside
    · exact queues.nodup c' dir'
  · intro c' dir'
    simp only [queueEq]
    split
    · exact fits_delarray (queues.fits a.c dir) i
    · exact queues.fits c' dir'

/-! ## Alt arrays -/

theorem op_of_asend {op : Op} (dirEq : chanarray op = some .asend) : op = .chansnd := by
  cases op <;> first | rfl | cases dirEq

theorem op_of_arecv {op : Op} (dirEq : chanarray op = some .arecv) : op = .chanrcv := by
  cases op <;> first | rfl | cases dirEq

/-- An alternative that is not the terminator is a send, a receive or a hole. -/
theorem chanarray_eq_none_iff {op : Op} (alternative : op.isAlternative = true) :
    chanarray op = none ↔ op = .channop := by
  cases op <;> simp_all [Op.isAlternative, chanarray]

/-- A terminated array is its alternatives, and then the terminator. -/
theorem terminated_split {alts : List Alt} (isTerminated : terminated alts = true) :
    ∃ front last, alts = front ++ [last] ∧ (∀ a ∈ front, a.op.isAlternative = true) ∧
      last.op.isTerminator = true ∧ altcount alts = front.length := by
  induction alts with
  | nil => simp [terminated] at isTerminated
  | cons a rest ih =>
      cases rest with
      | nil =>
          have isLast : a.op.isTerminator = true := by simpa [terminated] using isTerminated
          exact ⟨[], a, rfl, by simp, isLast, by simp [altcount, isLast]⟩
      | cons b rest =>
          simp only [terminated, Bool.and_eq_true] at isTerminated
          obtain ⟨front, last, split, alternatives, isLast, count⟩ := ih isTerminated.2
          have notLast : a.op.isTerminator = false := by
            have := isTerminated.1
            cases opEq : a.op <;> simp_all [Op.isAlternative, Op.isTerminator]
          refine ⟨a :: front, last, by simp [split], ?_, isLast, ?_⟩
          · simpa using ⟨isTerminated.1, alternatives⟩
          · have next : altcount (a :: b :: rest) = altcount (b :: rest) + 1 := by
              rw [altcount]
              simp [notLast]
            rw [next, count]
            rfl

/-- One turn of `altalldequeue`: a queued alternative, or a hole. -/
theorem altdequeue_alternative {s : St} {p : AltPtr} {a : Alt} (queues : Queues s)
    (altEq : s.alt? p = some a) (alternative : a.op.isAlternative = true)
    (queued : ∀ dir, chanarray a.op = some dir → p ∈ s.queue a.c dir) :
    ∃ s₁, (if a.op = .channop then pure s else altdequeue s p a) = .ok s₁ ∧
      Dequeued s s₁ fun q => q = p ∧ ∃ c dir, q ∈ s.queue c dir := by
  cases dirEq : chanarray a.op with
  | none =>
      have hole := (chanarray_eq_none_iff alternative).mp dirEq
      refine ⟨s, by simp [hole, pure, Except.pure], Dequeued.refl queues ?_⟩
      rintro c dir q member ⟨rfl, -⟩
      obtain ⟨alt, altEq', -, dirEq'⟩ := queues.entry c dir _ member
      rw [altEq] at altEq'
      obtain rfl := Option.some.inj altEq'
      simp [dirEq] at dirEq'
  | some dir =>
      have notHole : a.op ≠ .channop := by
        intro hole
        simp [hole, chanarray] at dirEq
      obtain ⟨s₁, done, dequeued⟩ := altdequeue_queued queues altEq dirEq (queued dir dirEq)
      refine ⟨s₁, by simpa [notHole] using done, dequeued.rest, dequeued.core, ?_,
        dequeued.nodup, dequeued.fits⟩
      intro c' dir' q
      rw [dequeued.member]
      constructor
      · rintro ⟨old, different⟩
        exact ⟨old, fun gone => different gone.1⟩
      · rintro ⟨old, different⟩
        exact ⟨old, fun same => different ⟨same, c', dir', old⟩⟩

/-- `altalldequeue` removes what is left of a queued array. -/
theorem altalldequeueLoop_queued {s : St} {base : Nat} {front : List Alt} {last : Alt}
    {i : Nat} (queues : Queues s) (alternatives : ∀ a ∈ front, a.op.isAlternative = true)
    (isLast : last.op.isTerminator = true)
    (altEq : ∀ k a, front[k]? = some a → s.alt? ⟨base, i + k⟩ = some a)
    (queued : ∀ k a dir, front[k]? = some a → chanarray a.op = some dir →
      (⟨base, i + k⟩ : AltPtr) ∈ s.queue a.c dir) :
    ∃ s', altalldequeueLoop s ⟨base, i⟩ (front ++ [last]) = .ok s' ∧
      Dequeued s s' fun q => q.base = base ∧ i ≤ q.idx ∧ q.idx < i + front.length ∧
        ∃ c dir, q ∈ s.queue c dir := by
  induction front generalizing s i with
  | nil =>
      have stops : last.op = .chanend ∨ last.op = .channoblk := by
        cases opEq : last.op <;> simp_all [Op.isTerminator]
      refine ⟨s, by simp [altalldequeueLoop, stops], Dequeued.refl queues ?_⟩
      rintro c dir q - ⟨-, lower, upper, -⟩
      simp only [List.length_nil] at upper
      omega
  | cons a front ih =>
      have goesOn : ¬(a.op = .chanend ∨ a.op = .channoblk) := by
        have := alternatives a (by simp)
        rintro (ended | ended) <;> simp [ended, Op.isAlternative] at this
      have headAlt : s.alt? ⟨base, i⟩ = some a := by simpa using altEq 0 a (by simp)
      obtain ⟨s₁, step, dequeued⟩ := altdequeue_alternative queues headAlt
        (alternatives a (by simp)) fun dir dirEq => by
          simpa using queued 0 a dir (by simp) dirEq
      have altsSame : ∀ q, s₁.alt? q = s.alt? q := by
        obtain ⟨chan, rfl⟩ := dequeued.rest
        intro q
        rfl
      obtain ⟨s₂, loop, dequeuedRest⟩ := ih (s := s₁) (i := i + 1) (dequeued.queues queues)
        (fun b member => alternatives b (by simp [member]))
        (fun k b atK => by
          rw [altsSame]
          simpa [Nat.add_assoc, Nat.add_comm 1] using altEq (k + 1) b (by simpa using atK))
        (fun k b dir atK dirEq => by
          rw [dequeued.member]
          refine ⟨?_, fun gone => ?_⟩
          · simpa [Nat.add_assoc, Nat.add_comm 1] using
              queued (k + 1) b dir (by simpa using atK) dirEq
          · have := congrArg AltPtr.idx gone.1
            simp only at this
            omega)
      refine ⟨s₂, ?_, dequeued.trans dequeuedRest ?_⟩
      · simp only [List.cons_append, altalldequeueLoop, if_neg goesOn]
        split at step
        next hole =>
          obtain rfl := Except.ok.inj step
          simpa [hole] using loop
        next notHole =>
          simp only [notHole, if_false]
          exact bind_eq_ok.mpr ⟨s₁, step, loop⟩
      · intro q
        simp only [List.length_cons]
        constructor
        · rintro ⟨sameBase, lower, upper, c, dir, member⟩
          by_cases first : q = ⟨base, i⟩
          · exact Or.inl ⟨first, c, dir, member⟩
          · have differs : q.idx ≠ i := by
              intro sameIdx
              exact first (by cases q; simp_all)
            refine Or.inr ⟨sameBase, by omega, by omega, c, dir, ?_⟩
            rw [dequeued.member]
            exact ⟨member, fun gone => first gone.1⟩
        · rintro (⟨rfl, c, dir, member⟩ | ⟨sameBase, lower, upper, c, dir, member⟩)
          · exact ⟨rfl, Nat.le_refl _, by simp, c, dir, member⟩
          · exact ⟨sameBase, by omega, by omega, c, dir,
              ((dequeued.member c dir q).mp member).1⟩

/-- The queues gain the alternatives `alts` of the array at `base`, which start at
index `i`, and nothing else changes. -/
structure Enqueued (s s' : St) (base i : Nat) (alts : List Alt) : Prop where
  rest : ∃ chan, s' = { s with chan }
  core : ∀ c, (s'.chan c).core = (s.chan c).core
  member : ∀ c dir q, q ∈ s'.queue c dir ↔ q ∈ s.queue c dir ∨
    ∃ k a, alts[k]? = some a ∧ q = ⟨base, i + k⟩ ∧ a.c = c ∧ chanarray a.op = some dir
  nodup : ∀ c dir, (s'.queue c dir).Nodup
  fits : ∀ c dir, ((s'.chan c).queue dir).Fits

/-- The first alternative, and then the others. -/
theorem Enqueued.cons {s s₁ s' : St} {base i : Nat} {a : Alt} {alts : List Alt}
    (first : Enqueued s s₁ base i [a]) (others : Enqueued s₁ s' base (i + 1) alts) :
    Enqueued s s' base i (a :: alts) where
  rest := by
    obtain ⟨chan, rfl⟩ := first.rest
    obtain ⟨chan', rfl⟩ := others.rest
    exact ⟨chan', rfl⟩
  core c := (others.core c).trans (first.core c)
  member c dir q := by
    rw [others.member, first.member, or_assoc]
    refine or_congr_right ⟨?_, ?_⟩
    · rintro (⟨k, b, atK, rfl, channel, dirEq⟩ | ⟨k, b, atK, rfl, channel, dirEq⟩)
      · obtain ⟨rfl, rfl⟩ : k = 0 ∧ a = b := by simpa [List.getElem?_singleton] using atK
        exact ⟨0, a, by simp, rfl, channel, dirEq⟩
      · exact ⟨k + 1, b, by simpa using atK, by simp [Nat.add_assoc, Nat.add_comm 1],
          channel, dirEq⟩
    · rintro ⟨k, b, atK, rfl, channel, dirEq⟩
      cases k with
      | zero => exact Or.inl ⟨0, b, by simpa using atK, rfl, channel, dirEq⟩
      | succ k =>
          exact Or.inr ⟨k, b, by simpa using atK, by simp [Nat.add_assoc, Nat.add_comm 1],
            channel, dirEq⟩
  nodup := others.nodup
  fits := others.fits

/-- One alternative, whose pointer is in no queue, or a hole. -/
theorem altqueue_fresh {s : St} {base i : Nat} {a : Alt}
    (nodup : ∀ c dir, (s.queue c dir).Nodup) (fits : ∀ c dir, ((s.chan c).queue dir).Fits)
    (alternative : a.op.isAlternative = true)
    (fresh : ∀ c dir, (⟨base, i⟩ : AltPtr) ∉ s.queue c dir) :
    ∃ s₁, (if a.op = .channop then pure s else altqueue s ⟨base, i⟩ a) = .ok s₁ ∧
      Enqueued s s₁ base i [a] := by
  cases dirEq : chanarray a.op with
  | none =>
      have hole := (chanarray_eq_none_iff alternative).mp dirEq
      refine ⟨s, by simp [hole, pure, Except.pure], ⟨s.chan, rfl⟩, fun _ => rfl, ?_, nodup, fits⟩
      intro c dir q
      refine ⟨Or.inl, ?_⟩
      rintro (old | ⟨k, b, atK, -, -, dirEq'⟩)
      · exact old
      · obtain ⟨-, rfl⟩ : k = 0 ∧ a = b := by simpa [List.getElem?_singleton] using atK
        simp [dirEq] at dirEq'
  | some dir =>
      have notHole : a.op ≠ .channop := by
        intro hole
        simp [hole, chanarray] at dirEq
      have queueEq := queue_chan_setQueue s a.c dir (addarray ((s.chan a.c).queue dir) ⟨base, i⟩)
      refine ⟨setQueue s a.c dir (addarray ((s.chan a.c).queue dir) ⟨base, i⟩),
        by simp [notHole, altqueue, dirEq], ⟨_, rfl⟩, core_chan_setQueue s _ _ _, ?_, ?_, ?_⟩
      · intro c' dir' q
        have single : (∃ k b, [a][k]? = some b ∧ q = ⟨base, i + k⟩ ∧ b.c = c' ∧
            chanarray b.op = some dir') ↔ q = ⟨base, i⟩ ∧ c' = a.c ∧ dir' = dir := by
          constructor
          · rintro ⟨k, b, atK, rfl, rfl, dirEq'⟩
            obtain ⟨rfl, rfl⟩ : k = 0 ∧ a = b := by simpa [List.getElem?_singleton] using atK
            exact ⟨rfl, rfl, Option.some.inj (dirEq'.symm.trans dirEq)⟩
          · rintro ⟨rfl, rfl, rfl⟩
            exact ⟨0, a, rfl, rfl, rfl, dirEq⟩
        rw [single]
        simp only [St.queue, queueEq]
        split
        next here =>
          obtain ⟨rfl, rfl⟩ := here
          simp [addarray]
        next elsewhere =>
          exact ⟨Or.inl, fun member => member.resolve_right fun here => elsewhere here.2⟩
      · intro c' dir'
        simp only [St.queue, queueEq]
        split
        next =>
          simp only [addarray]
          refine List.Nodup.append (nodup a.c dir) (by simp) ?_
          intro q member single
          obtain rfl : q = ⟨base, i⟩ := by simpa using single
          exact fresh a.c dir member
        next => exact nodup c' dir'
      · intro c' dir'
        rw [queueEq]
        split
        next => exact fits_addarray (fits a.c dir) _
        next => exact fits c' dir'

/-- `altqueueLoop` queues an array whose pointers are in no queue. -/
theorem altqueueLoop_fresh {s : St} {base i : Nat} {alts : List Alt}
    (nodup : ∀ c dir, (s.queue c dir).Nodup) (fits : ∀ c dir, ((s.chan c).queue dir).Fits)
    (alternatives : ∀ a ∈ alts, a.op.isAlternative = true)
    (fresh : ∀ c dir q, q ∈ s.queue c dir → q.base = base → q.idx < i) :
    ∃ s', altqueueLoop s ⟨base, i⟩ alts = .ok s' ∧ Enqueued s s' base i alts := by
  induction alts generalizing s i with
  | nil => exact ⟨s, rfl, ⟨s.chan, rfl⟩, fun _ => rfl, by simp, nodup, fits⟩
  | cons a alts ih =>
      obtain ⟨s₁, step, first⟩ := altqueue_fresh (i := i) nodup fits
        (alternatives a (by simp)) fun c dir member =>
          Nat.lt_irrefl _ (fresh c dir _ member rfl)
      obtain ⟨s', loop, others⟩ := ih (s := s₁) (i := i + 1) first.nodup first.fits
        (fun b member => alternatives b (by simp [member]))
        (fun c dir q member sameBase => by
          rcases (first.member c dir q).mp member with old | ⟨k, b, atK, rfl, -⟩
          · exact Nat.lt_succ_of_lt (fresh c dir q old sameBase)
          · obtain ⟨rfl, -⟩ : k = 0 ∧ a = b := by simpa [List.getElem?_singleton] using atK
            exact Nat.lt_succ_self _)
      refine ⟨s', ?_, first.cons others⟩
      simp only [altqueueLoop]
      split
      next hole =>
        rw [if_pos hole] at step
        obtain rfl := Except.ok.inj step
        exact loop
      next notHole =>
        rw [if_neg notHole] at step
        exact bind_eq_ok.mpr ⟨s₁, step, loop⟩

/-! ## Moving data -/

/-- Only the data of channels, the memory of user code and the trace change. -/
structure Copied (s s' : St) : Prop where
  rest : ∃ mem chan trace, s' = { s with mem, chan, trace }
  queue : ∀ c dir, (s'.chan c).queue dir = (s.chan c).queue dir
  sizes : ∀ c, (s'.chan c).bufsize = (s.chan c).bufsize ∧
    (s'.chan c).elemsize = (s.chan c).elemsize ∧ (s'.chan c).bufbytes = (s.chan c).bufbytes

theorem Copied.refl (s : St) : Copied s s :=
  ⟨⟨s.mem, s.chan, s.trace, rfl⟩, fun _ _ => rfl, fun _ => ⟨rfl, rfl, rfl⟩⟩

theorem Copied.trans {s₁ s₂ s₃ : St} (first : Copied s₁ s₂) (second : Copied s₂ s₃) :
    Copied s₁ s₃ where
  rest := by
    obtain ⟨mem, chan, trace, rfl⟩ := first.rest
    obtain ⟨mem', chan', trace', rfl⟩ := second.rest
    exact ⟨mem', chan', trace', rfl⟩
  queue c dir := (second.queue c dir).trans (first.queue c dir)
  sizes c := by
    obtain ⟨size, elem, bytes⟩ := first.sizes c
    obtain ⟨size', elem', bytes'⟩ := second.sizes c
    exact ⟨size'.trans size, elem'.trans elem, bytes'.trans bytes⟩

theorem setChan_copied (s : St) (c : ChanPtr) (chan : Channel)
    (queue : ∀ dir, chan.queue dir = (s.chan c).queue dir)
    (sizes : chan.bufsize = (s.chan c).bufsize ∧ chan.elemsize = (s.chan c).elemsize ∧
      chan.bufbytes = (s.chan c).bufbytes) (mem : Nat → UInt8) (trace : List Event) :
    Copied s { s.setChan c chan with mem, trace } := by
  refine ⟨⟨_, _, _, rfl⟩, fun c' dir => ?_, fun c' => ?_⟩
  · by_cases same : c' = c
    · subst same
      simpa [St.setChan] using queue dir
    · simp [St.setChan, same]
  · by_cases same : c' = c
    · subst same
      simpa [St.setChan] using sizes
    · simp [St.setChan, same]

variable {s s' : St} {self : TaskPtr} {flow : Flow}

/-- The oldest element of the buffer goes to the receiver. -/
theorem altcopyRecv_ok {c : ChanPtr} {r : AltRef} (done : altcopyRecv s self c r = .ok s') :
    InBuffer (s.chan c) (recvPos (s.chan c)) ∧ (s.chan c).nbuf ≠ 0 ∧ ∃ value,
      value = Bytes.read (s.chan c).buf (recvPos (s.chan c)) (s.chan c).elemsize ∧
      s' = { s.setChan c { s.chan c with
          nbuf := (s.chan c).nbuf - 1
          off := if ((s.chan c).off + 1) % 2 ^ 32 = (s.chan c).bufsize then 0
            else ((s.chan c).off + 1) % 2 ^ 32 } with
        mem := amove s.mem r.2.v value
        trace := s.trace ++ [.received self r.1 c value] } := by
  unfold altcopyRecv at done
  simp only at done
  split at done
  next => cases done
  next inBuffer =>
    split at done
    next => cases done
    next filled =>
      obtain rfl := Except.ok.inj done
      exact ⟨not_not.mp inBuffer, filled, _, rfl, rfl⟩

/-- The value of the sender goes behind the newest element of the buffer. -/
theorem altcopySend_ok {c : ChanPtr} {x : AltRef} (done : altcopySend s self c x = .ok s') :
    (s.chan c).bufsize ≠ 0 ∧ InBuffer (s.chan c) (sendPos (s.chan c)) ∧ ∃ value,
      value = amoveBytes s.mem x.2.v (s.chan c).elemsize ∧
      s' = { s.setChan c { s.chan c with
          buf := Bytes.write (s.chan c).buf (sendPos (s.chan c)) value
          nbuf := ((s.chan c).nbuf + 1) % 2 ^ 32 } with
        trace := s.trace ++ [.sent self x.1 c value] } := by
  unfold altcopySend at done
  simp only at done
  split at done
  next => cases done
  next buffered =>
    split at done
    next => cases done
    next inBuffer =>
      obtain rfl := Except.ok.inj done
      exact ⟨buffered, not_not.mp inBuffer, _, rfl, rfl⟩

theorem altcopyRecv_copied {c : ChanPtr} {r : AltRef}
    (done : altcopyRecv s self c r = .ok s') : Copied s s' := by
  obtain ⟨-, -, value, -, rfl⟩ := altcopyRecv_ok done
  apply setChan_copied
  · intro dir
    cases dir <;> rfl
  · exact ⟨rfl, rfl, rfl⟩

theorem altcopySend_copied {c : ChanPtr} {x : AltRef}
    (done : altcopySend s self c x = .ok s') : Copied s s' := by
  obtain ⟨-, -, value, -, rfl⟩ := altcopySend_ok done
  apply setChan_copied
  · intro dir
    cases dir <;> rfl
  · exact ⟨rfl, rfl, rfl⟩

/-- The four ways of a move. -/
theorem altcopyMove_ok {c : ChanPtr} {x r : Option AltRef}
    (done : altcopyMove s self c x r = .ok s') :
    (∃ x' r', x = some x' ∧ r = some r' ∧ (s.chan c).nbuf = 0 ∧
      s' = altcopyDirect s self c x' r') ∨
    (∃ x' r' s₁, x = some x' ∧ r = some r' ∧ (s.chan c).nbuf ≠ 0 ∧
      altcopyRecv s self c r' = .ok s₁ ∧ altcopySend s₁ self c x' = .ok s') ∨
    (∃ r', x = none ∧ r = some r' ∧ altcopyRecv s self c r' = .ok s') ∨
    (∃ x', x = some x' ∧ r = none ∧ altcopySend s self c x' = .ok s') ∨
    (x = none ∧ r = none ∧ s' = s) := by
  cases x with
  | none =>
      cases r with
      | none =>
          obtain rfl := Except.ok.inj done
          simp
      | some r => exact Or.inr (Or.inr (Or.inl ⟨r, rfl, rfl, done⟩))
  | some x =>
      cases r with
      | none => exact Or.inr (Or.inr (Or.inr (Or.inl ⟨x, rfl, rfl, done⟩)))
      | some r =>
          simp only [altcopyMove] at done
          split at done
          next empty =>
            exact Or.inl ⟨x, r, rfl, rfl, empty, (Except.ok.inj done).symm⟩
          next filled =>
            obtain ⟨s₁, received, sent⟩ := bind_eq_ok.mp done
            exact Or.inr (Or.inl ⟨x, r, s₁, rfl, rfl, filled, received, sent⟩)

theorem altcopyMove_copied {c : ChanPtr} {x r : Option AltRef}
    (done : altcopyMove s self c x r = .ok s') : Copied s s' := by
  rcases altcopyMove_ok done with
    ⟨x', r', rfl, rfl, -, rfl⟩ | ⟨x', r', s₁, rfl, rfl, -, received, sent⟩ |
    ⟨r', rfl, rfl, received⟩ | ⟨x', rfl, rfl, sent⟩ | ⟨rfl, rfl, rfl⟩
  · exact ⟨⟨_, _, _, rfl⟩, fun _ _ => rfl, fun _ => ⟨rfl, rfl, rfl⟩⟩
  · exact (altcopyRecv_copied received).trans (altcopySend_copied sent)
  · exact altcopyRecv_copied received
  · exact altcopySend_copied sent
  · exact Copied.refl _

/-- The alternative and its partner are told apart by their ops. -/
theorem altcopy_ok {x : AltRef} {partner : Option AltRef}
    (done : altcopy s self x partner = .ok s') :
    (x.2.op = .chanrcv ∧ (∀ o, partner = some o → o.2.op = .chansnd) ∧
      altcopyMove s self x.2.c partner (some x) = .ok s') ∨
    (x.2.op = .chansnd ∧ (∀ o, partner = some o → o.2.op = .chanrcv) ∧
      altcopyMove s self x.2.c (some x) partner = .ok s') := by
  unfold altcopy at done
  simp only at done
  split at done
  next isRecv =>
    split at done
    next agrees =>
      exact Or.inl ⟨isRecv, by rintro o rfl; simpa using agrees, done⟩
    next => cases done
  next =>
    split at done
    next agrees =>
      exact Or.inr ⟨agrees.1, by rintro o rfl; simpa using agrees.2, done⟩
    next => cases done

theorem altcopy_copied {x : AltRef} {partner : Option AltRef}
    (done : altcopy s self x partner = .ok s') : Copied s s' := by
  rcases altcopy_ok done with ⟨-, -, moved⟩ | ⟨-, -, moved⟩
  · exact altcopyMove_copied moved
  · exact altcopyMove_copied moved

/-! ## Executing alternatives -/

theorem setAlt_ok {p : AltPtr} {f : Alt → Alt} (done : setAlt s p f = .ok s') :
    p.idx < (s.alts p.base).length ∧
      s' = { s with alts := update s.alts p.base ((s.alts p.base).modify p.idx f) } := by
  unfold setAlt at done
  split at done
  next inside => exact ⟨inside, (Except.ok.inj done).symm⟩
  next => cases done

/-- An alternative runs against the buffer, or it runs against a queued one, whose
task is then dequeued, told which alternative it was, and woken. -/
theorem altexec_ok {p : AltPtr} {rand : Nat} (done : altexec s self p rand = .ok s') :
    ∃ a, s.alt? p = some a ∧
      ((altpick s a rand = none ∧ altcopy s self (p, a) none = .ok s') ∨
      ∃ other o s₁ s₂, altpick s a rand = some other ∧ s.alt? other = some o ∧
        altcopy s self (p, a) (some (other, o)) = .ok s₁ ∧
        altalldequeue s₁ o.xalt = .ok s₂ ∧ o.xalt.idx < (s₂.alts o.xalt.base).length ∧
        taskready { s₂ with
          alts := update s₂.alts o.xalt.base ((s₂.alts o.xalt.base).modify o.xalt.idx
            fun first => { first with xalt := other }) } o.task = .ok s') := by
  unfold altexec at done
  split at done
  next => cases done
  next a altEq =>
    refine ⟨a, altEq, ?_⟩
    split at done
    next picked => exact Or.inl ⟨picked, done⟩
    next other picked =>
      split at done
      next => cases done
      next o otherEq =>
        obtain ⟨s₁, copied, rest⟩ := bind_eq_ok.mp done
        obtain ⟨s₂, dequeued, rest⟩ := bind_eq_ok.mp rest
        obtain ⟨s₃, assigned, readied⟩ := bind_eq_ok.mp rest
        obtain ⟨inside, rfl⟩ := setAlt_ok assigned
        exact Or.inr ⟨other, o, s₁, s₂, picked, otherEq, copied, dequeued, inside, readied⟩

/-- A partner comes from the queue of the other direction. -/
theorem altpick_eq_some {a : Alt} {rand : Nat} {other : AltPtr}
    (picked : altpick s a rand = some other) :
    ∃ dir, chanarray (otherop a.op) = some dir ∧ other ∈ s.queue a.c dir := by
  unfold altpick at picked
  split at picked
  next dir dirEq => exact ⟨dir, dirEq, List.mem_of_getElem? picked⟩
  next => cases picked

theorem altpick_eq_none {a : Alt} {rand : Nat} (picked : altpick s a rand = none) {dir : Dir}
    (dirEq : chanarray (otherop a.op) = some dir) : s.queue a.c dir = [] := by
  simp only [altpick, dirEq, Altarray.n] at picked
  by_contra nonempty
  have positive : 0 < (s.queue a.c dir).length := List.length_pos_iff.mpr nonempty
  have := List.getElem?_eq_none_iff.mp picked
  exact absurd (Nat.mod_lt rand positive) (Nat.not_lt.mpr this)

/-- A partner comes from the queue of the other side, unless that is empty. -/
structure PartnerOf (s : St) (a : Alt) (partner : Option AltRef) : Prop where
  queued : ∀ o, partner = some o → ∃ dir, chanarray (otherop a.op) = some dir ∧
    o.1 ∈ s.queue a.c dir
  nobody : partner = none → ∀ dir, chanarray (otherop a.op) = some dir → s.queue a.c dir = []

theorem partnerOf_some {a : Alt} {rand : Nat} {other : AltPtr}
    (picked : altpick s a rand = some other) (o : Alt) : PartnerOf s a (some (other, o)) := by
  refine ⟨fun o' isOther => ?_, by simp⟩
  obtain rfl := Option.some.inj isOther
  exact altpick_eq_some picked

theorem partnerOf_none {a : Alt} {rand : Nat} (picked : altpick s a rand = none) :
    PartnerOf s a none :=
  ⟨by simp, fun _ _ dirEq => altpick_eq_none picked dirEq⟩

/-- The second loop of `chanalt` finds every number that the first loop counts. -/
theorem chanpick_lt {alts : List Alt} {i j : Nat} (inRange : j < alts.countP (altcanexec s)) :
    ∃ k a, alts[k]? = some a ∧ altcanexec s a = true ∧ chanpick s alts i j = some (i + k) := by
  induction alts generalizing i j with
  | nil => simp at inRange
  | cons a alts ih =>
      cases can : altcanexec s a with
      | true =>
          cases j with
          | zero => exact ⟨0, a, by simp, can, by simp [chanpick, can]⟩
          | succ j =>
              obtain ⟨k, b, atK, canB, picked⟩ := ih (i := i + 1) (j := j)
                (by simpa [can] using inRange)
              exact ⟨k + 1, b, by simpa using atK, canB,
                by simp [chanpick, can, picked, Nat.add_assoc, Nat.add_comm 1]⟩
      | false =>
          obtain ⟨k, b, atK, canB, picked⟩ := ih (i := i + 1) (j := j)
            (by simpa [can] using inRange)
          exact ⟨k + 1, b, by simpa using atK, canB,
            by simp [chanpick, can, picked, Nat.add_assoc, Nat.add_comm 1]⟩

/-- Each executable alternative has such a number: how many come before it. -/
theorem chanpick_countP {alts : List Alt} {i k : Nat} {a : Alt} (atK : alts[k]? = some a)
    (can : altcanexec s a = true) :
    (alts.take k).countP (altcanexec s) < alts.countP (altcanexec s) ∧
      chanpick s alts i ((alts.take k).countP (altcanexec s)) = some (i + k) := by
  induction alts generalizing i k with
  | nil => simp at atK
  | cons b alts ih =>
      cases k with
      | zero =>
          obtain rfl : b = a := by simpa using atK
          simp [chanpick, can]
      | succ k =>
          obtain ⟨less, picked⟩ := ih (i := i + 1) (k := k) (by simpa using atK)
          cases canB : altcanexec s b <;>
            simp [chanpick, canB, less, picked, Nat.add_assoc, Nat.add_comm 1]

/-! ## chanalt -/

/-- The alternatives of the array at `base`, after the first loop of `chanalt`. -/
def entered (s : St) (self : TaskPtr) (base : Nat) : List Alt :=
  ((s.alts base).take (altcount (s.alts base))).map fun a =>
    { a with task := self, xalt := ⟨base, 0⟩ }

/-- The state after the first loop of `chanalt`. -/
def enter (s : St) (self : TaskPtr) (base : Nat) : St :=
  { s with
    alts := update s.alts base
      (entered s self base ++ (s.alts base).drop (altcount (s.alts base))) }

/-- The number of alternatives that can proceed. -/
def canCount (s : St) (self : TaskPtr) (base : Nat) : Nat :=
  (entered s self base).countP (altcanexec (enter s self base))

/-- What ends the array at `base`. -/
def terminator (s : St) (base : Nat) : Option Op :=
  (s.alts base)[altcount (s.alts base)]?.map Alt.op

/-- `chanalt` runs one alternative, or it returns -1, or it blocks. -/
theorem chanalt_ok {base rand1 rand2 : Nat} {pc : Pc}
    (done : chanalt s self base rand1 rand2 pc = .ok (s', flow)) :
    (canCount s self base ≠ 0 ∧ ∃ i, flow = .ret (some (i : Nat)) ∧
      chanpick (enter s self base) (entered s self base) 0
        (rand1 % canCount s self base) = some i ∧
      altexec (enter s self base) self ⟨base, i⟩ rand2 = .ok s') ∨
    (canCount s self base = 0 ∧ terminator s base ≠ some .chanend ∧
      flow = .ret (some (-1)) ∧ s' = enter s self base) ∨
    (canCount s self base = 0 ∧ terminator s base = some .chanend ∧ flow = .switch pc ∧
      ∃ s₁, altqueueLoop (enter s self base) ⟨base, 0⟩ (entered s self base) = .ok s₁ ∧
        s' = s₁.log (.altBlock self base)) := by
  simp only [chanalt] at done
  split at done
  next => cases done
  next last lastEq =>
    have terminatorEq : terminator s base = some last.op := by simp [terminator, lastEq]
    split at done
    next i picked =>
      replace picked : (if canCount s self base ≠ 0 then chanpick (enter s self base)
        (entered s self base) 0 (rand1 % canCount s self base) else none) = some i := picked
      obtain ⟨some?, picked⟩ := Option.ite_none_right_eq_some.mp picked
      obtain ⟨s₁, executed, returned⟩ := bind_eq_ok.mp done
      obtain ⟨rfl, rfl⟩ := Prod.mk.inj (Except.ok.inj returned)
      exact Or.inl ⟨some?, i, rfl, picked, executed⟩
    next unpicked =>
      replace unpicked : (if canCount s self base ≠ 0 then chanpick (enter s self base)
        (entered s self base) 0 (rand1 % canCount s self base) else none) = none := unpicked
      have none' : canCount s self base = 0 := by
        by_contra some?
        obtain ⟨i, a, -, -, picked⟩ := chanpick_lt (s := enter s self base) (i := 0)
          (Nat.mod_lt rand1 (Nat.pos_of_ne_zero some?))
        rw [if_pos some?] at unpicked
        exact absurd (picked.symm.trans unpicked) (by simp)
      split at done
      next ends =>
        obtain ⟨rfl, rfl⟩ := Prod.mk.inj (Except.ok.inj done)
        exact Or.inr (Or.inl ⟨none', by simpa [terminatorEq] using ends, rfl, rfl⟩)
      next ends =>
        obtain ⟨s₁, looped, returned⟩ := bind_eq_ok.mp done
        obtain ⟨rfl, rfl⟩ := Prod.mk.inj (Except.ok.inj returned)
        exact Or.inr (Or.inr ⟨none', by simpa [terminatorEq] using ends, rfl, s₁, looped, rfl⟩)

theorem chanaltResume_ok {base : Nat} {i : Int}
    (done : chanaltResume s self base = .ok (s', i)) :
    ∃ first, s.alt? ⟨base, 0⟩ = some first ∧ first.xalt.base = base ∧
      i = first.xalt.idx ∧ s' = s.log (.altReturn self base first.xalt.idx) := by
  unfold chanaltResume at done
  split at done
  next first altEq =>
    split at done
    next sameBase =>
      obtain ⟨rfl, rfl⟩ := Prod.mk.inj (Except.ok.inj done)
      exact ⟨first, altEq, sameBase, rfl, rfl⟩
    next => cases done
  next => cases done

/-! ## Frames -/

/-- The operations on channels leave locks and tasks alone. -/
structure ChannelFrame (s s' : St) : Prop where
  locks : KeepsLocks s s'
  tasks : KeepsTasks s s'

theorem ChannelFrame.refl (s : St) : ChannelFrame s s := ⟨KeepsLocks.refl s, KeepsTasks.refl s⟩

theorem ChannelFrame.trans {s₁ s₂ s₃ : St} (first : ChannelFrame s₁ s₂)
    (second : ChannelFrame s₂ s₃) : ChannelFrame s₁ s₃ :=
  ⟨first.locks.trans second.locks, first.tasks.trans second.tasks⟩

/-- Assignments to channels, alt arrays and user memory. -/
theorem assign_channelFrame (s : St) (chans : List ChanPtr) (chan : ChanPtr → Channel)
    (alts : Nat → List Alt) (mem : Nat → UInt8) :
    ChannelFrame s { s with chans, chan, alts, mem } :=
  ⟨⟨rfl, rfl, rfl, fun _ _ => rfl, rfl⟩, rfl, fun _ => rfl, rfl, rfl⟩

theorem log_channelFrame (s : St) {e : Event} (channels : e.part = .channels) :
    ChannelFrame s (s.log e) :=
  ⟨log_keepsLocks s (by simp [channels]), log_keepsTasks s (by simp [channels])⟩

/-- An assignment together with its event. -/
theorem record_channelFrame (s : St) {e : Event} (channels : e.part = .channels)
    (chan : ChanPtr → Channel) (mem : Nat → UInt8) :
    ChannelFrame s { s with chan, mem, trace := s.trace ++ [e] } :=
  (assign_channelFrame s s.chans chan s.alts mem).trans (log_channelFrame _ channels)

theorem altdequeue_rest {p : AltPtr} {a : Alt} (done : altdequeue s p a = .ok s') :
    ∃ chan, s' = { s with chan } ∧ ∀ c, (chan c).core = (s.chan c).core := by
  unfold altdequeue at done
  split at done
  next => cases done
  next dir _ =>
    simp only at done
    split at done
    next i _ =>
      obtain rfl := Except.ok.inj done
      exact ⟨_, rfl, core_chan_setQueue s _ _ _⟩
    next => cases done

theorem altalldequeueLoop_rest {p : AltPtr} {alts : List Alt}
    (done : altalldequeueLoop s p alts = .ok s') :
    ∃ chan, s' = { s with chan } ∧ ∀ c, (chan c).core = (s.chan c).core := by
  induction alts generalizing s p with
  | nil => cases done
  | cons a rest ih =>
      simp only [altalldequeueLoop] at done
      split at done
      next =>
        obtain rfl := Except.ok.inj done
        exact ⟨_, rfl, fun _ => rfl⟩
      next =>
        split at done
        next => exact ih done
        next =>
          obtain ⟨s₁, dequeued, looped⟩ := bind_eq_ok.mp done
          obtain ⟨chan, rfl, core⟩ := altdequeue_rest dequeued
          obtain ⟨chan', rfl, core'⟩ := ih looped
          exact ⟨chan', rfl, fun c => (core' c).trans (core c)⟩

theorem altqueueLoop_rest {p : AltPtr} {alts : List Alt}
    (done : altqueueLoop s p alts = .ok s') :
    ∃ chan, s' = { s with chan } ∧ ∀ c, (chan c).core = (s.chan c).core := by
  induction alts generalizing s p with
  | nil =>
      obtain rfl := Except.ok.inj done
      exact ⟨_, rfl, fun _ => rfl⟩
  | cons a rest ih =>
      simp only [altqueueLoop] at done
      split at done
      next => exact ih done
      next =>
        obtain ⟨s₁, queued, looped⟩ := bind_eq_ok.mp done
        unfold altqueue at queued
        split at queued
        next dir _ =>
          obtain rfl := Except.ok.inj queued
          obtain ⟨chan', rfl, core'⟩ := ih looped
          exact ⟨chan', rfl, fun c => (core' c).trans (core_chan_setQueue s _ _ _ c)⟩
        next => cases queued

theorem altcopyRecv_frame {c : ChanPtr} {r : AltRef}
    (done : altcopyRecv s self c r = .ok s') : ChannelFrame s s' := by
  obtain ⟨-, -, value, -, rfl⟩ := altcopyRecv_ok done
  exact record_channelFrame s rfl _ _

theorem altcopySend_frame {c : ChanPtr} {x : AltRef}
    (done : altcopySend s self c x = .ok s') : ChannelFrame s s' := by
  obtain ⟨-, -, value, -, rfl⟩ := altcopySend_ok done
  exact record_channelFrame s rfl _ s.mem

theorem altcopyMove_frame {c : ChanPtr} {x r : Option AltRef}
    (done : altcopyMove s self c x r = .ok s') : ChannelFrame s s' := by
  rcases altcopyMove_ok done with
    ⟨x', r', rfl, rfl, -, rfl⟩ | ⟨x', r', s₁, rfl, rfl, -, received, sent⟩ |
    ⟨r', rfl, rfl, received⟩ | ⟨x', rfl, rfl, sent⟩ | ⟨rfl, rfl, rfl⟩
  · exact ((assign_channelFrame s s.chans s.chan s.alts _).trans
      (log_channelFrame _ rfl)).trans (log_channelFrame _ rfl)
  · exact (altcopyRecv_frame received).trans (altcopySend_frame sent)
  · exact altcopyRecv_frame received
  · exact altcopySend_frame sent
  · exact .refl _

theorem altcopy_frame {x : AltRef} {partner : Option AltRef}
    (done : altcopy s self x partner = .ok s') : ChannelFrame s s' := by
  rcases altcopy_ok done with ⟨-, -, moved⟩ | ⟨-, -, moved⟩
  · exact altcopyMove_frame moved
  · exact altcopyMove_frame moved

theorem altexec_frame {p : AltPtr} {rand : Nat} (done : altexec s self p rand = .ok s') :
    ChannelFrame s s' := by
  obtain ⟨a, -, ⟨-, copied⟩ | ⟨other, o, s₁, s₂, -, -, copied, dequeued, -, readied⟩⟩ :=
    altexec_ok done
  · exact altcopy_frame copied
  · obtain ⟨chan, rfl, -⟩ := altalldequeueLoop_rest dequeued
    exact ((altcopy_frame copied).trans (assign_channelFrame s₁ s₁.chans chan _ s₁.mem)).trans
      ⟨taskready_keepsLocks readied, taskready_keepsTasks readied⟩

theorem enter_frame (s : St) (self : TaskPtr) (base : Nat) :
    ChannelFrame s (enter s self base) :=
  assign_channelFrame s s.chans s.chan _ s.mem

theorem chanalt_frame {base rand1 rand2 : Nat} {pc : Pc}
    (done : chanalt s self base rand1 rand2 pc = .ok (s', flow)) : ChannelFrame s s' := by
  rcases chanalt_ok done with
    ⟨-, i, -, -, executed⟩ | ⟨-, -, -, rfl⟩ | ⟨-, -, -, s₁, looped, rfl⟩
  · exact (enter_frame s self base).trans (altexec_frame executed)
  · exact enter_frame s self base
  · obtain ⟨chan, rfl, -⟩ := altqueueLoop_rest looped
    exact ((enter_frame s self base).trans
      (assign_channelFrame _ s.chans chan _ s.mem)).trans (log_channelFrame _ rfl)

theorem chanaltResume_frame {base : Nat} {i : Int}
    (done : chanaltResume s self base = .ok (s', i)) : ChannelFrame s s' := by
  obtain ⟨first, -, -, -, rfl⟩ := chanaltResume_ok done
  exact log_channelFrame s rfl

theorem chancreate_ok {c : Option ChanPtr} {elemsize bufsize : Int} {junk : Bytes.Memory}
    (done : chancreate s c elemsize bufsize junk = .ok s') :
    ∃ c₀, c = some c₀ ∧ s' = { s.setChan c₀ {
        elemsize := toUint elemsize
        bufsize := toUint bufsize
        buf := junk
        bufbytes := bufArea elemsize bufsize } with
      chans := c₀ :: s.chans } := by
  cases c with
  | none => cases done
  | some c₀ => exact ⟨c₀, rfl, (Except.ok.inj done).symm⟩

theorem chancreate_frame {c : Option ChanPtr} {elemsize bufsize : Int} {junk : Bytes.Memory}
    (done : chancreate s c elemsize bufsize junk = .ok s') : ChannelFrame s s' := by
  obtain ⟨c₀, -, rfl⟩ := chancreate_ok done
  exact assign_channelFrame s _ _ s.alts s.mem

end Libtask
