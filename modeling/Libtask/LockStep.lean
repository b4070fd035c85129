import Libtask.TaskStep
import Mathlib.Data.List.Induction

/-!
# What a step does to the locks

Every operation on a lock or a condition variable is one event.  This module says once
what each event requires and what it does to owners, counters and waiting lists; the
correctness of the three kinds of objects is derived from that.
-/

namespace Libtask

open Function (update update_self update_of_ne)
open Outcome (bind_eq_ok)
open Transition

/-! ## The locks, seen by themselves -/

/-- The locks and condition variables of a state, with the events about them. -/
structure Locks where
  owner : QLockPtr → Option TaskPtr
  rwlock : RWLockPtr → RWLock
  rendez : RendezPtr → Option QLockPtr
  waiting : ListId → List TaskPtr
  log : List Event

def St.locks (s : St) : Locks where
  owner := s.owner
  rwlock := s.rwlock
  rendez := s.rendez
  waiting l := if l.isWaiting then s.seq l else []
  log := s.events .locks

namespace Locks

/-- The owners of the queueing locks after an event. -/
def ownerAfter (k : Locks) : Event → QLockPtr → Option TaskPtr
  | .qlockGrant l t => update k.owner l (some t)
  | .qunlock l _ next => update k.owner l next
  | _ => k.owner

/-- The reader-writer locks after an event. -/
def rwlockAfter (k : Locks) : Event → RWLockPtr → RWLock
  | .rlockGrant l _ =>
      update k.rwlock l { k.rwlock l with readers := (k.rwlock l).readers + 1 }
  | .wlockGrant l t => update k.rwlock l { k.rwlock l with writer := some t }
  | .runlock l _ next => update k.rwlock l
      { readers := (k.rwlock l).readers - 1, writer := next.or (k.rwlock l).writer }
  | .wunlock l _ batch next => update k.rwlock l { readers := batch.length, writer := next }
  | _ => k.rwlock

/-- The waiting lists after an event. -/
def waitingAfter (k : Locks) : Event → ListId → List TaskPtr
  | .qlockBlock l t => update k.waiting (.qwaiting l) (k.waiting (.qwaiting l) ++ [t])
  | .qunlock l _ next => update k.waiting (.qwaiting l)
      ((k.waiting (.qwaiting l)).drop next.toList.length)
  | .rlockBlock l t => update k.waiting (.rwaiting l) (k.waiting (.rwaiting l) ++ [t])
  | .wlockBlock l t => update k.waiting (.wwaiting l) (k.waiting (.wwaiting l) ++ [t])
  | .runlock l _ next => update k.waiting (.wwaiting l)
      ((k.waiting (.wwaiting l)).drop next.toList.length)
  | .wunlock l _ batch next =>
      update (update k.waiting (.rwaiting l) ((k.waiting (.rwaiting l)).drop batch.length))
        (.wwaiting l) ((k.waiting (.wwaiting l)).drop next.toList.length)
  | .tasksleep r t => update k.waiting (.waiting r) (k.waiting (.waiting r) ++ [t])
  | .taskwakeup r selected => update k.waiting (.waiting r)
      ((k.waiting (.waiting r)).drop selected.length)
  | _ => k.waiting

def after (k : Locks) (e : Event) : Locks where
  owner := k.ownerAfter e
  rwlock := k.rwlockAfter e
  rendez := k.rendez
  waiting := k.waitingAfter e
  log := k.log ++ [e]

/-- What must hold for an event to happen. -/
def Guard (k : Locks) : Event → Prop
  | .qlockGrant l _ => k.owner l = none
  | .qlockBlock l _ => k.owner l ≠ none
  | .qunlock l _ next => k.owner l ≠ none ∧ next = (k.waiting (.qwaiting l)).head?
  | .rlockGrant l _ => (k.rwlock l).writer = none ∧ k.waiting (.wwaiting l) = []
  | .rlockBlock l t => ¬((k.rwlock l).writer = none ∧ k.waiting (.wwaiting l) = []) ∧
      t ∉ k.waiting (.rwaiting l)
  | .wlockGrant l _ => (k.rwlock l).writer = none ∧ (k.rwlock l).readers = 0
  | .wlockBlock l t => ¬((k.rwlock l).writer = none ∧ (k.rwlock l).readers = 0) ∧
      t ∉ k.waiting (.wwaiting l)
  | .runlock l _ next => next =
      if (k.rwlock l).readers - 1 = 0 then (k.waiting (.wwaiting l)).head? else none
  | .wunlock l _ batch next => (k.rwlock l).writer ≠ none ∧ (k.rwlock l).readers = 0 ∧
      batch = k.waiting (.rwaiting l) ∧
      next = if batch = [] then (k.waiting (.wwaiting l)).head? else none
  | .tasksleep _ _ => True
  | .taskwakeup r selected => ∃ all, selected = wakeSelection all (k.waiting (.waiting r))
  | .sleepReturn _ _ => True
  | _ => False

/-- The locks after some events. -/
def afterAll (k : Locks) (es : List Event) : Locks := es.foldl after k

/-- Events that happened one after the other. -/
structure Run (k : Locks) (es : List Event) (k' : Locks) : Prop where
  result : k' = k.afterAll es
  guard : ∀ before e rest, es = before ++ e :: rest → (k.afterAll before).Guard e

theorem afterAll_snoc (k : Locks) (es : List Event) (e : Event) :
    k.afterAll (es ++ [e]) = (k.afterAll es).after e := by
  simp [afterAll]

theorem Run.nil (k : Locks) : Run k [] k :=
  ⟨rfl, by simp⟩

theorem Run.snoc {k k' : Locks} {es : List Event} {e : Event} (run : Run k es k')
    (guard : k'.Guard e) : Run k (es ++ [e]) (k'.after e) := by
  obtain ⟨rfl, guards⟩ := run
  refine ⟨(afterAll_snoc k es e).symm, ?_⟩
  intro before e' rest split
  rcases List.eq_nil_or_concat rest with rfl | ⟨rest, last, rfl⟩
  · obtain ⟨rfl, last⟩ := List.append_inj' split rfl
    obtain rfl : e = e' := by simpa using last
    exact guard
  · have split' : es ++ [e] = (before ++ e' :: rest) ++ [last] := by simpa using split
    obtain ⟨rfl, -⟩ := List.append_inj' split' rfl
    exact guards before e' rest rfl

theorem Run.one {k : Locks} {e : Event} (guard : k.Guard e) : Run k [e] (k.after e) :=
  (Run.nil k).snoc guard

theorem Run.append {k k₁ k' : Locks} {es es' : List Event} (first : Run k es k₁)
    (second : Run k₁ es' k') : Run k (es ++ es') k' := by
  obtain ⟨rfl, guards⟩ := second
  induction es' using List.reverseRecOn with
  | nil => simpa [afterAll] using first
  | append_singleton es' e ih =>
      rw [afterAll_snoc, ← List.append_assoc]
      apply Run.snoc
      · apply ih
        intro before e' rest split
        exact guards before e' (rest ++ [e]) (by simp [split])
      · exact guards es' e [] rfl

/-- What every event preserves, wherever it stands in the run, the run preserves. -/
theorem Run.invariant (inv : Locks → Prop) {k k' : Locks} {es : List Event}
    (run : Run k es k') (now : inv k)
    (preserved : ∀ before e rest, es = before ++ e :: rest → (k.afterAll before).Guard e →
      inv (k.afterAll before) → inv ((k.afterAll before).after e)) : inv k' := by
  obtain ⟨rfl, guards⟩ := run
  induction es using List.reverseRecOn with
  | nil => exact now
  | append_singleton es e ih =>
      rw [afterAll_snoc]
      apply preserved es e [] rfl (guards es e [] rfl)
      apply ih
      · intro before e' rest split
        exact preserved before e' (rest ++ [e]) (by simp [split])
      · intro before e' rest split
        exact guards before e' (rest ++ [e]) (by simp [split])

/-- The log grows by the events of the run. -/
theorem Run.log {k k' : Locks} {es : List Event} (run : Run k es k') :
    k'.log = k.log ++ es := by
  rw [run.result]
  clear run
  induction es using List.reverseRecOn with
  | nil => simp [afterAll]
  | append_singleton es e ih =>
      rw [afterAll_snoc, ← List.append_assoc, ← ih]
      rfl

end Locks

section

variable {s s' : St} {self : TaskPtr} {flow : Flow}

theorem KeepsLocks.locks (keeps : KeepsLocks s s') : s'.locks = s.locks := by
  have waiting : s'.locks.waiting = s.locks.waiting := by
    funext l
    simp only [St.locks]
    cases isWaiting : l.isWaiting with
    | true => simp only [if_true, keeps.waiting l isWaiting]
    | false => rfl
  rw [St.locks, St.locks, Locks.mk.injEq]
  exact ⟨keeps.owner, keeps.rwlock, keeps.rendez, waiting, keeps.events⟩

/-! ## Waiting lists -/

theorem addtask_waiting {l : ListId} (isWaiting : l.isWaiting = true)
    (added : addtask s l self = .ok s') :
    s'.locks.waiting = update s.locks.waiting l (s.locks.waiting l ++ [self]) := by
  obtain ⟨lists, rfl, -, seqEq, -⟩ := addtask_ok added
  funext l'
  by_cases same : l' = l
  · subst same
    simp [St.locks, isWaiting, seqEq]
  · simp [St.locks, seqEq, same]

theorem Woken.waiting {l : ListId} {woken : List TaskPtr} (woke : Woken s s' l woken)
    (isWaiting : l.isWaiting = true) :
    s'.locks.waiting = update s.locks.waiting l ((s.locks.waiting l).drop woken.length) := by
  funext l'
  by_cases same : l' = l
  · subst same
    simp only [St.locks, isWaiting, if_true, update_self, woke.taken, List.drop_left]
  · simp only [St.locks, update_of_ne same]
    split
    next waits =>
      refine woke.other l' same ?_
      rintro rfl
      cases waits
    next => rfl

/-! ## Operations -/

theorem setOwner_locks (s : St) {l : QLockPtr} {t : TaskPtr} :
    ((s.setOwner l (some t)).log (.qlockGrant l t)).locks =
      s.locks.after (.qlockGrant l t) := by
  simp [St.locks, Locks.after, Locks.ownerAfter, Locks.rwlockAfter, Locks.waitingAfter,
    St.setOwner, St.log, St.events, Event.part]

/-- A marker in the log. -/
theorem sleepReturn_locks (s : St) (r : RendezPtr) (t : TaskPtr) :
    (s.log (.sleepReturn r t)).locks = s.locks.after (.sleepReturn r t) := by
  simp [St.locks, Locks.after, Locks.ownerAfter, Locks.rwlockAfter, Locks.waitingAfter,
    St.log, St.events, Event.part]

/-- The caller joins a waiting list. -/
theorem block_locks {l : ListId} {e : Event} (added : addtask s l self = .ok s')
    (isWaiting : l.isWaiting = true) (isLocks : e.part = .locks)
    (owner : s.locks.ownerAfter e = s.owner) (rwlock : s.locks.rwlockAfter e = s.rwlock)
    (waiting : s.locks.waitingAfter e =
      update s.locks.waiting l (s.locks.waiting l ++ [self])) :
    (s'.log e).locks = s.locks.after e := by
  have joined := addtask_waiting isWaiting added
  obtain ⟨lists, rfl, -⟩ := addtask_ok added
  rw [Locks.after, owner, rwlock, waiting, ← joined]
  simp [St.locks, St.log, St.events, isLocks]

theorem qlockImpl_locks {l : QLockPtr} {block : Bool} {pc : Pc}
    (done : qlockImpl s self l block pc = .ok (s', flow)) :
    (s.locks.Run [.qlockGrant l self] s'.locks ∧ flow = .ret (some 1)) ∨
    (s.locks.Run [] s'.locks ∧ flow = .ret (some 0) ∧ block = false) ∨
    (s.locks.Run [.qlockBlock l self] s'.locks ∧ flow = .switch pc ∧ block = true) := by
  rcases qlockImpl_ok done with
    ⟨free, rfl, rfl⟩ | ⟨-, rfl, rfl, rfl⟩ | ⟨held, rfl, rfl, s₁, added, rfl⟩
  · rw [setOwner_locks]
    exact Or.inl ⟨.one free, rfl⟩
  · exact Or.inr (Or.inl ⟨.nil _, rfl, rfl⟩)
  · rw [block_locks added rfl rfl rfl rfl rfl]
    exact Or.inr (Or.inr ⟨.one held, rfl, rfl⟩)

theorem qunlock_locks {l : QLockPtr} (done : qunlock s self l = .ok s') :
    ∃ next, s.locks.Run [.qunlock l self next] s'.locks := by
  obtain ⟨held, woke, lists, task, s'Eq⟩ := qunlock_ok done
  refine ⟨(s.seq (.qwaiting l)).head?, ?_⟩
  have waiting := woke.waiting rfl
  have result : s'.locks =
      s.locks.after (.qunlock l self (s.seq (.qwaiting l)).head?) := by
    rw [Locks.after, Locks.waitingAfter, ← waiting]
    simp [St.locks, s'Eq, Locks.ownerAfter, Locks.rwlockAfter, St.events, Event.part]
  rw [result]
  exact .one ⟨held, rfl⟩

theorem rlockImpl_locks {l : RWLockPtr} {block : Bool}
    (done : rlockImpl s self l block = .ok (s', flow)) :
    (s.locks.Run [.rlockGrant l self] s'.locks ∧ flow = .ret (some 1)) ∨
    (s.locks.Run [] s'.locks ∧ flow = .ret (some 0) ∧ block = false) ∨
    (s.locks.Run [.rlockBlock l self] s'.locks ∧ flow = .switch (.rlock l) ∧
      block = true) := by
  rcases rlockImpl_ok done with
    ⟨noWriter, noneWaits, rfl, rfl⟩ | ⟨-, rfl, rfl, rfl⟩ | ⟨busy, rfl, rfl, s₁, added, rfl⟩
  · refine Or.inl ⟨?_, rfl⟩
    have result : ((s.setRwlock l { s.rwlock l with
          readers := (s.rwlock l).readers + 1 }).log (.rlockGrant l self)).locks =
        s.locks.after (.rlockGrant l self) := by
      simp [St.locks, Locks.after, Locks.ownerAfter, Locks.rwlockAfter, Locks.waitingAfter,
        St.setRwlock, St.log, St.events, Event.part]
    rw [result]
    exact .one ⟨noWriter, noneWaits⟩
  · exact Or.inr (Or.inl ⟨.nil _, rfl, rfl⟩)
  · rw [block_locks added rfl rfl rfl rfl rfl]
    refine Or.inr (Or.inr ⟨.one ⟨busy, ?_⟩, rfl, rfl⟩)
    obtain ⟨lists, -, free, -⟩ := addtask_ok added
    simp [St.locks, ListId.isWaiting, mem_seq_iff, free]

theorem wlockImpl_locks {l : RWLockPtr} {block : Bool}
    (done : wlockImpl s self l block = .ok (s', flow)) :
    (s.locks.Run [.wlockGrant l self] s'.locks ∧ flow = .ret (some 1)) ∨
    (s.locks.Run [] s'.locks ∧ flow = .ret (some 0) ∧ block = false) ∨
    (s.locks.Run [.wlockBlock l self] s'.locks ∧ flow = .switch (.wlock l) ∧
      block = true) := by
  rcases wlockImpl_ok done with
    ⟨noWriter, noReader, rfl, rfl⟩ | ⟨-, rfl, rfl, rfl⟩ | ⟨busy, rfl, rfl, s₁, added, rfl⟩
  · refine Or.inl ⟨?_, rfl⟩
    have result : ((s.setRwlock l { s.rwlock l with writer := some self }).log
          (.wlockGrant l self)).locks = s.locks.after (.wlockGrant l self) := by
      simp [St.locks, Locks.after, Locks.ownerAfter, Locks.rwlockAfter, Locks.waitingAfter,
        St.setRwlock, St.log, St.events, Event.part]
    rw [result]
    exact .one ⟨noWriter, noReader⟩
  · exact Or.inr (Or.inl ⟨.nil _, rfl, rfl⟩)
  · rw [block_locks added rfl rfl rfl rfl rfl]
    refine Or.inr (Or.inr ⟨.one ⟨busy, ?_⟩, rfl, rfl⟩)
    obtain ⟨lists, -, free, -⟩ := addtask_ok added
    simp [St.locks, ListId.isWaiting, mem_seq_iff, free]

theorem runlock_locks {l : RWLockPtr} (done : runlock s self l = .ok s') :
    ∃ next, s.locks.Run [.runlock l self next] s'.locks := by
  obtain ⟨next, nextEq, woke, lists, task, s'Eq⟩ := runlock_ok done
  refine ⟨next, ?_⟩
  have waiting := woke.waiting rfl
  have result : s'.locks = s.locks.after (.runlock l self next) := by
    rw [Locks.after, Locks.waitingAfter, ← waiting]
    simp [St.locks, s'Eq, Locks.ownerAfter, Locks.rwlockAfter, St.events, Event.part]
  rw [result]
  exact .one nextEq

theorem wunlock_locks {l : RWLockPtr} (done : wunlock s self l = .ok s') :
    ∃ batch next, s.locks.Run [.wunlock l self batch next] s'.locks := by
  obtain ⟨written, noReader, next, nextEq, ⟨s₁, wokeReaders, wokeWriter⟩, lists, task, s'Eq⟩ :=
    wunlock_ok done
  refine ⟨s.seq (.rwaiting l), next, ?_⟩
  have readersGone := wokeReaders.waiting rfl
  have writerGone := wokeWriter.waiting rfl
  have result : s'.locks =
      s.locks.after (.wunlock l self (s.seq (.rwaiting l)) next) := by
    have waiting : s'.locks.waiting =
        s.locks.waitingAfter (.wunlock l self (s.seq (.rwaiting l)) next) := by
      rw [writerGone, readersGone, Locks.waitingAfter]
      simp
    rw [Locks.after, ← waiting]
    simp [St.locks, s'Eq, Locks.ownerAfter, Locks.rwlockAfter, St.events, Event.part]
  rw [result]
  exact .one ⟨written, noReader, rfl, nextEq⟩

theorem tasksleep_locks {r : RendezPtr} (done : tasksleep s self r = .ok (s', flow)) :
    flow = .switch (.tasksleep r) ∧
    ((s.rendez r = none ∧ s.locks.Run [.tasksleep r self] s'.locks) ∨
      ∃ l next, s.rendez r = some l ∧
        s.locks.Run [.tasksleep r self, .qunlock l self next] s'.locks) := by
  obtain ⟨flowEq, s₁, added, rest⟩ := tasksleep_ok done
  have slept : (s₁.log (.tasksleep r self)).locks = s.locks.after (.tasksleep r self) :=
    block_locks added rfl rfl rfl rfl rfl
  refine ⟨flowEq, ?_⟩
  rcases rest with ⟨noLock, rfl⟩ | ⟨l, lockEq, unlocked⟩
  · rw [slept]
    exact Or.inl ⟨noLock, .one trivial⟩
  · obtain ⟨next, run⟩ := qunlock_locks unlocked
    rw [slept] at run
    exact Or.inr ⟨l, next, lockEq, (Locks.Run.one (e := .tasksleep r self) trivial).append run⟩

theorem tasksleepResume_locks {r : RendezPtr}
    (done : tasksleepResume s self r = .ok (s', flow)) :
    (s.rendez r = none ∧ flow = .ret none ∧ s.locks.Run [.sleepReturn r self] s'.locks) ∨
    ∃ l, s.rendez r = some l ∧
      ((flow = .ret none ∧
          s.locks.Run [.qlockGrant l self, .sleepReturn r self] s'.locks) ∨
        (flow = .switch (.tasksleepQlock r l) ∧
          s.locks.Run [.qlockBlock l self] s'.locks)) := by
  rcases tasksleepResume_ok done with
    ⟨noLock, rfl, rfl⟩ | ⟨l, s₁, flow', lockEq, locked, rest⟩
  · rw [sleepReturn_locks]
    exact Or.inl ⟨noLock, rfl, .one trivial⟩
  · refine Or.inr ⟨l, lockEq, ?_⟩
    rcases qlockImpl_locks locked with
      ⟨run, isRet⟩ | ⟨-, -, nonblocking⟩ | ⟨run, isSwitch, -⟩
    · rcases rest with ⟨i, -, rfl, rfl⟩ | ⟨pc, isSwitch, -, -⟩
      · rw [sleepReturn_locks]
        exact Or.inl ⟨rfl, run.snoc (e := .sleepReturn r self) trivial⟩
      · cases isRet.symm.trans isSwitch
    · cases nonblocking
    · rcases rest with ⟨i, isRet, -, -⟩ | ⟨pc, isSwitch', rfl, rfl⟩
      · cases isRet.symm.trans isSwitch
      · obtain rfl := Flow.switch.inj (isSwitch'.symm.trans isSwitch)
        exact Or.inr ⟨rfl, run⟩

theorem taskwakeupImpl_locks {r : RendezPtr} {all : Bool}
    (done : taskwakeupImpl s r all = .ok (s', flow)) :
    ∃ selected, s.locks.Run [.taskwakeup r selected] s'.locks := by
  obtain ⟨-, woke, lists, task, s'Eq⟩ := taskwakeupImpl_ok done
  refine ⟨wakeSelection all (s.seq (.waiting r)), ?_⟩
  have waiting := woke.waiting rfl
  have result : s'.locks =
      s.locks.after (.taskwakeup r (wakeSelection all (s.seq (.waiting r)))) := by
    rw [Locks.after, Locks.waitingAfter, ← waiting]
    simp [St.locks, s'Eq, Locks.ownerAfter, Locks.rwlockAfter, St.events, Event.part]
  rw [result]
  exact .one ⟨all, rfl⟩

end

/-! ## Steps -/

/-- The events that code of `self` causes, and how it goes on. -/
inductive Did (rendez : RendezPtr → Option QLockPtr) (self : TaskPtr) :
    Code → List Event → Flow → Prop where
  | otherCall {c : Call} {flow : Flow} (other : c.part ≠ .locks)
      (elsewhere : flow.pc.part ≠ .locks) : Did rendez self (.call c) [] flow
  | qlock (l : QLockPtr) : Did rendez self (.call (.qlock l)) [.qlockGrant l self] (.ret none)
  | qlockBlock (l : QLockPtr) :
      Did rendez self (.call (.qlock l)) [.qlockBlock l self] (.switch (.qlock l))
  | canqlock (l : QLockPtr) :
      Did rendez self (.call (.canqlock l)) [.qlockGrant l self] (.ret (some 1))
  | canqlockHeld (l : QLockPtr) : Did rendez self (.call (.canqlock l)) [] (.ret (some 0))
  | qunlock (l : QLockPtr) (next : Option TaskPtr) :
      Did rendez self (.call (.qunlock l)) [.qunlock l self next] (.ret none)
  | rlock (l : RWLockPtr) :
      Did rendez self (.call (.rlock l)) [.rlockGrant l self] (.ret none)
  | rlockBlock (l : RWLockPtr) :
      Did rendez self (.call (.rlock l)) [.rlockBlock l self] (.switch (.rlock l))
  | canrlock (l : RWLockPtr) :
      Did rendez self (.call (.canrlock l)) [.rlockGrant l self] (.ret (some 1))
  | canrlockBusy (l : RWLockPtr) : Did rendez self (.call (.canrlock l)) [] (.ret (some 0))
  | wlock (l : RWLockPtr) :
      Did rendez self (.call (.wlock l)) [.wlockGrant l self] (.ret none)
  | wlockBlock (l : RWLockPtr) :
      Did rendez self (.call (.wlock l)) [.wlockBlock l self] (.switch (.wlock l))
  | canwlock (l : RWLockPtr) :
      Did rendez self (.call (.canwlock l)) [.wlockGrant l self] (.ret (some 1))
  | canwlockBusy (l : RWLockPtr) : Did rendez self (.call (.canwlock l)) [] (.ret (some 0))
  | runlock (l : RWLockPtr) (next : Option TaskPtr) :
      Did rendez self (.call (.runlock l)) [.runlock l self next] (.ret none)
  | wunlock (l : RWLockPtr) (batch : List TaskPtr) (next : Option TaskPtr) :
      Did rendez self (.call (.wunlock l)) [.wunlock l self batch next] (.ret none)
  | tasksleep (r : RendezPtr) (noLock : rendez r = none) :
      Did rendez self (.call (.tasksleep r)) [.tasksleep r self] (.switch (.tasksleep r))
  | tasksleepUnlock (r : RendezPtr) (l : QLockPtr) (next : Option TaskPtr)
      (lock : rendez r = some l) :
      Did rendez self (.call (.tasksleep r)) [.tasksleep r self, .qunlock l self next]
        (.switch (.tasksleep r))
  | taskwakeup (r : RendezPtr) (selected : List TaskPtr) (n : Option Int) :
      Did rendez self (.call (.taskwakeup r)) [.taskwakeup r selected] (.ret n)
  | taskwakeupall (r : RendezPtr) (selected : List TaskPtr) (n : Option Int) :
      Did rendez self (.call (.taskwakeupall r)) [.taskwakeup r selected] (.ret n)
  | otherResume {pc : Pc} {flow : Flow} (other : pc.part ≠ .locks)
      (elsewhere : flow.pc.part ≠ .locks) : Did rendez self (.resume pc) [] flow
  | qlockResume (l : QLockPtr) : Did rendez self (.resume (.qlock l)) [] (.ret none)
  | rlockResume (l : RWLockPtr) : Did rendez self (.resume (.rlock l)) [] (.ret none)
  | wlockResume (l : RWLockPtr) : Did rendez self (.resume (.wlock l)) [] (.ret none)
  | tasksleepReturn (r : RendezPtr) (noLock : rendez r = none) :
      Did rendez self (.resume (.tasksleep r)) [.sleepReturn r self] (.ret none)
  | tasksleepLock (r : RendezPtr) (l : QLockPtr) (lock : rendez r = some l) :
      Did rendez self (.resume (.tasksleep r)) [.qlockGrant l self, .sleepReturn r self]
        (.ret none)
  | tasksleepBlock (r : RendezPtr) (l : QLockPtr) (lock : rendez r = some l) :
      Did rendez self (.resume (.tasksleep r)) [.qlockBlock l self]
        (.switch (.tasksleepQlock r l))
  | tasksleepLocked (r : RendezPtr) (l : QLockPtr) :
      Did rendez self (.resume (.tasksleepQlock r l)) [.sleepReturn r self] (.ret none)

/-- The event of a task that gives up the CPU for a lock. -/
def Pc.blockEvent (self : TaskPtr) : Pc → Option Event
  | .qlock l => some (.qlockBlock l self)
  | .tasksleepQlock _ l => some (.qlockBlock l self)
  | .rlock l => some (.rlockBlock l self)
  | .wlock l => some (.wlockBlock l self)
  | _ => none

theorem Did.blocks {rendez : RendezPtr → Option QLockPtr} {self : TaskPtr} {code : Code}
    {es : List Event} {flow : Flow} {e : Event} (did : Did rendez self code es flow)
    (blocks : flow.pc.blockEvent self = some e) : es = [e] := by
  have inLock : flow.pc.part = .locks := by
    cases pcEq : flow.pc <;> simp [pcEq, Pc.blockEvent] at blocks <;> rfl
  cases did
  case otherCall => exact absurd inLock ‹flow.pc.part ≠ _›
  case otherResume => exact absurd inLock ‹flow.pc.part ≠ _›
  all_goals simp [Flow.pc, Pc.blockEvent] at blocks
  all_goals rw [blocks]

section

variable {s s' : St} {self : TaskPtr} {flow : Flow}

theorem KeepsLocks.run (keeps : KeepsLocks s s') : s.locks.Run [] s'.locks := by
  rw [keeps.locks]
  exact .nil _

/-- Only an operation on locks gives up the CPU in one. -/
theorem Call.Switches.locks {c : Call} {pc : Pc} (switches : c.Switches pc)
    (inLock : pc.part = .locks) : c.part = .locks := by
  cases pc <;> simp only [Pc.part, reduceCtorEq] at inLock
  all_goals cases c <;> first | rfl | exact False.elim switches

theorem Pc.Switches.locks {pc pc' : Pc} (switches : pc.Switches pc')
    (inLock : pc'.part = .locks) : pc.part = .locks := by
  cases pc' <;> simp only [Pc.part, reduceCtorEq] at inLock
  all_goals cases pc <;> first | rfl | exact False.elim switches

theorem call_elsewhere {c : Call} (other : c.part ≠ .locks)
    (done : call s self c = .ok (s', flow)) : flow.pc.part ≠ .locks := by
  cases flow with
  | ret r => simp [Flow.pc, Pc.part]
  | switch pc => exact fun inLock => other ((call_switches done).locks inLock)

theorem resume_elsewhere {pc : Pc} {env : Env} (other : pc.part ≠ .locks)
    (done : resume s self env pc = .ok (s', flow)) : flow.pc.part ≠ .locks := by
  cases flow with
  | ret r => simp [Flow.pc, Pc.part]
  | switch pc' => exact fun inLock => other ((resume_switches done).locks inLock)

theorem call_locks {c : Call} (done : call s self c = .ok (s', flow)) :
    ∃ es, Did s.rendez self (.call c) es flow ∧ s.locks.Run es s'.locks := by
  by_cases other : c.part ≠ .locks
  · exact ⟨[], .otherCall other (call_elsewhere other done), (call_keepsLocks other done).run⟩
  have locks : c.part = .locks := not_not.mp other
  cases c <;> simp only [Call.part, reduceCtorEq] at locks
  case qlock l =>
    obtain ⟨flow', inner, rfl⟩ := qlock_ok done
    rcases qlockImpl_locks inner with ⟨run, rfl⟩ | ⟨-, -, nonblocking⟩ | ⟨run, rfl, -⟩
    · exact ⟨_, .qlock l, run⟩
    · cases nonblocking
    · exact ⟨_, .qlockBlock l, run⟩
  case canqlock l =>
    rcases qlockImpl_locks done with ⟨run, rfl⟩ | ⟨run, rfl, -⟩ | ⟨-, -, blocking⟩
    · exact ⟨_, .canqlock l, run⟩
    · exact ⟨_, .canqlockHeld l, run⟩
    · cases blocking
  case qunlock l =>
    obtain ⟨unlocked, rfl⟩ := returning_ok done
    obtain ⟨next, run⟩ := qunlock_locks unlocked
    exact ⟨_, .qunlock l next, run⟩
  case rlock l =>
    obtain ⟨flow', inner, rfl⟩ := rlock_ok done
    rcases rlockImpl_locks inner with ⟨run, rfl⟩ | ⟨-, -, nonblocking⟩ | ⟨run, rfl, -⟩
    · exact ⟨_, .rlock l, run⟩
    · cases nonblocking
    · exact ⟨_, .rlockBlock l, run⟩
  case canrlock l =>
    rcases rlockImpl_locks done with ⟨run, rfl⟩ | ⟨run, rfl, -⟩ | ⟨-, -, blocking⟩
    · exact ⟨_, .canrlock l, run⟩
    · exact ⟨_, .canrlockBusy l, run⟩
    · cases blocking
  case runlock l =>
    obtain ⟨unlocked, rfl⟩ := returning_ok done
    obtain ⟨next, run⟩ := runlock_locks unlocked
    exact ⟨_, .runlock l next, run⟩
  case wlock l =>
    obtain ⟨flow', inner, rfl⟩ := wlock_ok done
    rcases wlockImpl_locks inner with ⟨run, rfl⟩ | ⟨-, -, nonblocking⟩ | ⟨run, rfl, -⟩
    · exact ⟨_, .wlock l, run⟩
    · cases nonblocking
    · exact ⟨_, .wlockBlock l, run⟩
  case canwlock l =>
    rcases wlockImpl_locks done with ⟨run, rfl⟩ | ⟨run, rfl, -⟩ | ⟨-, -, blocking⟩
    · exact ⟨_, .canwlock l, run⟩
    · exact ⟨_, .canwlockBusy l, run⟩
    · cases blocking
  case wunlock l =>
    obtain ⟨unlocked, rfl⟩ := returning_ok done
    obtain ⟨batch, next, run⟩ := wunlock_locks unlocked
    exact ⟨_, .wunlock l batch next, run⟩
  case tasksleep r =>
    obtain ⟨rfl, ⟨noLock, run⟩ | ⟨l, next, lock, run⟩⟩ := tasksleep_locks done
    · exact ⟨_, .tasksleep r noLock, run⟩
    · exact ⟨_, .tasksleepUnlock r l next lock, run⟩
  case taskwakeup r =>
    obtain ⟨rfl, -⟩ := taskwakeupImpl_ok done
    obtain ⟨selected, run⟩ := taskwakeupImpl_locks done
    exact ⟨_, .taskwakeup r selected _, run⟩
  case taskwakeupall r =>
    obtain ⟨rfl, -⟩ := taskwakeupImpl_ok done
    obtain ⟨selected, run⟩ := taskwakeupImpl_locks done
    exact ⟨_, .taskwakeupall r selected _, run⟩

theorem resume_locks {pc : Pc} {env : Env} (done : resume s self env pc = .ok (s', flow)) :
    ∃ es, Did s.rendez self (.resume pc) es flow ∧ s.locks.Run es s'.locks := by
  by_cases other : pc.part ≠ .locks
  · exact ⟨[], .otherResume other (resume_elsewhere other done),
      (resume_keepsLocks other done).run⟩
  have locks : pc.part = .locks := not_not.mp other
  cases pc <;> simp only [Pc.part, reduceCtorEq] at locks
  case qlock l =>
    obtain ⟨resumed, rfl⟩ := returning_ok done
    obtain ⟨-, rfl⟩ := qlockResume_ok resumed
    exact ⟨[], .qlockResume l, .nil _⟩
  case rlock l =>
    obtain ⟨rfl, rfl⟩ := Prod.mk.inj (Except.ok.inj done)
    exact ⟨[], .rlockResume l, .nil _⟩
  case wlock l =>
    obtain ⟨rfl, rfl⟩ := Prod.mk.inj (Except.ok.inj done)
    exact ⟨[], .wlockResume l, .nil _⟩
  case tasksleep r =>
    rcases tasksleepResume_locks done with
      ⟨noLock, rfl, run⟩ | ⟨l, lock, ⟨rfl, run⟩ | ⟨rfl, run⟩⟩
    · exact ⟨_, .tasksleepReturn r noLock, run⟩
    · exact ⟨_, .tasksleepLock r l lock, run⟩
    · exact ⟨_, .tasksleepBlock r l lock, run⟩
  case tasksleepQlock r l =>
    obtain ⟨s₁, resumed, returned⟩ := bind_eq_ok.mp done
    obtain ⟨-, rfl⟩ := qlockResume_ok resumed
    obtain ⟨rfl, rfl⟩ := Prod.mk.inj (Except.ok.inj returned)
    refine ⟨_, .tasksleepLocked r l, ?_⟩
    rw [sleepReturn_locks]
    exact .one trivial

/-- What a step does to the locks, and where it leaves the task that ran. -/
structure LockTurn (s s' : St) (t : TaskPtr) (code : Code) (es : List Event)
    (flow : Flow) : Prop where
  did : Did s.rendez t code es flow
  run : s.locks.Run es s'.locks
  pc : (s'.task t).pc = flow.pc
  others : OthersStay t s s'

theorem step_locks {a : Act} (isEnabled : enabled s a) (stepped : step s a = .ok s') :
    ∃ self code es flow, Acts s a self code ∧ LockTurn s s' self code es flow := by
  cases step_shape isEnabled stepped with
  | call running legal called finished =>
      rename_i c self s₂ flow
      obtain ⟨es, did, run⟩ := call_locks called
      refine ⟨self, .call c, es, flow, .call running, did, ?_, ?_, ?_⟩
      · rw [(finish_frame finished).locks.locks]
        exact run
      · simpa using finish_pc finished self
      · exact finish_othersStay (call_unmoved called) finished
  | dispatch stopped scheduled resumed finished =>
      rename_i env t s₁ s₂ flow
      obtain ⟨es, did, run⟩ := resume_locks resumed
      have before := (taskscheduler_frame scheduled).locks
      rw [before.rendez, taskscheduler_pc scheduled] at did
      obtain ⟨-, isHead, -⟩ := taskscheduler_ok scheduled
      refine ⟨t, _, es, flow, .dispatch stopped isHead, did, ?_, ?_, ?_⟩
      · rw [(finish_frame finished).locks.locks, ← before.locks]
        exact run
      · simpa using finish_pc finished t
      · constructor
        intro u other live blocked
        have stays := finish_othersStay (resume_unmoved resumed) finished
        obtain ⟨live₁, pcEq₁⟩ := stays.pc u other live blocked
        obtain ⟨live₀, pcEq₀⟩ := taskscheduler_unmoved scheduled live₁
        exact ⟨live₀, pcEq₁.trans pcEq₀⟩

theorem step_rendez {a : Act} (isEnabled : enabled s a) (stepped : step s a = .ok s') :
    s'.rendez = s.rendez := by
  obtain ⟨self, code, es, flow, -, turn⟩ := step_locks isEnabled stepped
  have kept : ∀ (k : Locks) (es : List Event), (k.afterAll es).rendez = k.rendez := by
    intro k es
    induction es generalizing k with
    | nil => rfl
    | cons e es ih => exact ih (k.after e)
  have result := congrArg Locks.rendez turn.run.result
  rwa [kept] at result

end

/-- The initial state. -/
theorem main_locks {rendez : RendezPtr → Option QLockPtr} {mem : Bytes.Memory} {t : TaskPtr}
    {s : St} (started : main rendez mem t = .ok s) :
    s.locks = {
      owner := fun _ => none
      rwlock := fun _ => {}
      rendez := rendez
      waiting := fun _ => []
      log := [] } := by
  obtain ⟨id, created⟩ := main_ok started
  rw [(taskcreate_frame created).locks.locks]
  simp [St.locks, St.zero, St.events, Dlist.Dlists.empty]

/-- Only new tasks are live at first, and they are in their own code. -/
theorem main_user {rendez : RendezPtr → Option QLockPtr} {mem : Bytes.Memory} {t u : TaskPtr}
    {s : St} (started : main rendez mem t = .ok s) (live : u ∈ s.alltask) :
    (s.task u).pc.part = .tasks := by
  obtain ⟨id, created⟩ := main_ok started
  by_contra blocked
  have moved := taskcreate_unmoved (s := St.zero rendez mem) rfl created
  obtain ⟨live', -⟩ := moved.pc u live blocked
  simp [St.zero] at live'

end Libtask
