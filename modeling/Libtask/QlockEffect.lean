import Libtask.Frame

/-!
# Effects of the operations on locks

What each function of `qlock.c` and `rendez.c` does when it goes through, as one
lemma per function.
-/

namespace Libtask

open Function (update)
open Outcome (bind_eq_ok)

variable {s s' : St} {self : TaskPtr} {flow : Flow}

/-! ## Queueing locks -/

/-- The lock is taken, or it is held and the caller waits or gives up. -/
theorem qlockImpl_ok {l : QLockPtr} {block : Bool} {pc : Pc}
    (done : qlockImpl s self l block pc = .ok (s', flow)) :
    (s.owner l = none ∧ s' = (s.setOwner l (some self)).log (.qlockGrant l self) ∧
      flow = .ret (some 1)) ∨
    (s.owner l ≠ none ∧ block = false ∧ s' = s ∧ flow = .ret (some 0)) ∨
    (s.owner l ≠ none ∧ block = true ∧ flow = .switch pc ∧
      ∃ s₁, addtask s (.qwaiting l) self = .ok s₁ ∧ s' = s₁.log (.qlockBlock l self)) := by
  unfold qlockImpl at done
  cases ownerEq : s.owner l with
  | none =>
      simp only [ownerEq, Except.ok.injEq, Prod.mk.injEq] at done
      exact Or.inl ⟨rfl, done.1.symm, done.2.symm⟩
  | some owner =>
      simp only [ownerEq] at done
      cases block with
      | false =>
          simp only [Bool.false_eq_true, if_false, Except.ok.injEq, Prod.mk.injEq] at done
          exact Or.inr (Or.inl ⟨by simp, rfl, done.1.symm, done.2.symm⟩)
      | true =>
          simp only [if_true] at done
          obtain ⟨s₁, added, returned⟩ := bind_eq_ok.mp done
          obtain ⟨rfl, rfl⟩ := Prod.mk.inj (Except.ok.inj returned)
          exact Or.inr (Or.inr ⟨by simp, rfl, rfl, s₁, added, rfl⟩)

theorem qlockResume_ok {l : QLockPtr} (done : qlockResume s self l = .ok s') :
    s.owner l = some self ∧ s' = s := by
  unfold qlockResume at done
  split at done
  next owned => exact ⟨owned, (Except.ok.inj done).symm⟩
  next => cases done

theorem qlock_ok {l : QLockPtr} (done : qlock s self l = .ok (s', flow)) :
    ∃ flow', qlockImpl s self l true (.qlock l) = .ok (s', flow') ∧ flow = flow'.void := by
  obtain ⟨⟨s₁, flow'⟩, inner, returned⟩ := bind_eq_ok.mp done
  obtain ⟨rfl, rfl⟩ := Prod.mk.inj (Except.ok.inj returned)
  exact ⟨flow', inner, rfl⟩

/-- The lock passes to the first waiting task, if any. -/
theorem qunlock_ok {l : QLockPtr} (done : qunlock s self l = .ok s') :
    s.owner l ≠ none ∧ Woken s s' (.qwaiting l) (s.seq (.qwaiting l)).head?.toList ∧
      ∃ lists task, s' = { s with
        lists, task
        owner := update s.owner l (s.seq (.qwaiting l)).head?
        trace := s.trace ++ [.qunlock l self (s.seq (.qwaiting l)).head?] } := by
  unfold qunlock at done
  cases ownerEq : s.owner l with
  | none => simp [ownerEq, abort] at done
  | some owner =>
      simp only [ownerEq, head_eq] at done
      cases headEq : (s.seq (.qwaiting l)).head? with
      | none =>
          simp only [headEq, Except.ok.injEq] at done
          subst done
          exact ⟨by simp, Woken.nil rfl rfl, s.lists, s.task, rfl⟩
      | some ready =>
          simp only [headEq] at done
          obtain ⟨s₁, removed, readied⟩ := bind_eq_ok.mp done
          have woke := woken_head (l := .qwaiting l) (by simp)
            (by simpa [St.setOwner, St.log] using headEq) removed readied rfl rfl
          refine ⟨by simp, woke.congr rfl rfl rfl rfl, ?_⟩
          obtain ⟨lists, rfl, -⟩ := deltask_ok removed
          obtain ⟨lists', -, rfl, -⟩ := taskready_ok readied
          exact ⟨lists', _, rfl⟩

/-! ## Reader-writer locks -/

theorem rlockImpl_ok {l : RWLockPtr} {block : Bool}
    (done : rlockImpl s self l block = .ok (s', flow)) :
    ((s.rwlock l).writer = none ∧ s.seq (.wwaiting l) = [] ∧ flow = .ret (some 1) ∧
      s' = (s.setRwlock l { s.rwlock l with readers := (s.rwlock l).readers + 1 }).log
        (.rlockGrant l self)) ∨
    (¬((s.rwlock l).writer = none ∧ s.seq (.wwaiting l) = []) ∧ block = false ∧ s' = s ∧
      flow = .ret (some 0)) ∨
    (¬((s.rwlock l).writer = none ∧ s.seq (.wwaiting l) = []) ∧ block = true ∧
      flow = .switch (.rlock l) ∧
      ∃ s₁, addtask s (.rwaiting l) self = .ok s₁ ∧ s' = s₁.log (.rlockBlock l self)) := by
  unfold rlockImpl at done
  simp only [head_eq, List.head?_eq_none_iff] at done
  split at done
  next quiet =>
    obtain ⟨rfl, rfl⟩ := Prod.mk.inj (Except.ok.inj done)
    exact Or.inl ⟨quiet.1, quiet.2, rfl, rfl⟩
  next busy =>
    cases block with
    | false =>
        simp only [Bool.false_eq_true, if_false, Except.ok.injEq, Prod.mk.injEq] at done
        exact Or.inr (Or.inl ⟨busy, rfl, done.1.symm, done.2.symm⟩)
    | true =>
        simp only [if_true] at done
        obtain ⟨s₁, added, returned⟩ := bind_eq_ok.mp done
        obtain ⟨rfl, rfl⟩ := Prod.mk.inj (Except.ok.inj returned)
        exact Or.inr (Or.inr ⟨busy, rfl, rfl, s₁, added, rfl⟩)

theorem rlock_ok {l : RWLockPtr} (done : rlock s self l = .ok (s', flow)) :
    ∃ flow', rlockImpl s self l true = .ok (s', flow') ∧ flow = flow'.void := by
  obtain ⟨⟨s₁, flow'⟩, inner, returned⟩ := bind_eq_ok.mp done
  obtain ⟨rfl, rfl⟩ := Prod.mk.inj (Except.ok.inj returned)
  exact ⟨flow', inner, rfl⟩

theorem wlockImpl_ok {l : RWLockPtr} {block : Bool}
    (done : wlockImpl s self l block = .ok (s', flow)) :
    ((s.rwlock l).writer = none ∧ (s.rwlock l).readers = 0 ∧ flow = .ret (some 1) ∧
      s' = (s.setRwlock l { s.rwlock l with writer := some self }).log
        (.wlockGrant l self)) ∨
    (¬((s.rwlock l).writer = none ∧ (s.rwlock l).readers = 0) ∧ block = false ∧ s' = s ∧
      flow = .ret (some 0)) ∨
    (¬((s.rwlock l).writer = none ∧ (s.rwlock l).readers = 0) ∧ block = true ∧
      flow = .switch (.wlock l) ∧
      ∃ s₁, addtask s (.wwaiting l) self = .ok s₁ ∧ s' = s₁.log (.wlockBlock l self)) := by
  unfold wlockImpl at done
  simp only at done
  split at done
  next free =>
    obtain ⟨rfl, rfl⟩ := Prod.mk.inj (Except.ok.inj done)
    exact Or.inl ⟨free.1, free.2, rfl, rfl⟩
  next busy =>
    cases block with
    | false =>
        simp only [Bool.false_eq_true, if_false, Except.ok.injEq, Prod.mk.injEq] at done
        exact Or.inr (Or.inl ⟨busy, rfl, done.1.symm, done.2.symm⟩)
    | true =>
        simp only [if_true] at done
        obtain ⟨s₁, added, returned⟩ := bind_eq_ok.mp done
        obtain ⟨rfl, rfl⟩ := Prod.mk.inj (Except.ok.inj returned)
        exact Or.inr (Or.inr ⟨busy, rfl, rfl, s₁, added, rfl⟩)

theorem wlock_ok {l : RWLockPtr} (done : wlock s self l = .ok (s', flow)) :
    ∃ flow', wlockImpl s self l true = .ok (s', flow') ∧ flow = flow'.void := by
  obtain ⟨⟨s₁, flow'⟩, inner, returned⟩ := bind_eq_ok.mp done
  obtain ⟨rfl, rfl⟩ := Prod.mk.inj (Except.ok.inj returned)
  exact ⟨flow', inner, rfl⟩

/-- The first waiting writer gets the lock if there is no reader. -/
theorem handToWriter_ok {l : RWLockPtr} {next : Option TaskPtr}
    (done : handToWriter s l = .ok (s', next)) :
    next = (if (s.rwlock l).readers = 0 then (s.seq (.wwaiting l)).head? else none) ∧
      Woken s s' (.wwaiting l) next.toList ∧
      ∃ lists task, s' = { s with
        lists, task
        rwlock := update s.rwlock l
          { s.rwlock l with writer := next.or (s.rwlock l).writer } } := by
  unfold handToWriter at done
  split at done
  next noReaders =>
    simp only [head_eq] at done
    cases headEq : (s.seq (.wwaiting l)).head? with
    | none =>
        simp only [headEq, Except.ok.injEq, Prod.mk.injEq] at done
        obtain ⟨rfl, rfl⟩ := done
        exact ⟨by simp [noReaders], Woken.nil rfl rfl, s.lists, s.task, by simp⟩
    | some t =>
        simp only [headEq] at done
        obtain ⟨s₁, removed, rest⟩ := bind_eq_ok.mp done
        obtain ⟨s₂, readied, returned⟩ := bind_eq_ok.mp rest
        obtain ⟨rfl, rfl⟩ := Prod.mk.inj (Except.ok.inj returned)
        have woke := woken_head (l := .wwaiting l) (by simp) (by simpa using headEq)
          removed readied rfl rfl
        refine ⟨by simp [noReaders], woke, ?_⟩
        obtain ⟨lists, rfl, -⟩ := deltask_ok removed
        obtain ⟨lists', -, rfl, -⟩ := taskready_ok readied
        exact ⟨lists', _, rfl⟩
  next readers =>
    obtain ⟨rfl, rfl⟩ := Prod.mk.inj (Except.ok.inj done)
    exact ⟨by simp [readers], Woken.nil rfl rfl, s.lists, s.task, by simp⟩

theorem runlock_ok {l : RWLockPtr} (done : runlock s self l = .ok s') :
    ∃ next : Option TaskPtr,
      next = (if (s.rwlock l).readers - 1 = 0 then (s.seq (.wwaiting l)).head? else none) ∧
      Woken s s' (.wwaiting l) next.toList ∧
      ∃ lists task, s' = { s with
        lists, task
        rwlock := update s.rwlock l
          { readers := (s.rwlock l).readers - 1, writer := next.or (s.rwlock l).writer }
        trace := s.trace ++ [.runlock l self next] } := by
  obtain ⟨⟨s₁, next⟩, handed, returned⟩ := bind_eq_ok.mp done
  obtain rfl := Except.ok.inj returned
  obtain ⟨nextEq, woke, lists, task, rfl⟩ := handToWriter_ok handed
  refine ⟨next, by simpa [St.setRwlock] using nextEq, woke.congr rfl rfl rfl rfl,
    lists, task, ?_⟩
  simp [St.setRwlock, St.log]

/-- The loop admits all waiting readers. -/
theorem admitReaders_ok {l : RWLockPtr} {fuel : Nat} {batch : List TaskPtr}
    (done : admitReaders l fuel s = .ok (s', batch)) :
    batch = s.seq (.rwaiting l) ∧ Woken s s' (.rwaiting l) batch ∧
      ∃ lists task, s' = { s with
        lists, task
        rwlock := update s.rwlock l
          { s.rwlock l with readers := (s.rwlock l).readers + batch.length } } := by
  induction fuel generalizing s batch with
  | zero =>
      unfold admitReaders at done
      simp only [head_eq] at done
      split at done
      next headEq =>
        obtain ⟨rfl, rfl⟩ := Prod.mk.inj (Except.ok.inj done)
        exact ⟨(List.head?_eq_none_iff.mp headEq).symm, Woken.nil rfl rfl, s.lists, s.task,
          by simp⟩
      next => cases done
  | succ fuel ih =>
      unfold admitReaders at done
      simp only [head_eq] at done
      split at done
      next headEq =>
        obtain ⟨rfl, rfl⟩ := Prod.mk.inj (Except.ok.inj done)
        exact ⟨(List.head?_eq_none_iff.mp headEq).symm, Woken.nil rfl rfl, s.lists, s.task,
          by simp⟩
      next t headEq =>
        obtain ⟨s₁, removed, rest⟩ := bind_eq_ok.mp done
        obtain ⟨s₂, readied, rest⟩ := bind_eq_ok.mp rest
        obtain ⟨⟨s₃, batch'⟩, looped, returned⟩ := bind_eq_ok.mp rest
        obtain ⟨rfl, rfl⟩ := Prod.mk.inj (Except.ok.inj returned)
        have woke := woken_head (l := .rwaiting l) (by simp) (by simpa using headEq)
          removed readied rfl rfl
        obtain ⟨lists₁, rfl, -⟩ := deltask_ok removed
        obtain ⟨lists₂, -, rfl, -⟩ := taskready_ok readied
        obtain ⟨batchEq, wokeRest, lists₃, task₃, rfl⟩ := ih looped
        refine ⟨?_, woke.append wokeRest, lists₃, task₃, ?_⟩
        · rw [woke.taken, batchEq]
          rfl
        · simp only [St.setRwlock, Function.update_self, Function.update_idem,
            List.length_cons, St.mk.injEq, true_and, and_true]
          congr 2
          omega

/-- The writer leaves: the waiting readers are admitted, or else the next writer
gets the lock. -/
theorem wunlock_ok {l : RWLockPtr} (done : wunlock s self l = .ok s') :
    (s.rwlock l).writer ≠ none ∧ (s.rwlock l).readers = 0 ∧
    ∃ next : Option TaskPtr,
      next = (if s.seq (.rwaiting l) = [] then (s.seq (.wwaiting l)).head? else none) ∧
      (∃ s₁, Woken s s₁ (.rwaiting l) (s.seq (.rwaiting l)) ∧
        Woken s₁ s' (.wwaiting l) next.toList) ∧
      ∃ lists task, s' = { s with
        lists, task
        rwlock := update s.rwlock l
          { readers := (s.seq (.rwaiting l)).length, writer := next }
        trace := s.trace ++ [.wunlock l self (s.seq (.rwaiting l)) next] } := by
  unfold wunlock at done
  split at done
  next => cases done
  next locked =>
    simp only at done
    split at done
    next => cases done
    next noReaders =>
      have readersEq : (s.rwlock l).readers = 0 := by simpa [St.setRwlock] using noReaders
      obtain ⟨⟨s₁, batch⟩, admitted, rest⟩ := bind_eq_ok.mp done
      obtain ⟨⟨s₂, next⟩, handed, returned⟩ := bind_eq_ok.mp rest
      obtain rfl := Except.ok.inj returned
      obtain ⟨batchEq, woke, lists₁, task₁, rfl⟩ := admitReaders_ok admitted
      obtain ⟨nextEq, wokeNext, lists₂, task₂, rfl⟩ := handToWriter_ok handed
      obtain rfl : batch = s.seq (.rwaiting l) := batchEq
      refine ⟨locked, readersEq, next, ?_, ⟨_, woke.congr rfl rfl rfl rfl,
        wokeNext.congr rfl rfl rfl rfl⟩, lists₂, task₂, ?_⟩
      · have sameWriters := woke.other (.wwaiting l) (by simp) (by simp)
        simp only [St.seq, St.setRwlock] at sameWriters
        simpa [St.setRwlock, readersEq, sameWriters] using nextEq
      · simp [St.setRwlock, St.log, readersEq]

/-! ## Condition variables -/

theorem tasksleep_ok {r : RendezPtr} (done : tasksleep s self r = .ok (s', flow)) :
    flow = .switch (.tasksleep r) ∧
    ∃ s₁, addtask s (.waiting r) self = .ok s₁ ∧
      ((s.rendez r = none ∧ s' = s₁.log (.tasksleep r self)) ∨
        ∃ l, s.rendez r = some l ∧ qunlock (s₁.log (.tasksleep r self)) self l = .ok s') := by
  obtain ⟨s₁, added, rest⟩ := bind_eq_ok.mp done
  obtain ⟨lists, rfl, -⟩ := addtask_ok added
  simp only [St.log] at rest
  split at rest
  next l lockEq =>
    obtain ⟨s₂, unlocked, returned⟩ := bind_eq_ok.mp rest
    obtain ⟨rfl, rfl⟩ := Prod.mk.inj (Except.ok.inj returned)
    exact ⟨rfl, _, added, Or.inr ⟨l, lockEq, unlocked⟩⟩
  next lockEq =>
    obtain ⟨rfl, rfl⟩ := Prod.mk.inj (Except.ok.inj rest)
    exact ⟨rfl, _, added, Or.inl ⟨lockEq, rfl⟩⟩

theorem tasksleepResume_ok {r : RendezPtr} (done : tasksleepResume s self r = .ok (s', flow)) :
    (s.rendez r = none ∧ flow = .ret none ∧ s' = s.log (.sleepReturn r self)) ∨
    ∃ l s₁ flow', s.rendez r = some l ∧
      qlockImpl s self l true (.tasksleepQlock r l) = .ok (s₁, flow') ∧
      ((∃ i, flow' = .ret i ∧ flow = .ret none ∧ s' = s₁.log (.sleepReturn r self)) ∨
        ∃ pc, flow' = .switch pc ∧ flow = .switch pc ∧ s' = s₁) := by
  unfold tasksleepResume at done
  split at done
  next l lockEq =>
    obtain ⟨⟨s₁, flow'⟩, locked, rest⟩ := bind_eq_ok.mp done
    refine Or.inr ⟨l, s₁, flow', lockEq, locked, ?_⟩
    cases flow' with
    | ret i =>
        obtain ⟨rfl, rfl⟩ := Prod.mk.inj (Except.ok.inj rest)
        exact Or.inl ⟨i, rfl, rfl, rfl⟩
    | switch pc =>
        obtain ⟨rfl, rfl⟩ := Prod.mk.inj (Except.ok.inj rest)
        exact Or.inr ⟨pc, rfl, rfl, rfl⟩
  next lockEq =>
    obtain ⟨rfl, rfl⟩ := Prod.mk.inj (Except.ok.inj done)
    exact Or.inl ⟨lockEq, rfl, rfl⟩

/-- The tasks that a wake-up selects. -/
def wakeSelection (all : Bool) (waiting : List TaskPtr) : List TaskPtr :=
  if all then waiting else waiting.take 1

/-- The loop wakes all sleepers, or the first one, and counts them. -/
theorem wakeLoop_ok {r : RendezPtr} {all : Bool} {fuel i last : Nat} {woken : List TaskPtr}
    (done : wakeLoop r all fuel i s = .ok (s', last, woken)) (early : all = true ∨ i ≤ 1) :
    woken = (if i = 1 ∧ all = false then [] else wakeSelection all (s.seq (.waiting r))) ∧
      last = i + woken.length ∧ Woken s s' (.waiting r) woken ∧
      ∃ lists task, s' = { s with lists, task } := by
  induction fuel generalizing s i woken with
  | zero =>
      unfold wakeLoop at done
      simp only [head_eq] at done
      split at done
      next single =>
        obtain ⟨rfl, rfl, rfl⟩ : s = s' ∧ i = last ∧ [] = woken := by simpa using done
        exact ⟨by simp [single.1, eq_false_of_ne_true single.2], rfl,
          Woken.nil rfl rfl, s.lists, s.task, rfl⟩
      next =>
        split at done
        next headEq =>
          obtain ⟨rfl, rfl, rfl⟩ : s = s' ∧ i = last ∧ [] = woken := by simpa using done
          have empty : s.seq (.waiting r) = [] := List.head?_eq_none_iff.mp headEq
          exact ⟨by simp [wakeSelection, empty], rfl, Woken.nil rfl rfl, s.lists, s.task, rfl⟩
        next => cases done
  | succ fuel ih =>
      unfold wakeLoop at done
      simp only [head_eq] at done
      split at done
      next single =>
        obtain ⟨rfl, rfl, rfl⟩ : s = s' ∧ i = last ∧ [] = woken := by simpa using done
        exact ⟨by simp [single.1, eq_false_of_ne_true single.2], rfl,
          Woken.nil rfl rfl, s.lists, s.task, rfl⟩
      next going =>
        split at done
        next headEq =>
          obtain ⟨rfl, rfl, rfl⟩ : s = s' ∧ i = last ∧ [] = woken := by simpa using done
          have empty : s.seq (.waiting r) = [] := List.head?_eq_none_iff.mp headEq
          exact ⟨by simp [wakeSelection, empty], rfl, Woken.nil rfl rfl, s.lists, s.task, rfl⟩
        next t headEq =>
          obtain ⟨s₁, removed, rest⟩ := bind_eq_ok.mp done
          obtain ⟨s₂, readied, rest⟩ := bind_eq_ok.mp rest
          obtain ⟨⟨s₃, last', woken'⟩, looped, returned⟩ := bind_eq_ok.mp rest
          obtain ⟨rfl, rfl, rfl⟩ : s₃ = s' ∧ last' = last ∧ t :: woken' = woken := by
            simpa using Except.ok.inj returned
          have woke := woken_head (l := .waiting r) (by simp) (by simpa using headEq)
            removed readied rfl rfl
          obtain ⟨lists₁, rfl, -⟩ := deltask_ok removed
          obtain ⟨lists₂, -, rfl, -⟩ := taskready_ok readied
          have early' : all = true ∨ i + 1 ≤ 1 := by
            cases all with
            | true => exact Or.inl rfl
            | false =>
                right
                have := early.resolve_left (by simp)
                have : i ≠ 1 := fun equal => going ⟨equal, by simp⟩
                omega
          obtain ⟨wokenEq, lastEq, wokeRest, lists₃, task₃, rfl⟩ := ih looped early'
          refine ⟨?_, by simp [lastEq]; omega, woke.append wokeRest, lists₃, task₃, rfl⟩
          have taken := woke.taken
          simp only [List.singleton_append] at taken
          cases all with
          | true => simpa [wakeSelection, taken] using wokenEq
          | false =>
              have zero : i = 0 := by
                have := early'.resolve_left (by simp)
                omega
              subst zero
              simpa [wakeSelection, taken] using wokenEq

theorem taskwakeupImpl_ok {r : RendezPtr} {all : Bool}
    (done : taskwakeupImpl s r all = .ok (s', flow)) :
    flow = .ret (some (wakeSelection all (s.seq (.waiting r))).length) ∧
      Woken s s' (.waiting r) (wakeSelection all (s.seq (.waiting r))) ∧
      ∃ lists task, s' = { s with
        lists, task
        trace := s.trace ++ [.taskwakeup r (wakeSelection all (s.seq (.waiting r)))] } := by
  obtain ⟨⟨s₁, last, woken⟩, looped, returned⟩ := bind_eq_ok.mp done
  obtain ⟨rfl, rfl⟩ := Prod.mk.inj (Except.ok.inj returned)
  obtain ⟨wokenEq, lastEq, woke, lists, task, rfl⟩ := wakeLoop_ok looped (Or.inr (by simp))
  simp only [Nat.zero_ne_one, false_and, if_false] at wokenEq
  subst wokenEq
  exact ⟨by simp [lastEq], woke.congr rfl rfl rfl rfl, lists, task, rfl⟩

/-! ## Frames -/

/-- The operations on locks leave channels and tasks alone. -/
structure LockFrame (s s' : St) : Prop where
  channels : KeepsChannels s s'
  tasks : KeepsTasks s s'

theorem LockFrame.trans {s₁ s₂ s₃ : St} (first : LockFrame s₁ s₂) (second : LockFrame s₂ s₃) :
    LockFrame s₁ s₃ :=
  ⟨first.channels.trans second.channels, first.tasks.trans second.tasks⟩

theorem LockFrame.refl (s : St) : LockFrame s s :=
  ⟨KeepsChannels.refl s, KeepsTasks.refl s⟩

theorem log_lockFrame (s : St) {e : Event} (locks : e.part = .locks) : LockFrame s (s.log e) :=
  ⟨log_keepsChannels s (by simp [locks]), log_keepsTasks s (by simp [locks])⟩

theorem setOwner_lockFrame (s : St) (l : QLockPtr) (t : Option TaskPtr) :
    LockFrame s (s.setOwner l t) :=
  ⟨⟨rfl, rfl, rfl, rfl, rfl⟩, rfl, fun _ => rfl, rfl, rfl⟩

theorem setRwlock_lockFrame (s : St) (l : RWLockPtr) (lock : RWLock) :
    LockFrame s (s.setRwlock l lock) :=
  ⟨⟨rfl, rfl, rfl, rfl, rfl⟩, rfl, fun _ => rfl, rfl, rfl⟩

theorem addtask_lockFrame {l : ListId} (done : addtask s l self = .ok s')
    (notSleeping : l ≠ .sleeping) : LockFrame s s' :=
  ⟨addtask_keepsChannels done, addtask_keepsTasks done notSleeping⟩

theorem qlockImpl_frame {l : QLockPtr} {block : Bool} {pc : Pc}
    (done : qlockImpl s self l block pc = .ok (s', flow)) : LockFrame s s' := by
  rcases qlockImpl_ok done with ⟨-, rfl, -⟩ | ⟨-, -, rfl, -⟩ | ⟨-, -, -, s₁, added, rfl⟩
  · exact (setOwner_lockFrame s l _).trans (log_lockFrame _ rfl)
  · exact .refl _
  · exact (addtask_lockFrame added (by simp)).trans (log_lockFrame _ rfl)

theorem qunlock_frame {l : QLockPtr} (done : qunlock s self l = .ok s') : LockFrame s s' := by
  obtain ⟨-, woke, lists, task, rfl⟩ := qunlock_ok done
  exact ⟨⟨rfl, rfl, rfl, rfl, by simp [St.events, Event.part]⟩,
    woke.keepsTasks (by simp) rfl (by simp [St.events, Event.part])⟩

theorem rlockImpl_frame {l : RWLockPtr} {block : Bool}
    (done : rlockImpl s self l block = .ok (s', flow)) : LockFrame s s' := by
  rcases rlockImpl_ok done with ⟨-, -, -, rfl⟩ | ⟨-, -, rfl, -⟩ | ⟨-, -, -, s₁, added, rfl⟩
  · exact (setRwlock_lockFrame s l _).trans (log_lockFrame _ rfl)
  · exact .refl _
  · exact (addtask_lockFrame added (by simp)).trans (log_lockFrame _ rfl)

theorem wlockImpl_frame {l : RWLockPtr} {block : Bool}
    (done : wlockImpl s self l block = .ok (s', flow)) : LockFrame s s' := by
  rcases wlockImpl_ok done with ⟨-, -, -, rfl⟩ | ⟨-, -, rfl, -⟩ | ⟨-, -, -, s₁, added, rfl⟩
  · exact (setRwlock_lockFrame s l _).trans (log_lockFrame _ rfl)
  · exact .refl _
  · exact (addtask_lockFrame added (by simp)).trans (log_lockFrame _ rfl)

theorem runlock_frame {l : RWLockPtr} (done : runlock s self l = .ok s') : LockFrame s s' := by
  obtain ⟨next, -, woke, lists, task, rfl⟩ := runlock_ok done
  exact ⟨⟨rfl, rfl, rfl, rfl, by simp [St.events, Event.part]⟩,
    woke.keepsTasks (by simp) rfl (by simp [St.events, Event.part])⟩

theorem wunlock_frame {l : RWLockPtr} (done : wunlock s self l = .ok s') : LockFrame s s' := by
  obtain ⟨-, -, next, -, ⟨s₁, wokeReaders, wokeWriter⟩, lists, task, rfl⟩ := wunlock_ok done
  refine ⟨⟨rfl, rfl, rfl, rfl, by simp [St.events, Event.part]⟩, rfl, fun t => ?_, ?_,
    by simp [St.events, Event.part]⟩
  · rw [wokeWriter.task, wokeReaders.task]
    split <;> split <;> rfl
  · rw [wokeWriter.other _ (by simp) (by simp), wokeReaders.other _ (by simp) (by simp)]

theorem tasksleep_frame {r : RendezPtr} (done : tasksleep s self r = .ok (s', flow)) :
    LockFrame s s' := by
  obtain ⟨-, s₁, added, ⟨-, rfl⟩ | ⟨l, -, unlocked⟩⟩ := tasksleep_ok done
  · exact (addtask_lockFrame added (by simp)).trans (log_lockFrame _ rfl)
  · exact ((addtask_lockFrame added (by simp)).trans (log_lockFrame _ rfl)).trans
      (qunlock_frame unlocked)

theorem tasksleepResume_frame {r : RendezPtr}
    (done : tasksleepResume s self r = .ok (s', flow)) : LockFrame s s' := by
  rcases tasksleepResume_ok done with
    ⟨-, -, rfl⟩ | ⟨l, s₁, flow', -, locked, ⟨i, -, -, rfl⟩ | ⟨pc, -, -, rfl⟩⟩
  · exact log_lockFrame _ rfl
  · exact (qlockImpl_frame locked).trans (log_lockFrame _ rfl)
  · exact qlockImpl_frame locked

theorem taskwakeupImpl_frame {r : RendezPtr} {all : Bool}
    (done : taskwakeupImpl s r all = .ok (s', flow)) : LockFrame s s' := by
  obtain ⟨-, woke, lists, task, rfl⟩ := taskwakeupImpl_ok done
  exact ⟨⟨rfl, rfl, rfl, rfl, by simp [St.events, Event.part]⟩,
    woke.keepsTasks (by simp) rfl (by simp [St.events, Event.part])⟩

end Libtask
