import Libtask.LockAborts
import Libtask.Lib.RwLock

/-!
# Reader-writer locks: safety and bounded overtaking

For every lock, the events about it in the trace of a run are accepted by the lock
machine of `RwLock`, whose state is what the fields of the `RWLock` show, provided
that every hold is released by its holder only.
-/

namespace Libtask

open Function (update update_self update_of_ne)
open Transition

/-! ## The history of one lock -/

/-- What an event means for lock `l`. -/
def rwEvent (l : RWLockPtr) : Event → Option (RwLock.RwEvent TaskPtr)
  | .rlockGrant l' t => if l' = l then some (.readGrant t) else none
  | .rlockBlock l' t => if l' = l then some (.readBlock t) else none
  | .wlockGrant l' t => if l' = l then some (.writeGrant t) else none
  | .wlockBlock l' t => if l' = l then some (.writeBlock t) else none
  | .runlock l' t next => if l' = l then some (.readRelease t next) else none
  | .wunlock l' t batch next => if l' = l then some (.writeRelease t batch next) else none
  | _ => none

/-- The history of lock `l`. -/
def rwlog (l : RWLockPtr) (trace : List Event) : List (RwLock.RwEvent TaskPtr) :=
  trace.filterMap (rwEvent l)

/-- Granted, unreleased read holds of a task on lock `l`. -/
abbrev readHolds (l : RWLockPtr) (s : St) (t : TaskPtr) : Nat :=
  RwLock.readHolds (rwlog l s.trace) t

/-- Granted, unreleased write holds of a task on lock `l`. -/
abbrev writeHolds (l : RWLockPtr) (s : St) (t : TaskPtr) : Nat :=
  RwLock.writeHolds (rwlog l s.trace) t

/-- The read hold that a call releases. -/
def Call.runlocks : Call → Option RWLockPtr
  | .runlock l => some l
  | _ => none

/-- The write hold that a call releases. -/
def Call.wunlocks : Call → Option RWLockPtr
  | .wunlock l => some l
  | _ => none

/-- Holds on lock `l` are released by their holders only. -/
def RwlockProtocol (l : RWLockPtr) (s : St) : Act → Prop
  | .call c =>
      (c.runlocks = some l → ∀ t ∈ s.taskrunning, 0 < readHolds l s t) ∧
        (c.wunlocks = some l → ∀ t ∈ s.taskrunning, 0 < writeHolds l s t)
  | .dispatch _ => True

instance (l : RWLockPtr) (s : St) (a : Act) : Decidable (RwlockProtocol l s a) :=
  match a with
  | .call c => inferInstanceAs (Decidable ((c.runlocks = some l → ∀ _ ∈ _, _) ∧
      (c.wunlocks = some l → ∀ _ ∈ _, _)))
  | .dispatch _ => isTrue trivial

theorem rwlog_locks (l : RWLockPtr) (s : St) : rwlog l s.locks.log = rwlog l s.trace := by
  simp only [rwlog, St.locks, St.events, List.filterMap_filter]
  apply List.filterMap_congr
  intro e _
  cases e <;> simp [rwEvent, Event.part]

/-! ## The lock machine -/

/-- The machine for lock `l` is in state `st` after the history of the lock, and its
state is that of the `RWLock`. -/
structure RwlockState (l : RWLockPtr) (k : Locks) (st : RwLock.RwState TaskPtr) : Prop where
  accepted : RwLock.machine.replay (rwlog l k.log) = some st
  readers : (k.rwlock l).readers = st.readers.length
  writer : (k.rwlock l).writer = st.writer
  rwaiting : k.waiting (.rwaiting l) = st.rwaiting
  wwaiting : k.waiting (.wwaiting l) = st.wwaiting

/-- The machine takes a step, or the event is about something else. -/
def RwMoves (l : RWLockPtr) (k' : Locks) (st : RwLock.RwState TaskPtr) (e : Event) : Prop :=
  ∃ st', RwlockState l k' st' ∧
    (st' = st ∨ ∃ e', rwEvent l e = some e' ∧ RwLock.machine.apply st e' = some st')

section

variable {l : RWLockPtr} {k : Locks} {st : RwLock.RwState TaskPtr} {e : Event}

theorem RwlockState.quiet (state : RwlockState l k st) (silent : rwEvent l e = none)
    (rwlock : k.rwlockAfter e l = k.rwlock l)
    (rwaiting : k.waitingAfter e (.rwaiting l) = k.waiting (.rwaiting l))
    (wwaiting : k.waitingAfter e (.wwaiting l) = k.waiting (.wwaiting l)) :
    RwMoves l (k.after e) st e := by
  refine ⟨st, ⟨?_, ?_, ?_, ?_, ?_⟩, Or.inl rfl⟩
  · simpa [rwlog, Locks.after, silent] using state.accepted
  · exact (congrArg RWLock.readers rwlock).trans state.readers
  · exact (congrArg RWLock.writer rwlock).trans state.writer
  · exact rwaiting.trans state.rwaiting
  · exact wwaiting.trans state.wwaiting

theorem RwlockState.moves {e' : RwLock.RwEvent TaskPtr} {st' : RwLock.RwState TaskPtr}
    (state : RwlockState l k st) (isEvent : rwEvent l e = some e')
    (applied : RwLock.machine.apply st e' = some st')
    (rwlock : k.rwlockAfter e l = { readers := st'.readers.length, writer := st'.writer })
    (rwaiting : k.waitingAfter e (.rwaiting l) = st'.rwaiting)
    (wwaiting : k.waitingAfter e (.wwaiting l) = st'.wwaiting) :
    RwMoves l (k.after e) st e := by
  refine ⟨st', ⟨?_, ?_, ?_, rwaiting, wwaiting⟩, Or.inr ⟨e', isEvent, applied⟩⟩
  · have logEq : rwlog l (k.after e).log = rwlog l k.log ++ [e'] := by
      simp [rwlog, Locks.after, isEvent]
    rw [logEq]
    exact Replay.Machine.replay_snoc state.accepted applied
  · exact congrArg RWLock.readers rwlock
  · exact congrArg RWLock.writer rwlock

theorem RwlockState.noWriter_iff (state : RwlockState l k st) :
    st.noWriter ↔ (k.rwlock l).writer = none ∧ k.waiting (.wwaiting l) = [] := by
  rw [state.writer, state.wwaiting]
  rfl

theorem RwlockState.free_iff (state : RwlockState l k st) :
    st.free ↔ (k.rwlock l).writer = none ∧ (k.rwlock l).readers = 0 := by
  rw [state.writer, state.readers]
  simp [RwLock.RwState.free]

/-- The events that are releases. -/
theorem runlock_of_readReleaser {e' : RwLock.RwEvent TaskPtr} {t : TaskPtr}
    (isEvent : rwEvent l e = some e') (releaser : e'.readReleaser = some t) :
    ∃ next, e = .runlock l t next := by
  cases e <;> simp only [rwEvent, Option.ite_none_right_eq_some, reduceCtorEq] at isEvent
  all_goals
    obtain ⟨rfl, isSome⟩ := isEvent
    obtain rfl := Option.some.inj isSome
    simp only [RwLock.RwEvent.readReleaser, reduceCtorEq, Option.some.injEq] at releaser
  obtain rfl := releaser
  exact ⟨_, rfl⟩

theorem wunlock_of_writeReleaser {e' : RwLock.RwEvent TaskPtr} {t : TaskPtr}
    (isEvent : rwEvent l e = some e') (releaser : e'.writeReleaser = some t) :
    ∃ batch next, e = .wunlock l t batch next := by
  cases e <;> simp only [rwEvent, Option.ite_none_right_eq_some, reduceCtorEq] at isEvent
  all_goals
    obtain ⟨rfl, isSome⟩ := isEvent
    obtain rfl := Option.some.inj isSome
    simp only [RwLock.RwEvent.writeReleaser, reduceCtorEq, Option.some.injEq] at releaser
  obtain rfl := releaser
  exact ⟨_, _, rfl⟩

/-- What is left of the waiting writers when the lock is handed on. -/
theorem heir_rest {readers wwaiting : List TaskPtr} {next : Option TaskPtr}
    (isNext : next = RwLock.heir readers wwaiting) :
    wwaiting.drop next.toList.length = if readers = [] then wwaiting.tail else wwaiting := by
  subst isNext
  unfold RwLock.heir
  split
  · cases wwaiting <;> rfl
  · rfl

/-- An event that is about something else. -/
theorem RwlockState.silent (state : RwlockState l k st) (silent : rwEvent l e = none) :
    RwMoves l (k.after e) st e := by
  refine state.quiet silent ?_ ?_ ?_
  · cases e <;> simp_all [rwEvent, Locks.rwlockAfter, Ne.symm]
  · cases e <;> simp_all [rwEvent, Locks.waitingAfter, Ne.symm]
  · cases e <;> simp_all [rwEvent, Locks.waitingAfter, Ne.symm]

theorem RwlockState.rlockGrant {t : TaskPtr} (state : RwlockState l k st)
    (guard : k.Guard (.rlockGrant l t)) : RwMoves l (k.after (.rlockGrant l t)) st
      (.rlockGrant l t) := by
  obtain ⟨st', applied, readersIs, writerIs, rwaitingIs, wwaitingIs⟩ :=
    RwLock.apply_readGrant t (state.noWriter_iff.mpr guard)
  apply state.moves (by simp [rwEvent]) applied
  · simp [Locks.rwlockAfter, readersIs, writerIs, state.readers, state.writer]
  · simp [Locks.waitingAfter, rwaitingIs, state.rwaiting]
  · simp [Locks.waitingAfter, wwaitingIs, state.wwaiting]

theorem RwlockState.rlockBlock {t : TaskPtr} (state : RwlockState l k st)
    (guard : k.Guard (.rlockBlock l t)) : RwMoves l (k.after (.rlockBlock l t)) st
      (.rlockBlock l t) := by
  obtain ⟨busy, fresh⟩ := guard
  obtain ⟨st', applied, readersIs, writerIs, rwaitingIs, wwaitingIs⟩ :=
    RwLock.apply_readBlock t (mt state.noWriter_iff.mp busy) (state.rwaiting ▸ fresh)
  apply state.moves (by simp [rwEvent]) applied
  · simp [Locks.rwlockAfter, readersIs, writerIs, ← state.readers, ← state.writer]
  · simp [Locks.waitingAfter, rwaitingIs, state.rwaiting]
  · simp [Locks.waitingAfter, wwaitingIs, state.wwaiting]

theorem RwlockState.wlockGrant {t : TaskPtr} (state : RwlockState l k st)
    (guard : k.Guard (.wlockGrant l t)) : RwMoves l (k.after (.wlockGrant l t)) st
      (.wlockGrant l t) := by
  obtain ⟨st', applied, readersIs, writerIs, rwaitingIs, wwaitingIs⟩ :=
    RwLock.apply_writeGrant t (state.free_iff.mpr guard)
  apply state.moves (by simp [rwEvent]) applied
  · simp [Locks.rwlockAfter, readersIs, writerIs, guard.2]
  · simp [Locks.waitingAfter, rwaitingIs, state.rwaiting]
  · simp [Locks.waitingAfter, wwaitingIs, state.wwaiting]

theorem RwlockState.wlockBlock {t : TaskPtr} (state : RwlockState l k st)
    (guard : k.Guard (.wlockBlock l t)) : RwMoves l (k.after (.wlockBlock l t)) st
      (.wlockBlock l t) := by
  obtain ⟨busy, fresh⟩ := guard
  obtain ⟨st', applied, readersIs, writerIs, rwaitingIs, wwaitingIs⟩ :=
    RwLock.apply_writeBlock t (mt state.free_iff.mp busy) (state.wwaiting ▸ fresh)
  apply state.moves (by simp [rwEvent]) applied
  · simp [Locks.rwlockAfter, readersIs, writerIs, ← state.readers, ← state.writer]
  · simp [Locks.waitingAfter, rwaitingIs, state.rwaiting]
  · simp [Locks.waitingAfter, wwaitingIs, state.wwaiting]

theorem RwlockState.runlock {t : TaskPtr} {next : Option TaskPtr} (state : RwlockState l k st)
    (guard : k.Guard (.runlock l t next)) (held : t ∈ st.readers) :
    RwMoves l (k.after (.runlock l t next)) st (.runlock l t next) := by
  have count : ((st.readers.erase t).length : Int) = (k.rwlock l).readers - 1 := by
    have positive := List.length_pos_of_mem held
    rw [state.readers, List.length_erase_of_mem held]
    omega
  have last : (k.rwlock l).readers - 1 = 0 ↔ st.readers.erase t = [] := by
    rw [← count]
    simp
  have noWriter : st.writer = none := by
    by_contra writer
    simp [st.writer_alone writer] at held
  have isNext : next = RwLock.heir (st.readers.erase t) st.wwaiting := by
    have nextEq : next = _ := guard
    simp only [last, state.wwaiting] at nextEq
    exact nextEq
  obtain ⟨st', applied, readersIs, writerIs, rwaitingIs, wwaitingIs⟩ :=
    RwLock.apply_readRelease t held isNext
  apply state.moves (by simp [rwEvent]) applied
  · simp [Locks.rwlockAfter, readersIs, writerIs, count, state.writer, noWriter]
  · simp [Locks.waitingAfter, rwaitingIs, state.rwaiting]
  · simp [Locks.waitingAfter, wwaitingIs, state.wwaiting, heir_rest isNext]

theorem RwlockState.wunlock {t : TaskPtr} {batch : List TaskPtr} {next : Option TaskPtr}
    (state : RwlockState l k st) (guard : k.Guard (.wunlock l t batch next))
    (held : st.writer = some t) :
    RwMoves l (k.after (.wunlock l t batch next)) st (.wunlock l t batch next) := by
  obtain ⟨-, -, rfl, nextEq⟩ := guard
  rw [state.rwaiting, state.wwaiting] at nextEq
  obtain ⟨st', applied, readersIs, writerIs, rwaitingIs, wwaitingIs⟩ :=
    RwLock.apply_writeRelease t held nextEq
  rw [← state.rwaiting] at applied
  apply state.moves (by simp [rwEvent]) applied
  · simp [Locks.rwlockAfter, readersIs, writerIs, state.rwaiting]
  · simp [Locks.waitingAfter, rwaitingIs]
  · simp [Locks.waitingAfter, wwaitingIs, state.wwaiting, heir_rest nextEq]

/-- Each event is one step of the machine, or is about something else. -/
theorem RwlockState.step (state : RwlockState l k st) (guard : k.Guard e)
    (reads : ∀ t next, e = .runlock l t next → t ∈ st.readers)
    (writes : ∀ t batch next, e = .wunlock l t batch next → st.writer = some t) :
    RwMoves l (k.after e) st e := by
  cases isEvent : rwEvent l e with
  | none => exact state.silent isEvent
  | some e' =>
      cases e <;> simp only [rwEvent, Option.ite_none_right_eq_some, reduceCtorEq] at isEvent
      all_goals obtain ⟨rfl, -⟩ := isEvent
      case rlockGrant => exact state.rlockGrant guard
      case rlockBlock => exact state.rlockBlock guard
      case wlockGrant => exact state.wlockGrant guard
      case wlockBlock => exact state.wlockBlock guard
      case runlock => exact state.runlock guard (reads _ _ rfl)
      case wunlock => exact state.wunlock guard (writes _ _ _ rfl)

end

/-! ## The invariant -/

/-- Who releases a read hold. -/
theorem Did.runlocks {rendez : RendezPtr → Option QLockPtr} {self t : TaskPtr} {code : Code}
    {es before rest : List Event} {flow : Flow} {l : RWLockPtr} {next : Option TaskPtr}
    (did : Did rendez self code es flow) (split : es = before ++ .runlock l t next :: rest) :
    t = self ∧ before = [] ∧ code = .call (.runlock l) := by
  cases did
  case runlock l' next' =>
    cases before with
    | nil =>
        simp only [List.nil_append, List.cons.injEq, Event.runlock.injEq] at split
        obtain ⟨⟨rfl, rfl, rfl⟩, -⟩ := split
        exact ⟨rfl, rfl, rfl⟩
    | cons e before => simp at split
  all_goals
    rcases before with _ | ⟨e, _ | ⟨e', before⟩⟩ <;> simp at split

/-- Who releases a write hold. -/
theorem Did.wunlocks {rendez : RendezPtr → Option QLockPtr} {self t : TaskPtr} {code : Code}
    {es before rest : List Event} {flow : Flow} {l : RWLockPtr} {batch : List TaskPtr}
    {next : Option TaskPtr} (did : Did rendez self code es flow)
    (split : es = before ++ .wunlock l t batch next :: rest) :
    t = self ∧ before = [] ∧ code = .call (.wunlock l) := by
  cases did
  case wunlock l' batch' next' =>
    cases before with
    | nil =>
        simp only [List.nil_append, List.cons.injEq, Event.wunlock.injEq] at split
        obtain ⟨⟨rfl, rfl, rfl, rfl⟩, -⟩ := split
        exact ⟨rfl, rfl, rfl⟩
    | cons e before => simp at split
  all_goals
    rcases before with _ | ⟨e, _ | ⟨e', before⟩⟩ <;> simp at split

theorem Did.asksRead {rendez : RendezPtr → Option QLockPtr} {self : TaskPtr} {code : Code}
    {es : List Event} {flow : Flow} {l : RWLockPtr}
    (did : Did rendez self code es flow) (asks : flow.pc = .rlock l) :
    es = [.rlockBlock l self] :=
  did.blocks (by rw [asks]; rfl)

theorem Did.asksWrite {rendez : RendezPtr → Option QLockPtr} {self : TaskPtr} {code : Code}
    {es : List Event} {flow : Flow} {l : RWLockPtr}
    (did : Did rendez self code es flow) (asks : flow.pc = .wlock l) :
    es = [.wlockBlock l self] :=
  did.blocks (by rw [asks]; rfl)

/-- Whoever gave up the CPU for the lock in state `s` still waits in machine state `st`,
or has the hold that it asked for. -/
structure RwClaims (l : RWLockPtr) (s : St) (st : RwLock.RwState TaskPtr) (t : TaskPtr) :
    Prop where
  read : (s.task t).pc = .rlock l → t ∈ st.rwaiting ∨ t ∈ st.readers
  write : (s.task t).pc = .wlock l → t ∈ st.wwaiting ∨ st.writer = some t

/-- The lock machine follows lock `l`, and the claims of the tasks are kept. -/
def RwlockInv (l : RWLockPtr) (s : St) : Prop :=
  ∃ st, RwlockState l s.locks st ∧ ∀ t ∈ s.alltask, RwClaims l s st t

section

variable {l : RWLockPtr} {s s' : St} {a : Act}

theorem RwlockState.readHolds_eq {st : RwLock.RwState TaskPtr}
    (state : RwlockState l s.locks st) (t : TaskPtr) : readHolds l s t = st.readers.count t := by
  have accepted := state.accepted
  rw [rwlog_locks] at accepted
  exact RwLock.readHolds_eq accepted t

theorem RwlockState.writeHolds_eq {st : RwLock.RwState TaskPtr}
    (state : RwlockState l s.locks st) (t : TaskPtr) :
    writeHolds l s t = st.writer.toList.count t := by
  have accepted := state.accepted
  rw [rwlog_locks] at accepted
  exact RwLock.writeHolds_eq accepted t

theorem RwlockState.writer_iff {st : RwLock.RwState TaskPtr}
    (state : RwlockState l s.locks st) (t : TaskPtr) :
    0 < writeHolds l s t ↔ st.writer = some t := by
  rw [state.writeHolds_eq, List.count_pos_iff, Option.mem_toList]

theorem main_rwlock {rendez : RendezPtr → Option QLockPtr} {mem : Bytes.Memory} {t : TaskPtr}
    (started : main rendez mem t = .ok s) : RwlockInv l s := by
  refine ⟨RwLock.rwInit, ?_, fun u live => ?_⟩
  · rw [main_locks started]
    exact ⟨rfl, rfl, rfl, rfl, rfl⟩
  · have user := main_user started live
    constructor
    · intro pcEq
      simp [pcEq, Pc.part] at user
    · intro pcEq
      simp [pcEq, Pc.part] at user

/-- The machine follows each step, and the claims of the tasks that do not run are
kept. -/
theorem RwlockInv.turn {t : TaskPtr} {code : Code} {es : List Event} {flow : Flow}
    (inv : RwlockInv l s) (acts : Acts s a t code) (turn : LockTurn s s' t code es flow)
    (protocol : RwlockProtocol l s a) :
    ∃ st, RwlockState l s'.locks st ∧ ∀ u ∈ s.alltask, u ≠ t → RwClaims l s st u := by
  refine turn.run.invariant (fun k => ∃ st, RwlockState l k st ∧
    ∀ u ∈ s.alltask, u ≠ t → RwClaims l s st u) ?_ ?_
  · obtain ⟨st, state, claims⟩ := inv
    exact ⟨st, state, fun u live _ => claims u live⟩
  · rintro before e rest split guard ⟨st, state, claims⟩
    have reads : ∀ u next, e = .runlock l u next → u = t ∧ u ∈ st.readers := by
      rintro u next rfl
      obtain ⟨rfl, rfl, rfl⟩ := turn.did.runlocks split
      cases acts with
      | call running =>
          have holds := protocol.1 rfl u running
          have state : RwlockState l s.locks st := state
          rw [state.readHolds_eq] at holds
          exact ⟨rfl, List.count_pos_iff.mp holds⟩
    have writes : ∀ u batch next, e = .wunlock l u batch next →
        u = t ∧ st.writer = some u := by
      rintro u batch next rfl
      obtain ⟨rfl, rfl, rfl⟩ := turn.did.wunlocks split
      cases acts with
      | call running =>
          have state : RwlockState l s.locks st := state
          exact ⟨rfl, (state.writer_iff u).mp (protocol.2 rfl u running)⟩
    obtain ⟨st', state', rfl | ⟨e', isEvent, applied⟩⟩ :=
      state.step guard (fun u next is => (reads u next is).2)
        (fun u batch next is => (writes u batch next is).2)
    · exact ⟨st', state', claims⟩
    · refine ⟨st', state', fun u live other => ⟨fun pcEq => ?_, fun pcEq => ?_⟩⟩
      · apply RwLock.reader_kept applied _ ((claims u live other).read pcEq)
        intro isReleaser
        obtain ⟨next, is⟩ := runlock_of_readReleaser isEvent isReleaser
        exact other (reads u next is).1
      · apply RwLock.writer_kept applied _ ((claims u live other).write pcEq)
        intro isReleaser
        obtain ⟨batch, next, is⟩ := wunlock_of_writeReleaser isEvent isReleaser
        exact other (writes u batch next is).1

theorem RwlockInv.step (inv : RwlockInv l s) (isEnabled : enabled s a)
    (protocol : RwlockProtocol l s a) (stepped : Libtask.step s a = .ok s') :
    RwlockInv l s' := by
  obtain ⟨t, code, es, flow, acts, turn⟩ := step_locks isEnabled stepped
  obtain ⟨st, state, claims⟩ := inv.turn acts turn protocol
  refine ⟨st, state, fun u live => ?_⟩
  by_cases isT : u = t
  · subst isT
    constructor
    · intro asks
      rw [turn.pc] at asks
      have blocked := turn.did.asksRead asks
      left
      rw [← state.rwaiting, turn.run.result, blocked]
      simp [Locks.afterAll, Locks.after, Locks.waitingAfter]
    · intro asks
      rw [turn.pc] at asks
      have blocked := turn.did.asksWrite asks
      left
      rw [← state.wwaiting, turn.run.result, blocked]
      simp [Locks.afterAll, Locks.after, Locks.waitingAfter]
  · have stays : (s'.task u).pc.part = .locks → u ∈ s.alltask ∧ (s'.task u).pc = (s.task u).pc := by
      intro inLock
      exact turn.others.pc u isT live (by simp [inLock])
    constructor
    · intro asks
      obtain ⟨live', pcEq⟩ := stays (by rw [asks]; rfl)
      exact (claims u live' isT).read (pcEq ▸ asks)
    · intro asks
      obtain ⟨live', pcEq⟩ := stays (by rw [asks]; rfl)
      exact (claims u live' isT).write (pcEq ▸ asks)

theorem reachable_rwlock (reachable : Reachable (RwlockProtocol l) s) : RwlockInv l s := by
  apply reachable.invariant (RwlockInv l)
  · rintro s ⟨rendez, mem, t, started⟩
    exact main_rwlock started
  · intro s a s' _ inv isEnabled protocol stepped
    exact inv.step isEnabled protocol stepped

end

/-! ## Safety -/

/-- The checks of `wunlock` are passed by whoever has the write hold. -/
theorem RwlockState.wunlock_checked {l : RWLockPtr} {s : St} {st : RwLock.RwState TaskPtr}
    {a : Act} (state : RwlockState l s.locks st) (isEnabled : enabled s a)
    (protocol : RwlockProtocol l s a) :
    Libtask.step s a ≠ .error (.abort (.wunlockNotLocked l)) ∧
      Libtask.step s a ≠ .error (.abort (.wunlockReaders l)) := by
  have readersEq : (s.rwlock l).readers = st.readers.length := state.readers
  have writerEq : (s.rwlock l).writer = st.writer := state.writer
  have holder : a = .call (.wunlock l) → ∃ t, st.writer = some t := by
    rintro rfl
    obtain ⟨self, running⟩ := Option.isSome_iff_exists.mp isEnabled.1
    exact ⟨self, (state.writer_iff self).mp (protocol.2 rfl self running)⟩
  constructor
  · intro stopped
    cases step_abort stopped trivial with
    | wunlockNotLocked isWhy noWriter =>
        cases isWhy
        obtain ⟨t, writes⟩ := holder rfl
        rw [writerEq, writes] at noWriter
        cases noWriter
    | qlockOops isHead asks isWhy => cases isWhy
    | qunlockOwner unlocks isWhy => cases isWhy
    | wunlockReaders isWhy => cases isWhy
  · intro stopped
    cases step_abort stopped trivial with
    | wunlockReaders isWhy readers =>
        cases isWhy
        obtain ⟨t, writes⟩ := holder rfl
        rw [readersEq, st.writer_alone (by simp [writes])] at readers
        exact readers rfl
    | qlockOops isHead asks isWhy => cases isWhy
    | qunlockOwner unlocks isWhy => cases isWhy
    | wunlockNotLocked isWhy => cases isWhy

/-- In every run in which holds on lock `l` are released by their holders only: the
counter is the number of granted, unreleased read holds and the writer is the task
with the write hold; a writer excludes readers; nobody waits for a lock that is free
or, to read, for one that no writer has or waits for; whoever is woken from waiting
for the lock holds it as it asked; and no check of `wunlock` fails. -/
theorem rwlock_safe (l : RWLockPtr) {s : St} (reachable : Reachable (RwlockProtocol l) s) :
    ((s.rwlock l).readers + (RwLock.readReleases (rwlog l s.trace)).length =
      (RwLock.readGrants (rwlog l s.trace)).length) ∧
    (∀ t, (RwLock.readReleases (rwlog l s.trace)).count t ≤
      (RwLock.readGrants (rwlog l s.trace)).count t) ∧
    (RwLock.writeGrants (rwlog l s.trace) =
      RwLock.writeReleases (rwlog l s.trace) ++ (s.rwlock l).writer.toList) ∧
    (∀ t, (s.rwlock l).writer = some t ↔ 0 < writeHolds l s t) ∧
    ((s.rwlock l).writer ≠ none → (s.rwlock l).readers = 0) ∧
    (s.seq (.wwaiting l) ≠ [] → (s.rwlock l).writer ≠ none ∨ (s.rwlock l).readers > 0) ∧
    (s.seq (.rwaiting l) ≠ [] → (s.rwlock l).writer ≠ none ∨ s.seq (.wwaiting l) ≠ []) ∧
    (∀ t, t ∈ s.seq .taskrunqueue → (s.task t).pc = .rlock l → 0 < readHolds l s t) ∧
    (∀ t, t ∈ s.seq .taskrunqueue → (s.task t).pc = .wlock l → 0 < writeHolds l s t) ∧
    ∀ a, enabled s a → RwlockProtocol l s a →
      step s a ≠ .error (.abort (.wunlockNotLocked l)) ∧
        step s a ≠ .error (.abort (.wunlockReaders l)) := by
  obtain ⟨st, state, claims⟩ := reachable_rwlock reachable
  have global := reachable_inv reachable
  have accepted := state.accepted
  rw [rwlog_locks] at accepted
  have readersEq : (s.rwlock l).readers = st.readers.length := state.readers
  have writerEq : (s.rwlock l).writer = st.writer := state.writer
  have rwaitingEq : s.seq (.rwaiting l) = st.rwaiting := state.rwaiting
  have wwaitingEq : s.seq (.wwaiting l) = st.wwaiting := state.wwaiting
  have perm := RwLock.readGrants_perm accepted
  have elsewhere : ∀ t l', t ∈ s.seq .taskrunqueue → t ∈ s.seq l' → l' = .taskrunqueue := by
    intro t l' ready waits
    rw [mem_seq_iff] at ready waits
    exact Option.some.inj (waits.symm.trans ready)
  have isLive : ∀ t, t ∈ s.seq .taskrunqueue → t ∈ s.alltask :=
    fun t ready => (global.listed t).live _ ((mem_seq_iff s t _).mp ready)
  refine ⟨?_, ?_, ?_, ?_, ?_, ?_, ?_, ?_, ?_, ?_⟩
  · have lengths := perm.length_eq
    rw [List.length_append] at lengths
    rw [readersEq, lengths]
    push_cast
    exact Int.add_comm _ _
  · intro t
    rw [perm.count_eq, List.count_append]
    exact Nat.le_add_right _ _
  · rw [writerEq]
    exact RwLock.writeGrants_eq accepted
  · intro t
    rw [writerEq]
    exact (state.writer_iff t).symm
  · intro written
    rw [readersEq, st.writer_alone (writerEq ▸ written)]
    rfl
  · intro waits
    rw [writerEq, readersEq]
    refine (st.wwaiting_held (wwaitingEq ▸ waits)).imp_right fun readers => ?_
    exact_mod_cast List.length_pos_iff.mpr readers
  · intro waits
    rw [writerEq, wwaitingEq]
    exact st.rwaiting_held (rwaitingEq ▸ waits)
  · intro t ready asks
    rcases (claims t (isLive t ready)).read asks with waits | reads
    · cases elsewhere t _ ready (rwaitingEq ▸ waits)
    · rw [state.readHolds_eq]
      exact List.count_pos_iff.mpr reads
  · intro t ready asks
    rcases (claims t (isLive t ready)).write asks with waits | writes
    · cases elsewhere t _ ready (wwaitingEq ▸ waits)
    · exact (state.writer_iff t).mpr writes
  · intro a isEnabled protocol
    exact state.wunlock_checked isEnabled protocol

/-- A run in which a reader and a writer wait, and the leaving writer admits the
reader. -/
theorem rwlock_safe_batch : ∃ s : St, readHolds 5 s 2 = 1 ∧ s.seq (.wwaiting 5) = [3] ∧
    ((s.rwlock 5).writer ≠ none ∨ (s.rwlock 5).readers > 0) := by
  obtain ⟨s, checked, reachable⟩ := exists_run (RwlockProtocol 5) (fun _ => none)
    [.dispatch {}, .call (.taskcreate (some 2)), .call (.taskcreate (some 3)),
      .call (.wlock 5), .call .taskyield, .dispatch {}, .call (.rlock 5),
      .dispatch {}, .call (.wlock 5), .dispatch {}, .call (.wunlock 5)]
    (fun s => decide (readHolds 5 s 2 = 1) && decide (s.seq (.wwaiting 5) = [3]))
    (by decide +kernel)
  simp only [Bool.and_eq_true, decide_eq_true_eq] at checked
  have waits : s.seq (.wwaiting 5) ≠ [] := by rw [checked.2]; exact List.cons_ne_nil _ _
  exact ⟨s, checked.1, checked.2, (rwlock_safe 5 reachable).2.2.2.2.2.1 waits⟩

/-! ## Bounded overtaking -/

section

variable {l : RWLockPtr} {s s' s₀ s₁ s₂ : St} {t : TaskPtr}

/-- The history of a lock grows. -/
theorem reaches_rwlog {allowed : St → Act → Prop} (reaches : Reaches runtime allowed s s') :
    ∃ later, rwlog l s'.trace = rwlog l s.trace ++ later := by
  induction reaches with
  | refl => exact ⟨[], (List.append_nil _).symm⟩
  | step before isEnabled kept stepped ih =>
      obtain ⟨later, laterEq⟩ := ih
      obtain ⟨self, code, es, flow, -, turn⟩ := step_locks isEnabled stepped
      refine ⟨later ++ rwlog l es, ?_⟩
      rw [← rwlog_locks, turn.run.log, rwlog, List.filterMap_append, ← rwlog, rwlog_locks,
        laterEq, List.append_assoc]
      rfl

/-- The event of a call that blocked. -/
theorem blocked_rwlog {c : Call} {e : Event} (running : s.taskrunning = some t)
    (isLegal : legal s c = true) (stepped : step s (.call c) = .ok s')
    (blocked : ∀ es flow, Did s.rendez t (.call c) es flow → flow.pc = (s'.task t).pc →
      es = [e]) : rwlog l s'.trace = rwlog l s.trace ++ rwlog l [e] := by
  have isEnabled : enabled s (.call c) := ⟨by simp [running], isLegal⟩
  obtain ⟨self, code, es, flow, acts, turn⟩ := step_locks isEnabled stepped
  cases acts with
  | call running' =>
      obtain rfl : t = self := Option.some.inj (running.symm.trans running')
      have esEq := blocked es flow turn.did turn.pc.symm
      rw [← rwlog_locks, turn.run.log, esEq, rwlog, List.filterMap_append, ← rwlog, rwlog_locks]
      rfl

end

/-- For every lock whose holds are released by their holders only: while a task that
blocked in `rlock` waits, at most one write hold is granted.  While a task that blocked
in `wlock` waits, the write holds go to the writers that waited before it, in their
order, and to all of them before it; no call is granted the lock directly.  Between two
write grants at most one batch of readers is admitted. -/
theorem rwlock_bounded_overtaking (l : RWLockPtr) {s₀ s₁ s₂ : St} {t : TaskPtr}
    (reachable : Reachable (RwlockProtocol l) s₀) (running : s₀.taskrunning = some t)
    (reaches : Reaches runtime (RwlockProtocol l) s₁ s₂) :
    (step s₀ (.call (.rlock l)) = .ok s₁ → (s₁.task t).pc = .rlock l →
      ∃ later, rwlog l s₂.trace = rwlog l s₁.trace ++ later ∧
        ∀ during rest, later = during ++ rest → t ∉ RwLock.readGrants during →
          (RwLock.writeGrants during).length ≤ 1) ∧
    (step s₀ (.call (.wlock l)) = .ok s₁ → (s₁.task t).pc = .wlock l →
      ∃ later, rwlog l s₂.trace = rwlog l s₁.trace ++ later ∧
        ∀ during rest, later = during ++ rest → t ∉ RwLock.writeGrants during →
          RwLock.writeGrants during <+: s₀.seq (.wwaiting l) ∧
          (∀ e rest', rest = e :: rest' → e.writeGrantee = some t →
            RwLock.writeGrants during = s₀.seq (.wwaiting l)) ∧
          ∀ u, RwLock.RwEvent.writeGrant u ∉ during ∧ RwLock.RwEvent.readGrant u ∉ during) ∧
    ∀ before segment rest, rwlog l s₀.trace = before ++ segment ++ rest →
      RwLock.writeGrants segment = [] → (RwLock.writeReleases segment).length ≤ 1 := by
  -- the machine accepts the history of a state that is reached from `s₁`
  have accepted : ∀ c, legal s₀ c = true → RwlockProtocol l s₀ (.call c) →
      step s₀ (.call c) = .ok s₁ → ∃ st, RwlockState l s₂.locks st := by
    intro c isLegal protocol stepped
    have isEnabled : enabled s₀ (.call c) := ⟨by simp [running], isLegal⟩
    have next : Reachable (RwlockProtocol l) s₁ :=
      Transition.Reachable.step (a := .call c) reachable isEnabled protocol stepped
    obtain ⟨st, state, -⟩ := reachable_rwlock (reaches.reachable next)
    exact ⟨st, state⟩
  obtain ⟨later, laterEq⟩ := reaches_rwlog (l := l) reaches
  refine ⟨fun stepped asks => ⟨later, laterEq, ?_⟩, fun stepped asks => ⟨later, laterEq, ?_⟩,
    ?_⟩
  · intro during rest split waits
    obtain ⟨st, state⟩ :=
      accepted (.rlock l) rfl (by constructor <;> intro other <;> cases other) stepped
    have blocked := blocked_rwlog (l := l) (e := .rlockBlock l t) running rfl stepped
      fun es flow did pcEq => did.asksRead (pcEq.trans asks)
    have whole : rwlog l s₂.trace =
        (rwlog l s₀.trace ++ .readBlock t :: during) ++ rest := by
      rw [laterEq, blocked, split]
      simp [rwlog, rwEvent]
    have replayed := state.accepted
    rw [rwlog_locks, whole] at replayed
    obtain ⟨middle, replayed, -⟩ := Replay.Machine.replay_append replayed
    exact RwLock.reader_overtaken_once replayed waits
  · intro during rest split waits
    obtain ⟨st, state⟩ :=
      accepted (.wlock l) rfl (by constructor <;> intro other <;> cases other) stepped
    have blocked := blocked_rwlog (l := l) (e := .wlockBlock l t) running rfl stepped
      fun es flow did pcEq => did.asksWrite (pcEq.trans asks)
    have whole : rwlog l s₂.trace =
        (rwlog l s₀.trace ++ .writeBlock t :: during) ++ rest := by
      rw [laterEq, blocked, split]
      simp [rwlog, rwEvent]
    have replayed := state.accepted
    rw [rwlog_locks, whole] at replayed
    obtain ⟨middle, replayed, resumed⟩ := Replay.Machine.replay_append replayed
    obtain ⟨start, startReplayed, fresh, writerWaits⟩ := RwLock.writer_waits replayed waits
    have startWaiting : start.wwaiting = s₀.seq (.wwaiting l) := by
      obtain ⟨st₀, state₀, -⟩ := reachable_rwlock reachable
      have replayed₀ := state₀.accepted
      rw [rwlog_locks, startReplayed] at replayed₀
      obtain rfl := Option.some.inj replayed₀
      exact state₀.wwaiting.symm
    rw [startWaiting] at writerWaits fresh
    refine ⟨writerWaits.grants_prefix waits, ?_, fun u => ⟨?_, ?_⟩⟩
    · rintro e rest' rfl granted
      obtain ⟨next, applied, -⟩ := Option.bind_eq_some_iff.mp resumed
      exact writerWaits.grants_eq waits fresh applied granted
    · exact writerWaits.no_direct_write u
    · exact writerWaits.no_direct_read u
  · intro before segment rest split noGrant
    obtain ⟨st, state, -⟩ := reachable_rwlock reachable
    have replayed := state.accepted
    rw [rwlog_locks, split] at replayed
    exact RwLock.one_batch_between_writers replayed noGrant

/-- The main task blocks in `wlock` behind task 3 and is granted the lock after it. -/
theorem rwlock_bounded_overtaking_two : ∃ (s₂ : St) (later : List (RwLock.RwEvent TaskPtr)),
    (s₂.rwlock 5).writer = some 1 ∧
    ∀ during rest, later = during ++ rest → 1 ∉ RwLock.writeGrants during →
      RwLock.writeGrants during <+: [3] := by
  obtain ⟨s, s₁, s₂, reachable, checked, isEnabled, kept, stepped, executed, granted⟩ :=
    exists_run_through (RwlockProtocol 5) (fun _ => none)
      [.dispatch {}, .call (.taskcreate (some 2)), .call (.taskcreate (some 3)),
        .call .taskyield, .dispatch {}, .call (.wlock 5), .call .taskyield,
        .dispatch {}, .call (.wlock 5), .dispatch {}]
      (fun s => decide (s.taskrunning = some 1) && decide (s.seq (.wwaiting 5) = [3]) &&
        (step s (.call (.wlock 5))).toOption.any fun (s' : St) =>
          decide ((s'.task 1).pc = .wlock 5))
      (.call (.wlock 5))
      [.dispatch {}, .call (.wunlock 5), .call .taskyield, .dispatch {}, .call (.wunlock 5)]
      (fun s => decide ((s.rwlock 5).writer = some 1))
      (by decide +kernel)
  simp only [Bool.and_eq_true, decide_eq_true_eq] at checked granted
  obtain ⟨⟨running, waiting⟩, blocks⟩ := checked
  rw [stepped] at blocks
  have blocked : (s₁.task 1).pc = .wlock 5 := of_decide_eq_true blocks
  obtain ⟨later, -, bounded⟩ :=
    (rwlock_bounded_overtaking 5 reachable running (reaches_exec executed)).2.1 stepped blocked
  rw [waiting] at bounded
  exact ⟨s₂, later, granted, fun during rest split waits => (bounded during rest split waits).1⟩

end Libtask
