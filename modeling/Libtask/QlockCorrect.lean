import Libtask.LockAborts
import Libtask.Lib.FifoLock

/-!
# Queueing locks: mutual exclusion with FIFO hand-off

For every lock, the events about it in the trace of a run are accepted by the lock
machine of `FifoLock`, whose state is what the fields of the `QLock` show, provided
that the lock is released by its holder only.  What the machine guarantees therefore
holds of the runs.
-/

namespace Libtask

open Function (update update_self update_of_ne)
open Transition

/-! ## The history of one lock -/

/-- What an event means for lock `l`. -/
def qEvent (l : QLockPtr) : Event → Option (FifoLock.LockEvent TaskPtr)
  | .qlockGrant l' t => if l' = l then some (.grant t) else none
  | .qlockBlock l' t => if l' = l then some (.block t) else none
  | .qunlock l' t next => if l' = l then some (.release t next) else none
  | _ => none

/-- The history of lock `l`. -/
def qlog (l : QLockPtr) (trace : List Event) : List (FifoLock.LockEvent TaskPtr) :=
  trace.filterMap (qEvent l)

/-- The task holds lock `l`: it was granted the lock more often than it released
it. -/
abbrev QHolds (l : QLockPtr) (s : St) (t : TaskPtr) : Prop := FifoLock.Holds (qlog l s.trace) t

/-- Lock `l` is released by its holder only, with `qunlock` or by `tasksleep`. -/
def QlockProtocol (l : QLockPtr) (s : St) : Act → Prop
  | .call c => c.unlocks s.rendez = some l → ∀ t ∈ s.taskrunning, QHolds l s t
  | .dispatch _ => True

instance (l : QLockPtr) (s : St) (a : Act) : Decidable (QlockProtocol l s a) :=
  match a with
  | .call c => inferInstanceAs (Decidable (c.unlocks s.rendez = some l → ∀ _ ∈ _, _))
  | .dispatch _ => isTrue trivial

theorem qlog_locks (l : QLockPtr) (s : St) : qlog l s.locks.log = qlog l s.trace := by
  simp only [qlog, St.locks, St.events, List.filterMap_filter]
  apply List.filterMap_congr
  intro e _
  cases e <;> simp [qEvent, Event.part]

/-! ## The lock machine -/

/-- The machine for lock `l` is in state `st` after the history of the lock, and its
state is that of the `QLock`. -/
structure QlockState (l : QLockPtr) (k : Locks) (st : FifoLock.LockState TaskPtr) :
    Prop where
  accepted : FifoLock.machine.replay (qlog l k.log) = some st
  owner : st.owner = k.owner l
  waiting : st.waiting = k.waiting (.qwaiting l)

/-- The machine takes a step, or the event is about something else. -/
def QMoves (l : QLockPtr) (k' : Locks) (st : FifoLock.LockState TaskPtr) (e : Event) : Prop :=
  ∃ st', QlockState l k' st' ∧
    (st' = st ∨ ∃ e', qEvent l e = some e' ∧ FifoLock.machine.apply st e' = some st')

section

variable {l : QLockPtr} {k : Locks} {st : FifoLock.LockState TaskPtr} {e : Event}

/-- An event that is about something else. -/
theorem QlockState.silent (state : QlockState l k st) (silent : qEvent l e = none) :
    QMoves l (k.after e) st e := by
  refine ⟨st, ⟨?_, ?_, ?_⟩, Or.inl rfl⟩
  · simpa [qlog, Locks.after, silent] using state.accepted
  · rw [state.owner]
    cases e <;> simp_all [qEvent, Locks.after, Locks.ownerAfter, Ne.symm]
  · rw [state.waiting]
    cases e <;> simp_all [qEvent, Locks.after, Locks.waitingAfter, Ne.symm]

theorem QlockState.moves {e' : FifoLock.LockEvent TaskPtr} {st' : FifoLock.LockState TaskPtr}
    (state : QlockState l k st) (isEvent : qEvent l e = some e')
    (applied : FifoLock.machine.apply st e' = some st') (owner : st'.owner = k.ownerAfter e l)
    (waiting : st'.waiting = k.waitingAfter e (.qwaiting l)) : QMoves l (k.after e) st e := by
  refine ⟨st', ⟨?_, owner, waiting⟩, Or.inr ⟨e', isEvent, applied⟩⟩
  have logEq : qlog l (k.after e).log = qlog l k.log ++ [e'] := by
    simp [qlog, Locks.after, isEvent]
  rw [logEq]
  exact Replay.Machine.replay_snoc state.accepted applied

theorem QlockState.qlockGrant {t : TaskPtr} (state : QlockState l k st)
    (guard : k.Guard (.qlockGrant l t)) :
    QMoves l (k.after (.qlockGrant l t)) st (.qlockGrant l t) := by
  obtain ⟨st', applied, ownerIs, waitingIs⟩ := FifoLock.apply_grant t (state.owner.trans guard)
  apply state.moves (by simp [qEvent]) applied
  · simp [Locks.ownerAfter, ownerIs]
  · simp [Locks.waitingAfter, waitingIs, state.waiting]

theorem QlockState.qlockBlock {t : TaskPtr} (state : QlockState l k st)
    (guard : k.Guard (.qlockBlock l t)) :
    QMoves l (k.after (.qlockBlock l t)) st (.qlockBlock l t) := by
  obtain ⟨st', applied, ownerIs, waitingIs⟩ :=
    FifoLock.apply_block (s := st) t fun free => guard (state.owner.symm.trans free)
  apply state.moves (by simp [qEvent]) applied
  · simp [Locks.ownerAfter, ownerIs, state.owner]
  · simp [Locks.waitingAfter, waitingIs, state.waiting]

theorem QlockState.qunlock {t : TaskPtr} {next : Option TaskPtr} (state : QlockState l k st)
    (guard : k.Guard (.qunlock l t next)) (held : k.owner l = some t) :
    QMoves l (k.after (.qunlock l t next)) st (.qunlock l t next) := by
  obtain ⟨-, nextEq⟩ := guard
  obtain ⟨st', applied, ownerIs, waitingIs⟩ :=
    FifoLock.apply_release (state.owner.trans held) (state.waiting ▸ nextEq)
  apply state.moves (by simp [qEvent]) applied
  · simp [Locks.ownerAfter, ownerIs]
  · simp only [Locks.waitingAfter, update_self, waitingIs, state.waiting, nextEq]
    cases k.waiting (.qwaiting l) <;> rfl

/-- Each event is one step of the machine, or is about something else. -/
theorem QlockState.step (state : QlockState l k st) (guard : k.Guard e)
    (owned : ∀ t next, e = .qunlock l t next → k.owner l = some t) :
    QMoves l (k.after e) st e := by
  cases isEvent : qEvent l e with
  | none => exact state.silent isEvent
  | some e' =>
      cases e <;> simp only [qEvent, Option.ite_none_right_eq_some, reduceCtorEq] at isEvent
      all_goals obtain ⟨rfl, -⟩ := isEvent
      case qlockGrant => exact state.qlockGrant guard
      case qlockBlock => exact state.qlockBlock guard
      case qunlock => exact state.qunlock guard (owned _ _ rfl)

/-- The events that are releases. -/
theorem qunlock_of_releaser {e' : FifoLock.LockEvent TaskPtr} {t : TaskPtr}
    (isEvent : qEvent l e = some e') (releaser : e'.releaser = some t) :
    ∃ next, e = .qunlock l t next := by
  cases e <;> simp only [qEvent, Option.ite_none_right_eq_some, reduceCtorEq] at isEvent
  all_goals
    obtain ⟨rfl, isSome⟩ := isEvent
    obtain rfl := Option.some.inj isSome
    simp only [FifoLock.LockEvent.releaser, reduceCtorEq, Option.some.injEq] at releaser
  obtain rfl := releaser
  exact ⟨_, rfl⟩

end

/-! ## The invariant -/

/-- The task waits for lock `l` or owns it. -/
def Locks.Claims (k : Locks) (l : QLockPtr) (t : TaskPtr) : Prop :=
  t ∈ k.waiting (.qwaiting l) ∨ k.owner l = some t

/-- The lock machine follows lock `l`, and whoever gave up the CPU for the lock still
waits or was handed the lock. -/
structure QlockInv (l : QLockPtr) (s : St) : Prop where
  state : ∃ st, QlockState l s.locks st
  claims : ∀ t, t ∈ s.alltask → (s.task t).pc.asksFor = some l → s.locks.Claims l t

/-- Who releases a lock, and what happened in the same call before. -/
theorem Did.releases {rendez : RendezPtr → Option QLockPtr} {self t : TaskPtr} {code : Code}
    {es before rest : List Event} {flow : Flow} {l : QLockPtr} {next : Option TaskPtr}
    (did : Did rendez self code es flow) (split : es = before ++ .qunlock l t next :: rest) :
    t = self ∧ (before = [] ∨ ∃ r, before = [.tasksleep r self]) ∧
      ∃ c, code = .call c ∧ c.unlocks rendez = some l := by
  cases did
  case qunlock l' next' =>
    cases before with
    | nil =>
        simp only [List.nil_append, List.cons.injEq, Event.qunlock.injEq] at split
        obtain ⟨⟨rfl, rfl, rfl⟩, -⟩ := split
        exact ⟨rfl, Or.inl rfl, _, rfl, rfl⟩
    | cons e before => simp at split
  case tasksleepUnlock r l' next' lock =>
    cases before with
    | nil => simp at split
    | cons e before =>
        cases before with
        | nil =>
            simp only [List.cons_append, List.nil_append, List.cons.injEq,
              Event.qunlock.injEq] at split
            obtain ⟨rfl, ⟨rfl, rfl, rfl⟩, -⟩ := split
            exact ⟨rfl, Or.inr ⟨r, rfl⟩, _, rfl, lock⟩
        | cons e' before => simp at split
  all_goals
    rcases before with _ | ⟨e, _ | ⟨e', before⟩⟩ <;> simp at split

/-- A task that gives up the CPU for a lock is in its waiting list. -/
theorem Did.asks {rendez : RendezPtr → Option QLockPtr} {self : TaskPtr} {code : Code}
    {es : List Event} {flow : Flow} {l : QLockPtr}
    (did : Did rendez self code es flow) (asks : flow.pc.asksFor = some l) :
    es = [.qlockBlock l self] := by
  apply did.blocks
  cases pcEq : flow.pc <;> simp_all [Pc.asksFor, Pc.blockEvent]

section

variable {l : QLockPtr} {s s' : St} {a : Act}

/-- The holder of a lock is its owner. -/
theorem QlockInv.holds_iff (inv : QlockInv l s) (t : TaskPtr) :
    QHolds l s t ↔ s.owner l = some t := by
  obtain ⟨st, accepted, ownerEq, -⟩ := inv.state
  rw [qlog_locks] at accepted
  have isOwner := FifoLock.holds_iff accepted t
  rw [ownerEq] at isOwner
  exact isOwner

theorem main_qlock {rendez : RendezPtr → Option QLockPtr} {mem : Bytes.Memory} {t : TaskPtr}
    (started : main rendez mem t = .ok s) : QlockInv l s := by
  refine ⟨⟨FifoLock.lockInit, ?_⟩, fun u live asks => ?_⟩
  · rw [main_locks started]
    exact ⟨rfl, rfl, rfl⟩
  · have user := main_user started live
    cases pcEq : (s.task u).pc <;> simp [pcEq, Pc.asksFor, Pc.part] at asks user

/-- The machine follows each step, and the claims of the tasks that do not run are
kept. -/
theorem QlockInv.turn {t : TaskPtr} {code : Code} {es : List Event} {flow : Flow}
    (inv : QlockInv l s) (acts : Acts s a t code) (turn : LockTurn s s' t code es flow)
    (protocol : QlockProtocol l s a) :
    ∃ st, QlockState l s'.locks st ∧
      ∀ u, u ≠ t → s.locks.Claims l u → s'.locks.Claims l u := by
  -- the motive of the induction along the events of the step
  have claim : ∃ st, QlockState l s'.locks st ∧ ∀ u, u ≠ t → s.locks.Claims l u →
      u ∈ st.waiting ∨ st.owner = some u := by
    refine turn.run.invariant (fun k => ∃ st, QlockState l k st ∧ ∀ u, u ≠ t →
      s.locks.Claims l u → u ∈ st.waiting ∨ st.owner = some u) ?_ ?_
    · obtain ⟨st, state⟩ := inv.state
      refine ⟨st, state, fun u _ claims => ?_⟩
      rw [state.waiting, state.owner]
      exact claims
    · rintro before e rest split guard ⟨st, state, claims⟩
      have released : ∀ u next, e = .qunlock l u next →
          u = t ∧ (s.locks.afterAll before).owner l = some u := by
        rintro u next rfl
        obtain ⟨rfl, early, c, rfl, unlocks⟩ := turn.did.releases split
        cases acts with
        | call running =>
            have owner := (inv.holds_iff u).mp (protocol unlocks u running)
            rcases early with rfl | ⟨r, rfl⟩
            · exact ⟨rfl, owner⟩
            · exact ⟨rfl, owner⟩
      obtain ⟨st', state', rfl | ⟨e', isEvent, applied⟩⟩ :=
        state.step guard fun u next isRelease => (released u next isRelease).2
      · exact ⟨st', state', claims⟩
      · refine ⟨st', state', fun u other claimed => ?_⟩
        apply FifoLock.claim_kept applied _ (claims u other claimed)
        intro isReleaser
        obtain ⟨next, is⟩ := qunlock_of_releaser isEvent isReleaser
        exact other (released u next is).1
  obtain ⟨st, state, claims⟩ := claim
  refine ⟨st, state, fun u other claimed => ?_⟩
  rw [Locks.Claims, ← state.waiting, ← state.owner]
  exact claims u other claimed

theorem QlockInv.step (inv : QlockInv l s) (isEnabled : enabled s a)
    (protocol : QlockProtocol l s a) (stepped : Libtask.step s a = .ok s') : QlockInv l s' := by
  obtain ⟨t, code, es, flow, acts, turn⟩ := step_locks isEnabled stepped
  obtain ⟨st, state, kept⟩ := inv.turn acts turn protocol
  refine ⟨⟨st, state⟩, fun u live asks => ?_⟩
  by_cases isT : u = t
  · subst isT
    rw [turn.pc] at asks
    have blocked := turn.did.asks asks
    left
    rw [turn.run.result, blocked]
    simp [Locks.afterAll, Locks.after, Locks.waitingAfter]
  · have inLock : (s'.task u).pc.part ≠ .tasks := by
      cases pcEq : (s'.task u).pc <;> simp [pcEq, Pc.asksFor, Pc.part] at asks ⊢
    obtain ⟨live', pcEq⟩ := turn.others.pc u isT live inLock
    exact kept u isT (inv.claims u live' (pcEq ▸ asks))

theorem reachable_qlock (reachable : Reachable (QlockProtocol l) s) : QlockInv l s := by
  apply reachable.invariant (QlockInv l)
  · rintro s ⟨rendez, mem, t, started⟩
    exact main_qlock started
  · intro s a s' _ inv isEnabled protocol stepped
    exact inv.step isEnabled protocol stepped

/-- A task that was resumed, or is about to be, owns the lock that it asked for. -/
theorem QlockInv.resumed (inv : QlockInv l s) (global : Inv s.taskrunning s) {t : TaskPtr}
    (ready : t ∈ s.seq .taskrunqueue) (asks : (s.task t).pc.asksFor = some l) :
    s.owner l = some t := by
  have home := (mem_seq_iff s t _).mp ready
  rcases inv.claims t ((global.listed t).live _ home) asks with waits | owns
  · have elsewhere := (mem_seq_iff s t (.qwaiting l)).mp waits
    rw [home] at elsewhere
    cases elsewhere
  · exact owns

/-- No check of the lock fails. -/
theorem QlockInv.safe (inv : QlockInv l s) (global : Inv s.taskrunning s)
    (isEnabled : enabled s a) (protocol : QlockProtocol l s a) :
    Libtask.step s a ≠ .error (.abort (.qlockOops l)) ∧
      Libtask.step s a ≠ .error (.abort (.qunlockOwner l)) := by
  constructor
  · intro stopped
    cases step_abort stopped trivial with
    | qlockOops isHead asks isWhy notOwner =>
        cases isWhy
        exact notOwner (inv.resumed global (List.mem_of_mem_head? isHead) asks)
    | qunlockOwner unlocks isWhy => cases isWhy
    | wunlockNotLocked isWhy => cases isWhy
    | wunlockReaders isWhy => cases isWhy
  · intro stopped
    cases step_abort stopped trivial with
    | qlockOops isHead asks isWhy => cases isWhy
    | qunlockOwner unlocks isWhy free =>
        cases isWhy
        obtain ⟨self, running⟩ := Option.isSome_iff_exists.mp isEnabled.1
        have owner := (inv.holds_iff self).mp (protocol unlocks self running)
        rw [free] at owner
        cases owner
    | wunlockNotLocked isWhy => cases isWhy
    | wunlockReaders isWhy => cases isWhy

end

/-! ## Correctness -/

/-- In every run in which lock `l` is released by its holder only: at most one task
holds the lock, and it is the owner; a free lock has no waiters; the callers that
blocked were handed the lock in the order in which they blocked, up to those that
still wait; a direct grant happens only when nobody waits; whoever is woken from
waiting for the lock owns it; and no check of the lock fails. -/
theorem qlock_exclusive_fifo (l : QLockPtr) {s : St}
    (reachable : Reachable (QlockProtocol l) s) :
    (∀ t, QHolds l s t ↔ s.owner l = some t) ∧
    (FifoLock.granted (qlog l s.trace) =
      FifoLock.released (qlog l s.trace) ++ (s.owner l).toList) ∧
    (s.owner l = none → s.seq (.qwaiting l) = []) ∧
    (FifoLock.blocked (qlog l s.trace) =
      FifoLock.handed (qlog l s.trace) ++ s.seq (.qwaiting l)) ∧
    (∀ before t after, qlog l s.trace = before ++ .grant t :: after →
      FifoLock.blocked before = FifoLock.handed before) ∧
    (∀ t, t ∈ s.seq .taskrunqueue → (s.task t).pc.asksFor = some l → s.owner l = some t) ∧
    ∀ a, enabled s a → QlockProtocol l s a →
      step s a ≠ .error (.abort (.qlockOops l)) ∧
        step s a ≠ .error (.abort (.qunlockOwner l)) := by
  have inv := reachable_qlock reachable
  have global := reachable_inv reachable
  obtain ⟨st, accepted, ownerEq, waitingEq⟩ := inv.state
  rw [qlog_locks] at accepted
  replace ownerEq : st.owner = s.owner l := ownerEq
  replace waitingEq : st.waiting = s.seq (.qwaiting l) := waitingEq
  refine ⟨inv.holds_iff, ?_, ?_, ?_, ?_, ?_, ?_⟩
  · rw [← ownerEq]
    exact FifoLock.exclusive accepted
  · rw [← ownerEq, ← waitingEq]
    exact st.free_idle
  · rw [← waitingEq]
    exact FifoLock.fifo accepted
  · intro before t after split
    rw [split] at accepted
    exact FifoLock.direct_grant_overtakes_none accepted
  · exact fun t ready asks => inv.resumed global ready asks
  · exact fun a isEnabled protocol => inv.safe global isEnabled protocol

/-- A run in which task 2 waits for the lock that the main task takes, sleeps on and
hands over. -/
theorem qlock_exclusive_fifo_handed : ∃ s : St, s.owner 5 = some 2 ∧ QHolds 5 s 2 ∧
    FifoLock.handed (qlog 5 s.trace) = [2] := by
  obtain ⟨s, checked, reachable⟩ := exists_run (QlockProtocol 5)
    (fun r => if r = 9 then some 5 else none)
    [.dispatch {}, .call (.taskcreate (some 2)), .call (.qlock 5), .call .taskyield,
      .dispatch {}, .call (.qlock 5), .dispatch {}, .call (.tasksleep 9)]
    (fun s => decide (s.owner 5 = some 2) && decide (FifoLock.handed (qlog 5 s.trace) = [2]))
    (by decide +kernel)
  simp only [Bool.and_eq_true, decide_eq_true_eq] at checked
  exact ⟨s, checked.1, ((qlock_exclusive_fifo 5 reachable).1 2).mpr checked.1, checked.2⟩

end Libtask
