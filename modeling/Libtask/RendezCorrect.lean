import Libtask.QlockCorrect
import Libtask.Lib.Condvar

/-!
# Condition variables: no lost and no spurious wake-ups

For every `Rendez`, the events about it in the trace of a run are accepted by the machine
of `Condvar`.  The tasks that the machine has on their way back are those that are still
inside `tasksleep` but not in the waiting list.
-/

namespace Libtask

open Function (update update_self update_of_ne)
open Transition

/-! ## The history of one Rendez -/

/-- What an event means for `r`. -/
def cvEvent (r : RendezPtr) : Event → Option (Condvar.CvEvent TaskPtr)
  | .tasksleep r' t => if r' = r then some (.sleep t) else none
  | .taskwakeup r' selected => if r' = r then some (.wake selected) else none
  | .sleepReturn r' t => if r' = r then some (.ret t) else none
  | _ => none

def cvlog (r : RendezPtr) (trace : List Event) : List (Condvar.CvEvent TaskPtr) :=
  trace.filterMap (cvEvent r)

/-- The tasks that called `tasksleep` on `r`, in order. -/
abbrev sleeps (r : RendezPtr) (trace : List Event) : List TaskPtr :=
  Condvar.sleeps (cvlog r trace)

/-- The tasks that wake-ups of `r` selected, in order. -/
abbrev selections (r : RendezPtr) (trace : List Event) : List TaskPtr :=
  Condvar.selections (cvlog r trace)

/-- The tasks that returned from `tasksleep` on `r`, in order. -/
abbrev sleepReturns (r : RendezPtr) (trace : List Event) : List TaskPtr :=
  Condvar.returns (cvlog r trace)

theorem cvlog_locks (r : RendezPtr) (s : St) : cvlog r s.locks.log = cvlog r s.trace := by
  simp only [cvlog, St.locks, St.events, List.filterMap_filter]
  apply List.filterMap_congr
  intro e _
  cases e <;> simp [cvEvent, Event.part]

theorem cvlog_append (r : RendezPtr) (before after : List Event) :
    cvlog r (before ++ after) = cvlog r before ++ cvlog r after :=
  List.filterMap_append

/-- The Rendez that a task is inside `tasksleep` of. -/
def Pc.sleepsOn : Pc → Option RendezPtr
  | .tasksleep r => some r
  | .tasksleepQlock r _ => some r
  | _ => none

/-- The Rendez that the task was inside `tasksleep` of when it started to run. -/
def Code.sleepsOn : Code → Option RendezPtr
  | .call _ => none
  | .resume pc => pc.sleepsOn

/-- What code of `self` did to `r`. -/
inductive CvTurn (r : RendezPtr) (k k' : Locks) (t : TaskPtr) (code : Code) (flow : Flow) :
    List Event → Prop where
  | quiet {es : List Event} (silent : cvlog r es = [])
      (waiting : k'.waiting (.waiting r) = k.waiting (.waiting r))
      (same : flow.pc.sleepsOn = some r ↔ code.sleepsOn = some r) : CvTurn r k k' t code flow es
  | sleep {es : List Event} (event : cvlog r es = [.sleep t])
      (waiting : k'.waiting (.waiting r) = k.waiting (.waiting r) ++ [t])
      (before : code.sleepsOn = none) (after : flow.pc.sleepsOn = some r) :
      CvTurn r k k' t code flow es
  | wake {es : List Event} (selected : List TaskPtr) (event : cvlog r es = [.wake selected])
      (front : selected <+: k.waiting (.waiting r))
      (waiting : k'.waiting (.waiting r) = (k.waiting (.waiting r)).drop selected.length)
      (before : code.sleepsOn = none) (after : flow.pc.sleepsOn = none) :
      CvTurn r k k' t code flow es
  | ret {es : List Event} (event : cvlog r es = [.ret t])
      (waiting : k'.waiting (.waiting r) = k.waiting (.waiting r))
      (before : code.sleepsOn = some r) (after : flow.pc.sleepsOn = none) :
      CvTurn r k k' t code flow es

theorem sleepsOn_locks {pc : Pc} {r : RendezPtr} (sleepsOn : pc.sleepsOn = some r) :
    pc.part = .locks := by
  cases pc <;> simp [Pc.sleepsOn] at sleepsOn <;> rfl

theorem wakeSelection_isFront (all : Bool) (waiting : List TaskPtr) :
    wakeSelection all waiting <+: waiting := by
  unfold wakeSelection
  split
  · exact List.prefix_rfl
  · exact List.take_prefix _ _

/-- The waiting list of `r` changes at events of `r` only. -/
theorem after_waiting {r : RendezPtr} {e : Event} (silent : cvEvent r e = none) (k : Locks) :
    (k.after e).waiting (.waiting r) = k.waiting (.waiting r) := by
  show k.waitingAfter e (.waiting r) = k.waiting (.waiting r)
  cases e with
  | tasksleep r' t =>
      have other : r' ≠ r := fun same => by simp [cvEvent, same] at silent
      simp [Locks.waitingAfter, other.symm]
  | taskwakeup r' selected =>
      have other : r' ≠ r := fun same => by simp [cvEvent, same] at silent
      simp [Locks.waitingAfter, other.symm]
  | _ => simp [Locks.waitingAfter]

theorem afterAll_waiting {r : RendezPtr} {es : List Event} (silent : cvlog r es = [])
    (k : Locks) : (k.afterAll es).waiting (.waiting r) = k.waiting (.waiting r) := by
  induction es generalizing k with
  | nil => rfl
  | cons e es ih =>
      have none := List.filterMap_eq_nil_iff.mp silent
      have rest : cvlog r es = [] :=
        List.filterMap_eq_nil_iff.mpr fun e' member => none e' (List.mem_cons_of_mem e member)
      exact (ih rest (k.after e)).trans (after_waiting (none e (List.mem_cons_self ..)) k)

section

variable {r : RendezPtr} {k : Locks} {t : TaskPtr} {es : List Event}

theorem CvTurn.silent {code : Code} {flow : Flow} (silent : cvlog r es = [])
    (same : flow.pc.sleepsOn = some r ↔ code.sleepsOn = some r) :
    CvTurn r k (k.afterAll es) t code flow es :=
  .quiet silent (afterAll_waiting silent k) same

/-- A call that sleeps on `r` or on another one. -/
theorem CvTurn.slept (r' : RendezPtr) (silent : cvlog r es = []) :
    CvTurn r k (k.afterAll (.tasksleep r' t :: es)) t (.call (.tasksleep r'))
      (.switch (.tasksleep r')) (.tasksleep r' t :: es) := by
  by_cases same : r' = r
  · subst same
    refine .sleep ?_ ?_ rfl rfl
    · simpa [cvlog, cvEvent] using silent
    · rw [Locks.afterAll, List.foldl_cons]
      apply (afterAll_waiting silent _).trans
      simp [Locks.after, Locks.waitingAfter]
  · apply CvTurn.silent
    · simpa [cvlog, cvEvent, same] using silent
    · simp [Flow.pc, Pc.sleepsOn, Code.sleepsOn, same]

theorem CvTurn.returned {r' : RendezPtr} {pc : Pc} (es : List Event)
    (inside : pc.sleepsOn = some r') (silent : cvlog r es = []) :
    CvTurn r k (k.afterAll (es ++ [.sleepReturn r' t])) t (.resume pc) (.ret none)
      (es ++ [.sleepReturn r' t]) := by
  have split : cvlog r (es ++ [.sleepReturn r' t]) = cvlog r [.sleepReturn r' t] := by
    rw [cvlog_append, silent, List.nil_append]
  by_cases same : r' = r
  · subst same
    refine .ret (split.trans ?_) ?_ inside rfl
    · simp [cvlog, cvEvent]
    · rw [Locks.afterAll_snoc]
      exact afterAll_waiting silent k
  · apply CvTurn.silent
    · rw [split]
      simp [cvlog, cvEvent, same]
    · rw [Code.sleepsOn, inside]
      simp [Flow.pc, Pc.sleepsOn, same]

theorem CvTurn.woke {r' : RendezPtr} {selected : List TaskPtr} (c : Call) (n : Option Int)
    (guard : k.Guard (.taskwakeup r' selected)) :
    CvTurn r k (k.afterAll [.taskwakeup r' selected]) t (.call c) (.ret n)
      [.taskwakeup r' selected] := by
  obtain ⟨all, rfl⟩ := guard
  by_cases same : r' = r
  · subst same
    refine .wake _ (by simp [cvlog, cvEvent]) (wakeSelection_isFront all _) ?_ rfl rfl
    simp [Locks.afterAll, Locks.after, Locks.waitingAfter]
  · apply CvTurn.silent
    · simp [cvlog, cvEvent, same]
    · simp [Flow.pc, Pc.sleepsOn, Code.sleepsOn]

end

theorem Did.rendez {rendez : RendezPtr → Option QLockPtr} {t : TaskPtr} {code : Code}
    {es : List Event} {flow : Flow} {k k' : Locks} (did : Did rendez t code es flow)
    (run : k.Run es k') (r : RendezPtr) : CvTurn r k k' t code flow es := by
  obtain ⟨rfl, guards⟩ := run
  cases did with
  | tasksleep r' noLock => exact .slept r' rfl
  | tasksleepUnlock r' l next lock => exact .slept r' rfl
  | taskwakeup r' selected n => exact .woke _ n (guards [] _ [] rfl)
  | taskwakeupall r' selected n => exact .woke _ n (guards [] _ [] rfl)
  | tasksleepReturn r' noLock => exact .returned [] rfl rfl
  | tasksleepLock r' l lock => exact .returned [.qlockGrant l t] rfl rfl
  | tasksleepBlock r' l lock => exact .silent rfl Iff.rfl
  | tasksleepLocked r' l => exact .returned [] rfl rfl
  | otherCall other elsewhere =>
      refine .silent rfl ⟨fun inside => ?_, by simp [Code.sleepsOn]⟩
      exact absurd (sleepsOn_locks inside) elsewhere
  | otherResume other elsewhere =>
      refine .silent rfl ⟨fun inside => ?_, fun inside => ?_⟩
      · exact absurd (sleepsOn_locks inside) elsewhere
      · exact absurd (sleepsOn_locks inside) other
  | _ => exact .silent rfl (by simp [Flow.pc, Pc.sleepsOn, Code.sleepsOn])

/-! ## The invariant -/

/-- The task is inside `tasksleep` on `r`. -/
def Asleep (r : RendezPtr) (s : St) (t : TaskPtr) : Prop :=
  t ∈ s.alltask ∧ (s.task t).pc.sleepsOn = some r

/-- The machine for `r` is in state `st` after the history of `r`. -/
structure RendezState (r : RendezPtr) (s : St) (st : Condvar.CvState TaskPtr) : Prop where
  accepted : Condvar.machine.replay (cvlog r s.trace) = some st
  waiting : st.waiting = s.seq (.waiting r)
  inside : ∀ t, Asleep r s t ↔ t ∈ st.waiting ∨ t ∈ st.woken

section

variable {r : RendezPtr} {s s' : St} {a : Act}

theorem main_rendez {rendez : RendezPtr → Option QLockPtr} {mem : Bytes.Memory} {t : TaskPtr}
    (started : main rendez mem t = .ok s) : RendezState r s Condvar.cvInit := by
  have locks := main_locks started
  refine ⟨?_, ?_, fun u => ?_⟩
  · rw [← cvlog_locks, locks]
    rfl
  · exact (congrFun (congrArg Locks.waiting locks) (.waiting r)).symm
  · constructor
    · rintro ⟨live, inside⟩
      have user := main_user started live
      rw [sleepsOn_locks inside] at user
      cases user
    · simp [Condvar.cvInit]

/-- What a step of task `t` means for the history of `r` and for who is inside
`tasksleep`. -/
structure AsleepTurn (r : RendezPtr) (s s' : St) (t : TaskPtr) (code : Code) (flow : Flow)
    (es : List Event) : Prop where
  log : cvlog r s'.trace = cvlog r s.trace ++ cvlog r es
  before : Asleep r s t ↔ code.sleepsOn = some r
  after : Asleep r s' t ↔ flow.pc.sleepsOn = some r
  others : ∀ u, u ≠ t → (Asleep r s' u ↔ Asleep r s u)

theorem LockTurn.asleep {t : TaskPtr} {code : Code} {es : List Event} {flow : Flow}
    (turn : LockTurn s s' t code es flow) (acts : Acts s a t code)
    (user : ∀ u, s.taskrunning = some u → ∃ i, (s.task u).pc = .user i)
    (live : t ∈ s.alltask) (turned : Turned t code s s') (r : RendezPtr) :
    AsleepTurn r s s' t code flow es where
  log := by rw [← cvlog_locks, turn.run.log, cvlog_append, cvlog_locks]
  before := by
    cases acts with
    | call running =>
        obtain ⟨i, pcEq⟩ := user t running
        simp [Asleep, pcEq, Pc.sleepsOn, Code.sleepsOn]
    | dispatch => simp [Asleep, live, Code.sleepsOn]
  after := by
    rw [Asleep, turn.pc]
    refine ⟨fun asleep => asleep.2, fun inside => ⟨turned.live ?_, inside⟩⟩
    rw [turn.pc]
    intro exited
    simp [exited, Pc.sleepsOn] at inside
  others u other := by
    constructor
    · rintro ⟨isLive, inside⟩
      obtain ⟨wasLive, pcEq⟩ := turn.others.pc u other isLive (by simp [sleepsOn_locks inside])
      exact ⟨wasLive, pcEq ▸ inside⟩
    · rintro ⟨wasLive, inside⟩
      obtain ⟨isLive, same⟩ := turned.others u wasLive other
      exact ⟨isLive, same.pc.symm ▸ inside⟩

section

variable {st : Condvar.CvState TaskPtr} {t : TaskPtr} {code : Code} {flow : Flow}
variable {es : List Event}

theorem RendezState.quiet (state : RendezState r s st) (turn : AsleepTurn r s s' t code flow es)
    (silent : cvlog r es = []) (waiting : s'.seq (.waiting r) = s.seq (.waiting r))
    (same : flow.pc.sleepsOn = some r ↔ code.sleepsOn = some r) : RendezState r s' st := by
  refine ⟨?_, state.waiting.trans waiting.symm, fun u => ?_⟩
  · rw [turn.log, silent, List.append_nil]
    exact state.accepted
  · rw [← state.inside]
    by_cases isT : u = t
    · rw [isT, turn.after, turn.before, same]
    · exact turn.others u isT

theorem RendezState.sleep (state : RendezState r s st) (turn : AsleepTurn r s s' t code flow es)
    (event : cvlog r es = [.sleep t])
    (waiting : s'.seq (.waiting r) = s.seq (.waiting r) ++ [t])
    (outside : code.sleepsOn = none) (inside : flow.pc.sleepsOn = some r) :
    ∃ st', RendezState r s' st' := by
  have awake : ¬Asleep r s t := fun asleep => by
    rw [turn.before, outside] at asleep
    cases asleep
  rw [state.inside, not_or] at awake
  obtain ⟨st', applied, waitingIs, wokenIs⟩ := Condvar.apply_sleep awake
  refine ⟨st', ?_, ?_, fun u => ?_⟩
  · rw [turn.log, event]
    exact Replay.Machine.replay_snoc state.accepted applied
  · rw [waiting, waitingIs, state.waiting]
  · rw [waitingIs, wokenIs]
    by_cases isT : u = t
    · simp [isT, turn.after, inside]
    · rw [turn.others u isT, state.inside]
      simp [isT]

theorem RendezState.wake {selected : List TaskPtr} (state : RendezState r s st)
    (turn : AsleepTurn r s s' t code flow es) (event : cvlog r es = [.wake selected])
    (front : selected <+: s.seq (.waiting r))
    (waiting : s'.seq (.waiting r) = (s.seq (.waiting r)).drop selected.length)
    (same : flow.pc.sleepsOn = code.sleepsOn) : ∃ st', RendezState r s' st' := by
  rw [← state.waiting] at front waiting
  obtain ⟨st', applied, waitingIs, wokenIs⟩ := Condvar.apply_wake front
  refine ⟨st', ?_, ?_, fun u => ?_⟩
  · rw [turn.log, event]
    exact Replay.Machine.replay_snoc state.accepted applied
  · rw [waiting, waitingIs]
  · obtain ⟨rest, split⟩ := front
    have moved : u ∈ st'.waiting ∨ u ∈ st'.woken ↔ u ∈ st.waiting ∨ u ∈ st.woken := by
      rw [waitingIs, wokenIs, ← split, List.drop_left, List.mem_append, List.mem_append]
      simp only [or_assoc, or_comm, or_left_comm]
    rw [moved, ← state.inside]
    by_cases isT : u = t
    · rw [isT, turn.after, turn.before, same]
    · exact turn.others u isT

/-- Who returns was woken: it is in no list any more. -/
theorem RendezState.ret (state : RendezState r s st) (turn : AsleepTurn r s s' t code flow es)
    (event : cvlog r es = [.ret t]) (waiting : s'.seq (.waiting r) = s.seq (.waiting r))
    (notWaiting : t ∉ s.seq (.waiting r)) (inside : code.sleepsOn = some r)
    (outside : flow.pc.sleepsOn = none) : ∃ st', RendezState r s' st' := by
  rw [← state.waiting] at notWaiting
  have woken := ((state.inside t).mp (turn.before.mpr inside)).resolve_left notWaiting
  obtain ⟨st', applied, waitingIs, wokenIs⟩ := Condvar.apply_ret woken
  refine ⟨st', ?_, ?_, fun u => ?_⟩
  · rw [turn.log, event]
    exact Replay.Machine.replay_snoc state.accepted applied
  · rw [waiting, waitingIs, state.waiting]
  · rw [waitingIs, wokenIs]
    by_cases isT : u = t
    · have once : st.woken.Nodup := st.nodup.of_append_right
      have gone : t ∉ st.woken.erase t := once.not_mem_erase
      simp [isT, turn.after, outside, notWaiting, gone]
    · rw [turn.others u isT, state.inside, List.mem_erase_of_ne isT]

end

/-- The machine follows each step. -/
theorem RendezState.turn {st : Condvar.CvState TaskPtr} {t : TaskPtr} {code : Code}
    {es : List Event} {flow : Flow} (state : RendezState r s st) (acts : Acts s a t code)
    (user : ∀ u, s.taskrunning = some u → ∃ i, (s.task u).pc = .user i)
    (live : t ∈ s.alltask) (turn : LockTurn s s' t code es flow) (turned : Turned t code s s') :
    ∃ st', RendezState r s' st' := by
  have asleep := turn.asleep acts user live turned r
  cases turn.did.rendez turn.run r with
  | quiet silent waiting same => exact ⟨st, state.quiet asleep silent waiting same⟩
  | sleep event waiting inCall inside => exact state.sleep asleep event waiting inCall inside
  | wake selected event front waiting inCall outside =>
      exact state.wake asleep event front waiting (outside.trans inCall.symm)
  | ret event waiting inside outside =>
      have dispatched : t ∉ s.seq (.waiting r) := by
        intro waits
        rw [mem_seq_iff] at waits
        cases acts with
        | call => cases inside
        | dispatch _ isHead =>
            have ready := (mem_seq_iff s t _).mp (List.mem_of_mem_head? isHead)
            rw [ready] at waits
            cases waits
      exact state.ret asleep event waiting dispatched inside outside

theorem reachable_rendez {allowed : St → Act → Prop} (reachable : Reachable allowed s)
    (r : RendezPtr) : ∃ st, RendezState r s st := by
  apply reachable.invariant fun s => ∃ st, RendezState r s st
  · rintro s ⟨rendez, mem, t, started⟩
    exact ⟨_, main_rendez started⟩
  · rintro s a s' before ⟨st, state⟩ isEnabled _ stepped
    have inv := reachable_inv before
    obtain ⟨t, code, es, flow, acts, turn⟩ := step_locks isEnabled stepped
    exact state.turn acts (running_user before) (acts.live inv) turn
      (step_turned inv isEnabled acts stepped)

/-- Whoever has to lock `r->l` before it returns waits for that lock. -/
theorem reachable_relock {allowed : St → Act → Prop} (reachable : Reachable allowed s) :
    ∀ t ∈ s.alltask, ∀ r l, (s.task t).pc = .tasksleepQlock r l → s.rendez r = some l := by
  apply reachable.invariant fun s => ∀ t ∈ s.alltask, ∀ r l,
    (s.task t).pc = .tasksleepQlock r l → s.rendez r = some l
  · rintro s ⟨rendez, mem, t, started⟩ u live r l pcEq
    have user := main_user started live
    rw [pcEq] at user
    cases user
  · intro s a s' before ih isEnabled _ stepped u live r l pcEq
    obtain ⟨t, code, es, flow, acts, turn⟩ := step_locks isEnabled stepped
    rw [step_rendez isEnabled stepped]
    by_cases isT : u = t
    · subst isT
      rw [turn.pc] at pcEq
      have inLock : flow.pc.part = .locks := by rw [pcEq]; rfl
      have did := turn.did
      cases did
      case otherCall => exact absurd inLock ‹flow.pc.part ≠ _›
      case otherResume => exact absurd inLock ‹flow.pc.part ≠ _›
      case tasksleepBlock r' l' lock =>
        cases pcEq
        exact lock
      all_goals simp [Flow.pc] at pcEq
    · obtain ⟨live', pcEq'⟩ := turn.others.pc u isT live (by simp [pcEq, Pc.part])
      exact ih u live' r l (pcEq' ▸ pcEq)

end

/-! ## Correctness -/

/-- What a wake-up of `r` by `self` does: it selects the first sleeper, or all of them,
makes them ready in their order, and returns their number. -/
structure WakesUp (r : RendezPtr) (all : Bool) (t : TaskPtr) (s s' : St) : Prop where
  trace : s'.trace = s.trace ++ [.taskwakeup r (wakeSelection all (s.seq (.waiting r)))]
  waiting : s.seq (.waiting r) =
    wakeSelection all (s.seq (.waiting r)) ++ s'.seq (.waiting r)
  ready : s'.seq .taskrunqueue =
    s.seq .taskrunqueue ++ wakeSelection all (s.seq (.waiting r))
  returned : s'.taskrunning = some t ∧
    (s'.task t).pc = .user (some (wakeSelection all (s.seq (.waiting r))).length)

/-- `taskwakeup` or `taskwakeupall` -/
def wakeupCall (r : RendezPtr) : Bool → Call
  | true => .taskwakeupall r
  | false => .taskwakeup r

theorem wakeup_wakes {s : St} {self : TaskPtr} (running : s.taskrunning = some self)
    (r : RendezPtr) (all : Bool) :
    ∃ s', step s (.call (wakeupCall r all)) = .ok s' ∧ WakesUp r all self s s' := by
  have goes : Outcome.Avoids (fun _ => True) (taskwakeupImpl s r all) := taskwakeupImpl_safe
  obtain ⟨⟨s₁, flow⟩, done⟩ := goes.exists_ok
  obtain ⟨rfl, woke, lists, task, s₁Eq⟩ := taskwakeupImpl_ok done
  have called : call s self (wakeupCall r all) = taskwakeupImpl s r all := by
    cases all <;> rfl
  refine ⟨s₁.setTask self fun task => { task with
    pc := .user (some (wakeSelection all (s.seq (.waiting r))).length) }, ?_, ?_⟩
  · simp only [step, running, called, done]
    rfl
  · refine ⟨?_, woke.taken, woke.run, ?_, ?_⟩
    · simp [St.setTask, s₁Eq]
    · simp [St.setTask, s₁Eq, running]
    · simp [St.setTask]

/-- Who returns from `tasksleep` owns the lock of the Rendez. -/
theorem sleep_returns_owner {allowed : St → Act → Prop} {s s' : St} {r : RendezPtr}
    {t : TaskPtr} {l : QLockPtr} {env : Env} (reachable : Reachable allowed s)
    (isEnabled : enabled s (.dispatch env)) (isHead : (s.seq .taskrunqueue).head? = some t)
    (inside : (s.task t).pc.sleepsOn = some r) (lock : s.rendez r = some l)
    (stepped : step s (.dispatch env) = .ok s') (returned : s'.taskrunning = some t) :
    s'.owner l = some t := by
  have inv := reachable_inv reachable
  have acts : Acts s (.dispatch env) t (.resume (s.task t).pc) := .dispatch isEnabled.1 isHead
  obtain ⟨t', code, es, flow, acts', turn⟩ := step_locks isEnabled stepped
  obtain ⟨rfl, rfl⟩ := acts.unique acts'
  obtain ⟨-, i, pcEq⟩ := (step_turned inv isEnabled acts stepped).running t returned
  have flowEq : flow.pc = .user i := turn.pc.symm.trans pcEq
  have ownerEq : s'.owner l = (s.locks.afterAll es).owner l := by
    rw [← turn.run.result]
    rfl
  cases pcIs : (s.task t).pc <;> simp only [pcIs, Pc.sleepsOn, reduceCtorEq,
    Option.some.injEq] at inside
  case tasksleep r' =>
    subst inside
    have did := turn.did
    rw [pcIs] at did
    cases did with
    | otherResume other => exact absurd rfl other
    | tasksleepReturn _ noLock =>
        rw [lock] at noLock
        cases noLock
    | tasksleepLock _ l' lock' =>
        obtain rfl := Option.some.inj (lock.symm.trans lock')
        simp [ownerEq, Locks.afterAll, Locks.after, Locks.ownerAfter]
    | tasksleepBlock => cases flowEq
  case tasksleepQlock r' l' =>
    subst inside
    obtain rfl := Option.some.inj
      (lock.symm.trans (reachable_relock reachable t (acts.live inv) _ _ pcIs))
    have did := turn.did
    rw [pcIs] at did
    cases did with
    | otherResume other => exact absurd rfl other
    | tasksleepLocked =>
        have unchanged : s'.owner l = s.owner l := by
          rw [ownerEq]
          rfl
        rw [unchanged]
        cases step_shape isEnabled stepped with
        | dispatch _ scheduled resumed finished =>
            rename_i t' s₁ s₂ flow'
            obtain ⟨-, isHead', lists, rfl, -⟩ := taskscheduler_ok scheduled
            obtain rfl := Option.some.inj (isHead.symm.trans isHead')
            simp only [update_self, pcIs] at resumed
            obtain ⟨s₃, owned, -⟩ := Outcome.bind_eq_ok.mp resumed
            exact (qlockResume_ok owned).1

/-- For every `r` and every run: who called `tasksleep` waits until a wake-up selects it,
and wake-ups select in the order of the calls; a wake-up selects the first sleeper or all
of them, makes them ready in that order and returns their number; it selects nobody who
falls asleep later; sleeping, being selected and returning alternate for every task, at
every moment of the run; and who returns from `tasksleep` owns `r->l`.  No check of
`r->l` fails if the tasks release it, and call `tasksleep`, only when they hold it. -/
theorem rendez_exact {allowed : St → Act → Prop} {s : St} (reachable : Reachable allowed s)
    (r : RendezPtr) :
    (sleeps r s.trace = selections r s.trace ++ s.seq (.waiting r)) ∧
    (∀ before t after, s.trace = before ++ .tasksleep r t :: after →
      t ∉ selections r after → t ∈ s.seq (.waiting r)) ∧
    (∀ self all, s.taskrunning = some self →
      ∃ s', step s (.call (wakeupCall r all)) = .ok s' ∧ WakesUp r all self s s') ∧
    (∀ before selected after, s.trace = before ++ .taskwakeup r selected :: after →
      selections r before ++ selected <+: sleeps r before) ∧
    (∀ before after t, s.trace = before ++ after →
      (sleepReturns r before).count t ≤ (selections r before).count t ∧
      (selections r before).count t ≤ (sleeps r before).count t ∧
      (sleeps r before).count t ≤ (sleepReturns r before).count t + 1) ∧
    (∀ env t s' l, enabled s (.dispatch env) → (s.seq .taskrunqueue).head? = some t →
      (s.task t).pc.sleepsOn = some r → s.rendez r = some l →
      step s (.dispatch env) = .ok s' → s'.taskrunning = some t → s'.owner l = some t) ∧
    ∀ l, s.rendez r = some l → Reachable (QlockProtocol l) s → ∀ a, enabled s a →
      QlockProtocol l s a → step s a ≠ .error (.abort (.qlockOops l)) ∧
        step s a ≠ .error (.abort (.qunlockOwner l)) := by
  obtain ⟨st, accepted, waitingEq, -⟩ := reachable_rendez reachable r
  refine ⟨?_, ?_, ?_, ?_, ?_, ?_, ?_⟩
  · rw [← waitingEq]
    exact Condvar.sleeps_eq accepted
  · intro before t after split unselected
    have logEq : cvlog r s.trace = cvlog r before ++ .sleep t :: cvlog r after := by
      rw [split, cvlog_append]
      simp [cvlog, cvEvent]
    rw [logEq] at accepted
    rw [← waitingEq]
    exact Condvar.waits_until_selected accepted unselected
  · exact fun self all running => wakeup_wakes running r all
  · intro before selected after split
    have logEq : cvlog r s.trace = cvlog r before ++ .wake selected :: cvlog r after := by
      rw [split, cvlog_append]
      simp [cvlog, cvEvent]
    rw [logEq] at accepted
    exact Condvar.selects_earlier accepted
  · intro before after t split
    rw [split, cvlog_append] at accepted
    obtain ⟨middle, beforeAccepted, -⟩ := Replay.Machine.replay_append accepted
    exact Condvar.alternates beforeAccepted t
  · intro env t s' l isEnabled isHead inside lock stepped returned
    exact sleep_returns_owner reachable isEnabled isHead inside lock stepped returned
  · intro l _ protocolRun a isEnabled protocol
    exact (reachable_qlock protocolRun).safe (reachable_inv reachable) isEnabled protocol

/-- A run in which two tasks sleep with lock 5, and one wake-up selects both. -/
theorem rendez_exact_both : ∃ s : St, selections 9 s.trace = [2, 3] ∧ s.owner 5 = some 2 ∧
    sleeps 9 s.trace = selections 9 s.trace ++ s.seq (.waiting 9) := by
  obtain ⟨s, checked, reachable⟩ := exists_run anyAction
    (fun r => if r = 9 then some 5 else none)
    [.dispatch {}, .call (.taskcreate (some 2)), .call (.taskcreate (some 3)),
      .call .taskyield, .dispatch {}, .call (.qlock 5), .call (.tasksleep 9),
      .dispatch {}, .call (.qlock 5), .call (.tasksleep 9), .dispatch {},
      .call (.taskwakeupall 9), .call .taskyield, .dispatch {}]
    (fun s => decide (selections 9 s.trace = [2, 3]) && decide (s.owner 5 = some 2))
    (by decide +kernel)
  simp only [Bool.and_eq_true, decide_eq_true_eq] at checked
  exact ⟨s, checked.1, checked.2, (rendez_exact reachable 9).1⟩

end Libtask
