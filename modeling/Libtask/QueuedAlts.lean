import Libtask.SinglePlace

/-!
# Lifetime of queued alternatives

What the global invariant says about the pointers that channels keep: they point
into arrays of tasks that are blocked in `chanalt`, and to all alternatives there.
-/

namespace Libtask

open Function (update update_self update_of_ne)
open Outcome (bind_eq_ok)
open Transition

variable {s s' : St} {self : TaskPtr}

/-- The array of the `chanalt` in a call. -/
def Call.array : Call → Option Nat
  | .chanalt a .. => some a
  | .chanop _ _ _ _ a .. => some a
  | _ => none

/-- No channel keeps a pointer into the array at `a`. -/
def St.Unqueued (s : St) (a : Nat) : Prop := ∀ c dir p, p ∈ s.queue c dir → p.base ≠ a

/-- Nothing is queued from an array that no task is blocked on. -/
theorem Inv.unqueued (inv : Inv s.taskrunning s) {a : Nat}
    (nobody : ∀ t ∈ s.alltask, ¬s.BlockedIn t a) : s.Unqueued a := by
  rintro c dir p member rfl
  obtain ⟨alt, altEq, -⟩ := inv.parked.queues.entry c dir p member
  obtain ⟨live, blocked⟩ := inv.queue_owner member altEq
  exact nobody _ live blocked

/-- A call of `chanalt` that returns at once leaves nothing in the queues. -/
theorem returned_unqueued {c : Call} {a : Nat} (inv : Inv s.taskrunning s)
    (isEnabled : enabled s (.call c)) (array : c.array = some a)
    (stepped : step s (.call c) = .ok s') (returned : s'.taskrunning.isSome = true) :
    s'.Unqueued a := by
  have inv' := step_inv inv isEnabled stepped
  cases step_shape isEnabled stepped with
  | call running isLegal called finished =>
      rename_i self s₂ flow
      have other : c.part ≠ .tasks := by
        cases c <;> simp [Call.array] at array <;> simp [Call.part]
      have isFree : altfree s a = true := by
        cases c <;> simp only [Call.array, Option.some.injEq, reduceCtorEq] at array
        all_goals
          subst array
          simp only [legal, Bool.and_eq_true] at isLegal
          exact isLegal.1.1
      have frame := call_keepsTasks other called
      have running₂ : s₂.taskrunning = some self := frame.taskrunning.trans running
      refine inv'.unqueued fun t live blocked => ?_
      rcases finish_taskrunning finished running₂ with ⟨r, rfl, goesOn⟩ | ⟨pc, rfl, stops⟩
      · have notSelf : t ≠ self := by
          rintro rfl
          exact blocked.2.2 goesOn
        rcases finish_ok finished with ⟨r, -, rfl⟩ | ⟨pc, isSwitch, -⟩
        · have liveBefore : t ∈ s.alltask := by
            rw [← frame.alltask]
            exact live
          have base := blocked.1
          rw [finish_pc finished, if_neg notSelf, frame.pc] at base
          have := List.all_eq_true.mp isFree t liveBefore
          simp [base] at this
        · cases isSwitch
      · rw [stops] at returned
        cases returned

/-- A call of `chanalt` that returns after it blocked leaves nothing in the queues. -/
theorem resumed_unqueued {env : Env} {t : TaskPtr} {a : Nat} (inv : Inv s.taskrunning s)
    (isEnabled : enabled s (.dispatch env)) (base : (s.task t).pc.altbase = some a)
    (stepped : step s (.dispatch env) = .ok s') (runs : s'.taskrunning = some t) :
    s'.Unqueued a := by
  have inv' := step_inv inv isEnabled stepped
  cases step_shape isEnabled stepped with
  | dispatch idle scheduled resumed finished =>
      rename_i t' s₁ s₂ flow
      have running₁ : s₁.taskrunning = some t' := by
        obtain ⟨-, -, lists, rfl, -⟩ := taskscheduler_ok scheduled
        rfl
      have running₂ : s₂.taskrunning = some t' := (resume_taskrunning resumed).trans running₁
      rcases finish_taskrunning finished running₂ with ⟨r, rfl, goesOn⟩ | ⟨pc, rfl, stops⟩
      · obtain rfl : t' = t := Option.some.inj (goesOn.symm.trans runs)
        have other : (s₁.task t').pc.part ≠ .tasks := by
          rw [taskscheduler_pc scheduled]
          cases pcEq : (s.task t').pc <;> simp [pcEq, Pc.altbase] at base <;> simp [Pc.part]
        have frame := resume_keepsTasks other resumed
        have tables : s₁.alltask = s.alltask ∧ (s.home t' ≠ none) := by
          obtain ⟨-, -, lists, rfl, held, -⟩ := taskscheduler_ok scheduled
          exact ⟨rfl, by simp [held]⟩
        refine inv'.unqueued fun u live blocked => ?_
        have notSelf : u ≠ t' := by
          rintro rfl
          exact blocked.2.2 goesOn
        rcases finish_ok finished with ⟨r, -, rfl⟩ | ⟨pc, isSwitch, -⟩
        · have liveBefore : u ∈ s.alltask := by
            rw [← tables.1, ← frame.alltask]
            exact live
          have base' := blocked.1
          rw [finish_pc finished, if_neg notSelf, frame.pc, taskscheduler_pc scheduled] at base'
          rw [idle] at inv
          have liveT : t' ∈ s.alltask := by
            obtain ⟨l, homeEq⟩ := Option.ne_none_iff_exists'.mp tables.2
            exact (inv.listed t').live l homeEq
          exact notSelf (inv.parked.distinct u t' _ _ a (stopped_away liveBefore rfl)
            (stopped_away liveT rfl) base' base)
        · cases isSwitch
      · rw [stops] at runs
        cases runs

/-- Every queue pointer is an alternative, for that queue, of a task that is blocked
in that very `chanalt`, and is queued once; all alternatives of a blocked task are
queued; a `chanalt` that returns leaves nothing behind; `altdequeue` finds what it
looks for; and the arrays of the queues have room for their entries. -/
theorem queued_alternatives {allowed : St → Act → Prop} {s : St}
    (reachable : Reachable allowed s) :
    (∀ c dir p, p ∈ s.queue c dir → ∃ alt, s.alt? p = some alt ∧
      alt.c = c ∧ chanarray alt.op = some dir ∧ p.idx < altcount (s.alts p.base) ∧
      alt.task ∈ s.alltask ∧ s.BlockedIn alt.task p.base ∧ s.QueuedOnce p c dir) ∧
    (∀ t a i alt, t ∈ s.alltask → s.BlockedIn t a → i < altcount (s.alts a) →
      (s.alts a)[i]? = some alt → alt.op ≠ .channop →
        ∃ dir, chanarray alt.op = some dir ∧ s.QueuedOnce ⟨a, i⟩ alt.c dir) ∧
    (∀ a, (∀ t ∈ s.alltask, ¬s.BlockedIn t a) → s.Unqueued a) ∧
    (∀ c a s', enabled s (.call c) → c.array = some a → step s (.call c) = .ok s' →
      s'.taskrunning.isSome = true → s'.Unqueued a) ∧
    (∀ env t a s', enabled s (.dispatch env) → (s.task t).pc.altbase = some a →
      step s (.dispatch env) = .ok s' → s'.taskrunning = some t → s'.Unqueued a) ∧
    (∀ act, enabled s act → step s act ≠ .error (.abort .altdequeueSelf) ∧
      ∀ op, step s act ≠ .error (.abort (.altdequeueOp op))) ∧
    ∀ c dir, ((s.chan c).queue dir).n ≤ ((s.chan c).queue dir).m := by
  have inv := reachable_inv reachable
  refine ⟨?_, ?_, fun a => inv.unqueued, ?_, ?_, ?_, inv.parked.queues.fits⟩
  · intro c dir p member
    obtain ⟨alt, altEq, channel, dirEq⟩ := inv.parked.queues.entry c dir p member
    obtain ⟨live, blocked⟩ := inv.queue_owner member altEq
    exact ⟨alt, altEq, channel, dirEq, inv.parked.altcount_lt member, live, blocked,
      inv.queuedOnce member⟩
  · intro t a i alt live blocked inside atIndex notHole
    obtain ⟨place, here, elsewhere⟩ := inv.place live
    have isPlace : place = .chanalt a := by
      by_contra different
      exact (elsewhere (.chanalt a) (Ne.symm different)).1 blocked
    subst isPlace
    exact here.2 i alt inside atIndex notHole
  · exact fun c a s' isEnabled array stepped => returned_unqueued inv isEnabled array stepped
  · exact fun env t a s' isEnabled base stepped => resumed_unqueued inv isEnabled base stepped
  · intro act isEnabled
    have safe := step_not_corrupt inv isEnabled
    exact ⟨fun stopped => safe _ stopped trivial, fun op stopped => safe _ stopped trivial⟩

/-- A run in which two tasks wait on the same channel, one of them also on another. -/
theorem queued_alternatives_select : ∃ s : St, s.queue 7 .arecv = [⟨20, 0⟩, ⟨30, 1⟩] ∧
    s.queue 8 .asend = [⟨30, 0⟩] ∧
    ∀ c dir p, p ∈ s.queue c dir → ∃ alt, s.alt? p = some alt ∧
      alt.c = c ∧ chanarray alt.op = some dir ∧ p.idx < altcount (s.alts p.base) ∧
      alt.task ∈ s.alltask ∧ s.BlockedIn alt.task p.base ∧ s.QueuedOnce p c dir := by
  obtain ⟨s, checked, reachable⟩ := exists_run anyAction (fun _ => none)
    [.dispatch {}, .call (.taskcreate (some 2)), .call (.chancreate (some 7) 4 0 fun _ => 0),
      .call (.chancreate (some 8) 4 0 fun _ => 0),
      .call (.chanop 7 .chanrcv (some 100) true 20 0 0), .dispatch {},
      .call (.chanalt 30 [⟨8, some 200, .chansnd, 0, ⟨0, 0⟩⟩, ⟨7, none, .chanrcv, 0, ⟨0, 0⟩⟩,
        ⟨0, none, .chanend, 0, ⟨0, 0⟩⟩] 0 0)]
    (fun s => decide (s.queue 7 .arecv = [⟨20, 0⟩, ⟨30, 1⟩]) &&
      decide (s.queue 8 .asend = [⟨30, 0⟩]))
    (by decide +kernel)
  simp only [Bool.and_eq_true, decide_eq_true_eq] at checked
  exact ⟨s, checked.1, checked.2, (queued_alternatives reachable).1⟩

end Libtask
