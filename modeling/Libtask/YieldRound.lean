import Libtask.LockAborts

/-!
# A round of the run queue

A task that calls `taskyield` is dispatched again after the tasks that were ready at the
call, in their order, and before the tasks that become ready later.  What `taskyield`
returns is the number of those tasks, also if the counter of dispatches wraps.
-/

namespace Libtask

open Function (update update_self update_of_ne)
open Outcome (bind_eq_ok)
open Transition

/-- The saved `tasknswitch` of a task that gave up the CPU in `taskyield`. -/
def Pc.yields : Pc → Option (BitVec 32)
  | .taskyield n => some n
  | .fdtaskYield n => some n
  | _ => none

/-- In a step from `s`, task `t` calls `taskyield` while the run queue holds `qs`: as user
code, or as `fdtask`, which calls it at the end of each pass. -/
inductive YieldCall (s : St) (t : TaskPtr) (qs : List TaskPtr) : Act → Prop where
  | user : s.taskrunning = some t → s.seq .taskrunqueue = qs →
      YieldCall s t qs (.call .taskyield)
  | fdtask {env : Env} {s₁ s₂ : St} : s.taskrunning = none → taskscheduler s = .ok (s₁, t) →
      resume s₁ t env (s₁.task t).pc = fdtaskYield s₂ t → s₂.seq .taskrunqueue = qs →
      YieldCall s t qs (.dispatch env)

/-- Task `t` is in a `taskyield` since which the tasks `passed` were dispatched, and the
tasks `before` are still in front of it. -/
structure Yielding (t : TaskPtr) (pc : Pc) (n : BitVec 32) (passed before : List TaskPtr)
    (s : St) : Prop where
  live : t ∈ s.alltask
  stopped : (s.task t).pc = pc
  yields : pc.yields = some n
  queue : ∃ new, s.seq .taskrunqueue = before ++ t :: new ∧
    (passed = [] → new = [] ∧ s.taskrunning = none)
  count : s.tasknswitch = n + BitVec.ofNat 32 passed.length

variable {s s' : St} {a : Act} {t u : TaskPtr} {code : Code} {n : BitVec 32}
variable {pc : Pc} {passed before qs : List TaskPtr}

theorem Yielding.nodup (yielding : Yielding t pc n passed before s) : (before ++ [t]).Nodup := by
  obtain ⟨new, queue, -⟩ := yielding.queue
  have nodup := s.lists.nodup .taskrunqueue
  change (s.seq .taskrunqueue).Nodup at nodup
  rw [queue, show before ++ t :: new = before ++ [t] ++ new by simp] at nodup
  exact nodup.of_append_left

/-- A task in a `taskyield` is in the run queue. -/
theorem Yielding.idle (yielding : Yielding t pc n passed before s)
    (inv : Inv s.taskrunning s) : s.taskrunning ≠ some t := by
  intro running
  obtain ⟨new, queue, -⟩ := yielding.queue
  have queued : t ∈ s.seq .taskrunqueue := by simp [queue]
  rw [mem_seq_iff, ((inv.listed t).running running).2] at queued
  cases queued

/-! ## The call -/

theorem taskyield_appends {s₁ : St} (done : taskyield s t = .ok (s₁, n)) :
    n = s.tasknswitch ∧ s₁.seq .taskrunqueue = s.seq .taskrunqueue ++ [t] ∧
      s₁.tasknswitch = s.tasknswitch := by
  obtain ⟨s₂, readied, returned⟩ := bind_eq_ok.mp done
  obtain ⟨rfl, rfl⟩ := Prod.mk.inj (Except.ok.inj returned)
  obtain ⟨lists, -, rfl, seqEq, -⟩ := taskready_ok readied
  exact ⟨rfl, by simp [seqEq], rfl⟩

/-- The end of the step in which a task calls `taskyield`. -/
theorem finish_yielding {s₁ s₂ : St} (yields : pc.yields = some n)
    (done : taskyield s₁ t = .ok (s₂, n)) (finished : finish t (s₂, .switch pc) = .ok s')
    (turned : Turned t code s s') (queue : s₁.seq .taskrunqueue = qs) :
    Yielding t pc n [] qs s' := by
  obtain ⟨nEq, appended, nswitchEq⟩ := taskyield_appends done
  have pcEq : (s'.task t).pc = pc := by simp [finish_pc finished t, Flow.pc]
  constructor
  · refine turned.live ?_
    rw [pcEq]
    rintro rfl
    cases yields
  · exact pcEq
  · exact yields
  · refine ⟨[], ?_, fun _ => ⟨rfl, ?_⟩⟩
    · rw [← queue, ← appended]
      simp only [St.seq, finish_lists finished]
    · cases running : s'.taskrunning with
      | none => rfl
      | some u =>
          obtain ⟨-, r, user⟩ := turned.running u running
          rw [pcEq] at user
          subst user
          cases yields
  · rw [(finish_globals finished).2, nswitchEq, nEq]
    simp

theorem YieldCall.yielding (called : YieldCall s t qs a) (inv : Inv s.taskrunning s)
    (isEnabled : enabled s a) (stepped : step s a = .ok s') :
    ∃ pc n, Yielding t pc n [] qs s' ∧ (a = .call .taskyield → pc = .taskyield n) := by
  cases called with
  | user running queue =>
      have turned := step_turned inv isEnabled (.call running) stepped
      simp only [step, running] at stepped
      obtain ⟨⟨s₂, flow⟩, called, finished⟩ := bind_eq_ok.mp stepped
      obtain ⟨⟨s₁, n⟩, yielded, returned⟩ := bind_eq_ok.mp called
      obtain ⟨rfl, rfl⟩ := Prod.mk.inj (Except.ok.inj returned)
      exact ⟨.taskyield n, n, finish_yielding rfl yielded finished turned queue, fun _ => rfl⟩
  | fdtask idle scheduled pass queue =>
      obtain ⟨-, isHead, -⟩ := taskscheduler_ok scheduled
      have turned := step_turned inv isEnabled (.dispatch idle isHead) stepped
      obtain ⟨⟨s₁, t'⟩, scheduled', rest⟩ := bind_eq_ok.mp stepped
      obtain ⟨rfl, rfl⟩ := Prod.mk.inj (Except.ok.inj (scheduled.symm.trans scheduled'))
      obtain ⟨⟨s₂, flow⟩, resumed, finished⟩ := bind_eq_ok.mp rest
      obtain ⟨⟨s₃, n⟩, yielded, returned⟩ := bind_eq_ok.mp (pass.symm.trans resumed)
      obtain ⟨rfl, rfl⟩ := Prod.mk.inj (Except.ok.inj returned)
      exact ⟨.fdtaskYield n, n, finish_yielding rfl yielded finished turned queue, by simp⟩

/-! ## The round -/

/-- A step of another task leaves `t` in its place; only the scheduler takes one of the
tasks in front of it. -/
theorem Yielding.turn (yielding : Yielding t pc n passed before s) (other : u ≠ t)
    (acts : Acts s a u code) (turned : Turned u code s s') :
    ∃ rest, before = code.dispatched u ++ rest ∧
      Yielding t pc n (passed ++ code.dispatched u) rest s' := by
  obtain ⟨live, stopped, yields, ⟨new, queue, fresh⟩, count⟩ := yielding
  obtain ⟨live', same⟩ := turned.others t live (Ne.symm other)
  obtain ⟨later, split, rest', queue'⟩ := turned.queue
  have started : passed ++ code.dispatched u ≠ [] := by
    cases acts with
    | call running =>
        intro nothing
        rw [(fresh (List.append_eq_nil_iff.mp nothing).1).2] at running
        cases running
    | dispatch => simp [Code.dispatched]
  have front : ∃ rest, before = code.dispatched u ++ rest ∧ later = rest ++ t :: new := by
    rw [queue] at split
    cases code with
    | call c => exact ⟨before, rfl, split.symm⟩
    | resume pc =>
        cases before with
        | nil =>
            obtain ⟨same, -⟩ := List.cons.inj split
            exact absurd same.symm other
        | cons v rest =>
            obtain ⟨rfl, tail⟩ := List.cons.inj split
            exact ⟨rest, rfl, tail.symm⟩
  obtain ⟨rest, frontEq, laterEq⟩ := front
  refine ⟨rest, frontEq, live', by rw [same.pc, stopped], yields, ⟨new ++ rest', ?_, ?_⟩, ?_⟩
  · rw [← queue', laterEq]
    simp
  · exact fun nothing => absurd nothing started
  · rw [turned.tasknswitch, count, List.length_append, BitVec.add_assoc, BitVec.ofNat_add]

/-- A number that an `int` can hold. -/
theorem toInt_ofNat_small {x : Nat} (small : x < 2 ^ 31) : (BitVec.ofNat 32 x).toInt = x := by
  rw [BitVec.toInt_eq_toNat_of_lt]
  · simp only [BitVec.toNat_ofNat]
    omega
  · simp only [BitVec.toNat_ofNat]
    omega

/-- The task runs again when nobody is in front of it, and then it counts who passed. -/
theorem Yielding.returns {s₁ : St} (yielding : Yielding t pc n passed [] s)
    (few : passed.length < 2 ^ 31) (scheduled : taskscheduler s = .ok (s₁, u)) :
    u = t ∧ (s₁.task t).pc = pc ∧ taskyieldReturn s₁ n = passed.length := by
  obtain ⟨-, stopped, -, ⟨new, queue, -⟩, count⟩ := yielding
  obtain ⟨-, isHead, lists, rfl, -⟩ := taskscheduler_ok scheduled
  rw [queue] at isHead
  obtain rfl : t = u := Option.some.inj isHead
  refine ⟨rfl, by simpa using stopped, ?_⟩
  have difference : s.tasknswitch + 1 - n - 1 = BitVec.ofNat 32 passed.length := by
    rw [count]
    grind
  rw [taskyieldReturn, difference, toInt_ofNat_small few]

/-- While `t` is in its `taskyield` the dispatches are those of the tasks in front of it,
and the next one is its own. -/
theorem Yielding.round {allowed : St → Act → Prop} {s₁ s₂ : St}
    (reachable : Reachable allowed s₁) (yielding : Yielding t pc n [] qs s₁)
    (reaches : Reaches runtime allowed s₁ s₂) :
    ∃ later, dispatches s₂.trace = dispatches s₁.trace ++ later ∧
      ((∃ before, qs = later ++ before ∧ Yielding t pc n later before s₂) ∨
        qs ++ [t] <+: later) := by
  induction reaches with
  | refl => exact ⟨[], by simp, Or.inl ⟨qs, rfl, yielding⟩⟩
  | step reaches' isEnabled _ stepped ih =>
      obtain ⟨later, dispatched, ⟨before, split, stillThere⟩ | roundDone⟩ := ih
      all_goals
        have inv := reachable_inv (reaches'.reachable reachable)
        obtain ⟨u, code, acts, turned⟩ := exists_turned inv isEnabled stepped
        refine ⟨later ++ code.dispatched u, ?_, ?_⟩
        · rw [turned.dispatches, dispatched, List.append_assoc]
      · by_cases isT : u = t
        · subst isT
          obtain ⟨new, queue, -⟩ := stillThere.queue
          cases acts with
          | call running => exact absurd running (stillThere.idle inv)
          | dispatch _ isHead =>
              have nodup := stillThere.nodup
              cases before with
              | nil =>
                  refine Or.inr ?_
                  simp [split, Code.dispatched]
              | cons v rest =>
                  rw [queue] at isHead
                  obtain rfl : v = u := Option.some.inj isHead
                  simp at nodup
        · obtain ⟨rest, frontEq, still⟩ := stillThere.turn isT acts turned
          exact Or.inl ⟨rest, by rw [split, frontEq, List.append_assoc], still⟩
      · exact Or.inr (roundDone.trans (List.prefix_append _ _))

/-- If `taskyield` is called while the run queue holds `qs`, then in every continuation the
dispatches are those of `qs`, in this order and each once, then that of the caller; and
what `taskyield` returns then is the length of `qs`. -/
theorem yield_round {allowed : St → Act → Prop} {s s₁ : St} {a : Act} {t : TaskPtr}
    {qs : List TaskPtr} (reachable : Reachable allowed s) (isEnabled : enabled s a)
    (kept : allowed s a) (called : YieldCall s t qs a) (stepped : step s a = .ok s₁)
    (few : qs.length < 2 ^ 31) :
    (qs ++ [t]).Nodup ∧
    ∀ s₂, Reaches runtime allowed s₁ s₂ →
      ∃ later, dispatches s₂.trace = dispatches s₁.trace ++ later ∧
        (later <+: qs ++ [t] ∨ qs ++ [t] <+: later) ∧
        (later = qs → ∀ s₃ u, taskscheduler s₂ = .ok (s₃, u) → u = t ∧
          ∃ n, (s₃.task t).pc.yields = some n ∧ taskyieldReturn s₃ n = qs.length ∧
            (taskyieldReturn s₃ n = 0 ↔ qs = [])) ∧
        (later = qs → a = .call .taskyield → ∀ env s₃, enabled s₂ (.dispatch env) →
          step s₂ (.dispatch env) = .ok s₃ →
          s₃.taskrunning = some t ∧ (s₃.task t).pc = .user (some qs.length)) := by
  have reachable₁ := reachable.step isEnabled kept stepped
  obtain ⟨pc, n, yielding, user⟩ := called.yielding (reachable_inv reachable) isEnabled stepped
  refine ⟨yielding.nodup, fun s₂ reaches => ?_⟩
  obtain ⟨later, dispatched, phase⟩ := yielding.round reachable₁ reaches
  have nextIsCaller : later = qs → Yielding t pc n qs [] s₂ := by
    rintro rfl
    rcases phase with ⟨before, split, stillThere⟩ | roundDone
    · obtain rfl : before = [] := by simpa using split
      exact stillThere
    · have shorter := roundDone.length_le
      simp only [List.length_append, List.length_singleton] at shorter
      omega
  have returns : later = qs → ∀ s₃ u, taskscheduler s₂ = .ok (s₃, u) →
      u = t ∧ (s₃.task t).pc = pc ∧ taskyieldReturn s₃ n = qs.length :=
    fun reached s₃ u scheduled => (nextIsCaller reached).returns few scheduled
  refine ⟨later, dispatched, ?_, ?_, ?_⟩
  · rcases phase with ⟨before, split, -⟩ | roundDone
    · refine Or.inl ⟨before ++ [t], ?_⟩
      rw [split, List.append_assoc]
    · exact Or.inr roundDone
  · intro reached s₃ u scheduled
    obtain ⟨isT, stopped, returned⟩ := returns reached s₃ u scheduled
    refine ⟨isT, n, by rw [stopped, yielding.yields], returned, ?_⟩
    rw [returned]
    simp
  · intro reached isUser env s₃ isEnabled' stepped'
    cases step_shape isEnabled' stepped' with
    | dispatch idle scheduled resumed finished =>
        obtain ⟨rfl, stopped, returned⟩ := returns reached _ _ scheduled
        rw [stopped, user isUser] at resumed
        obtain ⟨rfl, rfl⟩ := Prod.mk.inj (Except.ok.inj resumed)
        obtain ⟨-, -, lists, s₃Eq, -⟩ := taskscheduler_ok scheduled
        rw [finish_pc finished, if_pos rfl, returned]
        have finishedEq := Except.ok.inj finished
        rw [← finishedEq, s₃Eq]
        exact ⟨rfl, rfl⟩

/-- The main task yields to two others, the first of which creates a third one. -/
theorem yield_round_two : ∃ s₂ s₃ : St, s₂.seq .taskrunqueue = [1, 4, 3] ∧
    step s₂ (.dispatch {}) = .ok s₃ ∧ s₃.taskrunning = some 1 ∧
    (s₃.task 1).pc = .user (some 2) := by
  obtain ⟨s, s₁, s₂, reachable, first, isEnabled, kept, stepped, afterwards, last⟩ :=
    exists_run_through anyAction (fun _ => none)
      [.dispatch {}, .call (.taskcreate (some 2)), .call (.taskcreate (some 3))]
      (fun s => decide (s.taskrunning = some 1) && decide (s.seq .taskrunqueue = [2, 3]) &&
        decide (dispatches s.trace = [1]))
      (.call .taskyield)
      [.dispatch {}, .call (.taskcreate (some 4)), .call (.taskexit 0), .dispatch {},
        .call .taskyield]
      (fun s => decide (dispatches s.trace = [1, 2, 3]) &&
        decide (s.seq .taskrunqueue = [1, 4, 3]) && decide (enabled s (.dispatch {})) &&
        (step s (.dispatch {})).isOk)
      (by decide +kernel)
  simp only [Bool.and_eq_true, decide_eq_true_eq] at first last
  obtain ⟨⟨running, queue⟩, dispatched⟩ := first
  obtain ⟨⟨⟨later, queue₂⟩, isEnabled₂⟩, goes⟩ := last
  have called : YieldCall s 1 [2, 3] (.call .taskyield) := .user running queue
  have same : dispatches s₁.trace = [1] := by
    rw [(step_turned (reachable_inv reachable) isEnabled (.call running) stepped).dispatches,
      dispatched]
    rfl
  cases stepped₂ : step s₂ (.dispatch {}) with
  | error why =>
      rw [stepped₂] at goes
      cases goes
  | ok s₃ =>
      obtain ⟨more, split, -, -, user⟩ := (yield_round reachable isEnabled kept called stepped
        (by decide)).2 s₂ (reaches_exec afterwards)
      rw [later, same] at split
      have round : more = [2, 3] := (List.cons.inj split).2.symm
      exact ⟨s₂, s₃, queue₂, stepped₂, user round rfl {} s₃ isEnabled₂ stepped₂⟩

end Libtask
