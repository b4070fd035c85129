import Libtask.SleepStep

/-!
# Sleeping tasks are woken in time

The sleeping list holds the tasks that are in `taskdelay`, in the order of their deadlines.
A pass of `fdtask` wakes the ones whose deadline the clock has reached, so a task sleeps on
exactly as long as all readings of the clock are before its deadline.
-/

namespace Libtask

open Function (update update_self update_of_ne)
open Outcome (bind_eq_ok)
open Transition

/-- The clock stays below `2 ^ 63` nanoseconds. -/
def SaneClock (_ : St) : Act → Prop
  | .dispatch env => env.now < 2 ^ 63 ∧ env.nowAfter < 2 ^ 63
  | .call (.taskdelay _ now _) => now < 2 ^ 63
  | _ => True

instance (s : St) (a : Act) : Decidable (SaneClock s a) :=
  match a with
  | .dispatch _ => inferInstanceAs (Decidable (_ ∧ _))
  | .call (.taskdelay ..) => inferInstanceAs (Decidable (_ < _))
  | .call (.taskcreate _) | .call .tasksystem | .call .taskyield | .call (.taskexit _)
  | .call .taskreturn | .call (.taskexitall _) | .call .anyready | .call (.fdwait ..)
  | .call (.qlock _) | .call (.canqlock _) | .call (.qunlock _)
  | .call (.rlock _) | .call (.canrlock _) | .call (.runlock _)
  | .call (.wlock _) | .call (.canwlock _) | .call (.wunlock _)
  | .call (.tasksleep _) | .call (.taskwakeup _) | .call (.taskwakeupall _)
  | .call (.chancreate ..) | .call (.chanalt ..) | .call (.chanop ..)
  | .call (.store ..) => isTrue trivial

variable {s s' s₁ : St} {a : Act} {t u : TaskPtr} {code : Code}

/-! ## The list -/

/-- The task that acts does not sleep. -/
theorem Acts.awake (acts : Acts s a t code) (inv : Inv s.taskrunning s) :
    t ∉ s.seq .sleeping := by
  rw [mem_seq_iff]
  intro asleep
  cases acts with
  | call running =>
      rw [((inv.listed t).running running).2] at asleep
      cases asleep
  | dispatch _ isHead =>
      rw [(mem_seq_iff s t _).mp (List.mem_of_mem_head? isHead)] at asleep
      cases asleep

/-- The deadline of a sleeper stays. -/
theorem Turned.alarmtime (turned : Turned t code s s') (acts : Acts s a t code)
    (inv : Inv s.taskrunning s) (asleep : u ∈ s.seq .sleeping) :
    s'.alarmtime u = s.alarmtime u := by
  have live := (inv.listed u).live _ ((mem_seq_iff s u _).mp asleep)
  have other : u ≠ t := fun same => acts.awake inv (same ▸ asleep)
  exact (turned.others u live other).2.alarmtime

/-- At the moment of the `poll` the list is what it was before the turn. -/
theorem PollCall.before (called : PollCall s t s₁) :
    s₁.seq .sleeping = s.seq .sleeping ∧ s₁.alarmtime = s.alarmtime :=
  ⟨(taskscheduler_keepsSleep called.scheduled).sleeping,
    taskscheduler_alarmtime called.scheduled⟩

theorem SleepTurn.sorted (turn : SleepTurn t s s' a) (turned : Turned t code s s')
    (acts : Acts s a t code) (inv : Inv s.taskrunning s)
    (sorted : Agenda.Sorted s.alarmtime (s.seq .sleeping)) :
    Agenda.Sorted s'.alarmtime (s'.seq .sleeping) := by
  have kept : Agenda.Sorted s'.alarmtime (s.seq .sleeping) :=
    sorted.congr fun u asleep => turned.alarmtime acts inv asleep
  cases turn with
  | quiet _ keeps =>
      rw [keeps.sleeping]
      exact kept
  | delay _ _ sleeping =>
      rw [sleeping]
      exact kept.enter t
  | pass called _ pass =>
      obtain ⟨asleep, alarmtimeEq⟩ := called.before
      rw [pass.sleeping, asleep, alarmtimeEq]
      exact List.Pairwise.sublist (List.dropWhile_sublist _) kept

theorem reachable_sorted {allowed : St → Act → Prop} (reachable : Reachable allowed s) :
    Agenda.Sorted s.alarmtime (s.seq .sleeping) := by
  apply reachable.invariant fun s => Agenda.Sorted s.alarmtime (s.seq .sleeping)
  · rintro s ⟨rendez, mem, t, started⟩
    obtain ⟨id, created⟩ := main_ok started
    rw [(taskcreate_keepsSleep created).sleeping]
    exact List.Pairwise.nil
  · intro s a s' before sorted isEnabled _ stepped
    have inv := reachable_inv before
    obtain ⟨t, code, acts, turned⟩ := exists_turned inv isEnabled stepped
    exact (step_sleeps isEnabled acts stepped).sorted turned acts inv sorted

/-- The deadline of a sleeper is a `uvlong`. -/
theorem reachable_deadline {allowed : St → Act → Prop} (reachable : Reachable allowed s) :
    ∀ u ∈ s.seq .sleeping, s.alarmtime u < 2 ^ 64 := by
  apply reachable.invariant fun s => ∀ u ∈ s.seq .sleeping, s.alarmtime u < 2 ^ 64
  · rintro s ⟨rendez, mem, t, started⟩ u asleep
    obtain ⟨id, created⟩ := main_ok started
    rw [(taskcreate_keepsSleep created).sleeping] at asleep
    cases asleep
  · intro s a s' before ih isEnabled _ stepped u asleep
    have inv := reachable_inv before
    obtain ⟨t, code, acts, turned⟩ := exists_turned inv isEnabled stepped
    have kept (was : u ∈ s.seq .sleeping) : s'.alarmtime u < 2 ^ 64 := by
      rw [turned.alarmtime acts inv was]
      exact ih u was
    cases step_sleeps isEnabled acts stepped with
    | quiet _ keeps => exact kept (keeps.sleeping ▸ asleep)
    | delay _ due sleeping =>
        rw [sleeping, (Agenda.enter_perm _ _ _).mem_iff] at asleep
        rcases List.mem_cons.mp asleep with rfl | was
        · rw [due]
          exact Nat.mod_lt _ (by decide)
        · exact kept was
    | pass called _ pass =>
        rw [pass.sleeping, called.before.1] at asleep
        exact kept ((List.dropWhile_sublist _).subset asleep)

/-- The list holds the tasks that wait in `taskdelay`. -/
theorem Inv.mem_sleeping (inv : Inv s.taskrunning s) (user : ∀ u, s.taskrunning = some u →
      ∃ r, (s.task u).pc = .user r) (t : TaskPtr) :
    t ∈ s.seq .sleeping ↔ t ∈ s.alltask ∧ (∃ start, (s.task t).pc = .taskdelay start) ∧
      (s.task t).ready = false := by
  rw [mem_seq_iff]
  have listed := inv.listed t
  constructor
  · intro asleep
    refine ⟨listed.live _ asleep, ?_, ?_⟩
    · have waits := listed.waits _ asleep (by simp)
      cases stopped : (s.task t).pc <;> simp [stopped, Pc.waitlist] at waits
      exact ⟨_, rfl⟩
    · rw [Bool.eq_false_iff]
      intro ready
      rw [listed.ready.mp ready] at asleep
      cases asleep
  · rintro ⟨live, ⟨start, stopped⟩, notReady⟩
    have idle : s.taskrunning ≠ some t := by
      intro running
      obtain ⟨r, isUser⟩ := user t running
      rw [stopped] at isUser
      cases isUser
    cases homeEq : s.home t with
    | none =>
        rcases listed.outside _ ⟨live, idle, stopped⟩ homeEq with polls | ⟨a, base⟩
        · cases polls
        · cases base
    | some l =>
        by_cases onRun : l = .taskrunqueue
        · rw [listed.ready.mpr (onRun ▸ homeEq)] at notReady
          cases notReady
        · have waits := listed.waits l homeEq onRun
          rw [stopped] at waits
          rw [← Option.some.inj waits]

/-! ## A sleep -/

/-- Task `t` is in a `taskdelay` that ends at `due`, and `readings` are the clock readings
since the call. -/
structure Sleeper (t : TaskPtr) (start due : Nat) (readings : List (Nat × List TaskPtr))
    (s : St) : Prop where
  live : t ∈ s.alltask
  stopped : (s.task t).pc = .taskdelay start
  deadline : s.alarmtime t = due
  asleep : t ∈ s.seq .sleeping ↔ ∀ r ∈ readings, r.1 < due
  ready : t ∈ s.seq .taskrunqueue ↔ ∃ r ∈ readings, due ≤ r.1

variable {start due : Nat} {readings : List (Nat × List TaskPtr)}

theorem awake_iff (readings : List (Nat × List TaskPtr)) (due : Nat) :
    (∃ r ∈ readings, due ≤ r.1) ↔ ¬∀ r ∈ readings, r.1 < due := by
  simp

/-- A sleeper is either in the list or ready. -/
theorem Sleeper.ready_iff (inv : Inv s.taskrunning s)
    (user : ∀ u, s.taskrunning = some u → ∃ r, (s.task u).pc = .user r)
    (live : t ∈ s.alltask) (stopped : (s.task t).pc = .taskdelay start) :
    t ∈ s.seq .taskrunqueue ↔ t ∉ s.seq .sleeping := by
  rw [inv.mem_sleeping user, ← inv.ready_iff]
  simp [live, stopped]

/-- A step of another task wakes the sleeper exactly if it reads a clock that has reached
the deadline. -/
theorem Sleeper.turn (sleeper : Sleeper t start due readings s) (other : u ≠ t)
    (turn : SleepTurn u s s' a) (turned : Turned u code s s') (inv' : Inv s'.taskrunning s')
    (user' : ∀ u, s'.taskrunning = some u → ∃ r, (s'.task u).pc = .user r)
    (sorted : Agenda.Sorted s.alarmtime (s.seq .sleeping)) :
    ∃ more, alarms s'.trace = alarms s.trace ++ more ∧
      Sleeper t start due (readings ++ more) s' := by
  obtain ⟨live, same⟩ := turned.others t sleeper.live (Ne.symm other)
  have stopped : (s'.task t).pc = .taskdelay start := same.pc.trans sleeper.stopped
  have deadline : s'.alarmtime t = due := same.alarmtime.trans sleeper.deadline
  have step : ∃ more, alarms s'.trace = alarms s.trace ++ more ∧
      (t ∈ s'.seq .sleeping ↔ t ∈ s.seq .sleeping ∧ ∀ r ∈ more, r.1 < due) := by
    cases turn with
    | quiet _ keeps => exact ⟨[], by simp [keeps.alarms], by rw [keeps.sleeping]; simp⟩
    | delay _ _ sleeping alarmsEq =>
        refine ⟨[], by simp [alarmsEq], ?_⟩
        rw [sleeping, (Agenda.enter_perm _ _ _).mem_iff]
        simp [Ne.symm other]
    | pass called _ pass =>
        obtain ⟨asleep, alarmtimeEq⟩ := called.before
        have alarmsEq := pass.alarms
        rw [(taskscheduler_keepsSleep called.scheduled).alarms] at alarmsEq
        refine ⟨_, alarmsEq, ?_⟩
        rw [pass.sleeping, asleep, alarmtimeEq, sorted.mem_later, sleeper.deadline]
        simp
  obtain ⟨more, alarmsEq, asleep⟩ := step
  have asleep' : t ∈ s'.seq .sleeping ↔ ∀ r ∈ readings ++ more, r.1 < due := by
    rw [asleep, sleeper.asleep, List.forall_mem_append]
  refine ⟨more, alarmsEq, live, stopped, deadline, asleep', ?_⟩
  rw [Sleeper.ready_iff inv' user' live stopped, asleep', awake_iff]

/-- A sleep, until the sleeper is dispatched. -/
theorem Sleeper.run {allowed : St → Act → Prop} {s₂ : St} (reachable : Reachable allowed s₁)
    (sleeper : Sleeper t start due [] s₁) (reaches : Reaches runtime allowed s₁ s₂) :
    ∃ later, dispatches s₂.trace = dispatches s₁.trace ++ later ∧
      (t ∈ later ∨ ∃ readings, alarms s₂.trace = alarms s₁.trace ++ readings ∧
        Sleeper t start due readings s₂) := by
  induction reaches with
  | refl => exact ⟨[], by simp, Or.inr ⟨[], by simp, sleeper⟩⟩
  | step reaches' isEnabled kept stepped ih =>
      have before := reaches'.reachable reachable
      have after := before.step isEnabled kept stepped
      have inv := reachable_inv before
      obtain ⟨u, code, acts, turned⟩ := exists_turned inv isEnabled stepped
      obtain ⟨later, dispatched, phase⟩ := ih
      refine ⟨later ++ code.dispatched u, ?_, ?_⟩
      · rw [turned.dispatches, dispatched, List.append_assoc]
      rcases phase with woken | ⟨readings, alarmsEq, still⟩
      · exact Or.inl (List.mem_append_left _ woken)
      by_cases other : u = t
      · subst other
        refine Or.inl (List.mem_append_right _ ?_)
        cases acts with
        | call running =>
            obtain ⟨r, isUser⟩ := running_user before u running
            rw [still.stopped] at isUser
            cases isUser
        | dispatch => simp [Code.dispatched]
      · obtain ⟨more, alarmsEq', sleeper'⟩ := still.turn other
          (step_sleeps isEnabled acts stepped) turned (reachable_inv after)
          (running_user after) (reachable_sorted before)
        refine Or.inr ⟨readings ++ more, ?_, sleeper'⟩
        rw [alarmsEq', alarmsEq, List.append_assoc]

/-! ## Correctness -/

/-- What a pass of `fdtask` that reads `now` after its `poll` does to the sleepers: those that
are due become ready in the order of their deadlines, behind the tasks `polled` that are
woken for `poll`, and the others stay. -/
structure WakesDue (t : TaskPtr) (now : Nat) (s s' : St) : Prop where
  woken : Agenda.Sorted s.alarmtime ((s.seq .sleeping).filter fun u => s.alarmtime u ≤ now)
  ready : ∃ polled, (∀ u ∈ polled, u ∉ s.seq .sleeping) ∧
    s'.seq .taskrunqueue = (s.seq .taskrunqueue).erase t ++ polled ++
      (s.seq .sleeping).filter (fun u => s.alarmtime u ≤ now) ++ [t]
  kept : s'.seq .sleeping = (s.seq .sleeping).filter fun u => now < s.alarmtime u

theorem PollCall.wakesDue {allowed : St → Act → Prop} {env : Env} {revents : Nat → Nat}
    (reachable : Reachable allowed s) (isEnabled : enabled s (.dispatch env))
    (called : PollCall s t s₁) (success : env.poll = .ready revents)
    (stepped : step s (.dispatch env) = .ok s') : WakesDue t env.nowAfter s s' := by
  obtain ⟨polled, pass⟩ := called.sleeps success stepped
  have sorted := reachable_sorted reachable
  have inv' := step_inv (reachable_inv reachable) isEnabled stepped
  obtain ⟨asleep, alarmtimeEq⟩ := called.before
  obtain ⟨-, isHead, lists, s₁Eq, -, seqEq, -⟩ := taskscheduler_ok called.scheduled
  have front : s₁.seq .taskrunqueue = (s.seq .taskrunqueue).erase t := by
    obtain ⟨rest, split⟩ := List.head?_eq_some_iff.mp isHead
    simp [s₁Eq, seqEq, split]
  have queue := pass.queue
  have kept := pass.sleeping
  rw [front, asleep, alarmtimeEq, sorted.due_eq_filter] at queue
  rw [asleep, alarmtimeEq, sorted.later_eq_filter] at kept
  refine ⟨List.Pairwise.sublist List.filter_sublist sorted, ⟨polled, ?_, queue⟩, kept⟩
  intro u member wasAsleep
  have nodup := s'.lists.nodup .taskrunqueue
  change (s'.seq .taskrunqueue).Nodup at nodup
  have ready : u ∈ s'.seq .taskrunqueue := by
    rw [queue]
    simp [member]
  rcases Nat.lt_or_ge env.nowAfter (s.alarmtime u) with early | isDue
  · have stays : u ∈ s'.seq .sleeping := by
      rw [kept]
      simp [wasAsleep, early]
    rw [mem_seq_iff] at stays ready
    rw [stays] at ready
    cases ready
  · rw [queue] at nodup
    have twice := (List.nodup_append.mp nodup.of_append_left).2.2 u
      (List.mem_append_right _ member) u (by simpa using ⟨wasAsleep, isDue⟩)
    exact twice rfl

/-- While the clock stays below `2 ^ 63`: a deadline is the sum of the clock and the delay; the
sleeping list is well formed, holds each task that waits in `taskdelay` once, and is sorted
by deadline; a pass that reads the clock wakes exactly the tasks that are due, in order; and
a task sleeps exactly as long as all clock readings of passes since its call are before its
deadline, and then it is ready. -/
theorem sleep_queue {allowed : St → Act → Prop} {s : St}
    (clock : ∀ s a, allowed s a → SaneClock s a) (reachable : Reachable allowed s) :
    (s.lists.links.Linked .sleeping (s.seq .sleeping) ∧ (s.seq .sleeping).Nodup ∧
      (∀ t, t ∈ s.seq .sleeping ↔ t ∈ s.alltask ∧
        (∃ start, (s.task t).pc = .taskdelay start) ∧ (s.task t).ready = false) ∧
      Agenda.Sorted s.alarmtime (s.seq .sleeping)) ∧
    (∀ t s₁ env revents s', enabled s (.dispatch env) → PollCall s t s₁ →
      env.poll = .ready revents → step s (.dispatch env) = .ok s' →
      WakesDue t env.nowAfter s s') ∧
    ∀ t ms now m s₁, s.taskrunning = some t → enabled s (.call (.taskdelay ms now m)) →
      allowed s (.call (.taskdelay ms now m)) →
      step s (.call (.taskdelay ms now m)) = .ok s₁ →
      now + ms * 1000000 < 2 ^ 64 ∧ s₁.alarmtime t = now + ms * 1000000 ∧
      ∀ s₂ later, Reaches runtime allowed s₁ s₂ →
        dispatches s₂.trace = dispatches s₁.trace ++ later → t ∉ later →
        ∃ readings, alarms s₂.trace = alarms s₁.trace ++ readings ∧
          s₂.alarmtime t = now + ms * 1000000 ∧
          (t ∈ s₂.seq .sleeping ↔ ∀ r ∈ readings, r.1 < now + ms * 1000000) ∧
          (t ∈ s₂.seq .taskrunqueue ↔ ∃ r ∈ readings, now + ms * 1000000 ≤ r.1) := by
  have inv := reachable_inv reachable
  refine ⟨⟨s.lists.linked .sleeping, s.lists.nodup .sleeping,
    inv.mem_sleeping (running_user reachable), reachable_sorted reachable⟩, ?_, ?_⟩
  · exact fun t s₁ env revents s' isEnabled called success stepped =>
      called.wakesDue reachable isEnabled success stepped
  · intro t ms now m s₁ running isEnabled kept stepped
    have small : ms < 2 ^ 32 := by
      have isLegal := isEnabled.2
      simp only [legal, Bool.and_eq_true, decide_eq_true_eq] at isLegal
      exact isLegal.1.1
    have early : now < 2 ^ 63 := clock s _ kept
    have noWrap : now + ms * 1000000 < 2 ^ 64 := by omega
    have reachable₁ : Reachable allowed s₁ :=
      Transition.Reachable.step (a := .call (.taskdelay ms now m)) reachable isEnabled kept stepped
    have turned := step_turned inv isEnabled (.call running) stepped
    cases step_sleeps isEnabled (.call running) stepped with
    | quiet isNot => exact absurd rfl (isNot ms now m)
    | delay stopped due sleeping alarmsEq =>
        rw [Nat.mod_eq_of_lt noWrap] at due
        have asleep : t ∈ s₁.seq .sleeping := by
          rw [sleeping, (Agenda.enter_perm _ _ _).mem_iff]
          exact List.mem_cons_self ..
        have live : t ∈ s₁.alltask := turned.live (by simp [stopped])
        have sleeper : Sleeper t now (now + ms * 1000000) [] s₁ := by
          refine ⟨live, stopped, due, by simp [asleep], ?_⟩
          rw [Sleeper.ready_iff (reachable_inv reachable₁) (running_user reachable₁) live stopped]
          simp [asleep]
        refine ⟨noWrap, due, ?_⟩
        intro s₂ later reaches dispatched notYet
        obtain ⟨later', dispatched', woken | ⟨readings, alarmsEq', still⟩⟩ :=
          sleeper.run reachable₁ reaches
        · obtain rfl : later' = later := List.append_cancel_left (dispatched'.symm.trans dispatched)
          exact absurd woken notYet
        · exact ⟨readings, alarmsEq', still.deadline, still.asleep, still.ready⟩

/-- Three tasks sleep; a reading of four milliseconds wakes the two that are due. -/
theorem sleep_queue_three : ∃ s₂ : St, ∃ readings : List (Nat × List TaskPtr),
    alarms s₂.trace = readings ∧ readings = [(4000000, [2, 4])] ∧ s₂.seq .sleeping = [1] ∧
    (1 ∈ s₂.seq .sleeping ↔ ∀ r ∈ readings, r.1 < 0 + 5 * 1000000) := by
  obtain ⟨s, s₁, s₂, reachable, first, isEnabled, kept, stepped, afterwards, last⟩ :=
    exists_run_through SaneClock (fun _ => none)
      [.dispatch {}, .call (.taskcreate (some 2)), .call (.taskcreate (some 4))]
      (fun s => decide (s.taskrunning = some 1) && decide (dispatches s.trace = [1]) &&
        decide (alarms s.trace = []))
      (.call (.taskdelay 5 0 (some 3)))
      [.dispatch {}, .call (.taskdelay 3 0 { malloc := none }), .dispatch {},
        .call (.taskdelay 4 0 { malloc := none }), .dispatch {},
        .dispatch { poll := .ready fun _ => 0, nowAfter := 4000000 }]
      (fun s => decide (alarms s.trace = [(4000000, [2, 4])]) &&
        decide (s.seq .sleeping = [1]) && decide (dispatches s.trace = [1, 2, 4, 3, 3]))
      (by decide +kernel)
  simp only [Bool.and_eq_true, decide_eq_true_eq] at first last
  obtain ⟨⟨running, dispatched⟩, noAlarm⟩ := first
  obtain ⟨⟨readings, asleep⟩, later⟩ := last
  have turned := step_turned (reachable_inv reachable) isEnabled (.call running) stepped
  have dispatched₁ : dispatches s₁.trace = [1] := by
    rw [turned.dispatches, dispatched]
    rfl
  obtain ⟨-, -, sleeps⟩ := (sleep_queue (fun _ _ kept => kept) reachable).2.2 1 5 0 (some 3) s₁
    running isEnabled kept stepped
  obtain ⟨more, split, -, exactly, -⟩ := sleeps s₂ [2, 4, 3, 3] (reaches_exec afterwards)
    (by rw [later, dispatched₁]; rfl) (by decide)
  have quiet : alarms s₁.trace = [] := by
    cases step_sleeps isEnabled (.call running) stepped with
    | quiet isNot => exact absurd rfl (isNot _ _ _)
    | delay _ _ _ same => rw [same, noAlarm]
  rw [quiet, List.nil_append] at split
  exact ⟨s₂, more, split, split ▸ readings, asleep, exactly⟩

end Libtask
