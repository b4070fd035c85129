import Libtask.ProgramProgress

/-!
# Programs that come to their end

A task that is ready runs after those in front of it, and one that is asleep runs once the clock
is late enough.  If the processes of a program can make only so many steps, and are never all
blocked, then each of its runs can be brought to an end.
-/

namespace Libtask

namespace Program

open Transition (anyAction Reaches)

variable {V L O : Type} {e : Bytes.Encoding V} {program : Program V L O} {start : L}
variable {n n' n₁ : State L O} {t u : TaskPtr} {f : Frame L}

/-! ## Turns of the scheduler -/

/-- A task of the program is ready. -/
def Ready (n : State L O) : Prop := ∃ t f, n.frame t = some f ∧ t ∈ n.rt.seq .taskrunqueue

/-- A task of the program is not blocked: it is ready, or it sleeps until its delay is over. -/
def Waiting (n : State L O) : Prop :=
  ∃ t f, n.frame t = some f ∧ (t ∈ n.rt.seq .taskrunqueue ∨ t ∈ n.rt.seq .sleeping)

/-- Turns of the scheduler lead from `n` to `n'`, and the tasks of the program make no step. -/
structure Switches (e : Bytes.Encoding V) (program : Program V L O) (start : L)
    (n n' : State L O) : Prop where
  reaches : Reaches (system e program start) anyAction n n'
  frame : n'.frame = n.frame
  net : n'.net e program = n.net e program
  tasks : n'.rt.alltask.toFinset.card = n.rt.alltask.toFinset.card
  weights : n.weights program ≤ n'.weights program

theorem Switches.refl (n : State L O) : Switches e program start n n :=
  ⟨.refl, rfl, rfl, rfl, le_rfl⟩

theorem Switches.trans (first : Switches e program start n n₁)
    (second : Switches e program start n₁ n') : Switches e program start n n' where
  reaches := first.reaches.trans second.reaches
  frame := second.frame.trans first.frame
  net := second.net.trans first.net
  tasks := second.tasks.trans first.tasks
  weights := first.weights.trans second.weights

/-- `poll` finds nothing, and the clock is past all deadlines behind it. -/
def lateClock : Env := { poll := .ready fun _ => 0, nowAfter := 2 ^ 64 - 1 }

/-- What one turn of the scheduler comes to, which takes `t` from the head of the run queue. -/
structure Switched (e : Bytes.Encoding V) (program : Program V L O) (start : L)
    (n n' : State L O) (t : TaskPtr) : Prop where
  switches : Switches e program start n n'
  stepped : Libtask.step n.rt (.dispatch lateClock) = .ok n'.rt
  turned : Turned t (.resume (n.rt.task t).pc) n.rt n'.rt
  runs : ∀ f, n.frame t = some f → n'.rt.taskrunning = some t
  /-- `fdtask` gives up the CPU again -/
  yields : n.frame t = none → n'.rt.taskrunning = none

/-- The scheduler has a task to run while one of the program is there. -/
theorem exists_switched (fits : Fits e program) (reachable : Reachable e program start n)
    (idle : n.rt.taskrunning = none) (hasFrame : n.frame u = some f)
    (isHead : (n.rt.seq .taskrunqueue).head? = some t) :
    ∃ n', Switched e program start n n' t := by
  have wired := (reachable_refines fits reachable).1
  have inv := reachable_inv wired.reachable
  have isEnabled : Libtask.enabled n.rt (.dispatch lateClock) := ⟨idle, by decide, by decide⟩
  obtain ⟨rt, stepped⟩ : ∃ rt, Libtask.step n.rt (.dispatch lateClock) = .ok rt := by
    cases stopped : Libtask.step n.rt (.dispatch lateClock) with
    | ok rt => exact ⟨rt, rfl⟩
    | error why =>
        have empty : n.rt.seq .taskrunqueue = [] := by
          cases dispatch_ends wired (reachable_ordinary fits reachable) isEnabled stopped with
          | poll _ polled => cases polled
          | taskexitval nobody => cases (nobody u).symm.trans hasFrame
          | noRunnable =>
              rcases dispatch_stops inv isEnabled wired.places stopped with
                ⟨scheduled, -⟩ | ⟨notRunnable, -⟩
              · exact (taskscheduler_noRunnable.mp scheduled).2.1
              · cases notRunnable
        rw [empty] at isHead
        cases isHead
  obtain ⟨v, acts, quiet, alltask, isUser, -, -⟩ := dispatched wired isEnabled stepped
  obtain rfl : v = t := (acts.unique (.dispatch idle isHead)).1
  have turned := step_turned inv isEnabled acts stepped
  obtain ⟨-, same⟩ := dispatch_refines wired isEnabled stepped
  obtain ⟨weights, tasks, -⟩ := dispatch_weights wired isEnabled stepped
  have goes : step e program n (.dispatch lateClock) = .ok { n with rt } := by
    simp only [step, library, stepped]
    rfl
  have reaches : Reaches (system e program start) anyAction n { n with rt } :=
    .step (a := .dispatch lateClock) .refl isEnabled trivial goes
  refine ⟨{ n with rt }, ⟨reaches, rfl, same, tasks, weights⟩, stepped, turned,
    fun f hasFrame => (isUser f hasFrame).2, fun noFrame => ?_⟩
  by_contra running
  obtain ⟨u, running⟩ := Option.ne_none_iff_exists'.mp running
  obtain ⟨-, r, isPc⟩ := turned.running u running
  have live := acts.live inv
  have isFdtask := (kept_isFdtask wired.reachable isEnabled stepped live).trans
    (wired.others v live noFrame)
  rw [isPc] at isFdtask
  cases isFdtask

/-- The tasks in front of `u` run first, until one of the program does. -/
theorem queue_runs {before rest : List TaskPtr} (fits : Fits e program)
    (reachable : Reachable e program start n) (idle : n.rt.taskrunning = none)
    (hasFrame : n.frame u = some f) (queue : n.rt.seq .taskrunqueue = before ++ u :: rest) :
    ∃ n', Switches e program start n n' ∧ n'.rt.taskrunning.isSome = true := by
  induction before generalizing n rest with
  | nil =>
      obtain ⟨n', switched⟩ := exists_switched (t := u) fits reachable idle hasFrame
        (by rw [queue]; rfl)
      exact ⟨n', switched.switches, by rw [switched.runs f hasFrame]; rfl⟩
  | cons v before ih =>
      obtain ⟨n₁, switched⟩ := exists_switched (t := v) fits reachable idle hasFrame
        (by rw [queue]; rfl)
      cases frameOf : n.frame v with
      | some f' => exact ⟨n₁, switched.switches, by rw [switched.runs f' frameOf]; rfl⟩
      | none =>
          obtain ⟨later, split, added, queue'⟩ := switched.turned.queue
          obtain rfl : later = before ++ u :: rest := by
            simpa [queue, Code.dispatched] using split.symm
          have moved : n₁.rt.seq .taskrunqueue = before ++ u :: (rest ++ added) := by
            rw [← queue']
            simp
          obtain ⟨n', switches, running⟩ := ih (switched.switches.reaches.reachable reachable)
            (switched.yields frameOf) (switched.switches.frame ▸ hasFrame) moved
          exact ⟨n', switched.switches.trans switches, running⟩

theorem Ready.runs (ready : Ready n) (fits : Fits e program)
    (reachable : Reachable e program start n) (idle : n.rt.taskrunning = none) :
    ∃ n', Switches e program start n n' ∧ n'.rt.taskrunning.isSome = true := by
  obtain ⟨u, f, hasFrame, member⟩ := ready
  obtain ⟨before, rest, queue⟩ := List.append_of_mem member
  exact queue_runs fits reachable idle hasFrame queue

/-- Where no task of the program is ready, `fdtask` is the only one in the run queue. -/
theorem Wired.queue_alone (wired : Wired e program n) (idle : n.rt.taskrunning = none)
    (live : t ∈ n.rt.alltask) (isFdtask : (n.rt.task t).pc.isFdtask = true)
    (noneReady : ¬Ready n) : n.rt.seq .taskrunqueue = [t] := by
  have inv := reachable_inv wired.reachable
  have only : ∀ u ∈ n.rt.seq .taskrunqueue, u = t := by
    intro u ready
    have liveU := (inv.listed u).live _ ((mem_seq_iff n.rt u _).mp ready)
    have noFrame : n.frame u = none := by
      by_contra some?
      obtain ⟨f, hasFrame⟩ := Option.ne_none_iff_exists'.mp some?
      exact noneReady ⟨u, f, hasFrame, ready⟩
    exact reachable_fdtask_unique wired.reachable u liveU t live (wired.others u liveU noFrame)
      isFdtask
  have member := inv.fdtask_ready idle live isFdtask
  have nodup := n.rt.lists.nodup .taskrunqueue
  change (n.rt.seq .taskrunqueue).Nodup at nodup
  exact List.perm_singleton.mp ((List.perm_ext_iff_of_nodup nodup (List.nodup_singleton t)).mpr
    fun u => by simpa using ⟨only u, fun same => same ▸ member⟩)

/-- The turn of another task leaves `u` asleep, or makes it ready. -/
theorem Switched.asleep (switched : Switched e program start n n' t)
    (wired : Wired e program n) (wired' : Wired e program n') (hasFrame : n.frame u = some f)
    (asleep : u ∈ n.rt.seq .sleeping) (other : u ≠ t) (noneReady : ¬Ready n') :
    u ∈ n'.rt.seq .sleeping := by
  obtain ⟨-, ⟨since, stopped⟩, -⟩ :=
    ((reachable_inv wired.reachable).mem_sleeping (running_user wired.reachable) u).mp asleep
  obtain ⟨live, same⟩ := switched.turned.others u
    (((reachable_inv wired.reachable).listed u).live _ ((mem_seq_iff n.rt u _).mp asleep)) other
  by_contra awake
  exact noneReady ⟨u, f, switched.switches.frame ▸ hasFrame,
    (Sleeper.ready_iff (reachable_inv wired'.reachable) (running_user wired'.reachable) live
      (same.pc.trans stopped)).mpr awake⟩

/-- When nobody is ready but `fdtask`, it polls in its next turn but one, and wakes `u`. -/
theorem asleep_ready (fits : Fits e program) (reachable : Reachable e program start n)
    (idle : n.rt.taskrunning = none) (hasFrame : n.frame u = some f)
    (asleep : u ∈ n.rt.seq .sleeping) :
    ∃ n', Switches e program start n n' ∧ n'.rt.taskrunning = none ∧ Ready n' := by
  by_cases ready : Ready n
  · exact ⟨n, .refl n, idle, ready⟩
  have wired := (reachable_refines fits reachable).1
  have inv := reachable_inv wired.reachable
  obtain ⟨liveU, ⟨since, stopped⟩, -⟩ :=
    (inv.mem_sleeping (running_user wired.reachable) u).mp asleep
  obtain ⟨t, live, isFdtask⟩ := (reachable_started wired.reachable).mp
    (reachable_timed wired.reachable u liveU (by rw [stopped]; rfl))
  have queue := wired.queue_alone idle live isFdtask ready
  have isHead : (n.rt.seq .taskrunqueue).head? = some t := by rw [queue]; rfl
  have noFrame : n.frame t = none := by
    by_contra some?
    obtain ⟨f, hasFrame⟩ := Option.ne_none_iff_exists'.mp some?
    exact ready ⟨t, f, hasFrame, by simp [queue]⟩
  have isEnabled : Libtask.enabled n.rt (.dispatch lateClock) := ⟨idle, by decide, by decide⟩
  have acts : Acts n.rt (.dispatch lateClock) t _ := .dispatch idle isHead
  -- the first turn, after which `fdtask` is at its `while(taskyield() > 0)`
  obtain ⟨n₁, switched⟩ := exists_switched fits reachable idle hasFrame isHead
  have reachable₁ := switched.switches.reaches.reachable reachable
  have idle₁ := switched.yields noFrame
  have frame₁ := switched.switches.frame
  by_cases ready₁ : Ready n₁
  · exact ⟨n₁, switched.switches, idle₁, ready₁⟩
  have wired₁ := (reachable_refines fits reachable₁).1
  obtain ⟨m, yields⟩ := fdtask_yields isEnabled acts switched.stepped isFdtask
  have live₁ : t ∈ n₁.rt.alltask := switched.turned.live (by simp [yields])
  have queue₁ := wired₁.queue_alone idle₁ live₁ (by rw [yields]; rfl) ready₁
  have isHead₁ : (n₁.rt.seq .taskrunqueue).head? = some t := by rw [queue₁]; rfl
  have other : u ≠ t := by
    rintro rfl
    exact absurd (hasFrame.symm.trans noFrame) (Option.some_ne_none f)
  have asleep₁ := switched.asleep wired wired₁ hasFrame asleep other ready₁
  -- the second turn, in which it polls
  have isEnabled₁ : Libtask.enabled n₁.rt (.dispatch lateClock) :=
    ⟨idle₁, by decide, by decide⟩
  obtain ⟨n₂, switched₂⟩ := exists_switched fits reachable₁ idle₁ (frame₁ ▸ hasFrame) isHead₁
  obtain ⟨s₁, polls⟩ := exists_pollCall wired.reachable isEnabled acts switched.stepped isFdtask
    isHead₁ isEnabled₁ switched₂.stepped
  obtain ⟨polled, -, queue₂⟩ :=
    (polls.wakesDue wired₁.reachable isEnabled₁ rfl switched₂.stepped).ready
  have late : n₁.rt.alarmtime u ≤ lateClock.nowAfter := by
    have deadline := reachable_deadline wired₁.reachable u asleep₁
    simp only [lateClock]
    omega
  have ready₂ : Ready n₂ := ⟨u, f, switched₂.switches.frame ▸ frame₁ ▸ hasFrame,
    by simp [queue₂, asleep₁, late]⟩
  exact ⟨n₂, switched.switches.trans switched₂.switches, switched₂.yields (frame₁ ▸ noFrame),
    ready₂⟩

/-- Some task of the program runs again. -/
theorem Waiting.runs (waiting : Waiting n) (fits : Fits e program)
    (reachable : Reachable e program start n) (idle : n.rt.taskrunning = none) :
    ∃ n', Switches e program start n n' ∧ n'.rt.taskrunning.isSome = true := by
  obtain ⟨t, f, hasFrame, ready | asleep⟩ := waiting
  · exact Ready.runs ⟨t, f, hasFrame, ready⟩ fits reachable idle
  · obtain ⟨n₁, switches, idle₁, ready⟩ := asleep_ready fits reachable idle hasFrame asleep
    obtain ⟨n', switches', running⟩ :=
      ready.runs fits (switches.reaches.reachable reachable) idle₁
    exact ⟨n', switches.trans switches', running⟩

/-! ## The end of a run -/

/-- If the processes can make only `k` more steps, and the tasks are never all blocked, then the
run can go on until the code of a task ends it, with memory for all that is asked for. -/
theorem exists_end (fits : Fits e program)
    (alive : ∀ n : State L O, Reachable e program start n → n.rt.taskrunning = none → Waiting n)
    (known : ∀ n, Reachable e program start n → ∀ t l c op, (n.net e program).code t = some l →
      operation (program l) = some (c, op) → c ∈ n.rt.chans)
    (short : ∀ l ms next, program l = .pause ms next → ms < 2 ^ 32)
    (reachable : Reachable e program start n) {k : Nat}
    (bounded : ∀ steps net, Kahn.Runs program (n.net e program) steps net → steps ≤ k) :
    ∃ n' choice stop, Reaches (system e program start) anyAction n n' ∧
      enabled e program n' (.go choice) ∧ step e program n' (.go choice) = .error stop ∧
      ¬MallocFails n'.rt (.go choice) stop := by
  obtain ⟨m, rank⟩ : ∃ m, 10 * k + 3 * n.rt.alltask.toFinset.card < n.weights program + m :=
    ⟨10 * k + 3 * n.rt.alltask.toFinset.card + 1, by omega⟩
  induction m generalizing n k with
  | zero =>
      have : n.weights program ≤ n.rt.alltask.toFinset.card * 3 :=
        Potential.sum_le_mul _ (weight_le_three program n)
      omega
  | succ m ih =>
      obtain ⟨n₁, switches, running⟩ : ∃ n₁, Switches e program start n n₁ ∧
          n₁.rt.taskrunning.isSome = true := by
        cases running : n.rt.taskrunning with
        | some t => exact ⟨n, .refl n, by rw [running]; rfl⟩
        | none => exact (alive n reachable running).runs fits reachable running
      obtain ⟨reaches, -, net, tasks, weights⟩ := switches
      have reachable₁ := reaches.reachable reachable
      obtain ⟨a, isEnabled, supplied⟩ :=
        program_continues fits reachable₁ (known n₁ reachable₁) short
      cases a with
      | dispatch env =>
          have idle : n₁.rt.taskrunning = none := isEnabled.1
          rw [idle] at running
          cases running
      | go choice =>
          cases stepped : step e program n₁ (.go choice) with
          | error stop => exact ⟨n₁, choice, stop, reaches, isEnabled, stepped, supplied stop⟩
          | ok n₂ =>
              have wired₁ := (reachable_refines fits reachable₁).1
              obtain ⟨steps, advance⟩ := go_advances fits wired₁ isEnabled stepped
              have reaches₂ : Reaches (system e program start) anyAction n n₂ :=
                .step (a := .go choice) reaches isEnabled trivial stepped
              have few {more : Nat} {net' : Kahn.Net TaskPtr ChanPtr V L O}
                  (runs : Kahn.Runs program (n₂.net e program) more net') : steps + more ≤ k :=
                bounded _ net' (net ▸ advance.burst.runs.trans runs)
              have now : steps ≤ k := few .refl
              have gains := advance.weights
              have added := advance.tasks
              obtain ⟨n', choice', stop, reaches', ends⟩ := ih (k := k - steps)
                (reaches₂.reachable reachable) (fun more net' runs => by have := few runs; omega)
                (by omega)
              exact ⟨n', choice', stop, reaches₂.trans reaches', ends⟩

end Program

end Libtask
