import Libtask.ProgramRefines

/-!
# How the run of a program ends

The run of a program ends in its own `taskexitall`, in undefined behaviour of its own, when
`malloc` or `poll` fails, when the last task has returned, or in `no runnable tasks` when all its
tasks are stuck in channel operations.  It ends in no other way: no `abort` and no assertion of
the library, and no access outside of a buffer.
-/

namespace Libtask

namespace Program

variable {V L O : Type} {e : Bytes.Encoding V} {program : Program V L O}
variable {n : State L O} {t u : TaskPtr} {f : Frame L} {l k : L} {c : ChanPtr} {op : Op}

/-! ## Blocked tasks -/

/-- `t` is queued in channel `c` for the operation of `l`. -/
structure Blocked (program : Program V L O) (n : State L O) (t : TaskPtr) (l : L) (c : ChanPtr)
    (op : Op) : Prop where
  isOp : operation (program l) = some (c, op)
  queued : ∃ val array, n.frame t = some (.calling l val array) ∧
    waits n.rt t (program l) array = true

theorem Blocked.code (blocked : Blocked program n t l c op) :
    (n.net e program).code t = some l := by
  obtain ⟨val, array, hasFrame, isWaiting⟩ := blocked.queued
  rw [net_code hasFrame, localState, if_pos isWaiting]

/-- The entry of a blocked task in the queue of its channel. -/
theorem Blocked.entry (blocked : Blocked program n t l c op) (wired : Wired e program n) :
    ∃ dir p a, chanarray op = some dir ∧ p ∈ n.rt.queue c dir ∧ n.rt.alt? p = some a ∧
      a.task = t := by
  obtain ⟨val, array, hasFrame, isWaiting⟩ := blocked.queued
  obtain ⟨isPc, c', op', dir, isOp, isDir, member⟩ := waits_iff.mp isWaiting
  obtain ⟨rfl, rfl⟩ := Prod.mk.inj (Option.some.inj (blocked.isOp.symm.trans isOp))
  have inv := reachable_inv wired.reachable
  obtain ⟨a, altEq, -, -⟩ := inv.parked.queues.entry c dir _ member
  refine ⟨dir, _, a, isDir, member, altEq, ?_⟩
  obtain ⟨owner, pc, stopped, altbase, free⟩ := inv.parked.owner c dir _ member
  have single : 0 < altcount (n.rt.alts array) := inv.parked.altcount_lt member
  have own := (inv.parked.waiting owner pc array stopped altbase free).own 0 a single altEq
  rw [own.1]
  refine (inv.parked.distinct t owner (.chanop array) pc array ?_ stopped rfl altbase).symm
  refine ⟨(wired.frames t _ hasFrame).1, ?_, isPc⟩
  intro running
  obtain ⟨r, isUser⟩ := running_user wired.reachable t running
  rw [isPc] at isUser
  cases isUser

/-- The values in the buffer. -/
theorem Wired.buffered (wired : Wired e program n) (known : c ∈ n.rt.chans) :
    ∃ values, values.length = (n.rt.chan c).nbuf ∧
      (n.net e program).sent c = (n.net e program).rcvd c ++ values := by
  have fifo := reachable_fifo wired.reachable known (wired.channels c known).1
  refine ⟨(n.rt.chan c).contents.map e.value, ?_, ?_⟩
  · simp [Channel.contents, Ring.contents]
  · simp [State.net, fifo.order]

theorem Blocked.known (blocked : Blocked program n t l c op) (wired : Wired e program n) :
    c ∈ n.rt.chans := by
  obtain ⟨dir, p, a, -, member, -, -⟩ := blocked.entry wired
  exact (reachable_inv wired.reachable).parked.known c dir p member

theorem Blocked.recv_empty (blocked : Blocked program n t l c .chanrcv)
    (wired : Wired e program n) : (n.net e program).sent c = (n.net e program).rcvd c := by
  obtain ⟨values, length, order⟩ := wired.buffered (blocked.known wired)
  obtain ⟨dir, p, a, isDir, member, -, -⟩ := blocked.entry wired
  obtain rfl := Option.some.inj isDir
  have rendezvous := reachable_rendezvous wired.reachable c
  have empty : (n.rt.chan c).nbuf = 0 := by
    by_cases direct : (n.rt.chan c).bufsize = 0
    · have filled := rendezvous.filled
      omega
    · exact rendezvous.receivers direct (List.ne_nil_of_mem member)
  rw [order, List.eq_nil_of_length_eq_zero (length.trans empty), List.append_nil]

theorem Blocked.send_full (blocked : Blocked program n t l c .chansnd)
    (wired : Wired e program n) : ((n.net e program).sent c).length =
      ((n.net e program).rcvd c).length + (n.rt.chan c).bufsize := by
  obtain ⟨values, length, order⟩ := wired.buffered (blocked.known wired)
  obtain ⟨dir, p, a, isDir, member, -, -⟩ := blocked.entry wired
  obtain rfl := Option.some.inj isDir
  have rendezvous := reachable_rendezvous wired.reachable c
  have full : (n.rt.chan c).nbuf = (n.rt.chan c).bufsize := by
    by_cases direct : (n.rt.chan c).bufsize = 0
    · have filled := rendezvous.filled
      omega
    · exact rendezvous.senders direct (List.ne_nil_of_mem member)
  rw [order, List.length_append, length, full]

/-- A sender and a receiver do not wait for each other. -/
theorem Blocked.apart (sends : Blocked program n t l c .chansnd)
    (receives : Blocked program n u k c .chanrcv) (wired : Wired e program n) : False := by
  have different : t ≠ u := by
    rintro rfl
    obtain ⟨val, array, hasFrame, -⟩ := sends.queued
    obtain ⟨val', array', hasFrame', -⟩ := receives.queued
    obtain ⟨rfl, -, -⟩ := Frame.calling.inj (Option.some.inj (hasFrame.symm.trans hasFrame'))
    cases (Prod.mk.inj (Option.some.inj (sends.isOp.symm.trans receives.isOp))).2
  obtain ⟨dir, p, a, isDir, member, altEq, ofSender⟩ := sends.entry wired
  obtain ⟨dir', q, b, isDir', member', altEq', ofReceiver⟩ := receives.entry wired
  obtain rfl := Option.some.inj isDir
  obtain rfl := Option.some.inj isDir'
  have rendezvous := reachable_rendezvous wired.reachable c
  by_cases direct : (n.rt.chan c).bufsize = 0
  · have same := rendezvous.apart direct p q a b member member' altEq altEq'
    exact different (ofSender.symm.trans (same.trans ofReceiver))
  · have full := rendezvous.senders direct (List.ne_nil_of_mem member)
    have empty := rendezvous.receivers direct (List.ne_nil_of_mem member')
    omega

/-- Blocked tasks are stuck in the network. -/
theorem Wired.stuck (wired : Wired e program n)
    (blocked : ∀ t f, n.frame t = some f → ∃ l c op, Blocked program n t l c op) :
    Kahn.Stuck (fun c => (n.rt.chan c).bufsize) program (n.net e program) := by
  have blockedAt {t : TaskPtr} {l : L} (code : (n.net e program).code t = some l) :
      ∃ c op, Blocked program n t l c op := by
    obtain ⟨f, hasFrame, -⟩ := Option.map_eq_some_iff.mp code
    obtain ⟨l', c, op, blocked⟩ := blocked t f hasFrame
    obtain rfl := Option.some.inj (code.symm.trans blocked.code)
    exact ⟨c, op, blocked⟩
  constructor
  · intro t l code
    obtain ⟨c, op, blocked⟩ := blockedAt code
    rcases operation_cases blocked.isOp with ⟨v, next, isSend, rfl⟩ | ⟨next, isRecv, rfl⟩
    · exact Or.inr ⟨c, v, next, isSend, blocked.send_full wired⟩
    · exact Or.inl ⟨c, next, isRecv, blocked.recv_empty wired⟩
  · intro t u l k c v next next' code isSend code' isRecv
    obtain ⟨c₁, op, sends⟩ := blockedAt code
    obtain ⟨c₂, op', receives⟩ := blockedAt code'
    have isOp := sends.isOp
    have isOp' := receives.isOp
    simp only [isSend, operation, Option.some.injEq, Prod.mk.injEq] at isOp
    simp only [isRecv, operation, Option.some.injEq, Prod.mk.injEq] at isOp'
    obtain ⟨rfl, rfl⟩ := isOp
    obtain ⟨rfl, rfl⟩ := isOp'
    exact sends.apart receives wired

/-! ## Ordinary tasks -/

theorem At.ofProgram {s : St} (isAt : At e program s t f) :
    (s.task t).pc.ofProgram = true ∧ (s.task t).pc.isFdtask = false := by
  rcases isAt.pc with ⟨r, isPc⟩ | ⟨now, isPc⟩ | ⟨array, isPc⟩ <;> rw [isPc] <;> exact ⟨rfl, rfl⟩

theorem Wired.places (wired : Wired e program n) :
    ∀ t ∈ n.rt.alltask, (n.rt.task t).pc.ofProgram = true := by
  intro t live
  cases hasFrame : n.frame t with
  | none => exact Pc.ofProgram_of_isFdtask (wired.others t live hasFrame)
  | some f => exact (wired.frames t f hasFrame).2.ofProgram.1

/-- The calls that turns make. -/
theorem turn_call {mem : Bytes.Memory} {choice : Choice} {turn : Turn L O} {c : Call}
    (isTurn : Program.turn e program mem choice f = some turn) (hasCall : turn.call = some c) :
    c.ofProgram = true ∨ ∃ status, c = .taskexitall status := by
  cases f with
  | run l =>
      simp only [Program.turn] at isTurn
      cases isCmd : program l <;> rw [isCmd] at isTurn <;>
        simp only [begin, Option.some.injEq, reduceCtorEq] at isTurn <;> subst isTurn <;>
        simp only [Option.some.injEq, reduceCtorEq] at hasCall <;> subst hasCall <;>
        first | exact Or.inl rfl | exact Or.inr ⟨_, rfl⟩
  | stored l val =>
      simp only [Program.turn, Option.map_eq_some_iff] at isTurn
      obtain ⟨⟨c, op⟩, -, rfl⟩ := isTurn
      obtain rfl := Option.some.inj hasCall
      exact Or.inl rfl
  | calling l val array =>
      simp only [Program.turn, Option.some.injEq] at isTurn
      subst isTurn
      cases hasCall

theorem turn_child {mem : Bytes.Memory} {choice : Choice} {turn : Turn L O} {child : L}
    (isTurn : Program.turn e program mem choice f = some turn)
    (hasChild : turn.child = some child) : turn.call = some (.taskcreate choice.task) := by
  cases f with
  | run l =>
      simp only [Program.turn] at isTurn
      cases isCmd : program l <;> rw [isCmd] at isTurn <;>
        simp only [begin, Option.some.injEq, reduceCtorEq] at isTurn <;> subst isTurn <;>
        simp only [reduceCtorEq] at hasChild
      rfl
  | stored l val =>
      simp only [Program.turn, Option.map_eq_some_iff] at isTurn
      obtain ⟨⟨c, op⟩, -, rfl⟩ := isTurn
      cases hasChild
  | calling l val array =>
      simp only [Program.turn, Option.some.injEq] at isTurn
      subst isTurn
      cases hasChild

/-- A turn of `t` gives a frame to no other task but its child. -/
theorem Goes.frame_cases {n' : State L O} {choice : Choice} {turn : Turn L O} {f' : Frame L}
    (goes : Goes e program n choice n' t f turn) (other : u ≠ t)
    (hasFrame : n'.frame u = some f') :
    n.frame u = some f' ∨ ∃ child, choice.task.malloc = some u ∧ turn.child = some child := by
  rw [goes.frame'] at hasFrame
  cases isTask : choice.task.malloc with
  | none => exact Or.inl (by simpa [State.frames, isTask, other] using hasFrame)
  | some u' =>
      cases isChild : turn.child with
      | none => exact Or.inl (by simpa [State.frames, isTask, isChild, other] using hasFrame)
      | some child =>
          by_cases isNew : u = u'
          · exact Or.inr ⟨child, by rw [isNew], rfl⟩
          · exact Or.inl (by simpa [State.frames, isTask, isChild, other, isNew] using hasFrame)

/-- No task of a program is a system task. -/
theorem reachable_ordinary {start : L} (fits : Fits e program)
    (reachable : Reachable e program start n) :
    ∀ t f, n.frame t = some f → (n.rt.task t).system = false := by
  induction reachable with
  | @init n init =>
      obtain ⟨rendez, mem, m, started, frameEq, -⟩ := init
      obtain ⟨id, created⟩ := main_ok started
      intro t f _
      rw [taskcreate_system created]
      simp [St.zero]
  | @step n n' a reachable isEnabled _ stepped ih =>
      have wired := (reachable_refines fits reachable).1
      have inv := reachable_inv wired.reachable
      have isEnabled : enabled e program n a := isEnabled
      have stepped : step e program n a = .ok n' := stepped
      intro u f hasFrame
      cases a with
      | dispatch env =>
          obtain ⟨rtStep, sameFrames⟩ := step_dispatch stepped
          rw [sameFrames] at hasFrame
          obtain ⟨live, isAt⟩ := wired.frames u f hasFrame
          have isEnabled : Libtask.enabled n.rt (.dispatch env) := isEnabled
          cases step_shape isEnabled rtStep with
          | @dispatch _ t s₁ s₂ flow idle scheduled resumed finished =>
              have turned := step_turned inv isEnabled
                (.dispatch idle (taskscheduler_ok scheduled).2.1) rtStep
              by_cases isSelf : u = t
              · subst isSelf
                rw [taskscheduler_pc scheduled] at resumed
                rw [finish_system finished, resume_system isAt.ofProgram.1 isAt.ofProgram.2 resumed,
                  taskscheduler_system scheduled]
                exact ih u f hasFrame
              · rw [(turned.others u live isSelf).2.system]
                exact ih u f hasFrame
      | go choice =>
          obtain ⟨t, f', turn, goes⟩ := step_goes isEnabled stepped
          have old {f₀ : Frame L} (hasFrame : n.frame u = some f₀) :
              (n'.rt.task u).system = false := by
            cases hasCall : turn.call with
            | none =>
                rw [goes.silent hasCall]
                exact ih u f₀ hasFrame
            | some c =>
                obtain ⟨isEnabled, rtStep⟩ := goes.call c hasCall
                cases step_shape isEnabled rtStep with
                | call running isLegal called finished =>
                    rcases turn_call goes.isTurn hasCall with isCall | ⟨status, rfl⟩
                    · rw [finish_system finished, call_system isLegal isCall called
                        (wired.frames u f₀ hasFrame).1]
                      exact ih u f₀ hasFrame
                    · cases called
          by_cases isSelf : u = t
          · exact old (isSelf ▸ goes.frame)
          · rcases goes.frame_cases isSelf hasFrame with hasFrame | ⟨child, isChild, hasChild⟩
            · exact old hasFrame
            · obtain ⟨isEnabled, rtStep⟩ := goes.call _ (turn_child goes.isTurn hasChild)
              cases step_shape isEnabled rtStep with
              | call running isLegal called finished =>
                  obtain ⟨⟨s₁, id⟩, created, returned⟩ := Outcome.bind_eq_ok.mp called
                  obtain ⟨rfl, -⟩ := Prod.mk.inj (Except.ok.inj returned)
                  rw [finish_system finished, taskcreate_system created, if_pos isChild]

/-! ## The end -/

/-- A task that is neither ready nor asleep is blocked in a channel operation. -/
theorem Wired.blocked (wired : Wired e program n) (idle : n.rt.taskrunning = none)
    (notReady : t ∉ n.rt.seq .taskrunqueue) (awake : t ∉ n.rt.seq .sleeping)
    (hasFrame : n.frame t = some f) : ∃ l c op, Blocked program n t l c op := by
  have inv := reachable_inv wired.reachable
  obtain ⟨live, isAt⟩ := wired.frames t f hasFrame
  have place := inv.not_ready idle notReady live
  have notUser (r : Option Int) : (n.rt.task t).pc ≠ .user r := by
    intro isPc
    rw [isPc] at place
    rcases place with ⟨-, impossible | ⟨a, impossible⟩⟩ | ⟨list, -, -, impossible⟩ <;>
      cases impossible
  have notAsleep (now : Nat) : (n.rt.task t).pc ≠ .taskdelay now := by
    intro isPc
    rw [isPc] at place
    rcases place with ⟨-, impossible | ⟨a, impossible⟩⟩ | ⟨list, -, home, isSleeping⟩
    · cases impossible
    · cases impossible
    · obtain rfl := Option.some.inj isSleeping
      exact awake ((mem_seq_iff n.rt t .sleeping).mpr home)
  cases isAt with
  | run isPc =>
      rcases isPc with ⟨r, isPc⟩ | ⟨now, isPc⟩
      · exact absurd isPc (notUser r)
      · exact absurd isPc (notAsleep now)
  | stored isPc =>
      obtain ⟨r, isPc⟩ := isPc
      exact absurd isPc (notUser r)
  | @calling l c op val array isOp isPc _ =>
      rcases isPc with ⟨r, isPc⟩ | ⟨isPc, entry⟩
      · exact absurd isPc (notUser r)
      · rw [isPc] at place
        rcases place with ⟨free, -⟩ | ⟨list, -, -, impossible⟩
        · have stopped : Stopped n.rt.taskrunning n.rt t (.chanop array) :=
            ⟨live, by simp [idle], isPc⟩
          have waiting := inv.parked.waiting t _ array stopped rfl free
          obtain ⟨a, altEq, rfl, rfl, -⟩ := entry.alt
          obtain ⟨dir, isDir⟩ : ∃ dir, chanarray a.op = some dir := by
            rcases operation_cases isOp with ⟨v, next, -, isSnd⟩ | ⟨next, -, isRcv⟩
            · exact ⟨.asend, by rw [isSnd]; rfl⟩
            · exact ⟨.arecv, by rw [isRcv]; rfl⟩
          have single : 0 < altcount (n.rt.alts array) := by
            rw [entry.single]
            exact Nat.one_pos
          exact ⟨l, _, _, isOp, val, array, hasFrame, waits_iff.mpr ⟨isPc, _, _, dir, isOp, isDir,
            waiting.queued 0 a dir single altEq isDir⟩⟩
        · cases impossible

/-- The ways in which the run of a program can end. -/
inductive Ends (e : Bytes.Encoding V) (program : Program V L O) (n : State L O) :
    Act → Stop → Prop where
  | undefined {choice : Choice} {t : TaskPtr} {l : L} : n.running = some (t, .run l) →
      program l = .undefined → Ends e program n (.go choice) .undefined
  | taskexitall {choice : Choice} {t : TaskPtr} {l : L} {status : Int} :
      n.running = some (t, .run l) → program l = .halt status →
      Ends e program n (.go choice) (.halt (.taskexitall status))
  /-- there is no memory for another task, or for its place in `alltask` -/
  | taskcreate {choice : Choice} {t : TaskPtr} {l : L} {why : Abort} :
      n.running = some (t, .run l) →
      (∃ child next, program l = .spawn child next) ∨
        (∃ ms next, program l = .pause ms next) ∧ n.rt.startedfdtask = false →
      AllocFails n.rt choice.task why → Ends e program n (.go choice) (.halt (.abort why))
  /-- `malloc` fails in `chancreate` -/
  | chancreate {choice : Choice} {t : TaskPtr} {l : L} {size : Nat} {next : ChanPtr → L} :
      n.running = some (t, .run l) → program l = .create size next → choice.chan = none →
      Ends e program n (.go choice) (.halt .chancreateMalloc)
  | poll {env : Env} : n.rt.startedfdtask = true → env.poll = .error →
      Ends e program n (.dispatch env) (.halt .pollError)
  /-- all tasks have returned -/
  | taskexitval {env : Env} {status : Int} : (∀ t, n.frame t = none) →
      Ends e program n (.dispatch env) (.halt (.taskexitval status))
  /-- the tasks that are left cannot go on -/
  | noRunnable {env : Env} {stalled : Int} : (∃ t f, n.frame t = some f) →
      Kahn.Stuck (fun c => (n.rt.chan c).bufsize) program (n.net e program) →
      Ends e program n (.dispatch env) (.halt (.noRunnable stalled))

theorem running_code {t : TaskPtr} (isRunning : n.running = some (t, .run l)) :
    (n.net e program).code t = some l := by
  simp only [State.running, Option.bind_eq_some_iff, Option.map_eq_some_iff,
    Prod.mk.injEq] at isRunning
  obtain ⟨_, -, f, hasFrame, rfl, rfl⟩ := isRunning
  exact net_code hasFrame

/-- Memory cannot be had in a turn. -/
inductive MallocFails (s : St) : Act → Stop → Prop where
  | taskcreate {choice : Choice} {why : Abort} : AllocFails s choice.task why →
      MallocFails s (.go choice) (.halt (.abort why))
  | chancreate {choice : Choice} : choice.chan = none →
      MallocFails s (.go choice) (.halt .chancreateMalloc)

theorem dispatch_ends {env : Env} {why : Halt} (wired : Wired e program n)
    (ordinary : ∀ t f, n.frame t = some f → (n.rt.task t).system = false)
    (isEnabled : Libtask.enabled n.rt (.dispatch env))
    (stopped : Libtask.step n.rt (.dispatch env) = .error why) :
    Ends e program n (.dispatch env) (.halt why) := by
  have inv := reachable_inv wired.reachable
  have counted := reachable_counted wired.reachable
  rcases dispatch_stops inv isEnabled wired.places stopped with
    ⟨scheduled, ofScheduler⟩ | ⟨rfl, polled, isFdtask⟩
  · cases why with
    | taskexitval status =>
        refine .taskexitval fun t => ?_
        by_contra some?
        obtain ⟨f, hasFrame⟩ := Option.ne_none_iff_exists'.mp some?
        obtain ⟨zero, -⟩ := taskscheduler_exits.mp scheduled
        have isSystem := (counted.taskcount_eq_zero inv).mp zero t (wired.frames t f hasFrame).1
        rw [ordinary t f hasFrame] at isSystem
        cases isSystem
    | noRunnable stalled =>
        obtain ⟨positive, empty, -⟩ := taskscheduler_noRunnable.mp scheduled
        have blocked (t : TaskPtr) (f : Frame L) (hasFrame : n.frame t = some f) :=
          wired.blocked isEnabled.1 (by simp [empty])
            (none_asleep wired.reachable isEnabled.1 empty) hasFrame
        refine .noRunnable ?_ (wired.stuck blocked)
        by_contra nobody
        refine positive ((counted.taskcount_eq_zero inv).mpr fun t live => ?_)
        have isFdtask := wired.others t live (by
          by_contra some?
          obtain ⟨f, hasFrame⟩ := Option.ne_none_iff_exists'.mp some?
          exact nobody ⟨t, f, hasFrame⟩)
        have member := inv.fdtask_ready isEnabled.1 live isFdtask
        rw [empty] at member
        cases member
    | _ => cases ofScheduler
  · exact .poll ((reachable_started wired.reachable).mpr isFdtask) polled

theorem library_error {s : St} {a : Libtask.Act} {stop : Stop}
    (stopped : library s a = .error stop) :
    ∃ why, Libtask.step s a = .error why ∧ stop = .halt why := by
  unfold library at stopped
  cases stepped : Libtask.step s a with
  | ok s₁ =>
      rw [stepped] at stopped
      cases stopped
  | error why =>
      rw [stepped] at stopped
      exact ⟨why, rfl, (Except.error.inj stopped).symm⟩

/-- A turn that stops comes to undefined behaviour, or its call stops. -/
theorem go_stops {choice : Choice} {stop : Stop} (isEnabled : enabled e program n (.go choice))
    (stopped : step e program n (.go choice) = .error stop) :
    ∃ t f, n.running = some (t, f) ∧ n.rt.taskrunning = some t ∧ n.frame t = some f ∧
      (turn e program n.rt.mem choice f = none ∧ stop = .undefined ∨
        ∃ turn c why, Program.turn e program n.rt.mem choice f = some turn ∧
          turn.call = some c ∧ Libtask.enabled n.rt (.call c) ∧
          Libtask.step n.rt (.call c) = .error why ∧ stop = .halt why) := by
  simp only [enabled, Option.any_eq_true] at isEnabled
  obtain ⟨⟨t, f⟩, runningEq, legal⟩ := isEnabled
  obtain ⟨running, hasFrame⟩ : n.rt.taskrunning = some t ∧ n.frame t = some f := by
    simp only [State.running, Option.bind_eq_some_iff, Option.map_eq_some_iff,
      Prod.mk.injEq] at runningEq
    obtain ⟨t', running, f', hasFrame, rfl, rfl⟩ := runningEq
    exact ⟨running, hasFrame⟩
  refine ⟨t, f, runningEq, running, hasFrame, ?_⟩
  simp only [step, runningEq] at stopped
  cases turnEq : turn e program n.rt.mem choice f with
  | none =>
      simp only [turnEq] at stopped
      exact Or.inl ⟨rfl, (Except.error.inj stopped).symm⟩
  | some turn =>
      simp only [turnEq, Option.all_some, Turn.legal, Bool.and_eq_true,
        Option.all_eq_true] at legal
      simp only [turnEq] at stopped
      cases hasCall : turn.call with
      | none =>
          rw [hasCall] at stopped
          cases stopped
      | some c =>
          rw [hasCall] at stopped
          rcases Outcome.bind_eq_error.mp stopped with stopped | ⟨rt, -, returned⟩
          · obtain ⟨why, rtStopped, rfl⟩ := library_error stopped
            exact Or.inr ⟨turn, c, why, rfl, hasCall, ⟨by simp [running], legal.1 c hasCall⟩,
              rtStopped, rfl⟩
          · cases returned

/-- A call of a running task that goes through does not stop the run. -/
theorem go_ends {choice : Choice} {stop : Stop} (wired : Wired e program n)
    (isEnabled : enabled e program n (.go choice))
    (stopped : step e program n (.go choice) = .error stop) :
    Ends e program n (.go choice) stop := by
  obtain ⟨t, f, runningEq, running, hasFrame, reason⟩ := go_stops isEnabled stopped
  have inv := reachable_inv wired.reachable
  have isAt := (wired.frames t f hasFrame).2
  have total {c : Call} {why : Halt} (isEnabled : Libtask.enabled n.rt (.call c))
      (only : OnlyCorrupt (Libtask.call n.rt t c))
      (stopped : Libtask.step n.rt (.call c) = .error why) : False := by
    obtain ⟨s', goes⟩ := call_total inv running isEnabled only
    rw [stopped] at goes
    cases goes
  have chanop_goes {ch : ChanPtr} {op : Op} {val array : Nat} {why : Halt}
      (isEnabled : Libtask.enabled n.rt (.call (chanop choice ch op val array)))
      (stopped : Libtask.step n.rt (.call (chanop choice ch op val array)) = .error why) :
      False := by
    have isLegal := isEnabled.2
    simp only [chanop, legal, Bool.and_eq_true, decide_eq_true_eq] at isLegal
    obtain ⟨s', goes⟩ := chanop_total wired.reachable running
      (wired.channels ch isLegal.1.2).1 isEnabled
    rw [chanop, goes] at stopped
    cases stopped
  cases f with
  | run l =>
      rcases reason with ⟨undefined, rfl⟩ | ⟨turn, c, why, isTurn, hasCall, isEnabled, stopped, rfl⟩
      · refine .undefined runningEq ?_
        cases isCmd : program l <;>
          simp only [Program.turn, begin, isCmd, reduceCtorEq] at undefined
        rfl
      · simp only [Program.turn] at isTurn
        cases isCmd : program l with
        | send ch v next =>
            rw [isCmd] at isTurn
            obtain rfl := Option.some.inj isTurn
            obtain rfl := Option.some.inj hasCall
            exact (total isEnabled (.ok _) stopped).elim
        | recv ch next =>
            rw [isCmd] at isTurn
            obtain rfl := Option.some.inj isTurn
            obtain rfl := Option.some.inj hasCall
            exact (chanop_goes isEnabled stopped).elim
        | create size next =>
            rw [isCmd] at isTurn
            obtain rfl := Option.some.inj isTurn
            obtain rfl := Option.some.inj hasCall
            cases isChan : choice.chan with
            | none =>
                simp only [isChan, Libtask.step, running] at stopped
                obtain rfl := Except.error.inj stopped
                exact .chancreate runningEq isCmd isChan
            | some c₀ =>
                rw [isChan] at isEnabled stopped
                exact (total isEnabled (.ok _) stopped).elim
        | spawn child next =>
            rw [isCmd] at isTurn
            obtain rfl := Option.some.inj isTurn
            obtain rfl := Option.some.inj hasCall
            obtain ⟨stopped, notCorrupt⟩ := call_stops inv running isEnabled stopped
            rcases Outcome.bind_eq_error.mp stopped with stopped | ⟨result, -, returned⟩
            · obtain ⟨a, rfl, noMemory⟩ := (taskcreate_stops stopped).resolve_left notCorrupt
              exact .taskcreate runningEq (Or.inl ⟨child, next, isCmd⟩) noMemory
            · cases returned
        | print o next =>
            rw [isCmd] at isTurn
            obtain rfl := Option.some.inj isTurn
            cases hasCall
        | pause ms next =>
            rw [isCmd] at isTurn
            obtain rfl := Option.some.inj isTurn
            obtain rfl := Option.some.inj hasCall
            obtain ⟨stopped, notCorrupt⟩ := call_stops inv running isEnabled stopped
            obtain ⟨notStarted, a, rfl, noMemory⟩ :=
              (taskdelay_stops stopped).resolve_left notCorrupt
            exact .taskcreate runningEq (Or.inr ⟨⟨ms, next, isCmd⟩, notStarted⟩) noMemory
        | exit =>
            rw [isCmd] at isTurn
            obtain rfl := Option.some.inj isTurn
            obtain rfl := Option.some.inj hasCall
            exact (total isEnabled (.ok _) stopped).elim
        | halt status =>
            rw [isCmd] at isTurn
            obtain rfl := Option.some.inj isTurn
            obtain rfl := Option.some.inj hasCall
            simp only [Libtask.step, running] at stopped
            obtain rfl := Except.error.inj stopped
            exact .taskexitall runningEq isCmd
        | undefined =>
            rw [isCmd] at isTurn
            cases isTurn
  | stored l val =>
      cases isAt with
      | @stored _ next c v _ _ isSend value =>
          rcases reason with ⟨undefined, -⟩ | ⟨turn, c, why, isTurn, hasCall, isEnabled, stopped, -⟩
          · simp [Program.turn, operation, isSend] at undefined
          · simp only [Program.turn, operation, isSend, Option.map_some,
              Option.some.injEq] at isTurn
            subst isTurn
            obtain rfl := Option.some.inj hasCall
            exact (chanop_goes isEnabled stopped).elim
  | calling l val array =>
      rcases reason with ⟨undefined, -⟩ | ⟨turn, c, why, isTurn, hasCall, -⟩
      · cases undefined
      · obtain rfl := Option.some.inj isTurn
        cases hasCall

/-- A turn makes a task in `taskcreate`, and in `taskdelay`. -/
theorem turn_created {s : St} {mem : Bytes.Memory} {choice : Choice} {turn : Turn L O} {c : Call}
    (isTurn : Program.turn e program mem choice f = some turn) (hasCall : turn.call = some c)
    (isCreated : created s (.call c) = some u) :
    c = .taskcreate choice.task ∨ ∃ l ms next, program l = .pause ms next := by
  cases f with
  | run l =>
      simp only [Program.turn] at isTurn
      cases isCmd : program l <;> rw [isCmd] at isTurn <;>
        simp only [begin, Option.some.injEq, reduceCtorEq] at isTurn <;> subst isTurn <;>
        simp only [chanop, Option.some.injEq, reduceCtorEq] at hasCall <;> subst hasCall <;>
        simp only [created, reduceCtorEq] at isCreated
      · exact Or.inl rfl
      · exact Or.inr ⟨l, _, _, isCmd⟩
  | stored l val =>
      simp only [Program.turn, Option.map_eq_some_iff] at isTurn
      obtain ⟨⟨c, op⟩, -, rfl⟩ := isTurn
      obtain rfl := Option.some.inj hasCall
      cases isCreated
  | calling l val array =>
      simp only [Program.turn, Option.some.injEq] at isTurn
      subst isTurn
      cases hasCall

/-- A program that never calls `taskdelay` has no `fdtask`. -/
theorem reachable_pauseless {start : L} (fits : Fits e program)
    (never : ∀ l ms next, program l ≠ .pause ms next) (reachable : Reachable e program start n) :
    n.rt.startedfdtask = false := by
  refine reachable.invariant (fun n => n.rt.startedfdtask = false) ?_ ?_
  · rintro n ⟨rendez, mem, t, started, -, -⟩
    exact (main_notFdtask started).1
  · intro n a n' before ih (isEnabled : enabled e program n a) _
      (stepped : step e program n a = .ok n')
    have wired := (reachable_refines fits before).1
    have inv := reachable_inv wired.reachable
    -- a task that is created in user code is no `fdtask`
    have kept {a : Libtask.Act} (isEnabled : Libtask.enabled n.rt a)
        (stepped : Libtask.step n.rt a = .ok n'.rt)
        (noDelay : ∀ u, created n.rt a = some u → ∃ m, a = .call (.taskcreate m)) :
        n'.rt.startedfdtask = false := by
      cases step_born inv isEnabled stepped with
      | users started => exact started.trans ih
      | @fdtask u _ _ live isNew isPc only =>
          have born := ((step_alltask inv isEnabled stepped u).mp live).1.resolve_left isNew
          obtain ⟨m, rfl⟩ := noDelay u born
          obtain ⟨u', isChild, -, childPc⟩ := taskcreate_child isEnabled stepped
          obtain rfl := Option.some.inj (born.symm.trans isChild)
          rw [childPc fun running => isNew (((inv.listed u).running running).1)] at isPc
          cases isPc
    cases a with
    | dispatch env =>
        have isEnabled : Libtask.enabled n.rt (.dispatch env) := isEnabled
        exact kept isEnabled (step_dispatch stepped).1 fun u isCreated => by cases isCreated
    | go choice =>
        obtain ⟨t, f, turn, goes⟩ := step_goes isEnabled stepped
        cases hasCall : turn.call with
        | none => rwa [goes.silent hasCall]
        | some call =>
            obtain ⟨isEnabled, stepped⟩ := goes.call call hasCall
            refine kept isEnabled stepped fun u isCreated => ?_
            rcases turn_created goes.isTurn hasCall isCreated with rfl | ⟨l, ms, next, isPause⟩
            · exact ⟨_, rfl⟩
            · exact absurd isPause (never l ms next)

/-- What can stop a program. -/
theorem step_ends (wired : Wired e program n)
    (ordinary : ∀ t f, n.frame t = some f → (n.rt.task t).system = false) {a : Act}
    {stop : Stop} (isEnabled : enabled e program n a)
    (stopped : step e program n a = .error stop) : Ends e program n a stop := by
  cases a with
  | dispatch env =>
      rcases Outcome.bind_eq_error.mp stopped with stopped | ⟨rt, -, returned⟩
      · obtain ⟨why, rtStopped, rfl⟩ := library_error stopped
        exact dispatch_ends wired ordinary isEnabled rtStopped
      · cases returned
  | go choice => exact go_ends wired isEnabled stopped

/-- What can stop a run of a program. -/
theorem program_stops {start : L} (fits : Fits e program)
    (reachable : Reachable e program start n) {a : Act} {stop : Stop}
    (isEnabled : enabled e program n a) (stopped : step e program n a = .error stop) :
    Ends e program n a stop :=
  step_ends (reachable_refines fits reachable).1 (reachable_ordinary fits reachable) isEnabled
    stopped

/-- The main task has received the value and ends all tasks. -/
theorem relay_stops : ∃ n : State Relay (BitVec 64), n.out = [7] ∧
    step (Bytes.littleEndian 8) relay n (.go {}) = .error (.halt (.taskexitall 0)) ∧
    Ends (Bytes.littleEndian 8) relay n (.go {}) (.halt (.taskexitall 0)) := by
  obtain ⟨n, printed, reachable, isEnabled, stopped⟩ :=
    exists_program_stop (Bytes.littleEndian 8) relay .start
      [.dispatch {}, .go { chan := some 7 }, .go { task := some 2 },
        .go { val := 100, array := 20 }, .dispatch {}, .go { val := 200 },
        .go { array := 30 }, .go {}, .go {}, .dispatch {}, .go {}, .go {}]
      (.go {}) (.halt (.taskexitall 0)) (fun n => decide (n.out = [7])) (by decide +kernel)
  exact ⟨n, of_decide_eq_true printed, stopped,
    program_stops relay_fits reachable isEnabled stopped⟩

end Program

end Libtask
