import Libtask.Netio
import Libtask.TaskTable
import Libtask.Turns

/-!
# Programs that work with descriptors

A run of such a program over the runtime.  Its tasks make system calls, start other tasks, and wait
in `fdwait` until `fdtask` finds their descriptors ready.  Each run is one of the network of the
tasks, whatever the scheduler and `poll` do.  It never ends in `no runnable tasks`.
-/

namespace Libtask.Netio

open Function (update update_self update_of_ne)
open Sockets (Os)
open Transition (anyAction)

abbrev Net (L : Type) := Interaction.Net TaskPtr Os Call Answer L Stop

variable {L : Type}

structure State (L : Type) where
  rt : St
  net : Net L

/-- What the allocations of `taskcreate` return, and the answer to a system call. -/
structure Choice where
  task : Alloc := { malloc := none }
  answer : Answer := {}

inductive Act where
  /-- one turn of the scheduler loop -/
  | dispatch (env : Env)
  /-- the running task goes on -/
  | go (choice : Choice)

/-- Why a run stops. -/
inductive Ending where
  | halt (why : Halt)
  | stop (why : Stop)
  deriving DecidableEq

/-- The library call that a task comes to. -/
def libraryCall (choice : Choice) : Prog L → Option Libtask.Call
  | .call (.fdwait fd rw) _ => some (.fdwait fd rw choice.task)
  | .spawn _ _ => some (.taskcreate choice.task)
  | .ret => some .taskreturn
  | _ => none

/-- The answer is one that the system can give. -/
def answers (os : Os) (choice : Choice) : Prog L → Bool
  | .call c _ => (does os c choice.answer).isSome
  | _ => true

def State.running (n : State L) : Option (TaskPtr × Proc L) :=
  n.rt.taskrunning.bind fun t => (n.net.proc t).map fun p => (t, p)

def enabled (n : State L) : Act → Prop
  | .dispatch env => Libtask.enabled n.rt (.dispatch env)
  | .go choice =>
      n.running.any (fun (_, p) => (libraryCall choice p.code).all (legal n.rt) &&
        answers n.net.world choice p.code) = true

instance (n : State L) (a : Act) : Decidable (enabled n a) := by
  cases a <;> simp only [enabled] <;> infer_instance

section
variable (code : L → Prog L)

/-- The network after the task at `t` goes on. -/
def State.after (n : State L) (choice : Choice) (t : TaskPtr) (p : Proc L) : Net L :=
  match p.code with
  | .goto l => n.net.set t (some { p with code := code l })
  | .call c next =>
      match does n.net.world c choice.answer with
      | some world => { n.net with world }.set t (some (p.called c choice.answer next))
      | none => n.net
  | .spawn child next =>
      let net := n.net.set t (some (p.spawned child next))
      match choice.task.malloc with
      | some u => net.set u (some (Interaction.Proc.start child))
      | none => net
  | .ret => n.net.set t none
  | .stop _ => n.net

def library (s : St) (a : Libtask.Act) : Except Ending St := (Libtask.step s a).mapError .halt

def stops : Prog L → Option Stop
  | .stop why => some why
  | _ => none

def step (n : State L) : Act → Except Ending (State L)
  | .dispatch env => do
      let rt ← library n.rt (.dispatch env)
      return { n with rt }
  | .go choice =>
      match n.running with
      | none => .ok n
      | some (t, p) =>
          match stops p.code with
          | some why => .error (.stop why)
          | none => do
              let rt ← match libraryCall choice p.code with
                | none => pure n.rt
                | some c => library n.rt (.call c)
              return { rt, net := n.after code choice t p }

/-- The program, whose main task starts at `start`, when the system is in the state `os`. -/
def system (os : Os) (start : L) : Transition.System (State L) Act Ending where
  init n := ∃ rendez mem t, main rendez mem t = .ok n.rt ∧ n.net = .start os t start
  enabled := enabled
  step := step code

instance (os : Os) (start : L) (n : State L) (a : Act) :
    Decidable ((system code os start).enabled n a) :=
  inferInstanceAs (Decidable (enabled n a))

abbrev Reachable (os : Os) (start : L) : State L → Prop :=
  Transition.Reachable (system code os start) anyAction

end

/-! ## The invariant -/

/-- Where a task of the program is when it does not run. -/
def ofNetio : Pc → Bool
  | .user _ | .fdwait => true
  | _ => false

/-- What holds in every run. -/
structure Wired (n : State L) : Prop where
  reachable : Libtask.Reachable anyAction n.rt
  procs : ∀ t p, n.net.proc t = some p → t ∈ n.rt.alltask ∧ ofNetio (n.rt.task t).pc = true ∧
    (n.rt.task t).system = false
  others : ∀ t ∈ n.rt.alltask, n.net.proc t = none → (n.rt.task t).pc.isFdtask = true

variable {code : L → Prog L} {n n' : State L} {s s' : St} {t u : TaskPtr} {p : Proc L}

/-- A step of the runtime, in which `t` goes on. -/
theorem Wired.next {a : Libtask.Act} {turn : Libtask.Code} (wired : Wired n)
    (isEnabled : Libtask.enabled n.rt a) (stepped : Libtask.step n.rt a = .ok n'.rt)
    (acts : Acts n.rt a t turn)
    (same : ∀ u ∈ n.rt.alltask, u ≠ t → n'.net.proc u = n.net.proc u)
    (dead : ∀ u, u ∉ n'.rt.alltask → n'.net.proc u = none)
    (here : ∀ p, n'.net.proc t = some p →
      ofNetio (n'.rt.task t).pc = true ∧ (n'.rt.task t).system = false)
    (gone : n'.net.proc t = none → n.net.proc t = none ∨ t ∉ n'.rt.alltask)
    (born : ∀ u ∈ n'.rt.alltask, u ∉ n.rt.alltask →
      if (n'.net.proc u).isSome then ofNetio (n'.rt.task u).pc = true ∧
        (n'.rt.task u).system = false
      else (n'.rt.task u).pc.isFdtask = true) : Wired n' := by
  have inv := reachable_inv wired.reachable
  have turned := step_turned inv isEnabled acts stepped
  refine ⟨wired.reachable.step isEnabled trivial stepped, fun u p isProc => ?_,
    fun u live none => ?_⟩
  · have live : u ∈ n'.rt.alltask := by
      by_contra isDead
      rw [dead u isDead] at isProc
      cases isProc
    refine ⟨live, ?_⟩
    by_cases isSelf : u = t
    · subst isSelf
      exact here p isProc
    · by_cases old : u ∈ n.rt.alltask
      · have sameTask := (turned.others u old isSelf).2
        rw [same u old isSelf] at isProc
        rw [sameTask.pc, sameTask.system]
        exact (wired.procs u p isProc).2
      · simpa [isProc] using born u live old
  · by_cases isSelf : u = t
    · subst isSelf
      rw [step_isFdtask wired.reachable isEnabled acts stepped]
      exact wired.others u (acts.live inv) ((gone none).resolve_right (not_not_intro live))
    · by_cases old : u ∈ n.rt.alltask
      · rw [(turned.others u old isSelf).2.pc]
        rw [same u old isSelf] at none
        exact wired.others u old none
      · simpa [none] using born u live old

/-! ## Turns of the scheduler -/

theorem library_ok {a : Libtask.Act} (done : library s a = .ok s') :
    Libtask.step s a = .ok s' := by
  unfold library at done
  cases stepped : Libtask.step s a with
  | ok s₁ =>
      rw [stepped] at done
      exact congrArg Except.ok (Except.ok.inj done)
  | error why =>
      rw [stepped] at done
      cases done

theorem ofProgram_of_ofNetio {pc : Pc} (isPc : ofNetio pc = true) :
    pc.ofProgram = true ∧ pc.isFdtask = false := by
  cases pc <;> first | exact ⟨rfl, rfl⟩ | cases isPc

theorem Wired.dead (wired : Wired n) (isDead : u ∉ n.rt.alltask) : n.net.proc u = none := by
  by_contra isProc
  obtain ⟨p, isProc⟩ := Option.ne_none_iff_exists'.mp isProc
  exact isDead (wired.procs u p isProc).1

theorem dispatch_wired {env : Env} {rt : St} (wired : Wired n)
    (isEnabled : Libtask.enabled n.rt (.dispatch env))
    (stepped : Libtask.step n.rt (.dispatch env) = .ok rt) : Wired { n with rt } := by
  have inv := reachable_inv wired.reachable
  have alltask (u : TaskPtr) : u ∈ rt.alltask ↔ u ∈ n.rt.alltask := by
    simpa [created, freed] using step_alltask inv isEnabled stepped u
  cases step_shape isEnabled stepped with
  | @dispatch _ t s₁ s₂ flow idle scheduled resumed finished =>
      refine wired.next isEnabled stepped (.dispatch idle (taskscheduler_ok scheduled).2.1)
        (fun _ _ _ => rfl) (fun u isDead => wired.dead (mt (alltask u).mpr isDead))
        (fun p isProc => ?_) Or.inl (fun u live old => absurd ((alltask u).mp live) old)
      obtain ⟨-, isPc, ordinary⟩ := wired.procs t p isProc
      rw [taskscheduler_pc scheduled] at resumed
      obtain ⟨ofProgram, notFdtask⟩ := ofProgram_of_ofNetio isPc
      rw [finish_pc finished, if_pos rfl, finish_system finished,
        resume_system ofProgram notFdtask resumed, taskscheduler_system scheduled]
      refine ⟨?_, ordinary⟩
      cases flow with
      | ret r => rfl
      | switch pc =>
          have switches := resume_switches resumed
          cases pcEq : (n.rt.task t).pc <;> rw [pcEq] at switches isPc <;>
            first | (cases pc <;> exact switches.elim) | cases isPc

/-! ## Turns of a task -/

/-- The parts of a turn of `t`. -/
structure Goes (code : L → Prog L) (n : State L) (choice : Choice) (n' : State L) (t : TaskPtr)
    (p : Proc L) : Prop where
  running : n.rt.taskrunning = some t
  isProc : n.net.proc t = some p
  answers : answers n.net.world choice p.code = true
  net : n'.net = n.after code choice t p
  silent : libraryCall choice p.code = none → n'.rt = n.rt
  call : ∀ c, libraryCall choice p.code = some c → Libtask.enabled n.rt (.call c) ∧
    Libtask.step n.rt (.call c) = .ok n'.rt
  goesOn : stops p.code = none

theorem running_eq {tp : TaskPtr × Proc L} (isRunning : n.running = some tp) :
    n.rt.taskrunning = some tp.1 ∧ n.net.proc tp.1 = some tp.2 := by
  simp only [State.running, Option.bind_eq_some_iff, Option.map_eq_some_iff] at isRunning
  obtain ⟨t, running, p, isProc, rfl⟩ := isRunning
  exact ⟨running, isProc⟩

theorem step_goes {choice : Choice} (isEnabled : enabled n (.go choice))
    (stepped : step code n (.go choice) = .ok n') : ∃ t p, Goes code n choice n' t p := by
  simp only [enabled, Option.any_eq_true, Bool.and_eq_true, Option.all_eq_true] at isEnabled
  obtain ⟨⟨t, p⟩, isRunning, isLegal, answers⟩ := isEnabled
  obtain ⟨running, isProc⟩ := running_eq isRunning
  simp only [step, isRunning] at stepped
  cases goesOn : stops p.code with
  | some why =>
      rw [goesOn] at stepped
      cases stepped
  | none =>
      simp only [goesOn] at stepped
      cases hasCall : libraryCall choice p.code with
      | none =>
          rw [hasCall] at stepped
          obtain rfl := Except.ok.inj stepped
          refine ⟨t, p, running, isProc, answers, rfl, fun _ => rfl, fun c isCall => ?_, goesOn⟩
          rw [hasCall] at isCall
          cases isCall
      | some c =>
          rw [hasCall] at stepped
          obtain ⟨rt, done, returned⟩ := Outcome.bind_eq_ok.mp stepped
          obtain rfl := Except.ok.inj returned
          refine ⟨t, p, running, isProc, answers, rfl, fun noCall => ?_, fun c' isCall => ?_,
            goesOn⟩
          · rw [hasCall] at noCall
            cases noCall
          · obtain rfl := Option.some.inj (hasCall.symm.trans isCall)
            exact ⟨⟨by simp [running], isLegal c hasCall⟩, library_ok done⟩

section
variable {choice : Choice} {c : Libtask.Call} {next : Prog L}

theorem Goes.live (goes : Goes code n choice n' t p) (wired : Wired n) : t ∈ n.rt.alltask :=
  (wired.procs t p goes.isProc).1

/-- A turn without a library call. -/
theorem Goes.silent_wired (goes : Goes code n choice n' t p) (wired : Wired n)
    (noCall : libraryCall choice p.code = none)
    (proc : ∃ q, n'.net.proc = update n.net.proc t (some q)) : Wired n' := by
  have rt := goes.silent noCall
  obtain ⟨q, proc⟩ := proc
  refine ⟨rt ▸ wired.reachable, fun u p' isProc => ?_, fun u live none => ?_⟩
  · rw [rt]
    by_cases isSelf : u = t
    · exact isSelf ▸ wired.procs t p goes.isProc
    · rw [proc, update_of_ne isSelf] at isProc
      exact wired.procs u p' isProc
  · rw [rt] at live ⊢
    by_cases isSelf : u = t
    · simp [proc, isSelf] at none
    · rw [proc, update_of_ne isSelf] at none
      exact wired.others u live none

/-- A turn with a library call, after which `t` is where `place` says. -/
theorem Goes.call_wired (goes : Goes code n choice n' t p) (wired : Wired n)
    (hasCall : libraryCall choice p.code = some c) (ofProgram : c.ofProgram = true)
    (same : ∀ u ∈ n.rt.alltask, u ≠ t → n'.net.proc u = n.net.proc u)
    (dead : ∀ u, u ∉ n'.rt.alltask → n'.net.proc u = none)
    (place : ∀ p, n'.net.proc t = some p → ofNetio (n'.rt.task t).pc = true)
    (gone : n'.net.proc t = none → t ∉ n'.rt.alltask)
    (born : ∀ u ∈ n'.rt.alltask, u ∉ n.rt.alltask →
      if (n'.net.proc u).isSome then ofNetio (n'.rt.task u).pc = true ∧
        (n'.rt.task u).system = false
      else (n'.rt.task u).pc.isFdtask = true) : Wired n' := by
  obtain ⟨isEnabled, stepped⟩ := goes.call c hasCall
  refine wired.next isEnabled stepped (.call goes.running) same dead
    (fun p' isProc => ⟨place p' isProc, ?_⟩) (fun none => Or.inr (gone none)) born
  cases step_shape isEnabled stepped with
  | call running isLegal called finished =>
      rw [finish_system finished, call_system isLegal ofProgram called (goes.live wired)]
      exact (wired.procs t p goes.isProc).2.2

theorem Goes.alltask (goes : Goes code n choice n' t p) (wired : Wired n)
    (hasCall : libraryCall choice p.code = some c) (u : TaskPtr) : u ∈ n'.rt.alltask ↔
      (u ∈ n.rt.alltask ∨ created n.rt (.call c) = some u) ∧ freed n.rt (.call c) ≠ some u :=
  step_alltask (reachable_inv wired.reachable) (goes.call c hasCall).1 (goes.call c hasCall).2 u

/-- A call of a task leaves it at one of the places that the call has. -/
theorem Goes.pc (goes : Goes code n choice n' t p)
    (hasCall : libraryCall choice p.code = some c) :
    (∃ r, (n'.rt.task t).pc = .user r) ∨ ∃ pc, c.Switches pc ∧ (n'.rt.task t).pc = pc := by
  obtain ⟨isEnabled, stepped⟩ := goes.call c hasCall
  cases step_shape isEnabled stepped with
  | @call _ self s₂ flow running isLegal called finished =>
      obtain rfl := Option.some.inj (goes.running.symm.trans running)
      rw [finish_pc finished, if_pos rfl]
      cases flow with
      | ret r => exact Or.inl ⟨r, rfl⟩
      | switch pc => exact Or.inr ⟨pc, call_switches called, rfl⟩

theorem library_fdwait (choice : Choice) {fd : Int} {rw : Char} {next : Answer → Prog L}
    (isCode : p.code = .call (.fdwait fd rw) next) :
    libraryCall choice p.code = some (.fdwait fd rw choice.task) := by
  rw [isCode]
  rfl

theorem library_spawn (choice : Choice) {child : L} (isCode : p.code = .spawn child next) :
    libraryCall choice p.code = some (.taskcreate choice.task) := by
  rw [isCode]
  rfl

theorem library_ret (choice : Choice) (isCode : p.code = .ret) :
    libraryCall choice p.code = some .taskreturn := by
  rw [isCode]
  rfl

/-- A task waits in `fdwait`, which may start `fdtask`. -/
theorem Goes.fdwait_wired {fd : Int} {rw : Char} {next : Answer → Prog L} {q : Proc L}
    (goes : Goes code n choice n' t p) (wired : Wired n)
    (isCode : p.code = .call (.fdwait fd rw) next)
    (proc : n'.net.proc = update n.net.proc t (some q)) : Wired n' := by
  have hasCall := library_fdwait choice isCode
  have alltask := goes.alltask wired hasCall
  have grown (u : TaskPtr) (live : u ∈ n.rt.alltask) : u ∈ n'.rt.alltask :=
    (alltask u).mpr ⟨Or.inl live, by simp [freed, Call.exits]⟩
  refine goes.call_wired wired hasCall rfl ?_ ?_ ?_ ?_ ?_
  · intro u _ other
    rw [proc, update_of_ne other]
  · intro u isDead
    have notSelf : u ≠ t := fun same => isDead (grown u (same ▸ goes.live wired))
    rw [proc, update_of_ne notSelf]
    exact wired.dead (mt (grown u) isDead)
  · intro _ _
    rcases goes.pc hasCall with ⟨r, isPc⟩ | ⟨pc, switches, isPc⟩ <;> rw [isPc]
    · rfl
    · cases pc <;> first | rfl | exact switches.elim
  · intro none
    simp [proc] at none
  · intro u live old
    have notSelf : u ≠ t := fun same => old (same ▸ goes.live wired)
    have none : n'.net.proc u = none := by
      rw [proc, update_of_ne notSelf]
      exact wired.dead old
    rw [none]
    obtain ⟨isEnabled, stepped⟩ := goes.call _ hasCall
    have started := fdwait_startedfdtask isEnabled stepped
    have isBorn := ((alltask u).mp live).1.resolve_left old
    cases step_born (reachable_inv wired.reachable) isEnabled stepped with
    | users same isUser =>
        simp [created, ← same, started] at isBorn
    | @fdtask t₀ _ _ _ _ isPc only =>
        obtain rfl := only u live old
        simp [isPc, Pc.isFdtask]

/-- A task creates another one. -/
theorem Goes.spawn_wired {child : L} (goes : Goes code n choice n' t p) (wired : Wired n)
    (isCode : p.code = .spawn child next) : ∃ u, n.net.proc u = none ∧
      n'.net = (n.net.set t (some (p.spawned child next))).set u
        (some (Interaction.Proc.start child)) ∧ Wired n' := by
  have hasCall := library_spawn choice isCode
  have alltask := goes.alltask wired hasCall
  obtain ⟨isEnabled, stepped⟩ := goes.call _ hasCall
  obtain ⟨u, isChild, fresh, isPc⟩ := taskcreate_child isEnabled stepped
  have notSelf : u ≠ t := fun same => fresh (same ▸ goes.live wired)
  have net := goes.net
  simp only [State.after, isCode, isChild] at net
  refine ⟨u, wired.dead fresh, net, ?_⟩
  have proc : n'.net.proc =
      update (update n.net.proc t (some (p.spawned child next))) u
        (some (Interaction.Proc.start child)) := by
    rw [net]
    rfl
  have grown (v : TaskPtr) (live : v ∈ n.rt.alltask) : v ∈ n'.rt.alltask :=
    (alltask v).mpr ⟨Or.inl live, by simp [freed, Call.exits]⟩
  refine goes.call_wired wired hasCall rfl ?_ ?_ ?_ ?_ ?_
  · intro v live other
    have isOld : v ≠ u := fun same => fresh (same ▸ live)
    rw [proc, update_of_ne isOld, update_of_ne other]
  · intro v isDead
    have isOld : v ≠ u := fun same =>
      isDead ((alltask v).mpr ⟨Or.inr (same ▸ isChild), by simp [freed, Call.exits]⟩)
    have other : v ≠ t := fun same => isDead (grown v (same ▸ goes.live wired))
    rw [proc, update_of_ne isOld, update_of_ne other]
    exact wired.dead (mt (grown v) isDead)
  · intro _ _
    rcases goes.pc hasCall with ⟨r, isPc⟩ | ⟨pc, switches, -⟩
    · rw [isPc]
      rfl
    · cases pc <;> exact switches.elim
  · intro none
    simp [proc, Ne.symm notSelf] at none
  · intro v live old
    have isBorn := ((alltask v).mp live).1.resolve_left old
    obtain rfl : u = v := Option.some.inj (isChild.symm.trans isBorn)
    have isSome : n'.net.proc u = some (Interaction.Proc.start child) := by
      rw [proc, update_self]
    rw [isSome, Option.isSome_some, if_pos rfl,
      isPc fun running => notSelf (Option.some.inj (goes.running.symm.trans running)).symm]
    refine ⟨rfl, ?_⟩
    cases step_shape isEnabled stepped with
    | call running isLegal called finished =>
        obtain ⟨⟨s₁, id⟩, created, returned⟩ := Outcome.bind_eq_ok.mp called
        obtain ⟨rfl, -⟩ := Prod.mk.inj (Except.ok.inj returned)
        rw [finish_system finished, taskcreate_system created, if_pos isChild]

/-- A task returns. -/
theorem Goes.ret_wired (goes : Goes code n choice n' t p) (wired : Wired n)
    (isCode : p.code = .ret) (proc : n'.net.proc = update n.net.proc t none) : Wired n' := by
  have hasCall := library_ret choice isCode
  have alltask := goes.alltask wired hasCall
  have gone : t ∉ n'.rt.alltask := fun live =>
    ((alltask t).mp live).2 (by simp [freed, Call.exits, goes.running])
  refine goes.call_wired wired hasCall rfl ?_ ?_ ?_ (fun _ => gone) ?_
  · intro u _ other
    rw [proc, update_of_ne other]
  · intro u isDead
    by_cases isSelf : u = t
    · rw [proc, isSelf, update_self]
    · rw [proc, update_of_ne isSelf]
      refine wired.dead fun live => isDead ((alltask u).mpr ⟨Or.inl live, ?_⟩)
      simp only [freed, Call.exits, goes.running]
      exact fun same => isSelf (by simpa using same.symm)
  · intro q isProc
    simp [proc] at isProc
  · intro u live old
    exact absurd ((alltask u).mp live).1 (by simp [old, created])

/-- One turn of a task is a step of the network. -/
theorem Goes.moves (goes : Goes code n choice n' t p) (wired : Wired n) :
    Wired n' ∧ Interaction.Moves code does t n.net n'.net := by
  have net := goes.net
  have answered := goes.answers
  cases isCode : p.code with
  | goto l =>
      simp only [State.after, isCode] at net
      refine ⟨goes.silent_wired wired (by rw [isCode]; rfl) ⟨_, by rw [net]; rfl⟩, ?_⟩
      rw [net]
      exact .goto goes.isProc isCode
  | call c next =>
      simp only [isCode] at answered
      obtain ⟨world, done⟩ := Option.isSome_iff_exists.mp answered
      simp only [State.after, isCode, done] at net
      have proc : n'.net.proc = update n.net.proc t (some (p.called c choice.answer next)) := by
        rw [net]
        rfl
      refine ⟨?_, by rw [net]; exact .call goes.isProc isCode done⟩
      cases c with
      | fdwait fd rw => exact goes.fdwait_wired wired isCode proc
      | os c | junk size => exact goes.silent_wired wired (by rw [isCode]; rfl) ⟨_, proc⟩
  | spawn child next =>
      obtain ⟨u, fresh, net, wired'⟩ := goes.spawn_wired wired isCode
      exact ⟨wired', by rw [net]; exact .spawn goes.isProc isCode fresh⟩
  | ret =>
      simp only [State.after, isCode] at net
      exact ⟨goes.ret_wired wired isCode (by rw [net]; rfl),
        by rw [net]; exact .ret goes.isProc isCode⟩
  | stop why =>
      have goesOn := goes.goesOn
      rw [isCode] at goesOn
      cases goesOn

end

theorem step_dispatch {env : Env} (stepped : step code n (.dispatch env) = .ok n') :
    Libtask.step n.rt (.dispatch env) = .ok n'.rt ∧ n' = { n with rt := n'.rt } := by
  obtain ⟨rt, done, returned⟩ := Outcome.bind_eq_ok.mp stepped
  obtain rfl := Except.ok.inj returned
  exact ⟨library_ok done, rfl⟩

theorem step_refines {a : Act} (wired : Wired n) (isEnabled : enabled n a)
    (stepped : step code n a = .ok n') :
    Wired n' ∧ (n'.net = n.net ∨ Interaction.Step code does n.net n'.net) := by
  cases a with
  | dispatch env =>
      obtain ⟨done, same⟩ := step_dispatch stepped
      rw [same]
      exact ⟨dispatch_wired wired isEnabled done, Or.inl rfl⟩
  | go choice =>
      obtain ⟨t, p, goes⟩ := step_goes isEnabled stepped
      obtain ⟨wired', moves⟩ := goes.moves wired
      exact ⟨wired', Or.inr ⟨t, moves⟩⟩

theorem init_wired {os : Os} {start : L} (init : (system code os start).init n) :
    Wired n ∧ ∃ t, n.net = .start os t start := by
  obtain ⟨rendez, mem, t, started, net⟩ := init
  obtain ⟨id, done⟩ := main_ok started
  obtain ⟨t₀, lists, cap, isTask, -, -, -, rtEq, -⟩ := taskcreate_ok done
  obtain rfl := Option.some.inj isTask
  have proc (u : TaskPtr) : n.net.proc u = if u = t then some (.start start) else none := by
    by_cases same : u = t <;> simp [net, Interaction.Net.start, same]
  refine ⟨⟨.init ⟨rendez, mem, t, started⟩, fun u p isProc => ?_, fun u live none => ?_⟩, t, net⟩
  · rw [proc] at isProc
    split at isProc
    next same =>
      rw [same, rtEq]
      exact ⟨by simp [St.zero], by simp [ofNetio], by simp⟩
    next => cases isProc
  · have same : u = t := by simpa [rtEq, St.zero] using live
    simp [proc, same] at none

/-- Each run is one of the network. -/
theorem reachable_refines {os : Os} {start : L} (reachable : Reachable code os start n) :
    Wired n ∧ ∃ t, Interaction.Reaches code does (.start os t start) n.net := by
  refine reachable.invariant
    (fun n => Wired n ∧ ∃ t, Interaction.Reaches code does (.start os t start) n.net) ?_ ?_
  · intro n init
    obtain ⟨wired, t, net⟩ := init_wired init
    exact ⟨wired, t, net ▸ .refl⟩
  · intro n a n' _ ⟨wired, t, reaches⟩ isEnabled _ stepped
    obtain ⟨wired', net⟩ := step_refines wired isEnabled stepped
    refine ⟨wired', t, ?_⟩
    rcases net with same | stepped
    · rwa [same]
    · exact reaches.tail stepped

/-! ## The end -/

/-- The ways in which a run can end. -/
inductive Ends (n : State L) : Act → Ending → Prop where
  /-- the program ends itself -/
  | stop {choice : Choice} {t : TaskPtr} {p : Proc L} {why : Stop} : n.running = some (t, p) →
      p.code = .stop why → Ends n (.go choice) (.stop why)
  /-- there is no memory for another task, or for its place in `alltask` -/
  | taskcreate {choice : Choice} {t : TaskPtr} {p : Proc L} {why : Abort} :
      n.running = some (t, p) →
      (∃ child next, p.code = .spawn child next) ∨
        (∃ fd rw next, p.code = .call (.fdwait fd rw) next) ∧ n.rt.startedfdtask = false →
      AllocFails n.rt choice.task why → Ends n (.go choice) (.halt (.abort why))
  /-- the poll table is full -/
  | tooManyPollFds {choice : Choice} {t : TaskPtr} {p : Proc L} : n.running = some (t, p) →
      (∃ fd rw next, p.code = .call (.fdwait fd rw) next) → maxfd ≤ n.rt.npollfd →
      Ends n (.go choice) (.halt (.abort .tooManyPollFds))
  | poll {env : Env} : n.rt.startedfdtask = true → env.poll = .error →
      Ends n (.dispatch env) (.halt .pollError)
  /-- all tasks have returned -/
  | taskexitval {env : Env} {status : Int} : (∀ t, n.net.proc t = none) →
      Ends n (.dispatch env) (.halt (.taskexitval status))

theorem Wired.places (wired : Wired n) : ∀ t ∈ n.rt.alltask, (n.rt.task t).pc.ofProgram = true := by
  intro t live
  cases isProc : n.net.proc t with
  | none => exact Pc.ofProgram_of_isFdtask (wired.others t live isProc)
  | some p => exact (ofProgram_of_ofNetio (wired.procs t p isProc).2.1).1

theorem dispatch_ends {env : Env} {why : Halt} (wired : Wired n)
    (isEnabled : Libtask.enabled n.rt (.dispatch env))
    (stopped : Libtask.step n.rt (.dispatch env) = .error why) :
    Ends n (.dispatch env) (.halt why) := by
  have inv := reachable_inv wired.reachable
  have counted := reachable_counted wired.reachable
  rcases dispatch_stops inv isEnabled wired.places stopped with
    ⟨scheduled, ofScheduler⟩ | ⟨rfl, polled, isFdtask⟩
  · cases why with
    | taskexitval status =>
        refine .taskexitval fun t => ?_
        by_contra isSome
        obtain ⟨p, isProc⟩ := Option.ne_none_iff_exists'.mp isSome
        obtain ⟨zero, -⟩ := taskscheduler_exits.mp scheduled
        obtain ⟨live, -, ordinary⟩ := wired.procs t p isProc
        have isSystem := (counted.taskcount_eq_zero inv).mp zero t live
        rw [ordinary] at isSystem
        cases isSystem
    | noRunnable stalled =>
        -- the tasks of the program are ready or poll, and then `fdtask` is ready
        obtain ⟨positive, empty, -⟩ := taskscheduler_noRunnable.mp scheduled
        have idle := isEnabled.1
        refine absurd ((counted.taskcount_eq_zero inv).mpr fun t live => ?_) positive
        exfalso
        have notTimed := not_timed wired.reachable idle empty live
        cases isProc : n.net.proc t with
        | none =>
            have member := inv.fdtask_ready idle live (wired.others t live isProc)
            rw [empty] at member
            cases member
        | some p =>
            obtain ⟨-, isPc, -⟩ := wired.procs t p isProc
            have place := inv.not_ready idle (by simp [empty]) live
            cases pcEq : (n.rt.task t).pc <;> rw [pcEq] at isPc notTimed place
            case user r =>
              rcases place with ⟨-, impossible | ⟨a, impossible⟩⟩ | ⟨list, -, -, impossible⟩ <;>
                cases impossible
            case fdwait => cases notTimed
            all_goals cases isPc
    | _ => cases ofScheduler
  · exact .poll ((reachable_started wired.reachable).mpr isFdtask) polled

theorem library_error {a : Libtask.Act} {ending : Ending} (stopped : library s a = .error ending) :
    ∃ why, Libtask.step s a = .error why ∧ ending = .halt why := by
  unfold library at stopped
  cases stepped : Libtask.step s a with
  | ok s₁ =>
      rw [stepped] at stopped
      cases stopped
  | error why =>
      rw [stepped] at stopped
      exact ⟨why, rfl, (Except.error.inj stopped).symm⟩

/-- How `fdwait` can stop a run. -/
theorem fdwait_ends {choice : Choice} {fd : Int} {rw : Char} {next : Answer → Prog L} {why : Halt}
    (wired : Wired n) (isRunning : n.running = some (t, p))
    (isCode : p.code = .call (.fdwait fd rw) next)
    (isEnabled : Libtask.enabled n.rt (.call (.fdwait fd rw choice.task)))
    (halted : Libtask.step n.rt (.call (.fdwait fd rw choice.task)) = .error why) :
    Ends n (.go choice) (.halt why) := by
  have inv := reachable_inv wired.reachable
  have running := (running_eq isRunning).1
  have isWait : ∃ fd rw next, p.code = .call (.fdwait fd rw) next := ⟨fd, rw, next, isCode⟩
  obtain ⟨stopped, notCorrupt⟩ := call_stops inv running isEnabled halted
  rcases (fdwait_stops stopped).resolve_left notCorrupt with
    ⟨notStarted, a, rfl, noMemory⟩ | ⟨rfl, full⟩
  · exact .taskcreate isRunning (Or.inr ⟨isWait, notStarted⟩) noMemory
  · exact .tooManyPollFds isRunning isWait full

theorem go_ends {choice : Choice} {ending : Ending} (wired : Wired n)
    (isEnabled : enabled n (.go choice)) (stopped : step code n (.go choice) = .error ending) :
    Ends n (.go choice) ending := by
  have inv := reachable_inv wired.reachable
  simp only [enabled, Option.any_eq_true, Bool.and_eq_true, Option.all_eq_true] at isEnabled
  obtain ⟨⟨t, p⟩, isRunning, isLegal, -⟩ := isEnabled
  obtain ⟨running, isProc⟩ := running_eq isRunning
  have legal {c : Libtask.Call} (hasCall : libraryCall choice p.code = some c) :
      Libtask.enabled n.rt (.call c) := ⟨by simp [running], isLegal c hasCall⟩
  have total {c : Libtask.Call} {why : Halt} (hasCall : libraryCall choice p.code = some c)
      (only : OnlyCorrupt (Libtask.call n.rt t c))
      (stopped : Libtask.step n.rt (.call c) = .error why) : False := by
    obtain ⟨s', goes⟩ := call_total inv running (legal hasCall) only
    rw [stopped] at goes
    cases goes
  simp only [step, isRunning] at stopped
  have fails {c : Libtask.Call} (goesOn : stops p.code = none)
      (hasCall : libraryCall choice p.code = some c) :
      ∃ why, Libtask.step n.rt (.call c) = .error why ∧ ending = .halt why := by
    simp only [goesOn, hasCall] at stopped
    rcases Outcome.bind_eq_error.mp stopped with stopped | ⟨rt, -, returned⟩
    · exact library_error stopped
    · cases returned
  cases isCode : p.code with
  | goto l =>
      simp only [isCode] at stopped
      cases stopped
  | call c next =>
      cases c with
      | fdwait fd rw =>
          have hasCall := library_fdwait choice isCode
          obtain ⟨why, halted, rfl⟩ := fails (by rw [isCode]; rfl) hasCall
          exact fdwait_ends wired isRunning isCode (legal hasCall) halted
      | os c | junk size =>
          simp only [isCode] at stopped
          cases stopped
  | spawn child next =>
      have hasCall := library_spawn choice isCode
      obtain ⟨why, halted, rfl⟩ := fails (by rw [isCode]; rfl) hasCall
      obtain ⟨stopped, notCorrupt⟩ := call_stops inv running (legal hasCall) halted
      rcases Outcome.bind_eq_error.mp stopped with stopped | ⟨result, -, returned⟩
      · obtain ⟨a, rfl, noMemory⟩ := (taskcreate_stops stopped).resolve_left notCorrupt
        exact .taskcreate isRunning (Or.inl ⟨child, next, isCode⟩) noMemory
      · cases returned
  | ret =>
      have hasCall := library_ret choice isCode
      obtain ⟨why, halted, rfl⟩ := fails (by rw [isCode]; rfl) hasCall
      exact (total hasCall (.ok _) halted).elim
  | stop why =>
      simp only [isCode] at stopped
      obtain rfl := Except.error.inj stopped
      exact .stop isRunning isCode

/-- What can stop a run. -/
theorem netio_stops {os : Os} {start : L} (reachable : Reachable code os start n) {a : Act}
    {ending : Ending} (isEnabled : enabled n a) (stopped : step code n a = .error ending) :
    Ends n a ending := by
  have wired := (reachable_refines reachable).1
  cases a with
  | dispatch env =>
      rcases Outcome.bind_eq_error.mp stopped with stopped | ⟨rt, -, returned⟩
      · obtain ⟨why, rtStopped, rfl⟩ := library_error stopped
        exact dispatch_ends wired isEnabled rtStopped
      · cases returned
  | go choice => exact go_ends wired isEnabled stopped

/-! ## Runs that are given by their actions -/

instance (n : State L) (a : Act) : Decidable ((anyAction : State L → Act → Prop) n a) :=
  inferInstanceAs (Decidable True)

theorem exists_allowed_run (code : L → Prog L) (os : Os) (start : L)
    (allowed : State L → Act → Prop) [∀ n a, Decidable (allowed n a)] (actions : List Act)
    (check : State L → Bool)
    (executed : ((main (fun _ => none) (fun _ => 0) 1).toOption.any fun rt =>
      (Transition.exec (system code os start) allowed ⟨rt, .start os 1 start⟩ actions).any
        check) = true) :
    ∃ n, check n = true ∧ Transition.Reachable (system code os start) allowed n := by
  cases started : main (fun _ => none) (fun _ => 0) 1 with
  | error why =>
      rw [started] at executed
      cases executed
  | ok rt =>
      rw [started] at executed
      have init : Transition.Reachable (system code os start) allowed ⟨rt, .start os 1 start⟩ :=
        .init ⟨_, _, 1, started, rfl⟩
      obtain ⟨n, -, checked, reachable⟩ := Transition.exists_reachable_exec init executed
      exact ⟨n, checked, reachable⟩

theorem exists_netio_run (code : L → Prog L) (os : Os) (start : L) (actions : List Act)
    (check : State L → Bool)
    (executed : ((main (fun _ => none) (fun _ => 0) 1).toOption.any fun rt =>
      (Transition.exec (system code os start) anyAction ⟨rt, .start os 1 start⟩ actions).any
        check) = true) : ∃ n, check n = true ∧ Reachable code os start n :=
  exists_allowed_run code os start anyAction actions check executed

def endsBy (ending : Ending) : Except Ending (State L) → Bool
  | .error why => decide (why = ending)
  | .ok _ => false

/-- A run that ends in `a`. -/
theorem exists_netio_end (code : L → Prog L) (os : Os) (start : L) (actions : List Act) (a : Act)
    (ending : Ending) (check : State L → Bool)
    (executed : ((main (fun _ => none) (fun _ => 0) 1).toOption.any fun rt =>
      (Transition.exec (system code os start) anyAction ⟨rt, .start os 1 start⟩ actions).any
        fun n => check n && decide (enabled n a) && endsBy ending (step code n a)) = true) :
    ∃ n, check n = true ∧ Reachable code os start n ∧ enabled n a ∧
      step code n a = .error ending := by
  obtain ⟨n, checked, reachable⟩ := exists_netio_run code os start actions _ executed
  simp only [Bool.and_eq_true, decide_eq_true_eq] at checked
  obtain ⟨⟨checked, isEnabled⟩, ends⟩ := checked
  refine ⟨n, checked, reachable, isEnabled, ?_⟩
  cases stopped : step code n a with
  | ok n' => simp [stopped, endsBy] at ends
  | error why => simpa [stopped, endsBy] using ends

end Libtask.Netio
