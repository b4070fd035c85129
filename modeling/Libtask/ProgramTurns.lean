import Libtask.ProgramNet
import Libtask.Turns

/-!
# The turns of a program that move no value

Each turn of a task without a channel operation is a step of its process, or none: what it stores
and what it reads after a channel operation is its own.
-/

namespace Libtask

open Function (update update_self update_of_ne)

namespace Program

variable {V L O : Type} {e : Bytes.Encoding V} {program : Program V L O}
variable {n n' : State L O} {s s' : St} {t u : TaskPtr} {f : Frame L}

/-! ## Turns of a task -/

/-- The parts of a turn. -/
structure Goes (e : Bytes.Encoding V) (program : Program V L O) (n : State L O) (choice : Choice)
    (n' : State L O) (t : TaskPtr) (f : Frame L) (turn : Turn L O) : Prop where
  running : n.rt.taskrunning = some t
  frame : n.frame t = some f
  isTurn : Program.turn e program n.rt.mem choice f = some turn
  valfree : ∀ f', turn.frame = some f' → ∀ val, f'.val = some val →
    n.valfree e.size t val = true
  frame' : n'.frame = n.frames t choice.task.malloc turn
  out : n'.out = n.out ++ turn.out
  silent : turn.call = none → n'.rt = n.rt
  call : ∀ c, turn.call = some c → Libtask.enabled n.rt (.call c) ∧
    Libtask.step n.rt (.call c) = .ok n'.rt

theorem library_ok {a : Libtask.Act} (done : library s a = .ok s') :
    Libtask.step s a = .ok s' := by
  unfold library at done
  cases stepped : Libtask.step s a with
  | ok s₁ =>
      rw [stepped] at done
      exact congrArg Except.ok (Except.ok.inj done)
  | error why =>
      rw [stepped] at done
      cases done

theorem step_dispatch {env : Env} (stepped : step e program n (.dispatch env) = .ok n') :
    Libtask.step n.rt (.dispatch env) = .ok n'.rt ∧ n' = { n with rt := n'.rt } := by
  obtain ⟨rt, done, returned⟩ := Outcome.bind_eq_ok.mp stepped
  obtain rfl := Except.ok.inj returned
  exact ⟨library_ok done, rfl⟩

theorem step_goes {choice : Choice} (isEnabled : enabled e program n (.go choice))
    (stepped : step e program n (.go choice) = .ok n') :
    ∃ t f turn, Goes e program n choice n' t f turn := by
  simp only [enabled, Option.any_eq_true] at isEnabled
  obtain ⟨⟨t, f⟩, runningEq, legal⟩ := isEnabled
  obtain ⟨running, hasFrame⟩ : n.rt.taskrunning = some t ∧ n.frame t = some f := by
    simp only [State.running, Option.bind_eq_some_iff, Option.map_eq_some_iff,
      Prod.mk.injEq] at runningEq
    obtain ⟨t', running, f', hasFrame, rfl, rfl⟩ := runningEq
    exact ⟨running, hasFrame⟩
  simp only [step, runningEq] at stepped
  cases turnEq : turn e program n.rt.mem choice f with
  | none =>
      rw [turnEq] at stepped
      cases stepped
  | some turn =>
      simp only [turnEq, Option.all_some, Turn.legal, Bool.and_eq_true,
        Option.all_eq_true] at legal
      simp only [turnEq] at stepped
      cases hasCall : turn.call with
      | none =>
          rw [hasCall] at stepped
          obtain rfl := Except.ok.inj stepped
          exact ⟨t, f, turn, running, hasFrame, turnEq, legal.2, rfl, rfl, fun _ => rfl,
            fun c isCall => (by simp [hasCall] at isCall)⟩
      | some c =>
          rw [hasCall] at stepped
          obtain ⟨rt, done, returned⟩ := Outcome.bind_eq_ok.mp stepped
          obtain rfl := Except.ok.inj returned
          refine ⟨t, f, turn, running, hasFrame, turnEq, legal.2, rfl, rfl,
            fun noCall => (by simp [hasCall] at noCall), fun c' isCall => ?_⟩
          obtain rfl := Option.some.inj (hasCall.symm.trans isCall)
          exact ⟨⟨by simp [running], legal.1 c hasCall⟩, library_ok done⟩

section
variable {choice : Choice} {turn : Turn L O} {c : Call} {l : L}

theorem valfree_disjoint {size val q : Nat} (isFree : n.valfree size t val = true)
    (live : u ∈ n.rt.alltask) (other : u ≠ t) (valEq : n.val u = some q) :
    Bytes.Apart size val q := by
  have freeOf := List.all_eq_true.mp isFree u live
  obtain ⟨f, hasFrame, valEq⟩ := Option.bind_eq_some_iff.mp valEq
  simpa [other, hasFrame, valEq] using freeOf

theorem Goes.live (goes : Goes e program n choice n' t f turn) (wired : Wired e program n) :
    t ∈ n.rt.alltask :=
  (wired.frames t f goes.frame).1

theorem Goes.acts (goes : Goes e program n choice n' t f turn) :
    Acts n.rt (.call c) t (.call c) :=
  .call goes.running

theorem Goes.turned (goes : Goes e program n choice n' t f turn) (wired : Wired e program n)
    (hasCall : turn.call = some c) : Turned t (.call c) n.rt n'.rt :=
  step_turned (reachable_inv wired.reachable) (goes.call c hasCall).1 goes.acts
    (goes.call c hasCall).2

/-- The turn of a task that makes no other task. -/
theorem Goes.frames (goes : Goes e program n choice n' t f turn) (childless : turn.child = none) :
    n'.frame = update n.frame t turn.frame := by
  rw [goes.frame']
  simp [State.frames, childless]

/-- A call that cannot switch comes back to the code of the task. -/
theorem Goes.returns (goes : Goes e program n choice n' t f turn) (wired : Wired e program n)
    (hasCall : turn.call = some c) (stays : ∀ pc, ¬c.Switches pc) :
    t ∈ n'.rt.alltask ∧ ∃ r, (n'.rt.task t).pc = .user r := by
  obtain ⟨isEnabled, stepped⟩ := goes.call c hasCall
  obtain ⟨r, isPc⟩ : ∃ r, (n'.rt.task t).pc = .user r := by
    cases step_shape isEnabled stepped with
    | @call _ self s₂ flow running isLegal called finished =>
        obtain rfl := Option.some.inj (goes.running.symm.trans running)
        rw [finish_pc finished, if_pos rfl]
        cases flow with
        | ret r => exact ⟨r, rfl⟩
        | switch pc => exact absurd (call_switches called) (stays pc)
  exact ⟨(goes.turned wired hasCall).live (by simp [isPc]), r, isPc⟩

/-- A task runs until it gives up the CPU. -/
theorem Goes.stillRuns (goes : Goes e program n choice n' t f turn)
    (stays : ∀ c, turn.call = some c → ∀ pc, ¬c.Switches pc) : n'.rt.taskrunning = some t := by
  cases hasCall : turn.call with
  | none => rw [goes.silent hasCall, goes.running]
  | some c =>
      obtain ⟨isEnabled, stepped⟩ := goes.call c hasCall
      cases step_shape isEnabled stepped with
      | call running isLegal called finished =>
          have still := (call_taskrunning called).trans running
          obtain rfl := Option.some.inj (goes.running.symm.trans running)
          rcases finish_taskrunning finished still with ⟨r, rfl, stillRuns⟩ | ⟨pc, rfl, -⟩
          · exact stillRuns
          · exact absurd (call_switches called) (stays c hasCall pc)

theorem Goes.alltask (goes : Goes e program n choice n' t f turn) (wired : Wired e program n)
    (hasCall : turn.call = some c) (u : TaskPtr) : u ∈ n'.rt.alltask ↔
      (u ∈ n.rt.alltask ∨ created n.rt (.call c) = some u) ∧ freed n.rt (.call c) ≠ some u :=
  step_alltask (reachable_inv wired.reachable) (goes.call c hasCall).1 (goes.call c hasCall).2 u

/-- A turn with a call that affects no other task. -/
theorem Goes.wired (goes : Goes e program n choice n' t f turn) (wired : Wired e program n)
    (hasCall : turn.call = some c) (childless : turn.child = none)
    (others : ∀ u f, u ≠ t → n.frame u = some f → Undisturbed n.rt n'.rt u e.size f)
    (channels : ∀ c ∈ n'.rt.chans, c ∉ n.rt.chans →
      (n'.rt.chan c).Sound ∧ (n'.rt.chan c).elemsize = e.size)
    (isAt : ∀ f, turn.frame = some f → t ∈ n'.rt.alltask ∧ At e program n'.rt t f)
    (exits : turn.frame = none → t ∉ n'.rt.alltask)
    (newborn : ∀ u ∈ n'.rt.alltask, u ∉ n.rt.alltask → (n'.rt.task u).pc.isFdtask = true) :
    Wired e program n' := by
  obtain ⟨isEnabled, stepped⟩ := goes.call c hasCall
  refine wired.nextFrame isEnabled stepped goes.acts (goes.frames childless) channels ?_ isAt
    (fun noFrame => Or.inr (exits noFrame)) newborn ?_
  · intro u f other hasFrame
    have undisturbed := others u f other hasFrame
    exact ⟨undisturbed.live, undisturbed.isAt (wired.frames u f hasFrame).2⟩
  · intro p u q other valEq uEq
    obtain ⟨f', hasFrame, valEq⟩ := Option.bind_eq_some_iff.mp valEq
    obtain ⟨f₀, hasFrame₀, -⟩ := Option.bind_eq_some_iff.mp uEq
    exact valfree_disjoint (goes.valfree f' hasFrame p valEq) (wired.frames u f₀ hasFrame₀).1
      other uEq

/-- The other processes stay where they are. -/
theorem code_update {frame : Option (Frame L)} (frameEq : n'.frame = update n.frame t frame)
    (others : ∀ u f, u ≠ t → n.frame u = some f →
      localState e program n'.rt u f = localState e program n.rt u f) :
    (n'.net e program).code =
      update (n.net e program).code t (frame.map (localState e program n'.rt t)) := by
  funext u
  by_cases isSelf : u = t
  · subst isSelf
    simp [State.net, frameEq]
  · simp only [State.net, frameEq, update_of_ne isSelf]
    exact Option.map_congr fun f hasFrame => others u f isSelf hasFrame

theorem net_code (hasFrame : n.frame t = some f) :
    (n.net e program).code t = some (localState e program n.rt t f) := by
  simp [State.net, hasFrame]

/-- The network after a turn that moves no value. -/
theorem net_of_quiet {net : Kahn.Net TaskPtr ChanPtr V L O} (quiet : Quiet s n'.rt)
    (trace : s.trace = n.rt.trace) (code : (n'.net e program).code = net.code)
    (chans : s.chans = net.chans) (sent : net.sent = (n.net e program).sent)
    (rcvd : net.rcvd = (n.net e program).rcvd) (out : net.out = n.out)
    (prints : n'.out = n.out) : n'.net e program = net := by
  refine Kahn.Net.ext code (quiet.chans.trans chans) ?_ ?_ (prints.trans out.symm)
  · rw [sent]
    funext c
    simp only [State.net, quiet.sent, trace]
  · rw [rcvd]
    funext c
    simp only [State.net, quiet.received, trace]

/-- A turn gives no task another frame, but for the task itself and its child. -/
theorem Goes.frame_others (goes : Goes e program n choice n' t f turn)
    (wired : Wired e program n) {f' : Frame L} (other : u ≠ t) (hasFrame : n.frame u = some f')
    (childless : turn.child = none ∨ ∀ v, choice.task.malloc = some v → v ∉ n.rt.alltask) :
    n'.frame u = some f' := by
  rcases childless with childless | fresh
  · rwa [goes.frames childless, update_of_ne other]
  · rw [goes.frame']
    have live := (wired.frames u f' hasFrame).1
    cases isChild : choice.task.malloc with
    | none => simp [State.frames, update_of_ne other, hasFrame]
    | some v =>
        have different : u ≠ v := fun same => fresh v isChild (same ▸ live)
        cases hasChild : turn.child with
        | none => simp [State.frames, hasChild, update_of_ne other, hasFrame]
        | some child =>
            simp [State.frames, hasChild, update_of_ne different, update_of_ne other, hasFrame]

theorem Goes.kept (goes : Goes e program n choice n' t f turn) (wired : Wired e program n)
    (hasCall : turn.call = some c) {moved : Finset TaskPtr} (isMoved : t ∈ moved)
    (childless : turn.child = none ∨ ∀ v, choice.task.malloc = some v → v ∉ n.rt.alltask)
    (others : ∀ u f, u ∉ moved → n.frame u = some f → Undisturbed n.rt n'.rt u e.size f) :
    ∀ u ∈ n.rt.alltask.toFinset, u ∉ moved → u ∈ n'.rt.alltask.toFinset ∧
      n.weight program u ≤ n'.weight program u := by
  intro u member stays
  have other : u ≠ t := fun same => stays (same ▸ isMoved)
  obtain ⟨live, -⟩ := (goes.turned wired hasCall).others u (List.mem_toFinset.mp member) other
  exact ⟨List.mem_toFinset.mpr live, Undisturbed.weight
    (fun f hasFrame => goes.frame_others wired other hasFrame childless)
    fun f hasFrame => others u f stays hasFrame⟩

/-- A running task is not queued. -/
theorem Goes.weight_le_two (goes : Goes e program n choice n' t f turn)
    (wired : Wired e program n) : n.weight program t ≤ 2 := by
  obtain ⟨r, isPc⟩ := running_user wired.reachable t goes.running
  rw [State.weight, goes.frame]
  cases f <;> simp [phase, waits_user isPc]

/-- A turn in which the processes make steps. -/
theorem Goes.advance (goes : Goes e program n choice n' t f turn) (wired : Wired e program n)
    (hasCall : turn.call = some c) {moved : Finset TaskPtr} (isMoved : t ∈ moved)
    (childless : turn.child = none ∨ ∀ v, choice.task.malloc = some v → v ∉ n.rt.alltask)
    (others : ∀ u f, u ∉ moved → n.frame u = some f → Undisturbed n.rt n'.rt u e.size f)
    (wired' : Wired e program n') {steps : Nat} (count : moved.card = steps)
    (burst : Kahn.Burst program (n.net e program) steps (n'.net e program)) :
    Advance e program n n' steps := by
  subst count
  have positive : 0 < moved.card := Finset.card_pos.mpr ⟨t, isMoved⟩
  refine ⟨wired', burst, ?_, ?_⟩
  · have := Potential.sum_le moved (weight_le_three program n)
      (goes.kept wired hasCall isMoved childless others)
    simp only [State.weights]
    omega
  · have newborn (u : TaskPtr) (live : u ∈ n'.rt.alltask.toFinset) :
        u ∈ n.rt.alltask.toFinset ∪ (created n.rt (.call c)).toFinset := by
      have live := ((goes.alltask wired hasCall u).mp (List.mem_toFinset.mp live)).1
      simpa using live
    have few : (created n.rt (.call c)).toFinset.card ≤ 1 := by
      cases created n.rt (.call c) <;> simp
    have := (Finset.card_le_card newborn).trans (Finset.card_union_le _ _)
    omega

/-- A turn in which the processes make no step, but `t` comes closer to its next one. -/
theorem Goes.nears (goes : Goes e program n choice n' t f turn) (wired : Wired e program n)
    (hasCall : turn.call = some c) (childless : turn.child = none)
    (others : ∀ u f, u ≠ t → n.frame u = some f → Undisturbed n.rt n'.rt u e.size f)
    (wired' : Wired e program n') (same : n'.net e program = n.net e program)
    (uncreated : created n.rt (.call c) = none) (live : t ∈ n'.rt.alltask)
    (more : n.weight program t < n'.weight program t) : Advance e program n n' 0 := by
  refine ⟨wired', by rw [same]; exact .rest, ?_, ?_⟩
  · have kept := goes.kept wired hasCall (Finset.mem_singleton_self t) (Or.inl childless)
      fun u f stays => others u f (by simpa using stays)
    exact Potential.sum_lt (List.mem_toFinset.mpr (goes.live wired)) (List.mem_toFinset.mpr live)
      more fun u member other => kept u member (by simpa using other)
  · rw [Nat.add_zero]
    refine Finset.card_le_card fun u live => ?_
    have live := ((goes.alltask wired hasCall u).mp (List.mem_toFinset.mp live)).1
    simpa [uncreated] using live

/-- A turn without a call goes on in the code of the task. -/
theorem Goes.silent_wired (goes : Goes e program n choice n' t f turn)
    (wired : Wired e program n) (noCall : turn.call = none) (frame : turn.frame = some (.run l))
    (childless : turn.child = none) : Wired e program n' ∧
      (n'.net e program).code = update (n.net e program).code t (some l) ∧
      ∀ u ∈ n.rt.alltask.toFinset, u ≠ t → u ∈ n'.rt.alltask.toFinset ∧
        n.weight program u ≤ n'.weight program u := by
  have rt := goes.silent noCall
  have frameEq := goes.frames childless
  rw [frame] at frameEq
  have vals (u : TaskPtr) (q : Nat) (valEq : n'.val u = some q) : u ≠ t ∧ n.val u = some q := by
    by_cases isSelf : u = t
    · subst isSelf
      simp [State.val, frameEq, Frame.val] at valEq
    · rw [State.val, frameEq, update_of_ne isSelf] at valEq
      exact ⟨isSelf, valEq⟩
  refine ⟨⟨rt ▸ wired.reachable, rt ▸ wired.channels, ?_, ?_, ?_⟩, ?_, ?_⟩
  · intro u f' hasFrame
    rw [rt]
    by_cases isSelf : u = t
    · subst isSelf
      rw [frameEq, update_self] at hasFrame
      obtain rfl := Option.some.inj hasFrame
      exact ⟨goes.live wired, .run (Or.inl (running_user wired.reachable u goes.running))⟩
    · rw [frameEq, update_of_ne isSelf] at hasFrame
      exact wired.frames u f' hasFrame
  · intro u live noFrame
    rw [rt] at live ⊢
    by_cases isSelf : u = t
    · subst isSelf
      simp [frameEq] at noFrame
    · rw [frameEq, update_of_ne isSelf] at noFrame
      exact wired.others u live noFrame
  · intro v u p q other vEq uEq
    exact wired.apart v u p q other (vals v p vEq).2 (vals u q uEq).2
  · rw [code_update frameEq fun u f' _ _ => by rw [rt]]
    rfl
  · intro u live other
    rw [State.weight, State.weight, rt, frameEq, update_of_ne other]
    exact ⟨live, le_rfl⟩

theorem Goes.print_refines {next : L} {o : O} (goes : Goes e program n choice n' t (.run l) turn)
    (wired : Wired e program n) (isPrint : program l = .print o next) :
    Advance e program n n' 1 := by
  have turnEq := goes.isTurn
  simp only [Program.turn, begin, isPrint, Option.some.injEq] at turnEq
  subst turnEq
  obtain ⟨wired', codeEq, kept⟩ := goes.silent_wired wired rfl rfl rfl
  have lost := Potential.sum_le {t} (weight_le_three program n)
    fun u member stays => kept u member (by simpa using stays)
  refine ⟨wired', .step ?_, ?_, by rw [goes.silent rfl]; omega⟩
  swap
  · rw [Finset.card_singleton] at lost
    simp only [State.weights]
    omega
  have net : n'.net e program = { n.net e program with
      out := (n.net e program).out ++ [o] }.goTo t next := by
    refine Kahn.Net.ext codeEq ?_ ?_ ?_ goes.out <;> simp [State.net, Kahn.Net.goTo, goes.silent]
  rw [net]
  exact Kahn.Moves.print.step (net_code goes.frame) isPrint

/-- The task goes on with what the channel operation left in its variable. -/
theorem Goes.returned_refines {val array : Nat}
    (goes : Goes e program n choice n' t (.calling l val array) turn)
    (wired : Wired e program n) : Advance e program n n' 0 := by
  have turnEq := goes.isTurn
  simp only [Program.turn, Option.some.injEq] at turnEq
  subst turnEq
  obtain ⟨wired', codeEq, kept⟩ := goes.silent_wired wired rfl rfl rfl
  obtain ⟨r, isPc⟩ := running_user wired.reachable t goes.running
  have live := List.mem_toFinset.mpr (goes.live wired)
  have more : n.weight program t < n'.weight program t := by
    simp [State.weight, goes.frame, goes.frames rfl, phase, waits_user isPc]
  have same : n'.net e program = n.net e program := by
    refine Kahn.Net.ext ?_ ?_ ?_ ?_ ?_
    · rw [codeEq, Function.update_eq_self_iff, net_code goes.frame]
      simp [localState, waits_user isPc]
    · simp [State.net, goes.silent]
    · simp [State.net, goes.silent]
    · simp [State.net, goes.silent]
    · simpa [State.net] using goes.out
  refine ⟨wired', by rw [same]; exact .rest, ?_, by rw [goes.silent rfl]; omega⟩
  exact Potential.sum_lt live (by rwa [goes.silent rfl]) more kept

theorem Goes.store_refines {next : L} {ch : ChanPtr} {v : V}
    (goes : Goes e program n choice n' t (.run l) turn) (wired : Wired e program n)
    (isSend : program l = .send ch v next) : Advance e program n n' 0 := by
  have turnEq := goes.isTurn
  simp only [Program.turn, begin, isSend, Option.some.injEq] at turnEq
  subst turnEq
  obtain ⟨isEnabled, stepped⟩ := goes.call _ rfl
  have quiet := store_quiet isEnabled stepped
  have returns := goes.returns wired rfl fun pc => by cases pc <;> exact id
  have alltask := goes.alltask wired rfl
  have others (u : TaskPtr) (f : Frame L) (other : u ≠ t) (hasFrame : n.frame u = some f) :
      Undisturbed n.rt n'.rt u e.size f := by
    have live := (wired.frames u f hasFrame).1
    refine undisturbed_of_alts (goes.turned wired rfl) live other quiet.alts quiet.queue ?_
    intro p valEq
    rw [quiet.mem]
    refine Bytes.read_write_of_disjoint n.rt.mem (e.bytes v) ?_
    have apart := valfree_disjoint (goes.valfree _ rfl _ rfl) live other
      (show n.val u = some p by simp [State.val, hasFrame, valEq])
    rwa [e.length_bytes]
  have value : Bytes.read n'.rt.mem choice.val e.size = e.bytes v := by
    rw [quiet.mem, ← e.length_bytes v]
    exact Bytes.read_write_self _ _ _
  have wired' : Wired e program n' := by
    refine goes.wired wired rfl rfl others ?_ ?_ (by simp) ?_
    · exact fun c known fresh => absurd (quiet.chans ▸ known) fresh
    · rintro _ ⟨⟩
      exact ⟨returns.1, .stored returns.2 isSend value⟩
    · exact fun u newborn old =>
        absurd ((alltask u).mp newborn).1 (by simp [old, created])
  refine goes.nears wired rfl rfl others wired' ?_ rfl returns.1 ?_
  · refine net_of_quiet quiet rfl ?_ rfl rfl rfl rfl (by simpa using goes.out)
    rw [code_update (goes.frames rfl) fun u f other hasFrame =>
      (others u f other hasFrame).localState, Function.update_eq_self_iff, net_code goes.frame]
    rfl
  · simp [State.weight, goes.frame, goes.frames rfl, phase]

theorem Goes.create_refines {size : Nat} {next : ChanPtr → L}
    (goes : Goes e program n choice n' t (.run l) turn) (wired : Wired e program n)
    (fits : Fits e program) (isCreate : program l = .create size next) :
    Advance e program n n' 1 := by
  have turnEq := goes.isTurn
  simp only [Program.turn, begin, isCreate, Option.some.injEq] at turnEq
  subst turnEq
  obtain ⟨isEnabled, stepped⟩ := goes.call _ rfl
  obtain ⟨c₀, chanEq, fresh, quiet⟩ := chancreate_quiet isEnabled stepped
  obtain ⟨small, isInt, area⟩ := fits l size next isCreate
  have inv := reachable_inv wired.reachable
  have returns := goes.returns wired rfl fun pc => by cases pc <;> exact id
  have alltask := goes.alltask wired rfl
  have frameEq := goes.frames rfl
  simp only [chanEq, Option.map_some] at frameEq
  have others (u : TaskPtr) (f : Frame L) (other : u ≠ t) (hasFrame : n.frame u = some f) :
      Undisturbed n.rt n'.rt u e.size f := by
    have live := (wired.frames u f hasFrame).1
    refine undisturbed_of_alts (goes.turned wired rfl) live other quiet.alts ?_ ?_
    · intro c dir
      rw [quiet.queue]
      by_cases isNew : c = c₀
      · subst isNew
        have noQueue : n.rt.queue c dir = [] := List.eq_nil_iff_forall_not_mem.mpr
          fun p member => fresh (inv.parked.known c dir p member)
        rw [noQueue]
        cases dir <;> simp [St.queue, St.setChan, newChannel, Channel.queue]
      · simp [St.queue, St.setChan, isNew]
    · exact fun p _ => by rw [quiet.mem]; rfl
  have wired' : Wired e program n' := by
    refine goes.wired wired rfl rfl others ?_ ?_ (by simp [chanEq]) ?_
    · intro c known isNew
      obtain rfl : c = c₀ := by
        rw [quiet.chans] at known
        exact (List.mem_cons.mp known).resolve_right isNew
      have chanIs : n'.rt.chan c = newChannel e.size size choice.junk := by
        rw [quiet.chan]
        exact update_self _ _ _
      rw [chanIs]
      refine ⟨newChannel_sound choice.junk (by omega) (by omega) (by omega) (by omega) ?_, ?_⟩
      · exact_mod_cast area
      · exact_mod_cast toUint_eq (i := e.size) (by omega) (by omega)
    · intro f' hasFrame
      simp only [chanEq, Option.map_some, Option.some.injEq] at hasFrame
      subst hasFrame
      exact ⟨returns.1, .run (Or.inl returns.2)⟩
    · exact fun u newborn old =>
        absurd ((alltask u).mp newborn).1 (by simp [old, created])
  refine goes.advance wired rfl (Finset.mem_singleton_self t) (Or.inl rfl)
    (fun u f stays => others u f (by simpa using stays)) wired' (Finset.card_singleton t)
    (.step ?_)
  have net : n'.net e program = { n.net e program with
      chans := c₀ :: (n.net e program).chans }.goTo t (next c₀) := by
    refine net_of_quiet quiet rfl ?_ rfl rfl rfl rfl (by simpa using goes.out)
    exact code_update frameEq fun u f other hasFrame => (others u f other hasFrame).localState
  rw [net]
  exact (Kahn.Moves.create fresh).step (net_code goes.frame) isCreate

theorem Goes.pause_refines {ms : Nat} {next : L}
    (goes : Goes e program n choice n' t (.run l) turn) (wired : Wired e program n)
    (isPause : program l = .pause ms next) :
    Advance e program n n' 1 := by
  have turnEq := goes.isTurn
  simp only [Program.turn, begin, isPause, Option.some.injEq] at turnEq
  subst turnEq
  obtain ⟨isEnabled, stepped⟩ := goes.call _ rfl
  have inv := reachable_inv wired.reachable
  have quiet := call_quiet (by simp [Call.part]) isEnabled stepped
  have alltask := goes.alltask wired rfl
  have isPc : (n'.rt.task t).pc = .taskdelay choice.now := by
    cases step_shape isEnabled stepped with
    | @call _ self s₂ flow running isLegal called finished =>
        obtain rfl := Option.some.inj (goes.running.symm.trans running)
        obtain ⟨rfl, -⟩ := taskdelay_ok called
        rw [finish_pc finished, if_pos rfl]
        rfl
  have others (u : TaskPtr) (f : Frame L) (other : u ≠ t) (hasFrame : n.frame u = some f) :
      Undisturbed n.rt n'.rt u e.size f :=
    undisturbed_of_quiet (goes.turned wired rfl) quiet (wired.frames u f hasFrame).1 other
  have wired' : Wired e program n' := by
    refine goes.wired wired rfl rfl others ?_ ?_ (by simp) ?_
    · exact fun c known fresh => absurd (quiet.chans ▸ known) fresh
    · rintro _ ⟨⟩
      exact ⟨(goes.turned wired rfl).live (by simp [isPc]), .run (Or.inr ⟨_, isPc⟩)⟩
    · intro u newborn old
      cases step_born inv isEnabled stepped with
      | users started born =>
          rw [taskdelay_startedfdtask isEnabled stepped] at started
          exact absurd ((alltask u).mp newborn).1 (by simp [old, created, ← started])
      | fdtask _ _ _ _ isFdtask only =>
          rw [only u newborn old, isFdtask]
          rfl
  refine goes.advance wired rfl (Finset.mem_singleton_self t) (Or.inl rfl)
    (fun u f stays => others u f (by simpa using stays)) wired' (Finset.card_singleton t)
    (.step ?_)
  have net : n'.net e program = (n.net e program).goTo t next := by
    refine net_of_quiet quiet rfl ?_ rfl rfl rfl rfl (by simpa using goes.out)
    exact code_update (goes.frames rfl) fun u f other hasFrame =>
      (others u f other hasFrame).localState
  rw [net]
  exact Kahn.Moves.pause.step (net_code goes.frame) isPause

theorem Goes.exit_refines (goes : Goes e program n choice n' t (.run l) turn)
    (wired : Wired e program n) (isExit : program l = .exit) :
    Advance e program n n' 1 := by
  have turnEq := goes.isTurn
  simp only [Program.turn, begin, isExit, Option.some.injEq] at turnEq
  subst turnEq
  obtain ⟨isEnabled, stepped⟩ := goes.call _ rfl
  have quiet := call_quiet (by simp [Call.part]) isEnabled stepped
  have alltask := goes.alltask wired rfl
  have others (u : TaskPtr) (f : Frame L) (other : u ≠ t) (hasFrame : n.frame u = some f) :
      Undisturbed n.rt n'.rt u e.size f :=
    undisturbed_of_quiet (goes.turned wired rfl) quiet (wired.frames u f hasFrame).1 other
  have wired' : Wired e program n' := by
    refine goes.wired wired rfl rfl others ?_ (by simp) ?_ ?_
    · exact fun c known fresh => absurd (quiet.chans ▸ known) fresh
    · intro _ live
      exact ((alltask t).mp live).2 (by simp [freed, Call.exits, goes.running])
    · exact fun u newborn old =>
        absurd ((alltask u).mp newborn).1 (by simp [old, created])
  refine goes.advance wired rfl (Finset.mem_singleton_self t) (Or.inl rfl)
    (fun u f stays => others u f (by simpa using stays)) wired' (Finset.card_singleton t)
    (.step ?_)
  have net : n'.net e program =
      { n.net e program with code := update (n.net e program).code t none } := by
    refine net_of_quiet quiet rfl ?_ rfl rfl rfl rfl (by simpa using goes.out)
    exact code_update (goes.frames rfl) fun u f other hasFrame =>
      (others u f other hasFrame).localState
  rw [net]
  exact Kahn.Moves.exit.step (net_code goes.frame) isExit

theorem Goes.spawn_refines {child next : L} (goes : Goes e program n choice n' t (.run l) turn)
    (wired : Wired e program n) (isSpawn : program l = .spawn child next) :
    Advance e program n n' 1 := by
  have turnEq := goes.isTurn
  simp only [Program.turn, begin, isSpawn, Option.some.injEq] at turnEq
  subst turnEq
  obtain ⟨isEnabled, stepped⟩ := goes.call _ rfl
  have quiet := call_quiet (by simp [Call.part]) isEnabled stepped
  have returns := goes.returns wired rfl fun pc => by cases pc <;> exact id
  have alltask := goes.alltask wired rfl
  obtain ⟨u, isChild, fresh, childPc⟩ := taskcreate_child isEnabled stepped
  have different : u ≠ t := fun same => fresh (same ▸ goes.live wired)
  have noFrame : n.frame u = none := by
    by_contra some?
    obtain ⟨f, hasFrame⟩ := Option.ne_none_iff_exists'.mp some?
    exact fresh (wired.frames u f hasFrame).1
  have frameEq : n'.frame = update (update n.frame t (some (.run next))) u (some (.run child)) := by
    rw [goes.frame']
    simp [State.frames, isChild]
  have others (v : TaskPtr) (f : Frame L) (other : v ≠ t) (hasFrame : n.frame v = some f) :
      Undisturbed n.rt n'.rt v e.size f :=
    undisturbed_of_quiet (goes.turned wired rfl) quiet (wired.frames v f hasFrame).1 other
  have wired' : Wired e program n' := by
    refine wired.next isEnabled stepped goes.acts ?_ ?_ ?_ ?_ ?_ ?_
    · exact fun c known isNew => absurd (quiet.chans ▸ known) isNew
    · intro v f hasFrame
      by_cases isNew : v = u
      · subst isNew
        rw [frameEq, update_self] at hasFrame
        obtain rfl := Option.some.inj hasFrame
        refine ⟨(alltask v).mpr ⟨Or.inr isChild, by simp [freed, Call.exits]⟩,
          .run (Or.inl ⟨none, childPc ?_⟩)⟩
        rw [goes.running]
        exact fun same => different (Option.some.inj same).symm
      · rw [frameEq, update_of_ne isNew] at hasFrame
        by_cases isSelf : v = t
        · subst isSelf
          rw [update_self] at hasFrame
          obtain rfl := Option.some.inj hasFrame
          exact ⟨returns.1, .run (Or.inl returns.2)⟩
        · rw [update_of_ne isSelf] at hasFrame
          exact ⟨(others v f isSelf hasFrame).live,
            (others v f isSelf hasFrame).isAt (wired.frames v f hasFrame).2⟩
    · intro v isNone
      left
      by_cases isNew : v = u
      · rwa [isNew]
      · by_cases isSelf : v = t
        · simp [frameEq, isSelf, different.symm] at isNone
        · rwa [frameEq, update_of_ne isNew, update_of_ne isSelf] at isNone
    · intro v newborn old isNone
      have isNew : v = u := by
        have born := ((alltask v).mp newborn).1.resolve_left old
        exact (Option.some.inj (isChild.symm.trans born)).symm
      simp [frameEq, isNew] at isNone
    · intro v isOther
      by_cases isNew : v = u
      · simp [State.val, frameEq, isNew, noFrame, Frame.val]
      · rw [State.val, frameEq, update_of_ne isNew, update_of_ne isOther, State.val]
    · intro p v q _ valEq
      simp [State.val, frameEq, different.symm, Frame.val] at valEq
  have net : n'.net e program = ((n.net e program).goTo t next).goTo u child := by
    refine net_of_quiet quiet rfl ?_ rfl rfl rfl rfl (by simpa using goes.out)
    funext v
    by_cases isNew : v = u
    · simp [State.net, Kahn.Net.goTo, frameEq, isNew, localState]
    · by_cases isSelf : v = t
      · simp [State.net, Kahn.Net.goTo, frameEq, isSelf, different.symm, localState]
      · simp only [State.net, Kahn.Net.goTo, frameEq, update_of_ne isNew, update_of_ne isSelf]
        exact Option.map_congr fun f hasFrame => (others v f isSelf hasFrame).localState
  refine goes.advance wired rfl (Finset.mem_singleton_self t) (Or.inr ?_)
    (fun v f stays => others v f (by simpa using stays)) wired' (Finset.card_singleton t) ?_
  · intro v isTask
    obtain rfl := Option.some.inj (isChild.symm.trans isTask)
    exact fresh
  · rw [net]
    exact .step ((Kahn.Moves.spawn (by simp [State.net, noFrame])).step (net_code goes.frame)
      isSpawn)

end

end Program

end Libtask
