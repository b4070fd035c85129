import Libtask.ProgramTurns

/-!
# Programs run as process networks

A run of a program over the runtime is a run of its tasks as sequential processes that
communicate over unbounded channels.  The values that are in the buffers and in the variables of
blocked senders do not matter there, nor do the scheduler and the choices of `chanalt`.
-/

namespace Libtask

open Function (update update_self update_of_ne update_comm)
open Kahn (Cmd)
open Transition (anyAction)

namespace Program

variable {V L O : Type} {e : Bytes.Encoding V} {program : Program V L O}
variable {n n' : State L O} {s s' : St} {t u : TaskPtr} {f : Frame L}

/-! ## The turn with the channel operation -/

theorem Wired.ordered (wired : Wired e program n) : Kahn.Ordered (n.net e program) := by
  intro c
  by_cases known : c ∈ n.rt.chans
  · have fifo := reachable_fifo wired.reachable known (wired.channels c known).1
    simp only [State.net, fifo.order, List.map_append]
    exact List.prefix_append _ _
  · obtain ⟨sent, received⟩ := reachable_silent wired.reachable c known
    simp [State.net, sent, received]

theorem operation_cases {cmd : Cmd ChanPtr V L O} {c : ChanPtr} {op : Op}
    (isOp : operation cmd = some (c, op)) :
    (∃ v next, cmd = .send c v next ∧ op = .chansnd) ∨
      ∃ next, cmd = .recv c next ∧ op = .chanrcv := by
  cases cmd with
  | send c' v next =>
      obtain ⟨rfl, rfl⟩ := Prod.mk.inj (Option.some.inj isOp)
      exact Or.inl ⟨v, next, rfl, rfl⟩
  | recv c' next =>
      obtain ⟨rfl, rfl⟩ := Prod.mk.inj (Option.some.inj isOp)
      exact Or.inr ⟨next, rfl, rfl⟩
  | _ => cases isOp

theorem operation_chansnd {cmd : Cmd ChanPtr V L O} {c : ChanPtr}
    (isOp : operation cmd = some (c, .chansnd)) : ∃ v next, cmd = .send c v next := by
  rcases operation_cases isOp with ⟨v, next, isSend, -⟩ | ⟨_, -, isRcv⟩
  · exact ⟨v, next, isSend⟩
  · cases isRcv

theorem operation_chanrcv {cmd : Cmd ChanPtr V L O} {c : ChanPtr}
    (isOp : operation cmd = some (c, .chanrcv)) : ∃ next, cmd = .recv c next := by
  rcases operation_cases isOp with ⟨_, _, -, isSnd⟩ | ⟨next, isRecv, -⟩
  · cases isSnd
  · exact ⟨next, isRecv⟩

section
variable {choice : Choice} {turn : Turn L O} {l : L} {c : ChanPtr} {op : Op} {val array : Nat}
variable (goes : Goes e program n choice n' t f turn) (wired : Wired e program n)
variable (isOp : operation (program l) = some (c, op))
variable (hasCall : turn.call = some (chanop choice c op val array))
variable (next : turn.frame = some (.calling l val array)) (childless : turn.child = none)
variable (out : turn.out = []) (atL : localState e program n.rt t f = l)
variable (holds : ∀ c v next, program l = .send c v next →
  Bytes.read n.rt.mem val e.size = e.bytes v)
include goes wired

include next in
/-- The variable of the operation is in the stack of the task. -/
theorem Goes.val_apart {q : Nat} (other : u ≠ t) (valEq : n.val u = some q) :
    Bytes.Apart e.size val q := by
  obtain ⟨f', hasFrame, -⟩ := Option.bind_eq_some_iff.mp valEq
  exact valfree_disjoint (goes.valfree _ next val rfl) (wired.frames u f' hasFrame).1 other valEq

omit wired in
include hasCall in
theorem Goes.array_free {b : Nat} (live : u ∈ n.rt.alltask)
    (isPc : (n.rt.task u).pc = .chanop b) : b ≠ array := by
  have isLegal := (goes.call _ hasCall).1.2
  simp only [chanop, legal, Bool.and_eq_true, altfree, List.all_eq_true,
    decide_eq_true_eq] at isLegal
  rintro rfl
  exact isLegal.1.1 u live (by rw [isPc]; rfl)

include hasCall next childless isOp in
/-- The invariant after the operation, where `others` is about the other tasks. -/
theorem Goes.chanop_wired
    (others : ∀ u f, u ≠ t → n.frame u = some f → At e program n'.rt u f)
    (chans : n'.rt.chans = n.rt.chans)
    (isPc : (∃ r, (n'.rt.task t).pc = .user r) ∨
      (n'.rt.task t).pc = .chanop array ∧ Entry n'.rt c op val array)
    (holds' : ∀ c v next, program l = .send c v next →
      Bytes.read n'.rt.mem val e.size = e.bytes v) : Wired e program n' := by
  obtain ⟨isEnabled, stepped⟩ := goes.call _ hasCall
  have turned := goes.turned wired hasCall
  have alltask := goes.alltask wired hasCall
  refine wired.nextFrame isEnabled stepped goes.acts (goes.frames childless) ?_ ?_ ?_
    (by simp [next]) ?_ ?_
  · exact fun c known fresh => absurd (chans ▸ known) fresh
  · intro u f other hasFrame
    exact ⟨(turned.others u (wired.frames u f hasFrame).1 other).1, others u f other hasFrame⟩
  · intro f' hasFrame
    obtain rfl := Option.some.inj (next.symm.trans hasFrame)
    refine ⟨turned.live ?_, .calling isOp isPc holds'⟩
    rcases isPc with ⟨r, isPc⟩ | ⟨isPc, -⟩ <;> simp [isPc]
  · exact fun u newborn old =>
      absurd ((alltask u).mp newborn).1 (by simp [old, created, chanop])
  · intro p u q other valEq uEq
    rw [next] at valEq
    obtain rfl := Option.some.inj valEq
    exact goes.val_apart wired next other uEq

include hasCall next isOp childless out atL holds in
/-- The task is queued. -/
theorem Goes.block_refines (isPc : (n'.rt.task t).pc = .chanop array)
    (entry : Entry n'.rt c op val array) (mem : n'.rt.mem = n.rt.mem)
    (chans : n'.rt.chans = n.rt.chans)
    (values : ∀ c', sentValues c' n'.rt.trace = sentValues c' n.rt.trace ∧
      receivedValues c' n'.rt.trace = receivedValues c' n.rt.trace)
    (queue : ∀ c' dir q, q ∈ n'.rt.queue c' dir ↔
      q ∈ n.rt.queue c' dir ∨ c' = c ∧ chanarray op = some dir ∧ q = ⟨array, 0⟩)
    (alts : ∀ b, b ≠ array → n'.rt.alts b = n.rt.alts b) : Advance e program n n' 0 := by
  have turned := goes.turned wired hasCall
  have others (u : TaskPtr) (f : Frame L) (other : u ≠ t) (hasFrame : n.frame u = some f) :
      Undisturbed n.rt n'.rt u e.size f := by
    have live := (wired.frames u f hasFrame).1
    obtain ⟨live', same⟩ := turned.others u live other
    refine ⟨live', same.pc, fun p _ => by rw [mem], ?_, ?_⟩
    · intro c op val b isPc entry
      have apart := alts b (goes.array_free hasCall live isPc)
      exact ⟨by rw [apart]; exact entry.single, by simpa only [St.alt?, apart] using entry.alt⟩
    · intro c' dir b isPc
      have apart := goes.array_free hasCall live isPc
      simp [queue, apart]
  have wired' := goes.chanop_wired wired isOp hasCall next childless
    (fun u f other hasFrame => (others u f other hasFrame).isAt (wired.frames u f hasFrame).2)
    chans (Or.inr ⟨isPc, entry⟩) (by rwa [mem])
  have isWaiting : waits n'.rt t (program l) array = true := by
    obtain ⟨dir, isDir⟩ : ∃ dir, chanarray op = some dir := by
      rcases operation_cases isOp with ⟨v, next, -, rfl⟩ | ⟨next, -, rfl⟩ <;> exact ⟨_, rfl⟩
    exact waits_iff.mpr ⟨isPc, c, op, dir, isOp, isDir,
      (queue c dir _).mpr (Or.inr ⟨rfl, isDir, rfl⟩)⟩
  have hasFrame : n'.frame t = some (.calling l val array) := by
    rw [goes.frames childless, update_self, next]
  refine goes.nears wired hasCall childless others wired' (Kahn.Net.ext ?_ chans ?_ ?_ ?_)
    (by simp [created, chanop]) (wired'.frames t _ hasFrame).1 ?_
  · rw [code_update (goes.frames childless) fun u f other hasFrame =>
      (others u f other hasFrame).localState, Function.update_eq_self_iff, net_code goes.frame,
      atL, next, Option.map_some, localState, if_pos isWaiting]
  · exact funext fun c' => congrArg (List.map e.value) (values c').1
  · exact funext fun c' => congrArg (List.map e.value) (values c').2
  · simpa [State.net, out] using goes.out
  · have := goes.weight_le_two wired
    have isThree : n'.weight program t = 3 := by
      rw [State.weight, hasFrame, Option.elim_some, phase, if_pos isWaiting]
    omega

include hasCall in
theorem Goes.elemsize : (n.rt.chan c).elemsize = e.size := by
  have isLegal := (goes.call _ hasCall).1.2
  simp only [chanop, legal, Bool.and_eq_true, decide_eq_true_eq] at isLegal
  exact (wired.channels c isLegal.1.2).2

end

/-! ## Executed operations -/

theorem map_sent {c : ChanPtr} {bytes : List UInt8}
    (sent : ∀ c', sentValues c' s'.trace =
      sentValues c' s.trace ++ if c' = c then [bytes] else []) :
    (fun c' => (sentValues c' s'.trace).map e.value) =
      update (fun c' => (sentValues c' s.trace).map e.value) c
        ((sentValues c s.trace).map e.value ++ [e.value bytes]) := by
  funext c'
  by_cases same : c' = c
  · subst same
    simp [sent]
  · simp [sent, same]

theorem map_received {c : ChanPtr} {bytes : List UInt8}
    (received : ∀ c', receivedValues c' s'.trace =
      receivedValues c' s.trace ++ if c' = c then [bytes] else []) :
    (fun c' => (receivedValues c' s'.trace).map e.value) =
      update (fun c' => (receivedValues c' s.trace).map e.value) c
        ((receivedValues c s.trace).map e.value ++ [e.value bytes]) := by
  funext c'
  by_cases same : c' = c
  · subst same
    simp [received]
  · simp [received, same]

/-- The network after `a` put a value in channel `c` and `b` took one from it. -/
theorem net_passed {a b : TaskPtr} {l k : L} {c : ChanPtr} {v : V} {value : List UInt8}
    (code : (n'.net e program).code =
      update (update (n.net e program).code a (some l)) b (some k))
    (chans : n'.rt.chans = n.rt.chans)
    (sent : ∀ c', sentValues c' n'.rt.trace =
      sentValues c' n.rt.trace ++ if c' = c then [e.bytes v] else [])
    (received : ∀ c', receivedValues c' n'.rt.trace =
      receivedValues c' n.rt.trace ++ if c' = c then [value] else [])
    (out : n'.out = n.out) : n'.net e program =
      ((((n.net e program).put c v).goTo a l).take c (e.value value)).goTo b k := by
  refine Kahn.Net.ext code chans ?_ ?_ out
  · simpa [Kahn.Net.goTo, Kahn.Net.put, Kahn.Net.take, State.net] using map_sent (e := e) sent
  · simpa [Kahn.Net.goTo, Kahn.Net.put, Kahn.Net.take, State.net]
      using map_received (e := e) received

section
variable {choice : Choice} {turn : Turn L O} {l : L} {c : ChanPtr} {op : Op} {val array : Nat}
variable {r : Option Int} {value : List UInt8}
variable (goes : Goes e program n choice n' t f turn) (wired : Wired e program n)
variable (isOp : operation (program l) = some (c, op))
variable (hasCall : turn.call = some (chanop choice c op val array))
variable (next : turn.frame = some (.calling l val array)) (childless : turn.child = none)
variable (out : turn.out = []) (atL : localState e program n.rt t f = l)
variable (holds : ∀ c v next, program l = .send c v next →
  Bytes.read n.rt.mem val e.size = e.bytes v)
variable (isPc : (n'.rt.task t).pc = .user r)
include goes wired hasCall

/-- Only the variable of the receiver changes. -/
theorem Goes.read_eq {partner : Option AltRef} {p : Nat}
    (exec : Exec n.rt n'.rt (ownAlt t c op val array) partner value)
    (own : op ≠ .chansnd → Bytes.Apart e.size p val)
    (other : op = .chansnd → ∀ o q, partner = some o → o.2.v = some q →
      Bytes.Apart e.size p q) :
    Bytes.read n'.rt.mem p e.size = Bytes.read n.rt.mem p e.size := by
  have elemsize : (n.rt.chan (ownAlt t c op val array).c).elemsize = e.size :=
    goes.elemsize wired hasCall
  rw [← elemsize]
  refine exec.passed.read_eq fun a q isReceiver valEq => ?_
  rw [elemsize]
  by_cases isSnd : op = .chansnd
  · simp only [receiver, ownAlt, isSnd, if_true] at isReceiver
    obtain ⟨o, isPartner, rfl⟩ := Option.map_eq_some_iff.mp isReceiver
    exact other isSnd o q isPartner valEq
  · simp only [receiver, ownAlt, isSnd, if_false] at isReceiver
    obtain rfl := Option.some.inj isReceiver
    obtain rfl := Option.some.inj valEq
    exact own isSnd

include isOp next childless out atL holds isPc

/-- The value goes to the buffer, or comes from it. -/
theorem Goes.alone_refines (exec : Exec n.rt n'.rt (ownAlt t c op val array) none value) :
    Advance e program n n' 1 := by
  have turned := goes.turned wired hasCall
  have elemsize := goes.elemsize wired hasCall
  have others (u : TaskPtr) (f : Frame L) (other : u ≠ t) (hasFrame : n.frame u = some f) :
      Undisturbed n.rt n'.rt u e.size f := by
    have live := (wired.frames u f hasFrame).1
    obtain ⟨live', same⟩ := turned.others u live other
    refine ⟨live', same.pc, fun p valEq => ?_, ?_, ?_⟩
    · have apart := goes.val_apart wired next other
        (show n.val u = some p by simp [State.val, hasFrame, valEq])
      exact goes.read_eq wired hasCall exec (fun _ => apart.symm) (by simp)
    · intro c op val b isPc entry
      have apart := exec.alts b (goes.array_free hasCall live isPc) (by simp)
      exact ⟨by rw [apart]; exact entry.single, by simpa only [St.alt?, apart] using entry.alt⟩
    · intro c' dir b isPc
      simp [exec.member]
  have wired' : Wired e program n' := by
    refine goes.chanop_wired wired isOp hasCall next childless (fun u f other hasFrame =>
      (others u f other hasFrame).isAt (wired.frames u f hasFrame).2) exec.chans
      (Or.inl ⟨r, isPc⟩) fun c' v next' isSend => ?_
    have isSnd : op = .chansnd := by
      simp only [isSend, operation, Option.some.injEq, Prod.mk.injEq] at isOp
      exact isOp.2.symm
    rw [goes.read_eq wired hasCall exec (fun notSnd => absurd isSnd notSnd) (by simp)]
    exact holds c' v next' isSend
  have codeEq : (n'.net e program).code = _ := code_update (goes.frames childless)
    fun u f other hasFrame => (others u f other hasFrame).localState
  rw [next, Option.map_some, localState, waits_user isPc] at codeEq
  have atL : (n.net e program).code t = some l := by
    rw [net_code goes.frame, atL]
  refine goes.advance wired hasCall (Finset.mem_singleton_self t) (Or.inl childless)
    (fun u f stays => others u f (by simpa using stays)) wired' (Finset.card_singleton t)
    (.step ?_)
  rcases operation_cases isOp with ⟨v, next', isSend, rfl⟩ | ⟨next', isRecv, rfl⟩
  · have sent := exec.sends.sent_eq elemsize rfl (holds c v next' isSend) (by simp)
    have net : n'.net e program = ((n.net e program).put c v).goTo t next' := by
      refine Kahn.Net.ext ?_ exec.chans ?_ ?_ ?_
      · simpa [isSend, after, Kahn.Net.goTo, Kahn.Net.put] using codeEq
      · simpa [Kahn.Net.goTo, Kahn.Net.put, State.net] using map_sent (e := e) sent
      · funext c'
        simp [State.net, Kahn.Net.goTo, Kahn.Net.put, exec.sends.received]
      · simpa [State.net, Kahn.Net.goTo, Kahn.Net.put, out] using goes.out
    rw [net]
    exact Kahn.Moves.send.step atL isSend
  · have received := exec.receives.received
    have loaded := exec.receives.load_eq elemsize rfl
    have sent := exec.receives.sent
    have net : n'.net e program =
        ((n.net e program).take c (e.value value)).goTo t (next' (e.value value)) := by
      refine Kahn.Net.ext ?_ exec.chans ?_ ?_ ?_
      · simpa [isRecv, after, Kahn.Net.goTo, Kahn.Net.take, loaded] using codeEq
      · funext c'
        simp [State.net, Kahn.Net.goTo, Kahn.Net.take, sent]
      · simpa [Kahn.Net.goTo, Kahn.Net.take, State.net] using map_received (e := e) received
      · simpa [State.net, Kahn.Net.goTo, Kahn.Net.take, out] using goes.out
    have oldest := wired'.ordered c
    rw [net] at oldest ⊢
    refine (Kahn.Moves.recv ?_).step atL isRecv
    simpa [Kahn.Net.goTo, Kahn.Net.take] using oldest

end

/-! ## Operations with a partner -/

/-- The task that the value of `t` goes to or comes from: it is blocked in the operation at `k`,
with its variable at `q`. -/
structure Partner (program : Program V L O) (n : State L O) (t : TaskPtr) (c : ChanPtr) (op : Op)
    (o : AltRef) (k : L) (q : Nat) : Prop where
  frame : n.frame o.2.task = some (.calling k q o.1.base)
  other : o.2.task ≠ t
  idle : n.rt.taskrunning ≠ some o.2.task
  pc : (n.rt.task o.2.task).pc = .chanop o.1.base
  var : o.2.v = some q
  entry : Entry n.rt c o.2.op q o.1.base
  isOp : operation (program k) = some (c, o.2.op)
  waits : waits n.rt o.2.task (program k) o.1.base = true
  opposite : op = .chansnd ∧ o.2.op = .chanrcv ∨ op = .chanrcv ∧ o.2.op = .chansnd

theorem Partner.val {c : ChanPtr} {op : Op} {o : AltRef} {k : L} {q : Nat}
    (partner : Partner program n t c op o k q) : n.val o.2.task = some q := by
  simp [State.val, partner.frame, Frame.val]

theorem Wired.exists_partner {choice : Choice} {turn : Turn L O} {c : ChanPtr} {op : Op}
    {l : L} {val array : Nat} {value : List UInt8} {o : AltRef} (wired : Wired e program n)
    (goes : Goes e program n choice n' t f turn) (isOp : operation (program l) = some (c, op))
    (exec : Exec n.rt n'.rt (ownAlt t c op val array) (some o) value) :
    ∃ k q, Partner program n t c op o k q := by
  obtain ⟨altEq, dir, dirEq, member⟩ := exec.queued o rfl
  obtain ⟨k, q, hasFrame, first, isPc, entry, isOp', var, dirEq', idle⟩ :=
    wired.partner member altEq
  refine ⟨k, q, hasFrame, fun same => idle (same ▸ goes.running), idle, isPc, var, entry, isOp',
    waits_iff.mpr ⟨isPc, c, o.2.op, dir, isOp', dirEq', ?_⟩, ?_⟩
  · rw [← first]
    exact member
  · rcases operation_cases isOp with ⟨_, _, -, rfl⟩ | ⟨_, -, rfl⟩ <;>
      rcases operation_cases isOp' with ⟨_, _, -, isSnd⟩ | ⟨_, -, isRcv⟩ <;>
      cases dir <;> simp_all [ownAlt, otherop, chanarray]

section
variable {choice : Choice} {turn : Turn L O} {l k : L} {c : ChanPtr} {op : Op} {val array q : Nat}
variable {r : Option Int} {value : List UInt8} {o : AltRef}
variable (goes : Goes e program n choice n' t f turn) (wired : Wired e program n)
variable (isOp : operation (program l) = some (c, op))
variable (hasCall : turn.call = some (chanop choice c op val array))
variable (next : turn.frame = some (.calling l val array)) (childless : turn.child = none)
variable (out : turn.out = []) (atL : localState e program n.rt t f = l)
variable (holds : ∀ c v next, program l = .send c v next →
  Bytes.read n.rt.mem val e.size = e.bytes v)
variable (isPc : (n'.rt.task t).pc = .user r)
variable (exec : Exec n.rt n'.rt (ownAlt t c op val array) (some o) value)
variable (partner : Partner program n t c op o k q)
include goes wired hasCall next exec partner

/-- The third tasks do not notice the operation. -/
theorem Goes.partner_others {f' : Frame L} (other : u ≠ t) (other' : u ≠ o.2.task)
    (hasFrame : n.frame u = some f') : Undisturbed n.rt n'.rt u e.size f' := by
  have live := (wired.frames u f' hasFrame).1
  obtain ⟨live', same⟩ := (goes.turned wired hasCall).others u live other
  have idle : n.rt.taskrunning ≠ some u := by
    rw [goes.running]
    exact fun same => other (Option.some.inj same).symm
  have notPartner {b : Nat} (isPc : (n.rt.task u).pc = .chanop b) : b ≠ o.1.base := by
    rintro rfl
    have livePartner := (wired.frames _ _ partner.frame).1
    exact other' ((reachable_inv wired.reachable).parked.distinct u o.2.task _ _ o.1.base
      ⟨live, idle, isPc⟩ ⟨livePartner, partner.idle, partner.pc⟩ rfl rfl)
  refine ⟨live', same.pc, fun p valEq => ?_, ?_, ?_⟩
  · have valEq : n.val u = some p := by simp [State.val, hasFrame, valEq]
    refine goes.read_eq wired hasCall exec
      (fun _ => (goes.val_apart wired next other valEq).symm) ?_
    rintro - _ p' ⟨⟩ var
    obtain rfl := Option.some.inj (partner.var.symm.trans var)
    exact (wired.apart o.2.task u q p other' partner.val valEq).symm
  · intro c op val b isPc entry
    have apart := exec.alts b (goes.array_free hasCall live isPc)
      (by rintro _ ⟨⟩; exact notPartner isPc)
    exact ⟨by rw [apart]; exact entry.single, by simpa only [St.alt?, apart] using entry.alt⟩
  · intro c' dir b isPc
    simp [exec.member, notPartner isPc]

/-- The partner is still in its operation, and its variable has the value if it sent it. -/
theorem Goes.partner_at : At e program n'.rt o.2.task (.calling k q o.1.base) := by
  obtain ⟨live, isAt⟩ := wired.frames _ _ partner.frame
  obtain ⟨-, same⟩ := (goes.turned wired hasCall).others _ live partner.other
  cases isAt with
  | calling _ _ holds =>
      refine .calling partner.isOp
        (Or.inr ⟨same.pc.trans partner.pc, partner.entry.of_told (exec.told o rfl)⟩)
        fun c' v next' isSend => ?_
      have notSnd : op ≠ .chansnd := by
        rintro rfl
        have isOp := partner.isOp
        rcases partner.opposite with ⟨-, isRcv⟩ | ⟨isRcv, -⟩
        · simp [isSend, operation, isRcv] at isOp
        · cases isRcv
      rw [goes.read_eq wired hasCall exec
        (fun _ => (goes.val_apart wired next partner.other partner.val).symm)
        fun isSnd => absurd isSnd notSnd]
      exact holds c' v next' isSend

include isOp childless holds isPc

theorem Goes.partner_wired : Wired e program n' := by
  refine goes.chanop_wired wired isOp hasCall next childless (fun u f other hasFrame => ?_)
    exec.chans (Or.inl ⟨r, isPc⟩) fun c' v next' isSend => ?_
  · by_cases isPartner : u = o.2.task
    · subst isPartner
      obtain rfl := Option.some.inj (partner.frame.symm.trans hasFrame)
      exact goes.partner_at wired hasCall next exec partner
    · exact (goes.partner_others wired hasCall next exec partner other isPartner
        hasFrame).isAt (wired.frames u f hasFrame).2
  · have isSnd : op = .chansnd := by
      simp only [isSend, operation, Option.some.injEq, Prod.mk.injEq] at isOp
      exact isOp.2.symm
    rw [goes.read_eq wired hasCall exec (fun notSnd => absurd isSnd notSnd) ?_]
    · exact holds c' v next' isSend
    · rintro - _ p ⟨⟩ var
      obtain rfl := Option.some.inj (partner.var.symm.trans var)
      exact goes.val_apart wired next partner.other partner.val

omit isOp holds in
/-- Both tasks are behind their operations. -/
theorem Goes.partner_code : (n'.net e program).code = update (update (n.net e program).code
    t (some (after l (e.load n'.rt.mem val) (program l))))
    o.2.task (some (after k (e.load n'.rt.mem q) (program k))) := by
  have done : waits n'.rt o.2.task (program k) o.1.base = false := by
    by_contra isWaiting
    obtain ⟨-, c', op', dir', -, -, member⟩ := waits_iff.mp (by simpa using isWaiting)
    exact ((exec.member c' dir' _).mp member).2 o rfl rfl
  funext u
  by_cases isPartner : u = o.2.task
  · subst isPartner
    simp [State.net, goes.frames childless, partner.other, partner.frame, localState, done]
  · by_cases isSelf : u = t
    · subst isSelf
      simp [State.net, goes.frames childless, isPartner, next, localState, waits_user isPc]
    · simp only [State.net, goes.frames childless, update_of_ne isPartner, update_of_ne isSelf]
      exact Option.map_congr fun f hasFrame =>
        (goes.partner_others wired hasCall next exec partner isSelf isPartner
          hasFrame).localState

include out atL

omit partner in
/-- The value goes to or comes from a task that was blocked on the channel. -/
theorem Goes.partner_refines : Advance e program n n' 2 := by
  obtain ⟨k, q, partner⟩ := wired.exists_partner goes isOp exec
  have elemsize := goes.elemsize wired hasCall
  have wired' := goes.partner_wired wired isOp hasCall next childless holds isPc exec partner
  have codeEq := goes.partner_code wired hasCall next childless isPc exec partner
  have atL : (n.net e program).code t = some l := by
    rw [net_code goes.frame, atL]
  have atK : (n.net e program).code o.2.task = some k := by
    rw [net_code partner.frame]
    exact congrArg some (if_pos partner.waits)
  have apart := goes.val_apart wired next partner.other partner.val
  refine goes.advance wired hasCall (Finset.mem_insert_self t {o.2.task}) (Or.inl childless) ?_
    wired' (Finset.card_pair partner.other.symm) ?_
  · intro u f stays
    simp only [Finset.mem_insert, Finset.mem_singleton, not_or] at stays
    exact goes.partner_others wired hasCall next exec partner stays.1 stays.2
  have oldest := wired'.ordered c
  rcases partner.opposite with ⟨rfl, isRcv⟩ | ⟨rfl, isSnd⟩
  · obtain ⟨v, next', isSend⟩ := operation_chansnd isOp
    obtain ⟨next'', isRecv⟩ := operation_chanrcv (isRcv ▸ partner.isOp)
    have sent := exec.sends.sent_eq elemsize rfl (holds c v next' isSend) fun a p isOther var => by
      obtain rfl := Option.some.inj isOther
      obtain rfl := Option.some.inj (partner.var.symm.trans var)
      exact apart
    have loaded := exec.sends.load_eq elemsize partner.var
    simp only [isSend, isRecv, after, loaded] at codeEq
    have net := net_passed codeEq exec.chans sent exec.sends.received
      (by simpa [out] using goes.out)
    rw [net] at oldest ⊢
    refine .exchange atL isSend atK isRecv partner.other ?_
    simpa [Kahn.Net.goTo, Kahn.Net.put, Kahn.Net.take] using oldest
  · obtain ⟨next', isRecv⟩ := operation_chanrcv isOp
    obtain ⟨v, next'', isSend⟩ := operation_chansnd (isSnd ▸ partner.isOp)
    have holds' : Bytes.read n.rt.mem q e.size = e.bytes v := by
      have isAt := (wired.frames _ _ partner.frame).2
      cases isAt with
      | calling _ _ holds' => exact holds' c v next'' isSend
    have sent := exec.receives.sent_eq elemsize partner.var holds' fun a p isOwn var => by
      obtain rfl := Option.some.inj isOwn
      obtain rfl := Option.some.inj var
      exact apart.symm
    have loaded := exec.receives.load_eq elemsize rfl
    rw [update_comm partner.other.symm] at codeEq
    simp only [isSend, isRecv, after, loaded] at codeEq
    have net := net_passed codeEq exec.chans sent exec.receives.received
      (by simpa [out] using goes.out)
    rw [net] at oldest ⊢
    refine .exchange atK isSend atL isRecv partner.other.symm ?_
    simpa [Kahn.Net.goTo, Kahn.Net.put, Kahn.Net.take] using oldest

end

/-- The turn of a task that calls `_chanop`. -/
theorem Goes.operation_refines {choice : Choice} {turn : Turn L O} {l : L} {c : ChanPtr}
    {op : Op} {val array : Nat} (goes : Goes e program n choice n' t f turn)
    (wired : Wired e program n) (isOp : operation (program l) = some (c, op))
    (hasCall : turn.call = some (chanop choice c op val array))
    (next : turn.frame = some (.calling l val array)) (childless : turn.child = none)
    (out : turn.out = []) (atL : localState e program n.rt t f = l)
    (holds : ∀ c v next, program l = .send c v next →
      Bytes.read n.rt.mem val e.size = e.bytes v) :
    ∃ steps, Advance e program n n' steps := by
  obtain ⟨isEnabled, stepped⟩ := goes.call _ hasCall
  cases chanop_step (reachable_inv wired.reachable) (reachable_rendezvous wired.reachable)
      goes.running isEnabled stepped with
  | block isPc entry mem chans values queue alts =>
      exact ⟨0, goes.block_refines wired isOp hasCall next childless out atL holds
        isPc entry mem chans values queue alts⟩
  | @exec r partner value isPc exec =>
      cases partner with
      | none =>
          exact ⟨1, goes.alone_refines wired isOp hasCall next childless out atL holds isPc exec⟩
      | some o =>
          exact ⟨2, goes.partner_refines wired isOp hasCall next childless out atL holds isPc exec⟩

/-- A turn of a task is a burst of the processes. -/
theorem go_advances (fits : Fits e program) {choice : Choice} (wired : Wired e program n)
    (isEnabled : enabled e program n (.go choice))
    (stepped : step e program n (.go choice) = .ok n') :
    ∃ steps, Advance e program n n' steps := by
  obtain ⟨t, f, turn, goes⟩ := step_goes isEnabled stepped
  have turnEq := goes.isTurn
  cases f with
  | run l =>
      cases isCmd : program l with
      | send c v next => exact ⟨0, goes.store_refines wired isCmd⟩
      | recv c next =>
          simp only [Program.turn, begin, isCmd, Option.some.injEq] at turnEq
          subst turnEq
          exact goes.operation_refines wired (by rw [isCmd]; rfl) rfl rfl rfl rfl rfl
            fun c v next isSend => by cases isCmd.symm.trans isSend
      | create size next => exact ⟨1, goes.create_refines wired fits isCmd⟩
      | spawn child next => exact ⟨1, goes.spawn_refines wired isCmd⟩
      | print o next => exact ⟨1, goes.print_refines wired isCmd⟩
      | pause ms next => exact ⟨1, goes.pause_refines wired isCmd⟩
      | exit => exact ⟨1, goes.exit_refines wired isCmd⟩
      | halt status =>
          simp only [Program.turn, begin, isCmd, Option.some.injEq] at turnEq
          subst turnEq
          obtain ⟨-, stepped⟩ := goes.call _ rfl
          simp only [Libtask.step, goes.running] at stepped
          cases stepped
      | undefined =>
          simp only [Program.turn, begin, isCmd] at turnEq
          cases turnEq
  | stored l val =>
      have isAt := (wired.frames t _ goes.frame).2
      cases isAt with
      | @stored _ next c v _ _ isSend value =>
          simp only [Program.turn, operation, isSend, Option.map_some,
            Option.some.injEq] at turnEq
          subst turnEq
          refine goes.operation_refines wired (by rw [isSend]; rfl) rfl rfl rfl rfl rfl
            fun c' v' next' isSend' => ?_
          obtain ⟨-, rfl, -⟩ := Cmd.send.inj (isSend.symm.trans isSend')
          exact value
  | calling l val array => exact ⟨0, goes.returned_refines wired⟩

/-- A number that each step makes greater, but for the steps of the processes in it. -/
def State.rank (program : Program V L O) (n : State L O) : Nat :=
  2 * n.weights program + if n.rt.taskrunning.isSome then 1 else 0

/-- One step of a program over the runtime is a burst of its processes, and not always an empty
one. -/
theorem step_refines (fits : Fits e program) {a : Act} (wired : Wired e program n)
    (isEnabled : enabled e program n a) (stepped : step e program n a = .ok n') :
    Wired e program n' ∧ ∃ steps, Kahn.Burst program (n.net e program) steps (n'.net e program) ∧
      n'.rt.alltask.toFinset.card ≤ n.rt.alltask.toFinset.card + steps ∧
      (n.rt.startedfdtask = false → n.rank program + 1 ≤ n'.rank program + 14 * steps) := by
  cases a with
  | dispatch env =>
      obtain ⟨stepped, sameFrames⟩ := step_dispatch stepped
      obtain ⟨wired', same⟩ := dispatch_refines wired isEnabled stepped
      obtain ⟨weights, tasks, runs⟩ := dispatch_weights wired isEnabled stepped
      have idle : n.rt.taskrunning = none := isEnabled.1
      rw [sameFrames]
      refine ⟨wired', 0, by rw [same]; exact .rest, tasks.le, fun noFdtask => ?_⟩
      simp only [State.rank, idle, runs noFdtask, Option.isSome_none, Bool.false_eq_true,
        if_false, if_true]
      omega
  | go choice =>
      obtain ⟨steps, advance⟩ := go_advances fits wired isEnabled stepped
      refine ⟨advance.wired, steps, advance.burst, advance.tasks, fun _ => ?_⟩
      have weights := advance.weights
      simp only [State.rank]
      split <;> split <;> omega

theorem init_wired {start : L} (init : (system e program start).init n) :
    Wired e program n ∧ ∃ t, n.net e program = Kahn.Net.start t start := by
  obtain ⟨rendez, mem, t, started, frameEq, out⟩ := init
  obtain ⟨id, created⟩ := main_ok started
  obtain ⟨t₀, lists, cap, isTask, -, -, -, rtEq, -⟩ := taskcreate_ok created
  obtain rfl := Option.some.inj isTask
  have chans : n.rt.chans = [] := by rw [rtEq]; rfl
  have trace : n.rt.trace = [] := by rw [rtEq]; rfl
  have alltask : n.rt.alltask = [t] := by rw [rtEq]; rfl
  have isPc : (n.rt.task t).pc = .user none := by simp [rtEq]
  have onlyMain (u : TaskPtr) (f : Frame L) (hasFrame : n.frame u = some f) :
      u = t ∧ f = .run start := by
    by_cases isMain : u = t
    · subst isMain
      rw [frameEq, update_self] at hasFrame
      exact ⟨rfl, (Option.some.inj hasFrame).symm⟩
    · simp [frameEq, isMain] at hasFrame
  refine ⟨⟨.init ⟨rendez, mem, t, started⟩, by simp [chans], ?_, ?_, ?_⟩, t, ?_⟩
  · intro u f hasFrame
    obtain ⟨rfl, rfl⟩ := onlyMain u f hasFrame
    exact ⟨by simp [alltask], .run (Or.inl ⟨none, isPc⟩)⟩
  · intro u live noFrame
    rw [alltask, List.mem_singleton] at live
    simp [frameEq, live] at noFrame
  · intro u v p q _ valEq
    obtain ⟨f, hasFrame, valEq⟩ := Option.bind_eq_some_iff.mp valEq
    obtain ⟨-, rfl⟩ := onlyMain u f hasFrame
    cases valEq
  · refine Kahn.Net.ext ?_ chans ?_ ?_ out
    · funext u
      by_cases isMain : u = t
      · simp [State.net, Kahn.Net.start, frameEq, isMain, localState]
      · simp [State.net, Kahn.Net.start, frameEq, isMain]
    · simp [State.net, Kahn.Net.start, trace]
    · simp [State.net, Kahn.Net.start, trace]

/-- A run of a program is a run of its tasks as processes. -/
theorem reachable_refines {start : L} (fits : Fits e program)
    (reachable : Reachable e program start n) : Wired e program n ∧ ∃ t steps,
      Kahn.Runs program (Kahn.Net.start t start) steps (n.net e program) := by
  induction reachable with
  | init init =>
      obtain ⟨wired, t, same⟩ := init_wired init
      exact ⟨wired, t, 0, by rw [same]; exact .refl⟩
  | step _ isEnabled _ stepped ih =>
      obtain ⟨wired, t, steps, runs⟩ := ih
      obtain ⟨wired', more, burst, -⟩ := step_refines fits wired isEnabled stepped
      exact ⟨wired', t, steps + more, runs.trans burst.runs⟩

/-! ## The sizes of channels -/

/-- A new channel comes from `chancreate`. -/
theorem new_channel {allowed : St → Libtask.Act → Prop} {a : Libtask.Act} {c : ChanPtr}
    (reachable : Libtask.Reachable allowed s) (isEnabled : Libtask.enabled s a)
    (stepped : Libtask.step s a = .ok s') (fresh : c ∉ s.chans) (known : c ∈ s'.chans) :
    ∃ elemsize bufsize junk, a = .call (.chancreate (some c) elemsize bufsize junk) ∧
      (s'.chan c).bufsize = toUint bufsize := by
  obtain ⟨self, s₀, s₁, -, first, kind, last⟩ :=
    step_channels (reachable_inv reachable) isEnabled stepped
  have all := fun c => first.rendezvous (reachable_rendezvous reachable c)
  rw [← first.chans] at fresh
  rw [last.chans] at known
  rw [last.chan]
  cases kind with
  | keeps keeps => exact absurd (keeps.chans ▸ known) fresh
  | @create c₀ elemsize bufsize junk _ =>
      obtain rfl : c = c₀ := (List.mem_cons.mp known).resolve_right fresh
      exact ⟨elemsize, bufsize, junk, rfl, by simp [St.setChan]⟩
  | @alt call base rand2 alts pc s₁ flow entering alted =>
      refine absurd ?_ fresh
      cases alted with
      | exec atI can executed =>
          obtain ⟨partner, s₂, executed, chans, -⟩ := altexec_rest entering.entered_inv
            (entering.rendezvous all) (enter_alt? entering.isTerminated atI) can executed
          obtain ⟨mem, chan, trace, rfl⟩ := executed.copied.rest
          exact chans ▸ known
      | noblock blocked ends => exact known
      | block blocked ends enqueued =>
          obtain ⟨chan, rfl⟩ := enqueued.rest
          exact known
  | resumed altbase altEq sameBase => exact absurd known fresh
  | store => exact absurd known fresh

theorem turn_chancreate {mem : Bytes.Memory} {choice : Choice} {turn : Turn L O}
    {c : Option ChanPtr} {elemsize bufsize : Int} {junk : Bytes.Memory}
    (isTurn : Program.turn e program mem choice f = some turn)
    (hasCall : turn.call = some (.chancreate c elemsize bufsize junk)) :
    ∃ l size next, program l = .create size next ∧ bufsize = size := by
  cases f with
  | run l =>
      simp only [Program.turn] at isTurn
      cases isCmd : program l <;> rw [isCmd] at isTurn <;>
        simp only [begin, Option.some.injEq, reduceCtorEq] at isTurn <;> subst isTurn <;>
        simp only [chanop, Option.some.injEq, Call.chancreate.injEq, reduceCtorEq] at hasCall
      exact ⟨l, _, _, isCmd, hasCall.2.2.1.symm⟩
  | stored l val =>
      simp only [Program.turn, Option.map_eq_some_iff] at isTurn
      obtain ⟨⟨c, op⟩, -, rfl⟩ := isTurn
      cases hasCall
  | calling l val array =>
      simp only [Program.turn, Option.some.injEq] at isTurn
      subst isTurn
      cases hasCall

/-- Each channel has a size that the program asks for. -/
theorem reachable_bufsize {start : L} (fits : Fits e program)
    (reachable : Reachable e program start n) :
    ∀ c ∈ n.rt.chans, ∃ l next, program l = .create (n.rt.chan c).bufsize next := by
  refine reachable.invariant (fun n => ∀ c ∈ n.rt.chans, ∃ l next,
    program l = .create (n.rt.chan c).bufsize next) ?_ ?_
  · rintro n ⟨rendez, mem, t, started, -, -⟩
    obtain ⟨id, created⟩ := main_ok started
    rw [(taskcreate_frame created).channels.chans]
    exact fun c known => absurd known List.not_mem_nil
  · intro n a n' before ih (isEnabled : enabled e program n a) _
      (stepped : step e program n a = .ok n') c known
    have wired := (reachable_refines fits before).1
    have old {a : Libtask.Act} (isEnabled : Libtask.enabled n.rt a)
        (stepped : Libtask.step n.rt a = .ok n'.rt) (known : c ∈ n.rt.chans) :
        ∃ l next, program l = .create (n'.rt.chan c).bufsize next := by
      rw [(step_sameSizes wired.reachable isEnabled stepped known).bufsize]
      exact ih c known
    cases a with
    | dispatch env =>
        have isEnabled : Libtask.enabled n.rt (.dispatch env) := isEnabled
        obtain ⟨stepped, -⟩ := step_dispatch stepped
        by_cases isOld : c ∈ n.rt.chans
        · exact old isEnabled stepped isOld
        · obtain ⟨_, _, _, isCall, -⟩ :=
            new_channel wired.reachable isEnabled stepped isOld known
          cases isCall
    | go choice =>
        obtain ⟨t, f, turn, goes⟩ := step_goes isEnabled stepped
        cases hasCall : turn.call with
        | none =>
            rw [goes.silent hasCall] at known ⊢
            exact ih c known
        | some call =>
            obtain ⟨isEnabled, stepped⟩ := goes.call call hasCall
            by_cases isOld : c ∈ n.rt.chans
            · exact old isEnabled stepped isOld
            · obtain ⟨_, _, _, isCall, bufsizeEq⟩ :=
                new_channel wired.reachable isEnabled stepped isOld known
              cases isCall
              obtain ⟨l, size, next, isCreate, rfl⟩ := turn_chancreate goes.isTurn hasCall
              have := fits l size next isCreate
              rw [bufsizeEq, show toUint size = size by
                exact_mod_cast toUint_eq (i := size) (by omega) (by omega)]
              exact ⟨l, next, isCreate⟩

/-- In every run the tasks get as far as sequential processes that communicate over unbounded
channels, and what was sent but not yet received is in the buffer of the channel. -/
theorem program_refines {start : L} (fits : Fits e program)
    (reachable : Reachable e program start n) :
    (∃ t steps, Kahn.Runs program (Kahn.Net.start t start) steps (n.net e program)) ∧
      ∀ c ∈ n.rt.chans, (n.net e program).sent c =
          (n.net e program).rcvd c ++ (n.rt.chan c).contents.map e.value ∧
        (n.rt.chan c).contents.length ≤ (n.rt.chan c).bufsize := by
  obtain ⟨wired, reaches⟩ := reachable_refines fits reachable
  refine ⟨reaches, fun c known => ?_⟩
  have fifo := reachable_fifo wired.reachable known (wired.channels c known).1
  refine ⟨by simp only [State.net, fifo.order, List.map_append], ?_⟩
  simpa [Channel.contents, Ring.contents] using fifo.filled

/-! ## An example -/

instance (n : State L O) (a : Act) : Decidable ((anyAction : State L O → Act → Prop) n a) :=
  inferInstanceAs (Decidable True)

/-- A run of a program that is given by its actions. -/
theorem exists_program_run (e : Bytes.Encoding V) (program : Program V L O) (start : L)
    (actions : List Act) (check : State L O → Bool)
    (executed : ((main (fun _ => none) (fun _ => 0) 1).toOption.any fun rt =>
      (Transition.exec (system e program start) anyAction
        ⟨rt, update (fun _ => none) 1 (some (.run start)), []⟩ actions).any check) = true) :
    ∃ n, check n = true ∧ Reachable e program start n := by
  cases started : main (fun _ => none) (fun _ => 0) 1 with
  | error why =>
      rw [started] at executed
      cases executed
  | ok rt =>
      rw [started] at executed
      have init : Reachable e program start
          ⟨rt, update (fun _ => none) 1 (some (.run start)), []⟩ :=
        .init ⟨_, _, 1, started, rfl, rfl⟩
      obtain ⟨n, -, checked, reachable⟩ := Transition.exists_reachable_exec init executed
      exact ⟨n, checked, reachable⟩

def stopsBy (stop : Stop) : Except Stop (State L O) → Bool
  | .error why => decide (why = stop)
  | .ok _ => false

/-- A run that ends in `a`. -/
theorem exists_program_stop (e : Bytes.Encoding V) (program : Program V L O) (start : L)
    (actions : List Act) (a : Act) (stop : Stop) (check : State L O → Bool)
    (executed : ((main (fun _ => none) (fun _ => 0) 1).toOption.any fun rt =>
      (Transition.exec (system e program start) anyAction
        ⟨rt, update (fun _ => none) 1 (some (.run start)), []⟩ actions).any fun n =>
          check n && decide (enabled e program n a) && stopsBy stop (step e program n a)) = true) :
    ∃ n, check n = true ∧ Reachable e program start n ∧ enabled e program n a ∧
      step e program n a = .error stop := by
  obtain ⟨n, checked, reachable⟩ := exists_program_run e program start actions _ executed
  simp only [Bool.and_eq_true, decide_eq_true_eq] at checked
  obtain ⟨⟨checked, isEnabled⟩, stops⟩ := checked
  refine ⟨n, checked, reachable, isEnabled, ?_⟩
  cases stopped : step e program n a with
  | ok n' => simp [stopped, stopsBy] at stops
  | error why => simpa [stopped, stopsBy] using stops

/-- The local states of a main task that receives what another task sends. -/
inductive Relay where
  | start
  | made (c : ChanPtr)
  | waits (c : ChanPtr)
  | got (v : BitVec 64)
  | ends
  | sends (c : ChanPtr)
  | sent
  deriving DecidableEq

def relay : Program (BitVec 64) Relay (BitVec 64)
  | .start => .create 0 .made
  | .made c => .spawn (.sends c) (.waits c)
  | .waits c => .recv c .got
  | .got v => .print v .ends
  | .ends => .halt 0
  | .sends c => .send c 7 .sent
  | .sent => .exit

theorem relay_fits : Fits (Bytes.littleEndian 8) relay := by
  intro l size next isCreate
  cases l <;> cases isCreate
  decide

/-- The main task waits, and the other one has sent. -/
theorem relay_refines : ∃ n : State Relay (BitVec 64),
    n.rt.taskrunning = some 2 ∧ n.frame 1 = some (.calling (.waits 7) 100 20) ∧
      (∃ t steps, Kahn.Runs relay (Kahn.Net.start t .start) steps
        (n.net (Bytes.littleEndian 8) relay)) ∧
      ∀ c ∈ n.rt.chans, (n.net (Bytes.littleEndian 8) relay).sent c =
          (n.net (Bytes.littleEndian 8) relay).rcvd c ++
            (n.rt.chan c).contents.map (Bytes.littleEndian 8).value ∧
        (n.rt.chan c).contents.length ≤ (n.rt.chan c).bufsize := by
  obtain ⟨n, checked, reachable⟩ :=
    exists_program_run (Bytes.littleEndian 8) relay .start
      [.dispatch {}, .go { chan := some 7 }, .go { task := some 2 },
        .go { val := 100, array := 20 }, .dispatch {}, .go { val := 200 },
        .go { array := 30 }, .go {}]
      (fun n => decide (n.rt.taskrunning = some 2) &&
        decide (n.frame 1 = some (.calling (.waits 7) 100 20)))
      (by decide +kernel)
  simp only [Bool.and_eq_true, decide_eq_true_eq] at checked
  exact ⟨n, checked.1, checked.2, program_refines relay_fits reachable⟩

end Program

end Libtask
