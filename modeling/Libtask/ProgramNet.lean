import Libtask.Chanop
import Libtask.FdtaskStep
import Libtask.Lib.Potential
import Libtask.Program
import Libtask.TaskTable

/-!
# The network that a program makes

The tasks of a program as sequential processes, the values that went through its channels, and
what ties them to the state of the library.
-/

namespace Libtask

open Function (update update_self update_of_ne)
open Kahn (Cmd)
open Transition (anyAction)

/-! ## Steps that move no value -/

/-- The channels, the variables of user code and the values that went through the channels stay
as they are. -/
structure Quiet (s s' : St) : Prop where
  chans : s'.chans = s.chans
  chan : s'.chan = s.chan
  alts : s'.alts = s.alts
  mem : s'.mem = s.mem
  sent : ∀ c, sentValues c s'.trace = sentValues c s.trace
  received : ∀ c, receivedValues c s'.trace = receivedValues c s.trace

section
variable {s s' : St}

theorem Quiet.trans {s₁ s₂ s₃ : St} (first : Quiet s₁ s₂) (second : Quiet s₂ s₃) :
    Quiet s₁ s₃ where
  chans := second.chans.trans first.chans
  chan := second.chan.trans first.chan
  alts := second.alts.trans first.alts
  mem := second.mem.trans first.mem
  sent c := (second.sent c).trans (first.sent c)
  received c := (second.received c).trans (first.received c)

theorem KeepsChannels.quiet (keeps : KeepsChannels s s') : Quiet s s' where
  chans := keeps.chans
  chan := keeps.chan
  alts := keeps.alts
  mem := keeps.mem
  sent c := by rw [← sentValues_events s', keeps.events, sentValues_events]
  received c := by rw [← receivedValues_events s', keeps.events, receivedValues_events]

theorem Quiet.queue (quiet : Quiet s s') (c : ChanPtr) (dir : Dir) :
    s'.queue c dir = s.queue c dir := by
  rw [St.queue, quiet.chan]
  rfl

theorem dispatch_quiet {env : Env} (inv : Inv s.taskrunning s)
    (isEnabled : enabled s (.dispatch env)) (stepped : step s (.dispatch env) = .ok s') :
    Quiet s s' := by
  obtain ⟨self, s₀, s₁, -, before, kind, behind⟩ := step_channels inv isEnabled stepped
  refine before.quiet.trans (Quiet.trans ?_ behind.quiet)
  cases kind with
  | keeps keeps => exact keeps.quiet
  | @resumed base first _ altbase firstEq xalt =>
      exact ⟨rfl, rfl, rfl, rfl, fun c => (log_values s₀ ⟨rfl, rfl⟩).1,
        fun c => (log_values s₀ ⟨rfl, rfl⟩).2⟩

theorem call_quiet {c : Call} (other : c.part ≠ .channels) (isEnabled : enabled s (.call c))
    (stepped : step s (.call c) = .ok s') : Quiet s s' := by
  cases step_shape isEnabled stepped with
  | call running isLegal called finished =>
      exact ((call_keepsChannels other called).trans (finish_frame finished).channels).quiet

/-- Storing in the variables of user code. -/
theorem store_quiet {p : Nat} {bytes : List UInt8} (isEnabled : enabled s (.call (.store p bytes)))
    (stepped : step s (.call (.store p bytes)) = .ok s') :
    Quiet { s with mem := Bytes.write s.mem p bytes } s' := by
  cases step_shape isEnabled stepped with
  | call running isLegal called finished =>
      obtain ⟨rfl, rfl⟩ := Prod.mk.inj (Except.ok.inj called)
      exact (finish_frame finished).channels.quiet

/-- A new channel. -/
theorem chancreate_quiet {c : Option ChanPtr} {elemsize bufsize : Int} {junk : Bytes.Memory}
    (isEnabled : enabled s (.call (.chancreate c elemsize bufsize junk)))
    (stepped : step s (.call (.chancreate c elemsize bufsize junk)) = .ok s') :
    ∃ c₀, c = some c₀ ∧ c₀ ∉ s.chans ∧
      Quiet { s.setChan c₀ (newChannel elemsize bufsize junk) with chans := c₀ :: s.chans }
        s' := by
  cases step_shape isEnabled stepped with
  | call running isLegal called finished =>
      obtain ⟨created, -⟩ := returning_ok called
      obtain ⟨c₀, rfl, rfl⟩ := chancreate_ok created
      exact ⟨c₀, rfl, by simpa [legal] using isLegal, (finish_frame finished).channels.quiet⟩

end

namespace Program

variable {V L O : Type}

/-! ## The network that a state stands for -/

/-- Task `t` is queued for the channel operation of `cmd`. -/
def waits (s : St) (t : TaskPtr) (cmd : Cmd ChanPtr V L O) (array : Nat) : Bool :=
  decide ((s.task t).pc = .chanop array) &&
    (operation cmd).any fun (c, op) =>
      (chanarray op).any fun dir => decide (⟨array, 0⟩ ∈ s.queue c dir)

section
variable (e : Bytes.Encoding V) (program : Program V L O)

/-- The local state of `t`.  A channel operation is over once its alternative was executed, also
when the task did not run since. -/
def localState (s : St) (t : TaskPtr) : Frame L → L
  | .run l => l
  | .stored l _ => l
  | .calling l val array =>
      if waits s t (program l) array then l
      else after l (e.load s.mem val) (program l)

/-- The tasks as processes, and the values that went through the channels. -/
def State.net (n : State L O) : Kahn.Net TaskPtr ChanPtr V L O where
  code t := (n.frame t).map (localState e program n.rt t)
  chans := n.rt.chans
  sent c := (sentValues c n.rt.trace).map e.value
  rcvd c := (receivedValues c n.rt.trace).map e.value
  out := n.out

/-! ## The invariant -/

/-- A task with this frame is where the frame says, and the variable of a sender has the value. -/
inductive At (s : St) (t : TaskPtr) : Frame L → Prop where
  | run {l : L} : (∃ r, (s.task t).pc = .user r) ∨ (∃ now, (s.task t).pc = .taskdelay now) →
      At s t (.run l)
  | stored {l next : L} {c : ChanPtr} {v : V} {val : Nat} : (∃ r, (s.task t).pc = .user r) →
      program l = .send c v next → Bytes.read s.mem val e.size = e.bytes v →
      At s t (.stored l val)
  | calling {l : L} {c : ChanPtr} {op : Op} {val array : Nat} :
      operation (program l) = some (c, op) →
      (∃ r, (s.task t).pc = .user r) ∨
        (s.task t).pc = .chanop array ∧ Entry s c op val array →
      (∀ c v next, program l = .send c v next → Bytes.read s.mem val e.size = e.bytes v) →
      At s t (.calling l val array)

/-- The variable that `t` uses for a channel operation. -/
def State.val (n : State L O) (t : TaskPtr) : Option Nat := (n.frame t).bind Frame.val

/-- What holds in every run of a program. -/
structure Wired (n : State L O) : Prop where
  reachable : Libtask.Reachable anyAction n.rt
  channels : ∀ c ∈ n.rt.chans, (n.rt.chan c).Sound ∧ (n.rt.chan c).elemsize = e.size
  frames : ∀ t f, n.frame t = some f → t ∈ n.rt.alltask ∧ At e program n.rt t f
  others : ∀ t ∈ n.rt.alltask, n.frame t = none → (n.rt.task t).pc.isFdtask = true
  apart : ∀ t u p q, u ≠ t → n.val t = some p → n.val u = some q → Bytes.Apart e.size p q

/-- The program makes channels of a size that `chancreate` can compute. -/
def Fits : Prop := ∀ l size next, program l = .create size next →
  size < 2 ^ 31 ∧ e.size < 2 ^ 31 ∧ size * e.size < 2 ^ 31

end

variable {e : Bytes.Encoding V} {program : Program V L O}
variable {n n' : State L O} {s s' : St} {t u : TaskPtr} {f : Frame L}

/-- Nothing that task `u` with frame `f` depends on changes. -/
structure Undisturbed (s s' : St) (u : TaskPtr) (size : Nat) (f : Frame L) : Prop where
  live : u ∈ s'.alltask
  pc : (s'.task u).pc = (s.task u).pc
  mem : ∀ p, f.val = some p → Bytes.read s'.mem p size = Bytes.read s.mem p size
  entry : ∀ c op val array, (s.task u).pc = .chanop array → Entry s c op val array →
    Entry s' c op val array
  queue : ∀ c dir array, (s.task u).pc = .chanop array →
    ((⟨array, 0⟩ : AltPtr) ∈ s'.queue c dir ↔ ⟨array, 0⟩ ∈ s.queue c dir)

theorem At.congr (isAt : At e program s u f) (pc : (s'.task u).pc = (s.task u).pc)
    (mem : ∀ p, f.val = some p → Bytes.read s'.mem p e.size = Bytes.read s.mem p e.size)
    (entry : ∀ c op val array, (s.task u).pc = .chanop array → Entry s c op val array →
      Entry s' c op val array) : At e program s' u f := by
  cases isAt with
  | run isPc => exact .run (by rwa [pc])
  | stored isPc isSend value => exact .stored (by rwa [pc]) isSend (by rwa [mem _ rfl])
  | calling isOp isPc value =>
      refine .calling isOp ?_ fun c v next isSend => ?_
      · rw [pc]
        exact isPc.imp id fun inside => ⟨inside.1, entry _ _ _ _ inside.1 inside.2⟩
      · rw [mem _ rfl]
        exact value c v next isSend

theorem Undisturbed.isAt (undisturbed : Undisturbed s s' u e.size f)
    (isAt : At e program s u f) : At e program s' u f :=
  isAt.congr undisturbed.pc undisturbed.mem undisturbed.entry

theorem waits_iff {cmd : Cmd ChanPtr V L O} {array : Nat} : waits s t cmd array = true ↔
    (s.task t).pc = .chanop array ∧ ∃ c op dir, operation cmd = some (c, op) ∧
      chanarray op = some dir ∧ ⟨array, 0⟩ ∈ s.queue c dir := by
  simp only [waits, Bool.and_eq_true, decide_eq_true_eq, Option.any_eq_true]
  refine and_congr Iff.rfl ⟨?_, ?_⟩
  · rintro ⟨⟨c, op⟩, isOp, dir, isDir, member⟩
    exact ⟨c, op, dir, isOp, isDir, member⟩
  · rintro ⟨c, op, dir, isOp, isDir, member⟩
    exact ⟨⟨c, op⟩, isOp, dir, isDir, member⟩

theorem Undisturbed.waits {size : Nat} (undisturbed : Undisturbed s s' u size f)
    (cmd : Cmd ChanPtr V L O) (array : Nat) :
    Program.waits s' u cmd array = Program.waits s u cmd array := by
  rw [Bool.eq_iff_iff, waits_iff, waits_iff, undisturbed.pc]
  refine and_congr_right fun isPc => ?_
  simp only [undisturbed.queue _ _ _ isPc]

theorem Undisturbed.localState (undisturbed : Undisturbed s s' u e.size f) :
    localState e program s' u f = localState e program s u f := by
  cases f with
  | run l => rfl
  | stored l val => rfl
  | calling l val array =>
      simp only [Program.localState, undisturbed.waits, Bytes.Encoding.load,
        undisturbed.mem val rfl]

/-! ## Turns between steps -/

section
variable (program)

/-- How far a task is on the way to its next step as a process. -/
def phase (s : St) (t : TaskPtr) : Frame L → Nat
  | .run _ => 1
  | .stored _ _ => 2
  | .calling l _ array => if waits s t (program l) array then 3 else 0

def State.weight (n : State L O) (t : TaskPtr) : Nat :=
  (n.frame t).elim 0 (phase program n.rt t)

def State.weights (n : State L O) : Nat := n.rt.alltask.toFinset.sum (n.weight program)

end

theorem weight_le_three (program : Program V L O) (n : State L O) (t : TaskPtr) :
    n.weight program t ≤ 3 := by
  unfold State.weight
  cases n.frame t with
  | none => simp
  | some f =>
      cases f with
      | calling l val array =>
          simp only [Option.elim_some, phase]
          split <;> simp
      | _ => simp [phase]

theorem Undisturbed.weight {size : Nat} (frame : ∀ f, n.frame u = some f → n'.frame u = some f)
    (undisturbed : ∀ f, n.frame u = some f → Undisturbed n.rt n'.rt u size f) :
    n.weight program u ≤ n'.weight program u := by
  unfold State.weight
  cases hasFrame : n.frame u with
  | none => simp
  | some f =>
      rw [frame f hasFrame]
      cases f with
      | calling l val array => simp [phase, (undisturbed _ hasFrame).waits]
      | _ => exact le_rfl

/-- What a turn of a task comes to: `steps` steps of the processes.  If there are none, then a
task gets closer to its next step. -/
structure Advance (e : Bytes.Encoding V) (program : Program V L O) (n n' : State L O)
    (steps : Nat) : Prop where
  wired : Wired e program n'
  burst : Kahn.Burst program (n.net e program) steps (n'.net e program)
  weights : n.weights program + 1 ≤ n'.weights program + 7 * steps
  tasks : n'.rt.alltask.toFinset.card ≤ n.rt.alltask.toFinset.card + steps

/-! ## One step -/

/-- What does not touch the alt arrays, the queues and the variable of `u` leaves `u` alone. -/
theorem undisturbed_of_alts {code : Code} {size : Nat} (turned : Turned t code s s')
    (live : u ∈ s.alltask) (other : u ≠ t) (alts : s'.alts = s.alts)
    (queue : ∀ c dir, s'.queue c dir = s.queue c dir)
    (mem : ∀ p, f.val = some p → Bytes.read s'.mem p size = Bytes.read s.mem p size) :
    Undisturbed s s' u size f := by
  obtain ⟨live', same⟩ := turned.others u live other
  refine ⟨live', same.pc, mem, ?_, ?_⟩
  · intro c op val array _ entry
    exact ⟨by rw [alts]; exact entry.single, by simpa only [St.alt?, alts] using entry.alt⟩
  · intro c dir array _
    rw [queue]

theorem undisturbed_of_quiet {code : Code} {size : Nat} (turned : Turned t code s s')
    (quiet : Quiet s s') (live : u ∈ s.alltask) (other : u ≠ t) :
    Undisturbed s s' u size f :=
  undisturbed_of_alts turned live other quiet.alts quiet.queue fun p _ => by rw [quiet.mem]

theorem Wired.next {a : Libtask.Act} {code : Code} (wired : Wired e program n)
    (isEnabled : Libtask.enabled n.rt a) (stepped : Libtask.step n.rt a = .ok n'.rt)
    (acts : Acts n.rt a t code)
    (channels : ∀ c ∈ n'.rt.chans, c ∉ n.rt.chans →
      (n'.rt.chan c).Sound ∧ (n'.rt.chan c).elemsize = e.size)
    (frames : ∀ u f, n'.frame u = some f → u ∈ n'.rt.alltask ∧ At e program n'.rt u f)
    (gone : ∀ u, n'.frame u = none → n.frame u = none ∨ u ∉ n'.rt.alltask)
    (newborn : ∀ u ∈ n'.rt.alltask, u ∉ n.rt.alltask → n'.frame u = none →
      (n'.rt.task u).pc.isFdtask = true)
    (vals : ∀ u, u ≠ t → n'.val u = n.val u)
    (own : ∀ p u q, u ≠ t → n'.val t = some p → n.val u = some q → Bytes.Apart e.size p q) :
    Wired e program n' := by
  have inv := reachable_inv wired.reachable
  have turned := step_turned inv isEnabled acts stepped
  refine ⟨wired.reachable.step isEnabled trivial stepped, ?_, frames, ?_, ?_⟩
  · intro c known
    by_cases old : c ∈ n.rt.chans
    · have same := step_sameSizes wired.reachable isEnabled stepped old
      obtain ⟨sound, elemsize⟩ := wired.channels c old
      refine ⟨⟨?_, ?_, ?_⟩, ?_⟩
      · rw [same.bufsize]
        exact sound.small
      · rw [same.bufsize, same.elemsize]
        exact sound.area
      · rw [same.bufbytes, same.bufsize, same.elemsize]
        exact sound.bufbytes
      · rw [same.elemsize, elemsize]
    · exact channels c known old
  · intro u live noFrame
    by_cases old : u ∈ n.rt.alltask
    · have noFrame' : n.frame u = none := (gone u noFrame).resolve_right fun dead => dead live
      by_cases isSelf : u = t
      · subst isSelf
        rw [step_isFdtask wired.reachable isEnabled acts stepped]
        exact wired.others u old noFrame'
      · rw [(turned.others u old isSelf).2.pc]
        exact wired.others u old noFrame'
    · exact newborn u live old noFrame
  · intro v u p q other vEq uEq
    by_cases isSelf : v = t
    · subst isSelf
      exact own p u q other vEq (by rwa [vals u other] at uEq)
    · by_cases isSelf' : u = t
      · subst isSelf'
        rw [vals v isSelf] at vEq
        exact (own q v p isSelf uEq vEq).symm
      · rw [vals v isSelf] at vEq
        rw [vals u isSelf'] at uEq
        exact wired.apart v u p q other vEq uEq

/-- A step in which the running task goes to another frame, and no other task is affected. -/
theorem Wired.nextFrame {a : Libtask.Act} {code : Code} (wired : Wired e program n)
    (isEnabled : Libtask.enabled n.rt a) (stepped : Libtask.step n.rt a = .ok n'.rt)
    (acts : Acts n.rt a t code) {frame : Option (Frame L)}
    (frameEq : n'.frame = update n.frame t frame)
    (channels : ∀ c ∈ n'.rt.chans, c ∉ n.rt.chans →
      (n'.rt.chan c).Sound ∧ (n'.rt.chan c).elemsize = e.size)
    (others : ∀ u f, u ≠ t → n.frame u = some f → u ∈ n'.rt.alltask ∧ At e program n'.rt u f)
    (isAt : ∀ f, frame = some f → t ∈ n'.rt.alltask ∧ At e program n'.rt t f)
    (exits : frame = none → n.frame t = none ∨ t ∉ n'.rt.alltask)
    (newborn : ∀ u ∈ n'.rt.alltask, u ∉ n.rt.alltask → (n'.rt.task u).pc.isFdtask = true)
    (own : ∀ p u q, u ≠ t → frame.bind Frame.val = some p → n.val u = some q →
      Bytes.Apart e.size p q) : Wired e program n' := by
  refine wired.next isEnabled stepped acts channels ?_ ?_
    (fun u live fresh _ => newborn u live fresh) ?_ ?_
  · intro u f hasFrame
    by_cases isSelf : u = t
    · subst isSelf
      rw [frameEq, update_self] at hasFrame
      exact isAt f hasFrame
    · rw [frameEq, update_of_ne isSelf] at hasFrame
      exact others u f isSelf hasFrame
  · intro u noFrame
    by_cases isSelf : u = t
    · subst isSelf
      rw [frameEq, update_self] at noFrame
      exact exits noFrame
    · rw [frameEq, update_of_ne isSelf] at noFrame
      exact Or.inl noFrame
  · intro u isOther
    rw [State.val, frameEq, update_of_ne isOther, State.val]
  · intro p u q isOther valEq
    rw [State.val, frameEq, update_self] at valEq
    exact own p u q isOther valEq

/-! ## Turns of the scheduler -/

/-- A task that is queued for its channel operation is in no list. -/
theorem waits_free {cmd : Cmd ChanPtr V L O} {array : Nat} (inv : Inv s.taskrunning s)
    (live : t ∈ s.alltask) (idle : s.taskrunning ≠ some t)
    (isWaiting : waits s t cmd array = true) : s.home t = none := by
  obtain ⟨isPc, c, op, dir, -, -, member⟩ := waits_iff.mp isWaiting
  obtain ⟨owner, pc, stopped, altbase, free⟩ := inv.parked.owner c dir _ member
  have same := inv.parked.distinct t owner _ pc array ⟨live, idle, isPc⟩ stopped rfl altbase
  rwa [same]

theorem waits_user {cmd : Cmd ChanPtr V L O} {array : Nat} {r : Option Int}
    (isPc : (s.task t).pc = .user r) : waits s t cmd array = false := by
  simp [waits, isPc]

theorem At.toUser (isAt : At e program s t f) (mem : s'.mem = s.mem)
    (isPc : ∃ r, (s'.task t).pc = .user r) : At e program s' t f := by
  cases isAt with
  | run => exact .run (Or.inl isPc)
  | stored _ isSend value => exact .stored isPc isSend (by rwa [mem])
  | calling isOp _ value => exact .calling isOp (Or.inl isPc) (by rwa [mem])

theorem localState_user (mem : s'.mem = s.mem) {r : Option Int}
    (isPc : (s'.task t).pc = .user r)
    (ended : ∀ l val array, f = .calling l val array → waits s t (program l) array = false) :
    localState e program s' t f = localState e program s t f := by
  cases f with
  | run l => rfl
  | stored l val => rfl
  | calling l val array =>
      simp only [localState, waits_user isPc, ended l val array rfl, Bytes.Encoding.load, mem]

theorem At.pc (isAt : At e program s t f) : (∃ r, (s.task t).pc = .user r) ∨
    (∃ now, (s.task t).pc = .taskdelay now) ∨ ∃ array, (s.task t).pc = .chanop array := by
  cases isAt with
  | run isPc => exact isPc.imp id Or.inl
  | stored isPc => exact Or.inl isPc
  | @calling _ _ _ _ array _ isPc => exact isPc.imp id fun inside => Or.inr ⟨array, inside.1⟩

/-- A task of the program goes back to its own code. -/
theorem At.resumes {s₁ s₂ : St} {env : Env} {flow : Flow} (isAt : At e program s t f)
    (pc : (s₁.task t).pc = (s.task t).pc)
    (resumed : resume s₁ t env (s₁.task t).pc = .ok (s₂, flow)) : ∃ r, flow = .ret r := by
  cases flow with
  | ret r => exact ⟨r, rfl⟩
  | switch pc' =>
      have switches := resume_switches resumed
      rw [pc] at switches
      rcases isAt.pc with ⟨r, isPc⟩ | ⟨now, isPc⟩ | ⟨array, isPc⟩ <;> rw [isPc] at switches <;>
        cases pc' <;> exact switches.elim

/-- A turn of the scheduler, which runs `t`. -/
structure Dispatched (e : Bytes.Encoding V) (n : State L O) (env : Env) (rt : St) (t : TaskPtr) :
    Prop where
  acts : Acts n.rt (.dispatch env) t (.resume (n.rt.task t).pc)
  quiet : Quiet n.rt rt
  alltask : ∀ u, u ∈ rt.alltask ↔ u ∈ n.rt.alltask
  user : ∀ f, n.frame t = some f → (∃ r, (rt.task t).pc = .user r) ∧ rt.taskrunning = some t
  dequeued : ∀ (cmd : Cmd ChanPtr V L O) array, waits n.rt t cmd array = false
  others : ∀ u f, u ≠ t → n.frame u = some f → Undisturbed n.rt rt u e.size f

theorem dispatched {env : Env} {rt : St} (wired : Wired e program n)
    (isEnabled : Libtask.enabled n.rt (.dispatch env))
    (stepped : Libtask.step n.rt (.dispatch env) = .ok rt) : ∃ t, Dispatched e n env rt t := by
  have inv := reachable_inv wired.reachable
  have quiet := dispatch_quiet inv isEnabled stepped
  cases step_shape isEnabled stepped with
  | @dispatch _ t s₁ s₂ flow idle scheduled resumed finished =>
      have isHead := (taskscheduler_ok scheduled).2.1
      have acts : Acts n.rt (.dispatch env) t (.resume (n.rt.task t).pc) := .dispatch idle isHead
      have turned := step_turned inv isEnabled acts stepped
      have live := acts.live inv
      refine ⟨t, acts, quiet, fun u => ?_, fun f hasFrame => ?_, fun cmd array => ?_,
        fun u f other hasFrame => ?_⟩
      · simpa [created, freed] using step_alltask inv isEnabled stepped u
      · have pc : (s₁.task t).pc = (n.rt.task t).pc := taskscheduler_pc scheduled t
        obtain ⟨r, rfl⟩ := (wired.frames t f hasFrame).2.resumes pc resumed
        refine ⟨⟨r, by rw [finish_pc finished, if_pos rfl]; rfl⟩, ?_⟩
        have running₁ : s₁.taskrunning = some t := by
          obtain ⟨-, -, lists, rfl, -⟩ := taskscheduler_ok scheduled
          rfl
        have running₂ := (resume_taskrunning resumed).trans running₁
        rcases finish_taskrunning finished running₂ with ⟨-, -, goesOn⟩ | ⟨pc, isSwitch, -⟩
        · exact goesOn
        · cases isSwitch
      · by_contra isWaiting
        have free := waits_free inv live (by simp [idle]) (by simpa using isWaiting)
        have member : t ∈ n.rt.seq .taskrunqueue := List.mem_of_head? isHead
        rw [mem_seq_iff, free] at member
        cases member
      · exact undisturbed_of_quiet turned quiet (wired.frames u f hasFrame).1 other

theorem dispatch_refines {env : Env} {rt : St} (wired : Wired e program n)
    (isEnabled : Libtask.enabled n.rt (.dispatch env))
    (stepped : Libtask.step n.rt (.dispatch env) = .ok rt) :
    Wired e program { n with rt } ∧
      State.net e program { n with rt } = State.net e program n := by
  obtain ⟨t, acts, quiet, alltask, isUser, dequeued, others⟩ := dispatched wired isEnabled stepped
  have sameFrames : ({ n with rt } : State L O).frame = update n.frame t (n.frame t) := by simp
  constructor
  · refine wired.nextFrame isEnabled stepped acts sameFrames ?_ ?_ ?_ ?_ ?_ ?_
    · intro c known fresh
      exact absurd (quiet.chans ▸ known) fresh
    · intro u f other hasFrame
      exact ⟨(others u f other hasFrame).live,
        (others u f other hasFrame).isAt (wired.frames u f hasFrame).2⟩
    · intro f hasFrame
      exact ⟨(alltask t).mpr (acts.live (reachable_inv wired.reachable)),
        (wired.frames t f hasFrame).2.toUser quiet.mem (isUser f hasFrame).1⟩
    · exact fun noFrame => Or.inl noFrame
    · exact fun u newborn old => absurd ((alltask u).mp newborn) old
    · exact fun p u q other valEq uEq => wired.apart t u p q other valEq uEq
  · apply Kahn.Net.ext
    · funext u
      refine Option.map_congr fun f hasFrame => ?_
      by_cases other : u = t
      · subst other
        obtain ⟨⟨r, isPc⟩, -⟩ := isUser f hasFrame
        exact localState_user quiet.mem isPc fun l val array _ => dequeued (program l) array
      · exact (others u f other hasFrame).localState
    · exact quiet.chans
    · funext c
      simp only [State.net, quiet.sent]
    · funext c
      simp only [State.net, quiet.received]
    · rfl

/-- The tasks are as far as they were, and one of them runs, if there is no `fdtask`. -/
theorem dispatch_weights {env : Env} {rt : St} (wired : Wired e program n)
    (isEnabled : Libtask.enabled n.rt (.dispatch env))
    (stepped : Libtask.step n.rt (.dispatch env) = .ok rt) :
    n.weights program ≤ State.weights program { n with rt } ∧
      rt.alltask.toFinset.card = n.rt.alltask.toFinset.card ∧
      (n.rt.startedfdtask = false → rt.taskrunning.isSome = true) := by
  obtain ⟨t, acts, quiet, alltask, isUser, dequeued, others⟩ := dispatched wired isEnabled stepped
  refine ⟨?_, ?_, ?_⟩
  · refine Potential.sum_le_of_subset _ fun u live => ⟨?_, ?_⟩
    · simpa [alltask] using live
    · by_cases isSelf : u = t
      · subst isSelf
        unfold State.weight
        cases n.frame u with
        | none => simp
        | some f => cases f <;> simp [phase, dequeued]
      · exact Undisturbed.weight (fun f hasFrame => hasFrame) fun f => others u f isSelf
  · congr 1
    ext u
    simp [alltask]
  · intro noFdtask
    cases hasFrame : n.frame t with
    | some f => simp [(isUser f hasFrame).2]
    | none =>
        have live := acts.live (reachable_inv wired.reachable)
        have started := (reachable_started wired.reachable).mpr
          ⟨t, live, wired.others t live hasFrame⟩
        rw [noFdtask] at started
        cases started

/-! ## Channel operations -/

/-- The blocked task that an entry of a queue belongs to. -/
theorem Wired.partner {c : ChanPtr} {dir : Dir} {p : AltPtr} {o : Alt}
    (wired : Wired e program n) (member : p ∈ n.rt.queue c dir) (altEq : n.rt.alt? p = some o) :
    ∃ l val, n.frame o.task = some (.calling l val p.base) ∧ p.idx = 0 ∧
      (n.rt.task o.task).pc = .chanop p.base ∧ Entry n.rt c o.op val p.base ∧
      operation (program l) = some (c, o.op) ∧ o.v = some val ∧
      chanarray o.op = some dir ∧ n.rt.taskrunning ≠ some o.task := by
  have inv := reachable_inv wired.reachable
  obtain ⟨isChan, isDir, -, ⟨pc, stopped, altbase⟩, -, -⟩ := inv.parked.blocked member altEq
  have pcEq := stopped.pc
  have hasFrame : n.frame o.task ≠ none := by
    intro noFrame
    have isFdtask := wired.others _ stopped.live noFrame
    rw [pcEq] at isFdtask
    cases pc <;> simp_all [Pc.altbase, Pc.isFdtask]
  obtain ⟨f, hasFrame⟩ := Option.ne_none_iff_exists'.mp hasFrame
  have isAt := (wired.frames _ f hasFrame).2
  cases isAt with
  | run isPc =>
      rcases isPc with ⟨r, isPc⟩ | ⟨now, isPc⟩ <;>
        (rw [pcEq] at isPc; subst isPc; cases altbase)
  | stored isPc =>
      obtain ⟨r, isPc⟩ := isPc
      rw [pcEq] at isPc
      subst isPc
      cases altbase
  | @calling l c' op val array isOp isPc value =>
      rcases isPc with ⟨r, isPc⟩ | ⟨isPc, entry⟩
      · rw [pcEq] at isPc
        subst isPc
        cases altbase
      · rw [pcEq] at isPc
        subst isPc
        obtain rfl := Option.some.inj altbase
        have first : p.idx = 0 := by
          have inside := inv.parked.altcount_lt member
          rw [entry.single] at inside
          omega
        obtain ⟨o', altEq', rfl, rfl, valEq⟩ := entry.alt
        have same : o' = o := by
          have isFirst : p = ⟨p.base, 0⟩ := by rw [← first]
          rw [← isFirst, altEq] at altEq'
          exact (Option.some.inj altEq').symm
        subst same
        rw [← isChan]
        exact ⟨l, val, hasFrame, first, pcEq, entry, isOp, valEq, isDir, stopped.idle⟩

end Program

end Libtask
