import Libtask.Rendezvous
import Libtask.Lib.Ring

/-!
# Channels are bounded FIFOs

The values that senders gave to a channel are those that receivers got from it,
followed by what its buffer holds.
-/

namespace Libtask

open Function (update update_self update_of_ne)
open Outcome (bind_eq_ok Avoids)
open Transition

/-- The values that were given to channel `c`, in order. -/
def sentValues (c : ChanPtr) (trace : List Event) : List (List UInt8) :=
  trace.filterMap fun
    | .sent _ _ c' value => if c' = c then some value else none
    | _ => none

/-- The values that were got from channel `c`, in order. -/
def receivedValues (c : ChanPtr) (trace : List Event) : List (List UInt8) :=
  trace.filterMap fun
    | .received _ _ c' value => if c' = c then some value else none
    | _ => none

/-- Element `i` of the buffer. -/
def Channel.slot (chan : Channel) (i : Nat) : List UInt8 :=
  Bytes.read chan.buf (i * chan.elemsize) chan.elemsize

/-- The `nbuf` elements of the buffer from slot `off` on. -/
def Channel.contents (chan : Channel) : List (List UInt8) :=
  Ring.contents chan.slot chan.bufsize chan.off chan.nbuf

section

variable {c : ChanPtr}

@[simp] theorem sentValues_append (first second : List Event) :
    sentValues c (first ++ second) = sentValues c first ++ sentValues c second :=
  List.filterMap_append

@[simp] theorem receivedValues_append (first second : List Event) :
    receivedValues c (first ++ second) = receivedValues c first ++ receivedValues c second :=
  List.filterMap_append

/-- Values are only recorded by events about channels. -/
theorem sentValues_events (s : St) : sentValues c (s.events .channels) = sentValues c s.trace := by
  rw [St.events, sentValues, List.filterMap_filter]
  refine List.filterMap_congr fun e _ => ?_
  cases e <;> simp [Event.part]

theorem receivedValues_events (s : St) :
    receivedValues c (s.events .channels) = receivedValues c s.trace := by
  rw [St.events, receivedValues, List.filterMap_filter]
  refine List.filterMap_congr fun e _ => ?_
  cases e <;> simp [Event.part]

end

/-- Events that move no value. -/
theorem log_values {c : ChanPtr} (s : St) {e : Event}
    (still : sentValues c [e] = [] ∧ receivedValues c [e] = []) :
    sentValues c (s.log e).trace = sentValues c s.trace ∧
      receivedValues c (s.log e).trace = receivedValues c s.trace := by
  constructor
  · simp only [St.log, sentValues_append, still.1, List.append_nil]
  · simp only [St.log, receivedValues_append, still.2, List.append_nil]

/-- Channel `c` was made for `size` elements of `elem` bytes, and has lost,
invented and reordered none of its values. -/
structure Fifo (elem size : Nat) (s : St) (c : ChanPtr) : Prop where
  known : c ∈ s.chans
  elemsize : (s.chan c).elemsize = elem
  bufsize : (s.chan c).bufsize = size
  bufbytes : (s.chan c).bufbytes = (size * elem : Nat)
  filled : (s.chan c).nbuf ≤ size
  start : (s.chan c).off < size ∨ size = 0 ∧ (s.chan c).off = 0
  order : sentValues c s.trace = receivedValues c s.trace ++ (s.chan c).contents

/-- Channels that were not made yet have no values. -/
def Silent (s : St) (c : ChanPtr) : Prop :=
  c ∉ s.chans → sentValues c s.trace = [] ∧ receivedValues c s.trace = []

section

variable {run : Option TaskPtr} {s s' : St} {self : TaskPtr} {c : ChanPtr}
variable {elem size : Nat}

theorem Fifo.congr (fifo : Fifo elem size s c) (known : c ∈ s'.chans)
    (core : (s'.chan c).core = (s.chan c).core)
    (sent : sentValues c s'.trace = sentValues c s.trace)
    (received : receivedValues c s'.trace = receivedValues c s.trace) :
    Fifo elem size s' c := by
  obtain ⟨sizeEq, elemEq, buf, bytes, nbuf, off⟩ := core_fields core
  constructor
  · exact known
  · exact elemEq.trans fifo.elemsize
  · exact sizeEq.trans fifo.bufsize
  · exact bytes.trans fifo.bufbytes
  · rw [nbuf]
    exact fifo.filled
  · rw [off]
    exact fifo.start
  · have slot : (s'.chan c).slot = (s.chan c).slot := by
      funext i
      rw [Channel.slot, Channel.slot, buf, elemEq]
    rw [sent, received, fifo.order, Channel.contents, Channel.contents, slot, sizeEq, nbuf, off]

theorem KeepsChannels.fifo (keeps : KeepsChannels s s') (fifo : Fifo elem size s c) :
    Fifo elem size s' c := by
  refine fifo.congr (by rw [keeps.chans]; exact fifo.known) (by rw [keeps.chan]) ?_ ?_
  · rw [← sentValues_events, keeps.events, sentValues_events]
  · rw [← receivedValues_events, keeps.events, receivedValues_events]

theorem Silent.congr (silent : Silent s c) (chans : s'.chans = s.chans)
    (sent : sentValues c s'.trace = sentValues c s.trace)
    (received : receivedValues c s'.trace = receivedValues c s.trace) : Silent s' c := by
  intro unknown
  rw [sent, received]
  exact silent (chans ▸ unknown)

theorem KeepsChannels.silent (keeps : KeepsChannels s s') (silent : Silent s c) :
    Silent s' c := by
  refine silent.congr keeps.chans ?_ ?_
  · rw [← sentValues_events, keeps.events, sentValues_events]
  · rw [← receivedValues_events, keeps.events, receivedValues_events]

/-! ## Positions -/

section

variable (small : size < 2 ^ 31) (area : size * elem < 2 ^ 31)
include small area

omit small area in
/-- The bytes of a slot lie in the buffer. -/
theorem slot_le {i : Nat} (inside : i < size) :
    i * elem + elem ≤ size * elem := by
  rw [← Nat.succ_mul]
  exact Nat.mul_le_mul_right _ inside

omit small in
theorem Fifo.recvPos (fifo : Fifo elem size s c) (buffered : size ≠ 0) :
    recvPos (s.chan c) = (s.chan c).off * elem ∧
      InBuffer (s.chan c) (recvPos (s.chan c)) := by
  have inside : (s.chan c).off < size :=
    fifo.start.resolve_right fun empty => buffered empty.1
  have slotEnd : (s.chan c).off * elem + elem ≤ size * elem := slot_le inside
  have posEq : Libtask.recvPos (s.chan c) = (s.chan c).off * elem := by
    rw [Libtask.recvPos, fifo.elemsize, Nat.mod_eq_of_lt (by omega)]
  refine ⟨posEq, ?_⟩
  rw [InBuffer, posEq, fifo.bufbytes, fifo.elemsize]
  exact_mod_cast slotEnd

theorem Fifo.sendPos (fifo : Fifo elem size s c) (buffered : size ≠ 0) :
    sendPos (s.chan c) = ((s.chan c).off + (s.chan c).nbuf) % size * elem ∧
      InBuffer (s.chan c) (sendPos (s.chan c)) := by
  have filled := fifo.filled
  have inside : (s.chan c).off < size :=
    fifo.start.resolve_right fun empty => buffered empty.1
  have slotEnd : ((s.chan c).off + (s.chan c).nbuf) % size * elem + elem ≤ size * elem :=
    slot_le (Nat.mod_lt _ (Nat.pos_of_ne_zero buffered))
  have posEq : Libtask.sendPos (s.chan c) =
      ((s.chan c).off + (s.chan c).nbuf) % size * elem := by
    rw [Libtask.sendPos, fifo.elemsize, fifo.bufsize,
      Nat.mod_eq_of_lt (a := (s.chan c).off + (s.chan c).nbuf) (by omega),
      Nat.mod_eq_of_lt (by omega)]
  refine ⟨posEq, ?_⟩
  rw [InBuffer, posEq, fifo.bufbytes, fifo.elemsize]
  exact_mod_cast slotEnd

/-! ## Moving data -/

omit small area in
theorem length_amoveBytes (mem : Bytes.Memory) (src : Option Nat) (n : Nat) :
    (amoveBytes mem src n).length = n := by
  cases src <;> simp [amoveBytes]

/-- A receive from the buffer takes the oldest element. -/
theorem Fifo.recv {r : AltRef} (fifo : Fifo elem size s c)
    (done : altcopyRecv s self c r = .ok s') :
    Fifo elem size s' c ∧ (s'.chan c).nbuf + 1 = (s.chan c).nbuf := by
  obtain ⟨-, some?, value, valueEq, s'Eq⟩ := altcopyRecv_ok done
  have filled := fifo.filled
  have buffered : size ≠ 0 := by omega
  have inside : (s.chan c).off < size :=
    fifo.start.resolve_right fun empty => buffered empty.1
  obtain ⟨n, nbufEq⟩ := Nat.exists_eq_succ_of_ne_zero some?
  have offEq : (if ((s.chan c).off + 1) % 2 ^ 32 = (s.chan c).bufsize then 0
      else ((s.chan c).off + 1) % 2 ^ 32) = ((s.chan c).off + 1) % size := by
    rw [fifo.bufsize, Nat.mod_eq_of_lt (b := 2 ^ 32) (by omega)]
    split
    next wraps => rw [wraps, Nat.mod_self]
    next => rw [Nat.mod_eq_of_lt (by omega)]
  rw [offEq, nbufEq] at s'Eq
  have isSlot : value = (s.chan c).slot ((s.chan c).off % (s.chan c).bufsize) := by
    rw [valueEq, (fifo.recvPos area buffered).1, Channel.slot, fifo.elemsize,
      fifo.bufsize, Nat.mod_eq_of_lt inside]
  have pop := Ring.contents_pop (s.chan c).slot (s.chan c).bufsize (s.chan c).off n
  have order := fifo.order
  rw [Channel.contents, nbufEq, Nat.succ_eq_add_one, pop, ← isSlot, fifo.bufsize] at order
  subst s'Eq
  refine ⟨?_, by simp [St.setChan, nbufEq]⟩
  constructor
  · exact fifo.known
  · simpa [St.setChan] using fifo.elemsize
  · simpa [St.setChan] using fifo.bufsize
  · simpa [St.setChan] using fifo.bufbytes
  · simp only [St.setChan, update_self]
    omega
  · simp only [St.setChan, update_self]
    exact Or.inl (Nat.mod_lt _ (by omega))
  · have contentsEq : ({ s.chan c with
        nbuf := n + 1 - 1, off := ((s.chan c).off + 1) % size } : Channel).contents =
        Ring.contents (s.chan c).slot size (((s.chan c).off + 1) % size) n := by
      rw [Channel.contents, fifo.bufsize]
      rfl
    simp only [St.setChan, update_self, sentValues_append, receivedValues_append]
    rw [Nat.succ_eq_add_one, contentsEq, order]
    simp [sentValues, receivedValues]

/-- A send to the buffer stores behind the newest element. -/
theorem Fifo.send {x : AltRef} (fifo : Fifo elem size s c)
    (room : (s.chan c).nbuf < size) (done : altcopySend s self c x = .ok s') :
    Fifo elem size s' c := by
  obtain ⟨-, -, value, valueEq, s'Eq⟩ := altcopySend_ok done
  have buffered : size ≠ 0 := by omega
  rw [(fifo.sendPos small area buffered).1,
    Nat.mod_eq_of_lt (a := (s.chan c).nbuf + 1) (by omega)] at s'Eq
  have length : value.length = elem := by
    rw [valueEq, length_amoveBytes, fifo.elemsize]
  obtain ⟨slot, slotEq⟩ : ∃ slot, slot = ((s.chan c).off + (s.chan c).nbuf) % size :=
    ⟨_, rfl⟩
  rw [← slotEq] at s'Eq
  obtain ⟨chan, chanEq⟩ : ∃ chan : Channel, chan = { s.chan c with
    buf := Bytes.write (s.chan c).buf (slot * elem) value
    nbuf := (s.chan c).nbuf + 1 } := ⟨_, rfl⟩
  rw [← chanEq] at s'Eq
  have stored : chan.slot slot = value := by
    rw [chanEq, Channel.slot]
    simp only [fifo.elemsize]
    rw [← length]
    exact Bytes.read_write_self _ _ _
  have others : ∀ i, i < size → i ≠ slot → chan.slot i = (s.chan c).slot i := by
    intro i inside different
    rw [chanEq, Channel.slot, Channel.slot]
    simp only [fifo.elemsize]
    refine Bytes.read_write_of_disjoint _ _ ?_
    rw [length]
    rcases Nat.lt_or_gt_of_ne different with below | above
    · exact Or.inr (slot_le below)
    · exact Or.inl (slot_le above)
  have push := Ring.contents_push (s.chan c).slot chan.slot (s.chan c).off room
    fun i inside different => others i inside (slotEq ▸ different)
  rw [← slotEq, stored] at push
  have contentsEq : chan.contents = (s.chan c).contents ++ [value] := by
    rw [Channel.contents, Channel.contents, fifo.bufsize, ← push]
    simp [chanEq, fifo.bufsize]
  subst s'Eq
  constructor
  · exact fifo.known
  · simpa [St.setChan, chanEq] using fifo.elemsize
  · simpa [St.setChan, chanEq] using fifo.bufsize
  · simpa [St.setChan, chanEq] using fifo.bufbytes
  · simp only [St.setChan, update_self, chanEq]
    omega
  · simpa [St.setChan, chanEq] using fifo.start
  · simp only [St.setChan, update_self, sentValues_append, receivedValues_append, contentsEq,
      fifo.order]
    simp [sentValues, receivedValues]

omit small area in
/-- A direct copy goes past an empty buffer. -/
theorem Fifo.direct {x r : AltRef} (fifo : Fifo elem size s c)
    (empty : (s.chan c).nbuf = 0) :
    Fifo elem size (altcopyDirect s self c x r) c := by
  have order := fifo.order
  rw [Channel.contents, empty, Ring.contents_zero, List.append_nil] at order
  refine ⟨fifo.known, fifo.elemsize, fifo.bufsize, fifo.bufbytes, fifo.filled, fifo.start, ?_⟩
  have chanEq : (altcopyDirect s self c x r).chan = s.chan := rfl
  rw [chanEq, Channel.contents, empty, Ring.contents_zero, List.append_nil]
  simp [altcopyDirect, St.log, sentValues, receivedValues] at order ⊢
  exact order

theorem Executed.fifo_own {p : AltPtr} {a : Alt} {partner : Option AltRef}
    (executed : Executed s self p a partner s') (fifo : Fifo elem size s a.c) :
    Fifo elem size s' a.c := by
  have sizeEq := fifo.bufsize
  cases executed with
  | sendDirect isSnd empty => exact fifo.direct empty
  | recvDirect isRcv empty => exact fifo.direct empty
  | send isSnd buffered room noSender noReceiver sent =>
      exact fifo.send small area (by omega) sent
  | recv isRcv buffered filled noSender noReceiver received =>
      exact (fifo.recv small area received).1
  | refill isRcv buffered full received sent =>
      obtain ⟨fifo₀, nbuf⟩ := fifo.recv small area received
      exact fifo₀.send small area (by omega) sent

omit small area in
/-- The values of other channels stay as they are. -/
theorem Executed.values {p : AltPtr} {a : Alt} {partner : Option AltRef}
    (executed : Executed s self p a partner s') (other : c ≠ a.c) :
    sentValues c s'.trace = sentValues c s.trace ∧
      receivedValues c s'.trace = receivedValues c s.trace := by
  have different : a.c ≠ c := Ne.symm other
  cases executed with
  | sendDirect isSnd empty =>
      simp [altcopyDirect, St.log, sentValues, receivedValues, different]
  | recvDirect isRcv empty =>
      simp [altcopyDirect, St.log, sentValues, receivedValues, different]
  | send isSnd buffered room noSender noReceiver sent =>
      obtain ⟨-, -, value, -, rfl⟩ := altcopySend_ok sent
      simp [sentValues, receivedValues, different]
  | recv isRcv buffered filled noSender noReceiver received =>
      obtain ⟨-, -, value, -, rfl⟩ := altcopyRecv_ok received
      simp [sentValues, receivedValues, different]
  | refill isRcv buffered full received sent =>
      obtain ⟨-, -, value, -, rfl⟩ := altcopyRecv_ok received
      obtain ⟨-, -, value', -, rfl⟩ := altcopySend_ok sent
      simp [sentValues, receivedValues, different]

theorem Executed.fifo {p : AltPtr} {a : Alt} {partner : Option AltRef}
    (executed : Executed s self p a partner s') (rendezvous : Rendezvous s a.c)
    (fifo : Fifo elem size s c) : Fifo elem size s' c := by
  by_cases same : c = a.c
  · subst same
    exact executed.fifo_own small area fifo
  · obtain ⟨sent, received⟩ := executed.values same
    refine fifo.congr ?_ (by rw [(executed.chan rendezvous).1 c same]) sent received
    obtain ⟨mem, chan, trace, rfl⟩ := executed.copied.rest
    exact fifo.known

omit small area in
/-- What follows the copy in `altexec` moves no value. -/
theorem altexec_rest {p : AltPtr} {a : Alt} {rand : Nat} (inv : Inv run s)
    (all : ∀ c, Rendezvous s c) (altEq : s.alt? p = some a) (can : altcanexec s a = true)
    (done : Libtask.altexec s self p rand = .ok s') :
    ∃ partner s₁, Executed s self p a partner s₁ ∧ s'.chans = s₁.chans ∧
      (∀ c, (s'.chan c).core = (s₁.chan c).core) ∧
      s'.events .channels = s₁.events .channels := by
  rcases altexec_executed inv all altEq can done with
    executed | ⟨other, o, s₁, s₂, -, -, executed, dequeued, -, readied⟩
  · exact ⟨none, s', executed, rfl, fun _ => rfl, rfl⟩
  · refine ⟨some (other, o), s₁, executed, ?_⟩
    have core := dequeued.core
    obtain ⟨chan, rfl⟩ := dequeued.rest
    have keeps := taskready_keepsChannels readied
    exact ⟨keeps.chans, fun c => by rw [keeps.chan]; exact core c, keeps.events⟩

theorem Fifo.altexec {p : AltPtr} {a : Alt} {rand : Nat} (fifo : Fifo elem size s c)
    (inv : Inv run s) (all : ∀ c, Rendezvous s c) (altEq : s.alt? p = some a)
    (can : altcanexec s a = true) (done : Libtask.altexec s self p rand = .ok s') :
    Fifo elem size s' c := by
  obtain ⟨partner, s₁, executed, chans, core, events⟩ := altexec_rest inv all altEq can done
  have fifo₁ := executed.fifo small area (all a.c) fifo
  refine fifo₁.congr (chans ▸ fifo₁.known) (core c) ?_ ?_
  · rw [← sentValues_events, events, sentValues_events]
  · rw [← receivedValues_events, events, receivedValues_events]

omit small area in
theorem Silent.altexec {p : AltPtr} {a : Alt} {rand : Nat} (silent : Silent s c)
    (inv : Inv run s) (all : ∀ c, Rendezvous s c) (altEq : s.alt? p = some a)
    (known : a.c ∈ s.chans) (can : altcanexec s a = true)
    (done : Libtask.altexec s self p rand = .ok s') : Silent s' c := by
  obtain ⟨partner, s₁, executed, chans, core, events⟩ := altexec_rest inv all altEq can done
  have chans₁ : s₁.chans = s.chans := by
    obtain ⟨mem, chan, trace, rfl⟩ := executed.copied.rest
    rfl
  intro unknown
  rw [chans, chans₁] at unknown
  have other : c ≠ a.c := by
    rintro rfl
    exact unknown known
  obtain ⟨sent, received⟩ := executed.values other
  rw [← sentValues_events, ← receivedValues_events, events, sentValues_events,
    receivedValues_events, sent, received]
  exact silent unknown

/-! ## Steps -/

omit small area in
/-- An alternative that can proceed is about a channel that was made. -/
theorem Entering.known_of_can {base i : Nat} {a : Alt} (entering : Entering s self base)
    (atI : (entered s self base)[i]? = some a)
    (can : altcanexec (enter s self base) a = true) : a.c ∈ s.chans := by
  obtain ⟨-, -, -, -, -, origin⟩ := enter_array self entering.isTerminated
  obtain ⟨b, inArray, opEq, channel⟩ := origin a (List.mem_of_getElem? atI)
  rw [channel]
  refine entering.known b inArray ?_
  rw [← opEq]
  rcases altcanexec_op can with isSnd | isRcv
  · simp [isSnd, chanarray]
  · simp [isRcv, chanarray]

omit small area in
/-- The alternatives of a call are examined after the array was written. -/
theorem Entering.rendezvous {base : Nat} {alts : List Alt} (all : ∀ c, Rendezvous s c)
    (entering : Entering { s with alts := update s.alts base alts } self base) (c : ChanPtr) :
    Rendezvous (enter { s with alts := update s.alts base alts } self base) c := by
  have unqueued : s.Unqueued base := fun c dir q member => entering.unqueued member
  exact ((all c).writeArray unqueued).writeArray unqueued

theorem ChannelStep.fifo {act : Act} (kind : ChannelStep self s s' act)
    (all : ∀ c, Rendezvous s c) (fifo : Fifo elem size s c) : Fifo elem size s' c := by
  cases kind with
  | keeps keeps => exact keeps.fifo fifo
  | @create c₀ elemsize bufsize junk fresh =>
      have different : c ≠ c₀ := by
        rintro rfl
        exact fresh fifo.known
      exact fifo.congr (List.mem_cons_of_mem _ fifo.known) (by simp [St.setChan, different])
        rfl rfl
  | @alt call base rand2 alts pc s' flow entering alted =>
      have fifo₁ : Fifo elem size (enter { s with alts := update s.alts base alts } self base) c :=
        fifo.congr fifo.known rfl rfl rfl
      cases alted with
      | exec atI can executed =>
          exact fifo₁.altexec small area entering.entered_inv (entering.rendezvous all)
            (enter_alt? entering.isTerminated atI) can executed
      | noblock blocked ends => exact fifo₁
      | block blocked ends enqueued =>
          have core := enqueued.core c
          obtain ⟨chan, rfl⟩ := enqueued.rest
          obtain ⟨sent, received⟩ := log_values (c := c)
            { enter { s with alts := update s.alts base alts } self base with chan }
            (e := .altBlock self base) ⟨rfl, rfl⟩
          exact fifo₁.congr fifo.known core sent received
  | @resumed base first env altbase altEq sameBase =>
      obtain ⟨sent, received⟩ := log_values (c := c) s
        (e := .altReturn self base first.xalt.idx) ⟨rfl, rfl⟩
      exact fifo.congr fifo.known rfl sent received
  | store => exact fifo.congr fifo.known rfl rfl rfl

omit small area in
theorem ChannelStep.silent {act : Act} (kind : ChannelStep self s s' act)
    (all : ∀ c, Rendezvous s c) (silent : Silent s c) : Silent s' c := by
  cases kind with
  | keeps keeps => exact keeps.silent silent
  | create fresh => exact fun unknown => silent fun known => unknown (List.mem_cons_of_mem _ known)
  | @alt call base rand2 alts pc s' flow entering alted =>
      have silent₁ : Silent (enter { s with alts := update s.alts base alts } self base) c := silent
      cases alted with
      | exec atI can executed =>
          exact silent₁.altexec entering.entered_inv (entering.rendezvous all)
            (enter_alt? entering.isTerminated atI) (entering.known_of_can atI can) can executed
      | noblock blocked ends => exact silent₁
      | block blocked ends enqueued =>
          obtain ⟨chan, rfl⟩ := enqueued.rest
          obtain ⟨sent, received⟩ := log_values (c := c)
            { enter { s with alts := update s.alts base alts } self base with chan }
            (e := .altBlock self base) ⟨rfl, rfl⟩
          exact silent₁.congr rfl sent received
  | @resumed base first env altbase altEq sameBase =>
      obtain ⟨sent, received⟩ := log_values (c := c) s
        (e := .altReturn self base first.xalt.idx) ⟨rfl, rfl⟩
      exact silent.congr rfl sent received
  | store => exact silent

/-! ## Staying inside the buffer -/

omit small in
theorem Fifo.recv_avoids {bad : Halt → Prop} {r : AltRef} (fifo : Fifo elem size s c)
    (some? : (s.chan c).nbuf ≠ 0) : Avoids bad (altcopyRecv s self c r) := by
  have filled := fifo.filled
  have inBuffer := (fifo.recvPos area (by omega)).2
  simp only [altcopyRecv, inBuffer, not_true_eq_false, if_false, some?]
  exact .ok _

theorem Fifo.send_avoids {bad : Halt → Prop} {x : AltRef} (fifo : Fifo elem size s c)
    (buffered : size ≠ 0) : Avoids bad (altcopySend s self c x) := by
  have inBuffer := (fifo.sendPos small area buffered).2
  have buffered' : (s.chan c).bufsize ≠ 0 := by
    rwa [fifo.bufsize]
  simp only [altcopySend, inBuffer, not_true_eq_false, if_false, buffered']
  exact .ok _

theorem Fifo.move_avoids {bad : Halt → Prop} {x r : Option AltRef}
    (fifo : Fifo elem size s c) (noSender : x = none → (s.chan c).nbuf ≠ 0)
    (noReceiver : r = none → size ≠ 0) : Avoids bad (altcopyMove s self c x r) := by
  cases x with
  | none =>
      cases r with
      | none => exact .ok _
      | some r => exact fifo.recv_avoids area (noSender rfl)
  | some x =>
      cases r with
      | none => exact fifo.send_avoids small area (noReceiver rfl)
      | some r =>
          simp only [altcopyMove]
          split
          next => exact .ok _
          next some? =>
            have filled := fifo.filled
            refine (fifo.recv_avoids area some?).bind fun s₁ received => ?_
            exact (fifo.recv small area received).1.send_avoids small area (by omega)

/-- No execution of an alternative leaves the buffer of the channel. -/
theorem Fifo.copy_avoids {bad : Halt → Prop} {p : AltPtr} {a : Alt} {partner : Option AltRef}
    (fifo : Fifo elem size s a.c) (alts : Nat → List Alt) (rendezvous : Rendezvous s a.c)
    (can : altcanexec s a = true) (isPartner : PartnerOf s a partner)
    (agrees : ∀ o, partner = some o → chanarray o.2.op = chanarray (otherop a.op)) :
    Avoids bad (altcopy { s with alts } self (p, a) partner) := by
  have fifo' : Fifo elem size { s with alts } a.c := fifo.congr fifo.known rfl rfl rfl
  have sizeEq := fifo.bufsize
  obtain ⟨dir, proceeds⟩ := rendezvous.proceeds can
  have buffered : partner = none → (s.chan a.c).bufsize ≠ 0 := fun nobody direct =>
    proceeds.direct direct (isPartner.nobody nobody dir proceeds.other)
  have isOp : (p, a).2.op = .chansnd ∨ (p, a).2.op = .chanrcv := altcanexec_op can
  rcases altcopy_eq { s with alts } self isOp agrees with
    ⟨isSnd, moves⟩ | ⟨isRcv, moves⟩
  · rw [moves]
    exact fifo'.move_avoids small area (by simp) fun nobody => sizeEq ▸ buffered nobody
  · rw [moves]
    refine fifo'.move_avoids small area (fun nobody => ?_) (by simp)
    exact Nat.pos_iff_ne_zero.mp (proceeds.recv isRcv (buffered nobody))

theorem Fifo.copySafe (fifo : Fifo elem size s c) (rendezvous : Rendezvous s c) :
    CopySafe (fun c' => c' = c) s := by
  rintro alts self p a partner rfl can isPartner agrees
  exact fifo.copy_avoids small area alts rendezvous can isPartner agrees

end

end

/-! ## All runs -/

/-- The sizes did not overflow when the channel was made. -/
structure Channel.Sound (chan : Channel) : Prop where
  small : chan.bufsize < 2 ^ 31
  area : chan.bufsize * chan.elemsize < 2 ^ 31
  bufbytes : chan.bufbytes = (chan.bufsize * chan.elemsize : Nat)

theorem reachable_silent {allowed : St → Act → Prop} {s : St} (reachable : Reachable allowed s)
    (c : ChanPtr) : Silent s c := by
  refine reachable.invariant (fun s => Silent s c) ?_ ?_
  · rintro s ⟨rendez, mem, t, started⟩
    obtain ⟨id, created⟩ := main_ok started
    exact (taskcreate_frame created).channels.silent fun _ => ⟨rfl, rfl⟩
  · intro s act s' before silent isEnabled _ stepped
    obtain ⟨self, s₀, s₁, -, first, kind, last⟩ :=
      step_channels (reachable_inv before) isEnabled stepped
    exact last.silent (kind.silent (fun c => first.rendezvous (reachable_rendezvous before c))
      (first.silent silent))

/-- The sizes of a channel stay as `chancreate` set them. -/
structure SameSizes (s s' : St) (c : ChanPtr) : Prop where
  known : c ∈ s'.chans
  bufsize : (s'.chan c).bufsize = (s.chan c).bufsize
  elemsize : (s'.chan c).elemsize = (s.chan c).elemsize
  bufbytes : (s'.chan c).bufbytes = (s.chan c).bufbytes

section

variable {s s' : St} {self : TaskPtr} {c : ChanPtr}

theorem sameSizes_of_core (known : c ∈ s'.chans)
    (core : (s'.chan c).core = (s.chan c).core) : SameSizes s s' c := by
  obtain ⟨bufsize, elemsize, -, bufbytes, -, -⟩ := core_fields core
  exact ⟨known, bufsize, elemsize, bufbytes⟩

theorem SameSizes.trans {s₁ s₂ s₃ : St} (first : SameSizes s₁ s₂ c)
    (second : SameSizes s₂ s₃ c) : SameSizes s₁ s₃ c :=
  ⟨second.known, second.bufsize.trans first.bufsize, second.elemsize.trans first.elemsize,
    second.bufbytes.trans first.bufbytes⟩

theorem SameSizes.sound (same : SameSizes s s' c) (sound : (s'.chan c).Sound) :
    (s.chan c).Sound := by
  obtain ⟨small, area, bufbytes⟩ := sound
  rw [same.bufsize] at small area bufbytes
  rw [same.elemsize] at area bufbytes
  rw [same.bufbytes] at bufbytes
  exact ⟨small, area, bufbytes⟩

theorem KeepsChannels.sameSizes (keeps : KeepsChannels s s') (known : c ∈ s.chans) :
    SameSizes s s' c :=
  sameSizes_of_core (keeps.chans ▸ known) (by rw [keeps.chan])

theorem ChannelStep.sameSizes {act : Act} (kind : ChannelStep self s s' act)
    (all : ∀ c, Rendezvous s c) (known : c ∈ s.chans) : SameSizes s s' c := by
  cases kind with
  | keeps keeps => exact keeps.sameSizes known
  | @create c₀ elemsize bufsize junk fresh =>
      have different : c ≠ c₀ := by
        rintro rfl
        exact fresh known
      exact sameSizes_of_core (List.mem_cons_of_mem _ known) (by simp [St.setChan, different])
  | @alt call base rand2 alts pc s' flow entering alted =>
      cases alted with
      | exec atI can executed =>
          obtain ⟨partner, s₁, executed, chans, core, -⟩ := altexec_rest entering.entered_inv
            (entering.rendezvous all) (enter_alt? entering.isTerminated atI) can executed
          have copied := executed.copied
          obtain ⟨bufsize, elemsize, bufbytes⟩ := copied.sizes c
          have known₁ : c ∈ s₁.chans := by
            obtain ⟨mem, chan, trace, rfl⟩ := copied.rest
            exact known
          have first : SameSizes s s₁ c := ⟨known₁, bufsize, elemsize, bufbytes⟩
          exact first.trans (sameSizes_of_core (chans ▸ known₁) (core c))
      | noblock blocked ends => exact ⟨known, rfl, rfl, rfl⟩
      | block blocked ends enqueued =>
          have core := enqueued.core c
          obtain ⟨chan, rfl⟩ := enqueued.rest
          exact sameSizes_of_core known core
  | resumed altbase altEq sameBase => exact ⟨known, rfl, rfl, rfl⟩
  | store => exact ⟨known, rfl, rfl, rfl⟩

theorem step_sameSizes {allowed : St → Act → Prop} {act : Act}
    (reachable : Reachable allowed s) (isEnabled : enabled s act)
    (stepped : step s act = .ok s') (known : c ∈ s.chans) : SameSizes s s' c := by
  obtain ⟨self, s₀, s₁, -, first, kind, last⟩ :=
    step_channels (reachable_inv reachable) isEnabled stepped
  have same₀ := first.sameSizes known
  have same₁ := kind.sameSizes (fun c => first.rendezvous (reachable_rendezvous reachable c))
    same₀.known
  exact (same₀.trans same₁).trans (last.sameSizes same₁.known)

/-- A channel that was just made is an empty FIFO. -/
theorem ChannelStep.fifo_of_fresh {act : Act} (kind : ChannelStep self s s' act)
    (all : ∀ c, Rendezvous s c) (silent : Silent s c) (fresh : c ∉ s.chans)
    (known : c ∈ s'.chans) (sound : (s'.chan c).Sound) :
    Fifo (s'.chan c).elemsize (s'.chan c).bufsize s' c := by
  obtain ⟨sent, received⟩ := silent fresh
  cases kind with
  | keeps keeps => exact absurd (keeps.chans ▸ known) fresh
  | @create c₀ elemsize bufsize junk _ =>
      obtain rfl : c = c₀ := (List.mem_cons.mp known).resolve_right fresh
      refine ⟨known, rfl, rfl, sound.bufbytes, ?_, ?_, ?_⟩
      · simp [St.setChan]
      · rcases Nat.eq_zero_or_pos (toUint bufsize) with empty | some?
        · simp [St.setChan, empty]
        · simp [St.setChan, some?]
      · simp only [St.setChan, update_self, Channel.contents, Ring.contents_zero,
          List.append_nil]
        exact sent.trans received.symm
  | @alt call base rand2 alts pc s' flow entering alted =>
      refine absurd ?_ fresh
      cases alted with
      | exec atI can executed =>
          obtain ⟨partner, s₁, executed, chans, -⟩ := altexec_rest entering.entered_inv
            (entering.rendezvous all) (enter_alt? entering.isTerminated atI) can executed
          obtain ⟨mem, chan, trace, rfl⟩ := executed.copied.rest
          exact chans ▸ known
      | noblock blocked ends => exact known
      | block blocked ends enqueued =>
          obtain ⟨chan, rfl⟩ := enqueued.rest
          exact known
  | resumed altbase altEq sameBase => exact absurd known fresh
  | store => exact absurd known fresh

end

theorem reachable_fifo {allowed : St → Act → Prop} {s : St} {c : ChanPtr}
    (reachable : Reachable allowed s) (known : c ∈ s.chans) (sound : (s.chan c).Sound) :
    Fifo (s.chan c).elemsize (s.chan c).bufsize s c := by
  refine reachable.invariant (fun s => c ∈ s.chans → (s.chan c).Sound →
    Fifo (s.chan c).elemsize (s.chan c).bufsize s c) ?_ ?_ known sound
  · rintro s ⟨rendez, mem, t, started⟩ known
    obtain ⟨id, created⟩ := main_ok started
    rw [(taskcreate_frame created).channels.chans] at known
    exact absurd known List.not_mem_nil
  · intro s act s' before ih isEnabled _ stepped known sound
    obtain ⟨self, s₀, s₁, -, first, kind, last⟩ :=
      step_channels (reachable_inv before) isEnabled stepped
    have all := fun c => first.rendezvous (reachable_rendezvous before c)
    by_cases old : c ∈ s.chans
    · have same := step_sameSizes before isEnabled stepped old
      have sound₀ := same.sound sound
      rw [same.bufsize, same.elemsize]
      exact last.fifo (kind.fifo sound₀.small sound₀.area all (first.fifo (ih old sound₀)))
    · rw [last.chan] at sound ⊢
      rw [last.chans] at known
      refine last.fifo (kind.fifo_of_fresh all (first.silent (reachable_silent before c)) ?_
        known sound)
      rwa [first.chans]

/-- A channel of sound sizes is never left, taken from while it is empty, or divided by. -/
theorem stays_inside {allowed : St → Act → Prop} {s : St} {c : ChanPtr} {act : Act}
    (reachable : Reachable allowed s) (known : c ∈ s.chans) (sound : (s.chan c).Sound)
    (isEnabled : enabled s act) :
    step s act ≠ .error (.fault (.bufRange c)) ∧
      step s act ≠ .error (.fault (.nbufUnderflow c)) ∧
      step s act ≠ .error (.fault (.divByZero c)) := by
  have fifo := reachable_fifo reachable known sound
  have safe := step_safe (reachable_inv reachable) isEnabled
    (fifo.copySafe sound.small sound.area (reachable_rendezvous reachable c))
  exact ⟨fun stopped => safe _ stopped rfl, fun stopped => safe _ stopped rfl,
    fun stopped => safe _ stopped rfl⟩

/-! ## From its creation on -/

theorem toUint_eq {i : Int} (nonneg : 0 ≤ i) (isInt : i < 2 ^ 31) : toUint i = i := by
  simp only [toUint]
  omega

/-- The header that `chancreate` leaves. -/
def newChannel (elemsize bufsize : Int) (junk : Bytes.Memory) : Channel where
  elemsize := toUint elemsize
  bufsize := toUint bufsize
  buf := junk
  bufbytes := bufArea elemsize bufsize

/-- The sizes of a channel whose area does not overflow. -/
theorem newChannel_sound {elemsize bufsize : Int} (junk : Bytes.Memory) (nonneg : 0 ≤ elemsize)
    (isInt : elemsize < 2 ^ 31) (nonneg' : 0 ≤ bufsize) (isInt' : bufsize < 2 ^ 31)
    (area : bufsize * elemsize < 2 ^ 31) : (newChannel elemsize bufsize junk).Sound := by
  obtain ⟨e, rfl⟩ := Int.eq_ofNat_of_zero_le nonneg
  obtain ⟨b, rfl⟩ := Int.eq_ofNat_of_zero_le nonneg'
  have area' : b * e < 2 ^ 31 := by exact_mod_cast area
  have isNat : (BitVec.ofNat 32 (b * e)).toNat = b * e := by
    rw [BitVec.toNat_ofNat, Nat.mod_eq_of_lt (by omega)]
  have elemEq : toUint e = e := Int.ofNat_inj.mp (toUint_eq nonneg isInt)
  have sizeEq : toUint b = b := Int.ofNat_inj.mp (toUint_eq nonneg' isInt')
  constructor
  · simp only [newChannel, sizeEq]
    omega
  · simp only [newChannel, sizeEq, elemEq]
    exact area'
  · simp only [newChannel, sizeEq, elemEq]
    rw [bufArea, ← Int.natCast_mul, BitVec.ofInt_natCast,
      BitVec.toInt_eq_toNat_of_lt (by omega), isNat]

section

variable {s s₁ s₂ : St} {c : ChanPtr} {elemsize bufsize : Int} {junk : Bytes.Memory}

theorem chancreate_chan (isEnabled : enabled s (.call (.chancreate (some c) elemsize bufsize junk)))
    (stepped : step s (.call (.chancreate (some c) elemsize bufsize junk)) = .ok s₁) :
    c ∈ s₁.chans ∧ s₁.chan c = newChannel elemsize bufsize junk := by
  cases step_shape isEnabled stepped with
  | call running isLegal called finished =>
      obtain ⟨inner, -⟩ := returning_ok called
      obtain ⟨c₀, sameChan, rfl⟩ := chancreate_ok inner
      obtain rfl := Option.some.inj sameChan
      have keeps := (finish_frame finished).channels
      rw [keeps.chans, keeps.chan]
      exact ⟨List.mem_cons_self, by simp [St.setChan, newChannel]⟩

/-- The sizes of the channel in all states from then on. -/
theorem chancreate_sizes (reachable : Reachable anyAction s)
    (isEnabled : enabled s (.call (.chancreate (some c) elemsize bufsize junk)))
    (stepped : step s (.call (.chancreate (some c) elemsize bufsize junk)) = .ok s₁)
    (runs : Reaches runtime anyAction s₁ s₂) :
    Reachable anyAction s₂ ∧ c ∈ s₂.chans ∧
      (s₂.chan c).elemsize = (newChannel elemsize bufsize junk).elemsize ∧
      (s₂.chan c).bufsize = (newChannel elemsize bufsize junk).bufsize ∧
      (s₂.chan c).bufbytes = (newChannel elemsize bufsize junk).bufbytes := by
  obtain ⟨known, made⟩ := chancreate_chan isEnabled stepped
  have reachable₁ : Reachable anyAction s₁ :=
    reachable.step (a := .call (.chancreate (some c) elemsize bufsize junk)) isEnabled trivial
      stepped
  have same : SameSizes s₁ s₂ c := by
    refine runs.invariant (fun s => SameSizes s₁ s c) reachable₁ ⟨known, rfl, rfl, rfl⟩ ?_
    intro s act s' before same isEnabled _ stepped
    exact same.trans (step_sameSizes before isEnabled stepped same.known)
  rw [← made]
  exact ⟨runs.reachable reachable₁, same.known, same.elemsize, same.bufsize, same.bufbytes⟩

theorem runs_sound (reachable : Reachable anyAction s)
    (isEnabled : enabled s (.call (.chancreate (some c) elemsize bufsize junk)))
    (stepped : step s (.call (.chancreate (some c) elemsize bufsize junk)) = .ok s₁)
    (runs : Reaches runtime anyAction s₁ s₂)
    (sound : (newChannel elemsize bufsize junk).Sound) : (s₂.chan c).Sound := by
  obtain ⟨-, -, elemEq, sizeEq, bytesEq⟩ := chancreate_sizes reachable isEnabled stepped runs
  obtain ⟨small, area, bufbytes⟩ := sound
  rw [← sizeEq] at small
  rw [← sizeEq, ← elemEq] at area
  rw [← sizeEq, ← elemEq, ← bytesEq] at bufbytes
  exact ⟨small, area, bufbytes⟩

end

end Libtask
