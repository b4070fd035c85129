import Libtask.Fifo
import Libtask.Nonblock

/-!
# Receives that return the value

`channbrecvp` and `channbrecvul` return their local variable, whether or not a value was received
into it.
-/

namespace Libtask

open Function (update update_self update_of_ne)
open Outcome (bind_eq_ok ok_bind Avoids)
open Transition

/-- A receive that does not block, into a local variable of `size` bytes at `v`, which is then
returned. -/
def nbrecv (size : Nat) (s : St) (self : TaskPtr) (c : ChanPtr) (v a rand1 rand2 : Nat) :
    Except Halt (St × Flow × List UInt8) := do
  let (s, flow) ← call s self (.chanop c .chanrcv (some v) false a rand1 rand2)
  return (s, flow, Bytes.read s.mem v size)

/-- `sizeof(void*)` -/
def sizeofPtr : Nat := 8

/-- `sizeof(ulong)` -/
def sizeofUlong : Nat := 8

def channbrecvp (s : St) (self : TaskPtr) (c : ChanPtr) (v a rand1 rand2 : Nat) :
    Except Halt (St × Flow × List UInt8) :=
  nbrecv sizeofPtr s self c v a rand1 rand2

def channbrecvul (s : St) (self : TaskPtr) (c : ChanPtr) (v a rand1 rand2 : Nat) :
    Except Halt (St × Flow × List UInt8) :=
  nbrecv sizeofUlong s self c v a rand1 rand2

/-- What happens to be in the memory of a local variable. -/
def St.withLocal (s : St) (v : Nat) (junk : List UInt8) : St :=
  { s with mem := Bytes.write s.mem v junk }

/-- What there is to receive: the oldest element of the buffer or, if that is empty, the value of
the sender that `rand` selects; zeros if there is no sender either. -/
def nextValue (s : St) (c : ChanPtr) (rand : Nat) : List UInt8 :=
  let chan := s.chan c
  if chan.nbuf ≠ 0 then Bytes.read chan.buf (recvPos chan) chan.elemsize
  else
    let sender := (chan.asend.a[rand % chan.asend.n]?).bind s.alt?
    amoveBytes s.mem (sender.bind Alt.v) chan.elemsize

/-- A receive can proceed. -/
def Receivable (s : St) (c : ChanPtr) : Prop :=
  (s.chan c).bufsize = 0 ∧ s.queue c .asend ≠ [] ∨ (s.chan c).bufsize ≠ 0 ∧ 0 < (s.chan c).nbuf

/-- The memory that blocked senders own is not that of the local variable. -/
def SendersApart (s : St) (c : ChanPtr) (v size : Nat) : Prop :=
  ∀ q ∈ s.queue c .asend, ∀ x p, s.alt? q = some x → x.v = some p → v + size ≤ p ∨ p + size ≤ v

/-- The call returns `value` whatever was in the local variable of `size` bytes at `v`.  A channel
whose area overflowed may be left instead. -/
def Returns (s : St) (c : ChanPtr) (v size : Nat) (value : List UInt8)
    (recv : St → Except Halt (St × Flow × List UInt8)) : Prop :=
  ∀ junk : List UInt8, junk.length = size →
    (∃ s' r, recv (s.withLocal v junk) = .ok (s', .ret r, value)) ∨
      ¬(s.chan c).Sound ∧ recv (s.withLocal v junk) = .error (.fault (.bufRange c))

variable {s s' : St} {self : TaskPtr} {c : ChanPtr} {v a rand1 rand2 size : Nat}
  {junk : List UInt8}

theorem altcanexec_recv :
    altcanexec s (chanopAlt self c .chanrcv (some v) a) = true ↔ Receivable s c := by
  rw [altcanexec_iff]
  simp [chanopAlt, Receivable]

/-! ## Nothing to receive -/

/-- The local variable is returned as it was. -/
theorem nbrecv_junk (isJunk : junk.length = size) (nothing : ¬Receivable s c) :
    ∃ s', nbrecv size (s.withLocal v junk) self c v a rand1 rand2 =
      .ok (s', .ret (some (-1)), junk) := by
  have cannot : ¬altcanexec (s.withLocal v junk) (chanopAlt self c .chanrcv (some v) a) = true :=
    fun can => nothing (altcanexec_recv.mp can)
  have same : Bytes.read (Bytes.write s.mem v junk) v size = junk := by
    rw [← isJunk, Bytes.read_write_self]
  refine ⟨inChanop (s.withLocal v junk) self c .chanrcv (some v) a, ?_⟩
  rw [nbrecv, call_nonblock (.inr rfl), if_neg cannot, ok_bind]
  change Except.ok (_, _, Bytes.read (Bytes.write s.mem v junk) v size) = _
  rw [same]

/-- No value is returned for all contents of the local variable. -/
theorem not_returns {value : List UInt8} (nothing : ¬Receivable s c) (some? : 0 < size) :
    ¬Returns s c v size value fun s => nbrecv size s self c v a rand1 rand2 := by
  intro returns
  have returned (junk : List UInt8) (isJunk : junk.length = size) : value = junk := by
    obtain ⟨s₁, found⟩ : ∃ s', nbrecv size (s.withLocal v junk) self c v a rand1 rand2 =
        .ok (s', .ret (some (-1)), junk) := nbrecv_junk isJunk nothing
    rcases returns junk isJunk with ⟨s₂, r, same⟩ | ⟨-, stopped⟩
    · dsimp only at same
      rw [found] at same
      exact (Prod.mk.inj (Prod.mk.inj (Except.ok.inj same)).2).2.symm
    · dsimp only at stopped
      rw [found] at stopped
      cases stopped
  have zeros := returned (List.replicate size 0) List.length_replicate
  have ones := returned (List.replicate size 1) List.length_replicate
  have same := List.replicate_inj.mp (zeros.symm.trans ones)
  rcases same.2 with empty | equal
  · omega
  · cases equal

/-! ## Something to receive -/

theorem recv_mem {r : AltRef} {p : Nat} (done : altcopyRecv s self c r = .ok s')
    (dst : r.2.v = some p) : s'.mem = Bytes.write s.mem p
      (Bytes.read (s.chan c).buf (recvPos (s.chan c)) (s.chan c).elemsize) := by
  obtain ⟨-, -, value, rfl, rfl⟩ := altcopyRecv_ok done
  rw [dst]
  rfl

theorem send_mem {x : AltRef} (done : altcopySend s self c x = .ok s') : s'.mem = s.mem := by
  obtain ⟨-, -, value, -, rfl⟩ := altcopySend_ok done
  rfl

/-- The memory at `p` holds the value after a receive into it. -/
theorem Executed.received {p : AltPtr} {x : Alt} {partner : Option AltRef}
    (executed : Executed s self p x partner s') (isRcv : x.op = .chanrcv) (dst : x.v = some v) :
    Bytes.read s'.mem v (s.chan x.c).elemsize =
      if (s.chan x.c).nbuf ≠ 0 then
        Bytes.read (s.chan x.c).buf (recvPos (s.chan x.c)) (s.chan x.c).elemsize
      else amoveBytes s.mem (partner.bind fun o => o.2.v) (s.chan x.c).elemsize := by
  have back (value : List UInt8) (length : value.length = (s.chan x.c).elemsize) :
      Bytes.read (Bytes.write s.mem v value) v (s.chan x.c).elemsize = value := by
    rw [← length, Bytes.read_write_self]
  cases executed with
  | sendDirect isSnd empty =>
      rw [isSnd] at isRcv
      cases isRcv
  | @recvDirect o _ empty =>
      rw [if_neg (not_not.mpr empty)]
      simp only [altcopyDirect, St.log, dst, amove, Option.bind_some]
      exact back _ (length_amoveBytes ..)
  | send isSnd buffered room noSender noReceiver sent =>
      rw [isSnd] at isRcv
      cases isRcv
  | recv _ buffered some? noSender noReceiver received =>
      rw [if_pos (Nat.ne_of_gt some?), recv_mem received dst]
      exact back _ (Bytes.length_read ..)
  | refill _ buffered full received sent =>
      rw [if_pos (by omega), send_mem sent, recv_mem received dst]
      exact back _ (Bytes.length_read ..)

/-- The call receives what there is to receive. -/
theorem altexec_received (inside : InChanop s self c .chanrcv (some v) a)
    (receivable : Receivable s c)
    (done : altexec (inChanop s self c .chanrcv (some v) a) self ⟨a, 0⟩ rand2 = .ok s') :
    Bytes.read s'.mem v (s.chan c).elemsize = nextValue s c rand2 := by
  have can : altcanexec (inChanop s self c .chanrcv (some v) a)
    (chanopAlt self c .chanrcv (some v) a) = true := altcanexec_recv.mpr receivable
  obtain ⟨x, altEq, shape⟩ := altexec_ok done
  rw [inChanop_alt?] at altEq
  obtain rfl := Option.some.inj altEq
  have queue : altpick (inChanop s self c .chanrcv (some v) a)
      (chanopAlt self c .chanrcv (some v) a) rand2 =
      (s.chan c).asend.a[rand2 % (s.chan c).asend.n]? := rfl
  rcases shape with ⟨nobody, copied⟩ |
    ⟨other, o, s₁, s₂, picked, otherEq, copied, dequeued, -, readied⟩
  · have executed := inside.rendezvous.executed can (partnerOf_none nobody) copied
    rw [queue] at nobody
    simp only [nextValue, nobody, Option.bind_none]
    exact executed.received rfl rfl
  · have executed := inside.rendezvous.executed can (partnerOf_some picked o) copied
    obtain ⟨dir, -, member⟩ := altpick_eq_some picked
    have different : other.base ≠ a := inside.unqueued c dir other member
    have otherEq' : s.alt? other = some o := by
      simpa only [inChanop, St.alt?, update_of_ne different] using otherEq
    rw [queue] at picked
    simp only [nextValue, picked, Option.bind_some, otherEq']
    obtain ⟨chan, rfl, -⟩ := altalldequeueLoop_rest dequeued
    obtain ⟨lists, -, rfl, -⟩ := taskready_ok readied
    exact executed.received rfl rfl

/-- Whatever is received, the copy stops only if it would leave the buffer. -/
theorem altcopyMove_stops {x : Option AltRef} {r : AltRef}
    (filled : (s.chan c).nbuf ≤ (s.chan c).bufsize) (noSender : x = none → (s.chan c).nbuf ≠ 0) :
    Avoids (fun why => why ≠ .fault (.bufRange c)) (altcopyMove s self c x (some r)) := by
  have recv (some? : (s.chan c).nbuf ≠ 0) :
      Avoids (fun why => why ≠ .fault (.bufRange c)) (altcopyRecv s self c r) := by
    simp only [altcopyRecv, if_neg some?]
    exact .ite (.error (not_not.mpr rfl)) (.ok _)
  cases x with
  | none => exact recv (noSender rfl)
  | some x =>
      simp only [altcopyMove]
      split
      next => exact .ok _
      next some? =>
        refine (recv some?).bind fun s₁ received => ?_
        have buffered : (s₁.chan c).bufsize ≠ 0 := by
          rw [((altcopyRecv_copied received).sizes c).1]
          omega
        simp only [altcopySend, if_neg buffered]
        exact .ite (.error (not_not.mpr rfl)) (.ok _)

theorem altexec_stops (inside : InChanop s self c .chanrcv (some v) a)
    (receivable : Receivable s c) :
    Avoids (fun why => why ≠ .fault (.bufRange c))
      (altexec (inChanop s self c .chanrcv (some v) a) self ⟨a, 0⟩ rand2) := by
  have can : altcanexec (inChanop s self c .chanrcv (some v) a)
    (chanopAlt self c .chanrcv (some v) a) = true := altcanexec_recv.mpr receivable
  refine altexec_avoids inside.inv inChanop_alt? fun partner isPartner agrees => ?_
  rcases altcopy_eq (inChanop s self c .chanrcv (some v) a) self
    (x := (⟨a, 0⟩, chanopAlt self c .chanrcv (some v) a)) (.inr rfl) agrees with
    ⟨isSnd, -⟩ | ⟨-, moves⟩
  · cases isSnd
  · rw [moves]
    refine altcopyMove_stops inside.rendezvous.filled fun nobody => ?_
    have empty : s.queue c .asend = [] := isPartner.nobody nobody .asend rfl
    rcases receivable with ⟨-, sender⟩ | ⟨-, some?⟩
    · exact absurd empty sender
    · exact Nat.ne_of_gt some?

/-- In a channel whose area did not overflow, it does not stop. -/
theorem altexec_sound {elem bufsize : Nat} (inside : InChanop s self c .chanrcv (some v) a)
    (receivable : Receivable s c) (small : bufsize < 2 ^ 31) (area : bufsize * elem < 2 ^ 31)
    (fifo : Fifo elem bufsize s c) :
    Avoids (fun _ => True) (altexec (inChanop s self c .chanrcv (some v) a) self ⟨a, 0⟩ rand2) := by
  have can : altcanexec (inChanop s self c .chanrcv (some v) a)
    (chanopAlt self c .chanrcv (some v) a) = true := altcanexec_recv.mpr receivable
  have fifo' : Fifo elem bufsize (inChanop s self c .chanrcv (some v) a) c :=
    fifo.congr fifo.known rfl rfl rfl
  refine altexec_avoids inside.inv inChanop_alt? fun partner isPartner agrees => ?_
  exact Fifo.copy_avoids (s := inChanop s self c .chanrcv (some v) a) small area fifo'
    (inChanop s self c .chanrcv (some v) a).alts inside.rendezvous can isPartner agrees

theorem amoveBytes_write {mem : Bytes.Memory} {src : Option Nat} {n : Nat}
    (isJunk : junk.length = n) (apart : ∀ p, src = some p → v + n ≤ p ∨ p + n ≤ v) :
    amoveBytes (Bytes.write mem v junk) src n = amoveBytes mem src n := by
  cases src with
  | none => rfl
  | some p => exact Bytes.read_write_of_disjoint _ _ (by rw [isJunk]; exact apart p rfl)

/-- What is in the local variable does not matter for the next value. -/
theorem nextValue_withLocal {rand : Nat} (isJunk : junk.length = (s.chan c).elemsize)
    (apart : SendersApart s c v (s.chan c).elemsize) :
    nextValue (s.withLocal v junk) c rand = nextValue s c rand := by
  have senders : ∀ p, ((s.chan c).asend.a[rand % (s.chan c).asend.n]?.bind s.alt?).bind Alt.v =
      some p → v + (s.chan c).elemsize ≤ p ∨ p + (s.chan c).elemsize ≤ v := by
    intro p found
    obtain ⟨x, sender, dst⟩ := Option.bind_eq_some_iff.mp found
    obtain ⟨q, picked, altEq⟩ := Option.bind_eq_some_iff.mp sender
    exact apart q (List.mem_of_getElem? picked) x p altEq dst
  exact if_congr Iff.rfl rfl (amoveBytes_write isJunk senders)

theorem St.withLocal_copied (s : St) (v : Nat) (junk : List UInt8) :
    Copied s (s.withLocal v junk) :=
  ⟨⟨_, s.chan, s.trace, rfl⟩, fun _ _ => rfl, fun _ => ⟨rfl, rfl, rfl⟩⟩

/-- A receive that can proceed returns what there is to receive. -/
theorem returns_nextValue {allowed : St → Act → Prop} (reachable : Reachable allowed s)
    (running : s.taskrunning = some self) (isFree : altfree s a = true) (known : c ∈ s.chans)
    (apart : SendersApart s c v (s.chan c).elemsize) (receivable : Receivable s c) :
    Returns s c v (s.chan c).elemsize (nextValue s c rand2) fun s₁ =>
      nbrecv (s.chan c).elemsize s₁ self c v a rand1 rand2 := by
  intro junk isJunk
  have inv : Inv (some self) s := running ▸ reachable_inv reachable
  have rendezvous (c : ChanPtr) : Rendezvous (s.withLocal v junk) c :=
    (reachable_rendezvous reachable c).congr rfl rfl (fun _ _ => id) fun _ _ x _ altEq =>
      ⟨x, altEq, rfl⟩
  have inside : InChanop (s.withLocal v junk) self c .chanrcv (some v) a :=
    inChanop_intro (inv.copied (s.withLocal_copied v junk)) rendezvous isFree known (.inr rfl)
  have can : altcanexec (s.withLocal v junk) (chanopAlt self c .chanrcv (some v) a) = true :=
    altcanexec_recv.mpr receivable
  simp only [nbrecv, call_nonblock (.inr rfl), if_pos can]
  cases executed : altexec (inChanop (s.withLocal v junk) self c .chanrcv (some v) a) self ⟨a, 0⟩
    rand2 with
  | ok s' =>
      left
      have received : Bytes.read s'.mem v (s.chan c).elemsize = nextValue s c rand2 :=
        (altexec_received inside receivable executed).trans (nextValue_withLocal isJunk apart)
      rw [← received]
      exact ⟨s', some 1, rfl⟩
  | error why =>
      right
      obtain rfl := not_not.mp (altexec_stops inside receivable why executed)
      refine ⟨fun sound => ?_, rfl⟩
      have fifo := reachable_fifo reachable known sound
      have fifo' : Fifo (s.chan c).elemsize (s.chan c).bufsize (s.withLocal v junk) c :=
        fifo.congr fifo.known rfl rfl rfl
      exact altexec_sound inside receivable sound.small sound.area fifo' _ executed trivial

/-! ## The functions -/

/-- What `channbrecvp` and `channbrecvul` return is determined exactly if there is something to
receive. -/
theorem brecv_determined_iff {allowed : St → Act → Prop} (reachable : Reachable allowed s)
    (running : s.taskrunning = some self) (isFree : altfree s a = true) (known : c ∈ s.chans)
    (elemsize : (s.chan c).elemsize = 8) (apart : SendersApart s c v 8) :
    (Returns s c v 8 (nextValue s c rand2) (fun s => channbrecvp s self c v a rand1 rand2) ∧
      Returns s c v 8 (nextValue s c rand2) (fun s => channbrecvul s self c v a rand1 rand2)) ↔
      Receivable s c := by
  constructor
  · intro returns
    by_contra nothing
    exact not_returns nothing (by decide) returns.1
  · intro receivable
    rw [← elemsize] at apart
    have returns : Returns s c v (s.chan c).elemsize (nextValue s c rand2) fun s₁ =>
        nbrecv (s.chan c).elemsize s₁ self c v a rand1 rand2 :=
      returns_nextValue reachable running isFree known apart receivable
    rw [elemsize] at returns
    exact ⟨returns, returns⟩

/-- A run in which the channel holds an element. -/
theorem brecv_determined_full : ∃ s : St, nextValue s 7 0 = [1, 2, 3, 4, 5, 6, 7, 8] ∧
    Returns s 7 200 8 (nextValue s 7 0) (fun s => channbrecvp s 1 7 200 20 0 0) := by
  obtain ⟨s, checked, reachable⟩ := exists_run anyAction (fun _ => none)
    [.dispatch {}, .call (.chancreate (some 7) 8 1 fun _ => 0),
      .call (.store 100 [1, 2, 3, 4, 5, 6, 7, 8]),
      .call (.chanop 7 .chansnd (some 100) true 20 0 0)]
    (fun s => decide (nextValue s 7 0 = [1, 2, 3, 4, 5, 6, 7, 8]) &&
      (decide (s.taskrunning = some 1) && (altfree s 20 && (decide (7 ∈ s.chans) &&
        (decide ((s.chan 7).elemsize = 8) && (decide (s.queue 7 .asend = []) &&
          decide ((s.chan 7).bufsize ≠ 0 ∧ 0 < (s.chan 7).nbuf)))))))
    (by decide +kernel)
  simp only [Bool.and_eq_true, decide_eq_true_eq] at checked
  obtain ⟨value, running, isFree, known, elemsize, empty, some?⟩ := checked
  have apart : SendersApart s 7 200 8 := by
    intro q member
    rw [empty] at member
    cases member
  exact ⟨s, value,
    ((brecv_determined_iff reachable running isFree known elemsize apart).mpr (.inr some?)).1⟩

/-- A run in which nothing was sent. -/
theorem brecv_junk : ∃ s : St, Reachable anyAction s ∧ s.taskrunning = some 1 ∧
    altfree s 20 = true ∧ 7 ∈ s.chans ∧ (s.chan 7).elemsize = 8 ∧ SendersApart s 7 200 8 ∧
    ∀ value, ¬Returns s 7 200 8 value (fun s => channbrecvp s 1 7 200 20 0 0) ∧
      ¬Returns s 7 200 8 value (fun s => channbrecvul s 1 7 200 20 0 0) := by
  obtain ⟨s, checked, reachable⟩ := exists_run anyAction (fun _ => none)
    [.dispatch {}, .call (.chancreate (some 7) 8 0 fun _ => 0)]
    (fun s => decide (s.taskrunning = some 1) && (altfree s 20 && (decide (7 ∈ s.chans) &&
      (decide ((s.chan 7).elemsize = 8) && (decide (s.queue 7 .asend = []) &&
        decide ((s.chan 7).bufsize = 0))))))
    (by decide +kernel)
  simp only [Bool.and_eq_true, decide_eq_true_eq] at checked
  obtain ⟨running, isFree, known, elemsize, empty, direct⟩ := checked
  have apart : SendersApart s 7 200 8 := by
    intro q member
    rw [empty] at member
    cases member
  have nothing : ¬Receivable s 7 := by
    rintro (⟨-, sender⟩ | ⟨buffered, -⟩)
    · exact sender empty
    · exact buffered direct
  exact ⟨s, reachable, running, isFree, known, elemsize, apart, fun value =>
    ⟨not_returns nothing (by decide), not_returns nothing (by decide)⟩⟩

end Libtask
