import Libtask.Fifo
import Libtask.Nonblock
import Mathlib.Data.Fintype.EquivFin

/-!
# The area of a channel's buffer

`chancreate` computes the size of the area as a product of `int`s, `altcopy` its positions with
unsigned products.  They agree as long as the area of all slots is an `int`.
-/

namespace Libtask

open Function (update update_self update_of_ne)
open Outcome (ok_bind)
open Transition

/-- Where slot `i` starts. -/
def Channel.slotPos (chan : Channel) (i : Nat) : Nat := i * chan.elemsize % 2 ^ 32

/-- No bytes are moved to or from the outside of the buffer, and no slot has bytes of another
one. -/
structure BufferSafe (s : St) (c : ChanPtr) : Prop where
  stays : ∀ act, enabled s act → step s act ≠ .error (.fault (.bufRange c))
  recv : (s.chan c).bufsize ≠ 0 → InBuffer (s.chan c) (recvPos (s.chan c))
  send : (s.chan c).bufsize ≠ 0 → InBuffer (s.chan c) (sendPos (s.chan c))
  apart : ∀ i j, i < (s.chan c).bufsize → j < (s.chan c).bufsize → i ≠ j →
    (s.chan c).slotPos i + (s.chan c).elemsize ≤ (s.chan c).slotPos j ∨
      (s.chan c).slotPos j + (s.chan c).elemsize ≤ (s.chan c).slotPos i

/-! ## Sizes whose product is an int -/

theorem Channel.Sound.apart {chan : Channel} (sound : chan.Sound) {i j : Nat} (before : i < j)
    (inside : j < chan.bufsize) : chan.slotPos i + chan.elemsize ≤ chan.slotPos j := by
  have area := sound.area
  have first : i * chan.elemsize + chan.elemsize ≤ j * chan.elemsize := slot_le before
  have last : j * chan.elemsize + chan.elemsize ≤ chan.bufsize * chan.elemsize := slot_le inside
  rw [slotPos, slotPos, Nat.mod_eq_of_lt (by omega), Nat.mod_eq_of_lt (by omega)]
  exact first

theorem bufferSafe_of_sound {allowed : St → Act → Prop} {s : St} {c : ChanPtr}
    (reachable : Reachable allowed s) (known : c ∈ s.chans) (sound : (s.chan c).Sound) :
    BufferSafe s c := by
  have fifo := reachable_fifo reachable known sound
  constructor
  · exact fun act isEnabled => (stays_inside reachable known sound isEnabled).1
  · exact fun buffered => (fifo.recvPos sound.area buffered).2
  · exact fun buffered => (fifo.sendPos sound.small sound.area buffered).2
  · intro i j first second different
    rcases Nat.lt_or_gt_of_ne different with before | behind
    · exact .inl (sound.apart before second)
    · exact .inr (sound.apart behind first)

/-! ## A run of sends -/

/-- A send that does not block. -/
def nbsend (c : ChanPtr) (a : Nat) : Act := .call (.chanop c .chansnd none false a 0 0)

/-- A task is about to send, and the first `k` slots are filled. -/
structure Sending (s : St) (c : ChanPtr) (chan : Channel) (k : Nat) : Prop where
  running : s.taskrunning.isSome = true
  known : c ∈ s.chans
  bufsize : (s.chan c).bufsize = chan.bufsize
  elemsize : (s.chan c).elemsize = chan.elemsize
  bufbytes : (s.chan c).bufbytes = chan.bufbytes
  off : (s.chan c).off = 0
  nbuf : (s.chan c).nbuf = k
  receivers : (s.chan c).arecv.a = []

/-- Without a receiver, a send to a buffer with room is a copy into the buffer. -/
theorem nbsend_step {s : St} {self : TaskPtr} {c : ChanPtr} {a : Nat}
    (running : s.taskrunning = some self) (receivers : (s.chan c).arecv.a = [])
    (room : (s.chan c).nbuf < (s.chan c).bufsize) :
    step s (nbsend c a) =
      altcopySend (inChanop s self c .chansnd none a) self c
          (⟨a, 0⟩, chanopAlt self c .chansnd none a) >>= fun s' =>
        .ok (s'.setTask self fun task => { task with pc := .user (some 1) }) := by
  have can : altcanexec s (chanopAlt self c .chansnd none a) = true :=
    altcanexec_iff.mpr (.inl ⟨rfl, .inr ⟨Nat.ne_of_gt (Nat.zero_lt_of_lt room), room⟩⟩)
  have alone : altpick (inChanop s self c .chansnd none a) (chanopAlt self c .chansnd none a) 0 =
      none := by
    simp [altpick, chanopAlt, otherop, chanarray, inChanop, Channel.queue, receivers]
  have copied : altcopy (inChanop s self c .chansnd none a) self
        (⟨a, 0⟩, chanopAlt self c .chansnd none a) none =
      altcopySend (inChanop s self c .chansnd none a) self c
        (⟨a, 0⟩, chanopAlt self c .chansnd none a) := rfl
  simp only [step, running, nbsend, call_nonblock (.inl rfl), if_pos can, altexec, inChanop_alt?,
    alone, copied]
  cases altcopySend (inChanop s self c .chansnd none a) self c
    (⟨a, 0⟩, chanopAlt self c .chansnd none a) <;> rfl

/-- An array that no call uses. -/
theorem exists_altfree (s : St) : ∃ a, altfree s a = true := by
  obtain ⟨a, unused⟩ := Infinite.exists_notMem_finset
    (s.alltask.filterMap fun t => (s.task t).pc.altbase).toFinset
  refine ⟨a, List.all_eq_true.mpr fun t member => decide_eq_true fun used => unused ?_⟩
  rw [List.mem_toFinset, List.mem_filterMap]
  exact ⟨t, member, used⟩

theorem Sending.can_send {s : St} {c : ChanPtr} {chan : Channel} {k : Nat}
    (sending : Sending s c chan k) : ∃ a, enabled s (nbsend c a) := by
  obtain ⟨a, isFree⟩ := exists_altfree s
  refine ⟨a, sending.running, ?_⟩
  simp [legal, isFree, sending.known]

theorem Sending.sendPos_eq {s : St} {c : ChanPtr} {chan : Channel} {k : Nat}
    (sending : Sending s c chan k) (room : k < chan.bufsize) (small : chan.bufsize < 2 ^ 31) :
    sendPos (s.chan c) = chan.slotPos k := by
  rw [sendPos, sending.off, sending.nbuf, sending.bufsize, sending.elemsize, Nat.zero_add,
    Nat.mod_eq_of_lt (by omega : k < 2 ^ 32), Nat.mod_eq_of_lt room, Channel.slotPos]

/-- The next slot is filled if it is in the area. -/
theorem Sending.next {s : St} {c : ChanPtr} {chan : Channel} {k : Nat}
    (sending : Sending s c chan k) (room : k < chan.bufsize) (small : chan.bufsize < 2 ^ 31)
    (fits : (chan.slotPos k + chan.elemsize : Int) ≤ chan.bufbytes) :
    ∃ s', Reaches runtime anyAction s s' ∧ Sending s' c chan (k + 1) := by
  obtain ⟨a, isEnabled⟩ := sending.can_send
  obtain ⟨self, running⟩ := Option.isSome_iff_exists.mp sending.running
  have stepped := nbsend_step (a := a) running sending.receivers
    (by rw [sending.nbuf, sending.bufsize]; exact room)
  have inBuffer : InBuffer (s.chan c) (sendPos (s.chan c)) := by
    rw [InBuffer, sending.sendPos_eq room small, sending.elemsize, sending.bufbytes]
    exact fits
  have buffered : (s.chan c).bufsize ≠ 0 := by
    rw [sending.bufsize]
    omega
  simp only [altcopySend, inChanop, buffered, inBuffer, not_true_eq_false, if_false, ok_bind]
    at stepped
  refine ⟨_, Reaches.refl.step (a := nbsend c a) isEnabled trivial stepped, ?_⟩
  constructor
  · simpa [St.setTask, St.setChan, St.log] using sending.running
  · exact sending.known
  · simpa [St.setTask, St.setChan, St.log] using sending.bufsize
  · simpa [St.setTask, St.setChan, St.log] using sending.elemsize
  · simpa [St.setTask, St.setChan, St.log] using sending.bufbytes
  · simpa [St.setTask, St.setChan, St.log] using sending.off
  · simp only [St.setTask, St.setChan, St.log, update_self, sending.nbuf]
    omega
  · simpa [St.setTask, St.setChan, St.log] using sending.receivers

/-- The next slot is not in the area. -/
theorem Sending.leaves {s : St} {c : ChanPtr} {chan : Channel} {k : Nat}
    (sending : Sending s c chan k) (room : k < chan.bufsize) (small : chan.bufsize < 2 ^ 31)
    (outside : ¬(chan.slotPos k + chan.elemsize : Int) ≤ chan.bufbytes) :
    ∃ act, enabled s act ∧ step s act = .error (.fault (.bufRange c)) := by
  obtain ⟨a, isEnabled⟩ := sending.can_send
  obtain ⟨self, running⟩ := Option.isSome_iff_exists.mp sending.running
  have stepped := nbsend_step (a := a) running sending.receivers
    (by rw [sending.nbuf, sending.bufsize]; exact room)
  have outside' : ¬InBuffer (s.chan c) (sendPos (s.chan c)) := by
    rw [InBuffer, sending.sendPos_eq room small, sending.elemsize, sending.bufbytes]
    exact outside
  have buffered : (s.chan c).bufsize ≠ 0 := by
    rw [sending.bufsize]
    omega
  simp only [altcopySend, inChanop, buffered, outside', not_false_eq_true, if_false, if_true]
    at stepped
  exact ⟨_, isEnabled, stepped⟩

/-- A channel that was just made, with a task that can send to it. -/
theorem chancreate_sending {s s₁ : St} {c : ChanPtr} {elemsize bufsize : Int} {junk : Bytes.Memory}
    (isEnabled : enabled s (.call (.chancreate (some c) elemsize bufsize junk)))
    (stepped : step s (.call (.chancreate (some c) elemsize bufsize junk)) = .ok s₁) :
    Sending s₁ c (newChannel elemsize bufsize junk) 0 := by
  obtain ⟨known, made⟩ := chancreate_chan isEnabled stepped
  obtain ⟨self, running⟩ := Option.isSome_iff_exists.mp isEnabled.1
  have stays : s₁.taskrunning = s.taskrunning := by
    simp only [step, running, call, returning, chancreate] at stepped
    obtain rfl := Except.ok.inj stepped
    rfl
  constructor
  · rw [stays]
    exact isEnabled.1
  · exact known
  all_goals rw [made]
  all_goals rfl

/-- If the buffer is never left, it can be filled. -/
theorem Sending.fill {s : St} {c : ChanPtr} {chan : Channel} (sending : Sending s c chan 0)
    (small : chan.bufsize < 2 ^ 31)
    (safe : ∀ s', Reaches runtime anyAction s s' → BufferSafe s' c) {k : Nat}
    (within : k ≤ chan.bufsize) :
    (∃ s', Reaches runtime anyAction s s' ∧ Sending s' c chan k) ∧
      ∀ i < k, (chan.slotPos i + chan.elemsize : Int) ≤ chan.bufbytes := by
  induction k with
  | zero => exact ⟨⟨s, .refl, sending⟩, fun i none => absurd none (Nat.not_lt_zero i)⟩
  | succ k ih =>
      obtain ⟨⟨s₁, runs, sending₁⟩, before⟩ := ih (by omega)
      have fits : (chan.slotPos k + chan.elemsize : Int) ≤ chan.bufbytes := by
        by_contra outside
        obtain ⟨act, isEnabled, stopped⟩ := sending₁.leaves (by omega) small outside
        exact (safe s₁ runs).stays act isEnabled stopped
      obtain ⟨s₂, further, sending₂⟩ := sending₁.next (by omega) small fits
      refine ⟨⟨s₂, runs.trans further, sending₂⟩, fun i less => ?_⟩
      rcases Nat.lt_succ_iff_lt_or_eq.mp less with earlier | rfl
      · exact before i earlier
      · exact fits

/-- Slots that all lie in an area of less than `2 ^ 31` bytes need no more than that. -/
theorem slots_le {chan : Channel} (fits : ∀ i < chan.bufsize,
      (chan.slotPos i + chan.elemsize : Int) ≤ chan.bufbytes)
    (small : chan.bufbytes < 2 ^ 31) {k : Nat} (inside : k < chan.bufsize) :
    ((k * chan.elemsize + chan.elemsize : Nat) : Int) ≤ chan.bufbytes := by
  induction k with
  | zero => simpa [Channel.slotPos] using fits 0 inside
  | succ k ih =>
      have before := ih (by omega)
      have here := fits (k + 1) inside
      have noWrap : (k + 1) * chan.elemsize < 2 ^ 32 := by
        rw [Nat.succ_mul]
        omega
      rw [Channel.slotPos, Nat.mod_eq_of_lt noWrap] at here
      exact_mod_cast here

/-! ## The product decides -/

/-- The buffer is safe in all runs exactly if the area of all slots is an `int`. -/
theorem buffer_safe_iff {s s₁ : St} {c : ChanPtr} {elemsize bufsize : Int} {junk : Bytes.Memory}
    (reachable : Reachable anyAction s) (nonneg : 0 ≤ elemsize) (isInt : elemsize < 2 ^ 31)
    (nonneg' : 0 ≤ bufsize) (isInt' : bufsize < 2 ^ 31)
    (isEnabled : enabled s (.call (.chancreate (some c) elemsize bufsize junk)))
    (stepped : step s (.call (.chancreate (some c) elemsize bufsize junk)) = .ok s₁) :
    (∀ s₂, Reaches runtime anyAction s₁ s₂ → BufferSafe s₂ c) ↔
      bufsize * elemsize < 2 ^ 31 := by
  constructor
  · intro safe
    have elemEq : ((newChannel elemsize bufsize junk).elemsize : Int) = elemsize :=
      toUint_eq nonneg isInt
    have sizeEq : ((newChannel elemsize bufsize junk).bufsize : Int) = bufsize :=
      toUint_eq nonneg' isInt'
    have small : (newChannel elemsize bufsize junk).bufsize < 2 ^ 31 := by omega
    have area : (newChannel elemsize bufsize junk).bufbytes < 2 ^ 31 := by
      have isInt := (BitVec.ofInt 32 (bufsize * elemsize)).toInt_lt
      simpa [newChannel, bufArea] using isInt
    obtain ⟨-, fits⟩ :=
      (chancreate_sending isEnabled stepped).fill small safe (Nat.le_refl _)
    rcases Nat.eq_zero_or_pos (newChannel elemsize bufsize junk).bufsize with empty | some?
    · rw [← sizeEq, empty]
      simp
    · have last := slots_le fits area (Nat.sub_one_lt_of_lt some?)
      rw [← Nat.succ_mul, Nat.succ_eq_add_one, Nat.sub_add_cancel some?] at last
      calc
        bufsize * elemsize = ((newChannel elemsize bufsize junk).bufsize *
            (newChannel elemsize bufsize junk).elemsize : Nat) := by
          rw [Int.natCast_mul, sizeEq, elemEq]
        _ ≤ (newChannel elemsize bufsize junk).bufbytes := last
        _ < 2 ^ 31 := area
  · intro area s₂ runs
    obtain ⟨reachable₂, known, -⟩ := chancreate_sizes reachable isEnabled stepped runs
    exact bufferSafe_of_sound reachable₂ known (runs_sound reachable isEnabled stepped runs
      (newChannel_sound junk nonneg isInt nonneg' isInt' area))

/-- A channel for `2 ^ 28 - 1` elements of 8 bytes, the most that fit. -/
theorem buffer_safe_most : ∃ s s₁ : St,
    enabled s (.call (.chancreate (some 7) 8 268435455 fun _ => 0)) ∧
      step s (.call (.chancreate (some 7) 8 268435455 fun _ => 0)) = .ok s₁ ∧
      ∀ s₂, Reaches runtime anyAction s₁ s₂ → BufferSafe s₂ 7 := by
  obtain ⟨s, s₁, -, reachable, -, isEnabled, -, stepped, -⟩ :=
    exists_run_through anyAction (fun _ => none) [.dispatch {}] (fun _ => true)
      (.call (.chancreate (some 7) 8 268435455 fun _ => 0)) [] (fun _ => true) (by decide +kernel)
  exact ⟨s, s₁, isEnabled, stepped, (buffer_safe_iff reachable (by decide) (by decide) (by decide)
    (by decide) isEnabled stepped).mpr (by decide)⟩

/-- A channel for `2 ^ 16` elements of `2 ^ 16` bytes: the area is empty, and the first send writes
behind it. -/
theorem buffer_left : ∃ s s₁ : St, Reachable anyAction s ∧
    enabled s (.call (.chancreate (some 7) 65536 65536 fun _ => 0)) ∧
      step s (.call (.chancreate (some 7) 65536 65536 fun _ => 0)) = .ok s₁ ∧
      ¬BufferSafe s₁ 7 := by
  obtain ⟨s, s₁, -, reachable, -, isEnabled, -, stepped, -⟩ :=
    exists_run_through anyAction (fun _ => none) [.dispatch {}] (fun _ => true)
      (.call (.chancreate (some 7) 65536 65536 fun _ => 0)) [] (fun _ => true) (by decide +kernel)
  refine ⟨s, s₁, reachable, isEnabled, stepped, fun safe => ?_⟩
  obtain ⟨act, able, stopped⟩ :=
    (chancreate_sending isEnabled stepped).leaves (by decide) (by decide) (by decide)
  exact safe.stays act able stopped

end Libtask
