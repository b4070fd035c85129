import Libtask.Fifo
import Libtask.Lib.Encoding

/-!
# One channel operation

What a call of `_chanop` does to the values that go through the channels, to the queues, and to
the variables that the alternatives point to.
-/

namespace Libtask

open Function (update update_self update_of_ne)
open Outcome (bind_eq_ok)

variable {s s' : St} {t : TaskPtr} {c : ChanPtr} {op : Op} {val array : Nat}

/-! ## The values -/

/-- The alternative that sends, of the own one `a` and that of the partner. -/
def sender (a : Alt) (partner : Option Alt) : Option Alt :=
  if a.op = .chansnd then some a else partner

/-- The alternative that receives. -/
def receiver (a : Alt) (partner : Option Alt) : Option Alt :=
  if a.op = .chansnd then partner else some a

/-- The memory that the bytes of a sender come from: past a buffer that is not empty, the
receiver is served first. -/
def St.source (s s' : St) (c : ChanPtr) : Bytes.Memory :=
  if (s.chan c).nbuf = 0 then s.mem else s'.mem

/-- Channel `c` took the value of the sender `x`, and gave `value` to the receiver `r`. -/
structure Passed (s s' : St) (c : ChanPtr) (x r : Option Alt) (value : List UInt8) : Prop where
  length : value.length = (s.chan c).elemsize
  mem : s'.mem = r.elim s.mem fun r => amove s.mem r.v value
  sent : ∀ c', sentValues c' s'.trace = sentValues c' s.trace ++
    if c' = c then x.toList.map fun x => amoveBytes (s.source s' c) x.v (s.chan c).elemsize
    else []
  received : ∀ c', receivedValues c' s'.trace =
    receivedValues c' s.trace ++ if c' = c then r.toList.map fun _ => value else []

theorem sentValues_sent (c' c : ChanPtr) (u : TaskPtr) (p : AltPtr) (v : List UInt8)
    (rest : List Event) : sentValues c' (.sent u p c v :: rest) =
      (if c' = c then [v] else []) ++ sentValues c' rest := by
  by_cases same : c = c'
  · simp [sentValues, same]
  · simp [sentValues, same, Ne.symm same]

theorem receivedValues_received (c' c : ChanPtr) (u : TaskPtr) (p : AltPtr) (v : List UInt8)
    (rest : List Event) : receivedValues c' (.received u p c v :: rest) =
      (if c' = c then [v] else []) ++ receivedValues c' rest := by
  by_cases same : c = c'
  · simp [receivedValues, same]
  · simp [receivedValues, same, Ne.symm same]

@[simp] theorem sentValues_received (c' c : ChanPtr) (u : TaskPtr) (p : AltPtr)
    (v : List UInt8) (rest : List Event) :
    sentValues c' (.received u p c v :: rest) = sentValues c' rest := rfl

@[simp] theorem receivedValues_sent (c' c : ChanPtr) (u : TaskPtr) (p : AltPtr)
    (v : List UInt8) (rest : List Event) :
    receivedValues c' (.sent u p c v :: rest) = receivedValues c' rest := rfl

@[simp] theorem sentValues_nil (c : ChanPtr) : sentValues c [] = [] := rfl

@[simp] theorem receivedValues_nil (c : ChanPtr) : receivedValues c [] = [] := rfl

theorem Executed.passed {p : AltPtr} {a : Alt} {partner : Option AltRef}
    (executed : Executed s t p a partner s') :
    ∃ value, Passed s s' a.c (sender a (partner.map Prod.snd)) (receiver a (partner.map Prod.snd))
      value := by
  cases executed with
  | @sendDirect o isSnd empty =>
      refine ⟨_, length_amoveBytes s.mem a.v _, ?_, fun c' => ?_, fun c' => ?_⟩
      · simp [receiver, isSnd, altcopyDirect, St.log]
      · simp [sender, isSnd, altcopyDirect, St.log, sentValues_sent, St.source, empty]
      · simp [receiver, isSnd, altcopyDirect, St.log, receivedValues_received]
  | @recvDirect o isRcv empty =>
      refine ⟨_, length_amoveBytes s.mem o.2.v _, ?_, fun c' => ?_, fun c' => ?_⟩
      · simp [receiver, isRcv, altcopyDirect, St.log]
      · simp [sender, isRcv, altcopyDirect, St.log, sentValues_sent, St.source, empty]
      · simp [receiver, isRcv, altcopyDirect, St.log, receivedValues_received]
  | send isSnd buffered room noSender noReceiver sent =>
      obtain ⟨-, -, value, valueEq, rfl⟩ := altcopySend_ok sent
      refine ⟨value, by rw [valueEq, length_amoveBytes], ?_, fun c' => ?_, fun c' => ?_⟩
      · simp [receiver, isSnd, St.setChan]
      · simp [sender, isSnd, valueEq, sentValues_sent, St.source, St.setChan]
      · simp [receiver, isSnd]
  | recv isRcv buffered filled noSender noReceiver received =>
      obtain ⟨-, -, value, valueEq, rfl⟩ := altcopyRecv_ok received
      refine ⟨value, by rw [valueEq, Bytes.length_read], ?_, fun c' => ?_, fun c' => ?_⟩
      · simp [receiver, isRcv]
      · simp [sender, isRcv]
      · simp [receiver, isRcv, receivedValues_received]
  | refill isRcv buffered full received sent =>
      have filled : (s.chan a.c).nbuf ≠ 0 := full.trans_ne buffered
      obtain ⟨-, -, value, valueEq, rfl⟩ := altcopyRecv_ok received
      obtain ⟨-, -, value', valueEq', rfl⟩ := altcopySend_ok sent
      refine ⟨value, by rw [valueEq, Bytes.length_read], ?_, fun c' => ?_, fun c' => ?_⟩
      · simp [receiver, isRcv, St.setChan]
      · simp [sender, isRcv, valueEq', sentValues_sent, St.setChan, St.source, filled]
      · simp [receiver, isRcv, receivedValues_received]

theorem Passed.congr {s₁ : St} {x r : Option Alt} {value : List UInt8}
    (passed : Passed s s₁ c x r value) (mem : s'.mem = s₁.mem)
    (events : s'.events .channels = s₁.events .channels) : Passed s s' c x r value where
  length := passed.length
  mem := mem.trans passed.mem
  sent := by
    intro c'
    rw [← sentValues_events s', events, sentValues_events, passed.sent, St.source, St.source, mem]
  received := by
    intro c'
    rw [← receivedValues_events s', events, receivedValues_events, passed.received]

section
variable {V : Type} {e : Bytes.Encoding V} {x r : Option Alt} {a : Alt}
variable {value : List UInt8} {p q : Nat}

/-- Only the variable of the receiver is written. -/
theorem Passed.read_eq (passed : Passed s s' c x r value)
    (apart : ∀ a q, r = some a → a.v = some q → Bytes.Apart (s.chan c).elemsize p q) :
    Bytes.read s'.mem p (s.chan c).elemsize = Bytes.read s.mem p (s.chan c).elemsize := by
  rw [passed.mem]
  cases r with
  | none => rfl
  | some a =>
      simp only [Option.elim_some]
      cases valEq : a.v with
      | none => rfl
      | some q =>
          refine Bytes.read_write_of_disjoint _ _ ?_
          rw [passed.length]
          exact (apart a q rfl valEq).symm

theorem Passed.load_eq (passed : Passed s s' c x (some a) value)
    (elemsize : (s.chan c).elemsize = e.size) (valEq : a.v = some q) :
    e.load s'.mem q = e.value value := by
  have length : value.length = e.size := passed.length.trans elemsize
  rw [passed.mem, Bytes.Encoding.load, Option.elim_some, valEq, amove, ← length,
    Bytes.read_write_self]

/-- The value in the variable of the sender goes to the channel. -/
theorem Passed.sent_eq {v : V} (passed : Passed s s' c (some a) r value)
    (elemsize : (s.chan c).elemsize = e.size) (valEq : a.v = some p)
    (holds : Bytes.read s.mem p e.size = e.bytes v)
    (apart : ∀ a q, r = some a → a.v = some q → Bytes.Apart e.size p q) (c' : ChanPtr) :
    sentValues c' s'.trace = sentValues c' s.trace ++ if c' = c then [e.bytes v] else [] := by
  have later : Bytes.read s'.mem p e.size = e.bytes v := by
    rw [← elemsize] at apart holds ⊢
    rw [passed.read_eq apart, holds]
  have value : amoveBytes (s.source s' c) a.v (s.chan c).elemsize = e.bytes v := by
    rw [valEq, elemsize, amoveBytes, St.source]
    split
    · exact holds
    · exact later
  rw [passed.sent c']
  simp [value]

end

/-! ## The call -/

/-- What `altexec` does on alternative `a`.  A partner leaves the queues, and is told the
alternative that was executed. -/
structure Exec (s s' : St) (a : Alt) (partner : Option AltRef) (value : List UInt8) : Prop where
  passed : Passed s s' a.c (sender a (partner.map Prod.snd)) (receiver a (partner.map Prod.snd))
    value
  chans : s'.chans = s.chans
  queued : ∀ o, partner = some o → s.alt? o.1 = some o.2 ∧
    ∃ dir, chanarray (otherop a.op) = some dir ∧ o.1 ∈ s.queue a.c dir
  member : ∀ c dir q, q ∈ s'.queue c dir ↔
    q ∈ s.queue c dir ∧ ∀ o, partner = some o → q.base ≠ o.1.base
  alts : ∀ b, b ≠ a.xalt.base → (∀ o, partner = some o → b ≠ o.1.base) → s'.alts b = s.alts b
  told : ∀ o, partner = some o → s'.alts o.1.base =
    (s.alts o.1.base).modify 0 fun first => { first with xalt := o.1 }

theorem Copied.chans (copied : Copied s s') : s'.chans = s.chans := by
  obtain ⟨mem, chan, trace, rfl⟩ := copied.rest
  rfl

theorem altexec_exec {run : Option TaskPtr} {p : AltPtr} {a : Alt} {rand : Nat}
    (inv : Inv run s) (all : ∀ c, Rendezvous s c) (altEq : s.alt? p = some a)
    (can : altcanexec s a = true) (done : altexec s t p rand = .ok s') :
    ∃ partner value, Exec s s' a partner value ∧
      ∀ b, (∀ o, partner = some o → b ≠ o.1.base) → s'.alts b = s.alts b := by
  obtain ⟨a', altEq', shape⟩ := altexec_ok done
  rw [altEq] at altEq'
  obtain rfl := Option.some.inj altEq'
  rcases shape with ⟨nobody, copied⟩ | ⟨other, o, s₁, s₂, picked, otherEq, copied, dequeued,
    -, readied⟩
  · obtain ⟨value, passed⟩ := ((all a.c).executed can (partnerOf_none nobody) copied).passed
    have copy := altcopy_copied copied
    refine ⟨none, value, ⟨passed, copy.chans, by simp, ?_, ?_, by simp⟩, ?_⟩
    · intro c dir q
      simp [copy.queue_eq]
    · exact fun b _ _ => by rw [copy.alts]
    · exact fun b _ => by rw [copy.alts]
  · obtain ⟨dir, dirEq, member⟩ := altpick_eq_some picked
    obtain ⟨value, passed⟩ :=
      ((all a.c).executed can (partnerOf_some picked o) copied).passed
    have copy := altcopy_copied copied
    have member₁ : other ∈ s₁.queue a.c dir := by
      rwa [copy.queue_eq]
    have otherEq₁ : s₁.alt? other = some o := by
      simpa only [St.alt?, copy.alts] using otherEq
    have parked := (inv.copied copy).parked
    obtain ⟨s₃, dequeued', removed⟩ := parked.altalldequeue member₁ otherEq₁
    rw [dequeued] at dequeued'
    obtain rfl := Except.ok.inj dequeued'
    have xalt := (parked.blocked member₁ otherEq₁).2.2.1
    obtain ⟨chan, rfl⟩ := removed.rest
    have keeps := taskready_keepsChannels readied
    have others : ∀ b, (∀ o', some (other, o) = some o' → b ≠ o'.1.base) →
        s'.alts b = s.alts b := by
      intro b notPartner
      rw [keeps.alts, xalt]
      exact (update_of_ne (notPartner _ rfl) _ _).trans (congrFun copy.alts b)
    refine ⟨some (other, o), value, ⟨passed.congr keeps.mem keeps.events,
      keeps.chans.trans copy.chans, ?_, ?_, fun b _ => others b, ?_⟩, others⟩
    · rintro o' ⟨⟩
      exact ⟨otherEq, dir, dirEq, member⟩
    · intro c dir q
      have queue : s'.queue c dir = ({ s₁ with chan } : St).queue c dir := by
        rw [St.queue, keeps.chan]
        rfl
      rw [queue, removed.member, copy.queue_eq]
      simp
    · rintro o' ⟨⟩
      rw [keeps.alts, xalt]
      exact (update_self _ _ _).trans (by rw [copy.alts])

/-- The alternative of a `_chanop` of `t`. -/
def ownAlt (t : TaskPtr) (c : ChanPtr) (op : Op) (val array : Nat) : Alt :=
  { c, v := some val, op, task := t, xalt := ⟨array, 0⟩ }

theorem Exec.sends {partner : Option AltRef} {value : List UInt8}
    (exec : Exec s s' (ownAlt t c .chansnd val array) partner value) :
    Passed s s' c (some (ownAlt t c .chansnd val array)) (partner.map Prod.snd) value :=
  exec.passed

theorem Exec.receives {partner : Option AltRef} {value : List UInt8}
    (exec : Exec s s' (ownAlt t c .chanrcv val array) partner value) :
    Passed s s' c (partner.map Prod.snd) (some (ownAlt t c .chanrcv val array)) value :=
  exec.passed

/-- The array at `array` is that of a `_chanop` with these arguments. -/
structure Entry (s : St) (c : ChanPtr) (op : Op) (val array : Nat) : Prop where
  single : altcount (s.alts array) = 1
  alt : ∃ a, s.alt? ⟨array, 0⟩ = some a ∧ a.c = c ∧ a.op = op ∧ a.v = some val

theorem Entry.of_told {c : ChanPtr} {op : Op} {val array : Nat} {x : AltPtr}
    (entry : Entry s c op val array)
    (told : s'.alts array = (s.alts array).modify 0 fun first => { first with xalt := x }) :
    Entry s' c op val array := by
  obtain ⟨a, altEq, channel, isOp, valEq⟩ := entry.alt
  rw [St.alt?] at altEq
  cases alts : s.alts array with
  | nil => simp [alts] at altEq
  | cons first rest =>
      have single := entry.single
      rw [alts] at altEq told single
      obtain rfl := Option.some.inj altEq
      refine ⟨by rw [told]; exact single, { first with xalt := x }, ?_, channel, isOp, valEq⟩
      rw [St.alt?, told]
      rfl

/-- What a `_chanop` of task `t` does that may block. -/
inductive ChanopStep (s : St) (t : TaskPtr) (c : ChanPtr) (op : Op) (val array : Nat)
    (s' : St) : Prop where
  | block : (s'.task t).pc = .chanop array → Entry s' c op val array → s'.mem = s.mem →
      s'.chans = s.chans →
      (∀ c', sentValues c' s'.trace = sentValues c' s.trace ∧
        receivedValues c' s'.trace = receivedValues c' s.trace) →
      (∀ c' dir q, q ∈ s'.queue c' dir ↔
        q ∈ s.queue c' dir ∨ c' = c ∧ chanarray op = some dir ∧ q = ⟨array, 0⟩) →
      (∀ b, b ≠ array → s'.alts b = s.alts b) → ChanopStep s t c op val array s'
  | exec {r : Option Int} {partner : Option AltRef} {value : List UInt8} :
      (s'.task t).pc = .user r →
      Exec s s' (ownAlt t c op val array) partner value → ChanopStep s t c op val array s'

theorem entered_chanop (t : TaskPtr) (isOp : op = .chansnd ∨ op = .chanrcv) (canblock : Bool) :
    entered { s with alts := update s.alts array (chanopAlts c op (some val) canblock) } t array =
      [ownAlt t c op val array] := by
  rcases isOp with rfl | rfl <;> cases canblock <;>
    simp [entered, chanopAlts, altcount, Op.isTerminator, ownAlt]

/-- The array of the call is the only one that changed before. -/
theorem Exec.of_enter {s₀ s₁ : St} {partner : Option AltRef} {value : List UInt8}
    (exec : Exec s₀ s₁ (ownAlt t c op val array) partner value)
    (before : ∃ alts, s₀ = { s with alts } ∧ ∀ b, b ≠ array → alts b = s.alts b)
    (unqueued : ∀ c dir q, q ∈ s.queue c dir → q.base ≠ array) (keeps : KeepsChannels s₁ s') :
    Exec s s' (ownAlt t c op val array) partner value := by
  obtain ⟨alts, rfl, others⟩ := before
  have apart : ∀ o, partner = some o → o.1.base ≠ array := by
    intro o isPartner
    obtain ⟨-, dir, -, member⟩ := exec.queued o isPartner
    exact unqueued _ _ _ member
  refine ⟨?_, keeps.chans.trans exec.chans, ?_, ?_, ?_, ?_⟩
  · obtain ⟨length, mem, sent, received⟩ := exec.passed.congr keeps.mem keeps.events
    exact ⟨length, mem, sent, received⟩
  · intro o isPartner
    obtain ⟨altEq, dir, dirEq, member⟩ := exec.queued o isPartner
    refine ⟨?_, dir, dirEq, member⟩
    simpa only [St.alt?, others _ (apart o isPartner)] using altEq
  · intro c' dir q
    rw [St.queue, keeps.chan]
    exact exec.member c' dir q
  · intro b notOwn notPartner
    rw [keeps.alts, exec.alts b notOwn notPartner]
    exact others b notOwn
  · intro o isPartner
    rw [keeps.alts, exec.told o isPartner]
    exact congrArg (List.modify · 0 _) (others _ (apart o isPartner))

theorem chanop_step {rand1 rand2 : Nat} (inv : Inv s.taskrunning s) (all : ∀ c, Rendezvous s c)
    (running : s.taskrunning = some t)
    (isEnabled : enabled s (.call (.chanop c op (some val) true array rand1 rand2)))
    (stepped : step s (.call (.chanop c op (some val) true array rand1 rand2)) = .ok s') :
    ChanopStep s t c op val array s' := by
  cases step_shape isEnabled stepped with
  | @call _ self s₂ flow runs isLegal called finished =>
      rw [running] at runs inv
      obtain rfl := Option.some.inj runs
      obtain ⟨flow', alted, flowEq⟩ := chanop_ok called
      have entering := entering_chanop inv isLegal
      have isOp : op = .chansnd ∨ op = .chanrcv := by
        simp only [legal, Bool.and_eq_true, decide_eq_true_eq] at isLegal
        exact isLegal.2
      have unqueued : ∀ c dir q, q ∈ s.queue c dir → q.base ≠ array :=
        fun c dir q member => entering.unqueued member
      have keeps := (finish_frame finished).channels
      have enteredEq : entered { s with
          alts := update s.alts array (chanopAlts c op (some val) true) } t array =
            [ownAlt t c op val array] := entered_chanop t isOp true
      have before : ∃ alts, enter { s with
          alts := update s.alts array (chanopAlts c op (some val) true) } t array =
            { s with alts } ∧ ∀ b, b ≠ array → alts b = s.alts b := by
        refine ⟨_, rfl, fun b other => ?_⟩
        exact (update_of_ne other _ _).trans (update_of_ne other _ _)
      cases chanalt_alted entering alted with
      | @exec i a _ atI can executed =>
          obtain ⟨partner, value, exec, -⟩ := altexec_exec entering.entered_inv
            (entering.rendezvous all) (enter_alt? entering.isTerminated atI) can executed
          rw [enteredEq, List.getElem?_singleton] at atI
          have own : a = ownAlt t c op val array := by
            split at atI
            · exact (Option.some.inj atI).symm
            · cases atI
          subst own
          obtain ⟨r, rfl⟩ : ∃ r, flow = .ret r := by
            rcases flowEq with ⟨r, -, rfl⟩ | ⟨pc, flowEq, -⟩
            · exact ⟨_, rfl⟩
            · cases flowEq
          refine .exec (r := r) ?_ (exec.of_enter before unqueued keeps)
          rw [finish_pc finished, if_pos rfl]
          rfl
      | noblock blocked ends =>
          refine absurd ?_ ends
          rcases isOp with rfl | rfl <;>
            simp [terminator, chanopAlts, altcount, Op.isTerminator]
      | @block s₁ blocked ends enqueued =>
          obtain rfl : flow = .switch (.chanop array) := by
            rcases flowEq with ⟨r, flowEq, -⟩ | ⟨pc, flowEq, rfl⟩
            · cases flowEq
            · cases flowEq
              rfl
          obtain ⟨chan, rfl⟩ := enqueued.rest
          have alts : s'.alts array = ownAlt t c op val array ::
              [{ c, v := some val, op := .chanend, task := 0, xalt := ⟨0, 0⟩ }] := by
            have drops : (chanopAlts c op (some val) true).drop
                (altcount (chanopAlts c op (some val) true)) =
                  [{ c, v := some val, op := .chanend, task := 0, xalt := ⟨0, 0⟩ }] := by
              rcases isOp with rfl | rfl <;> simp [chanopAlts, altcount, Op.isTerminator]
            rw [keeps.alts]
            simp only [St.log, enter, update_self, enteredEq, drops, List.singleton_append]
          refine .block ?_ ⟨?_, ownAlt t c op val array, ?_, rfl, rfl, rfl⟩ keeps.mem keeps.chans
            (fun c' => ?_) (fun c' dir q => ?_) (fun b other => ?_)
          · rw [finish_pc finished, if_pos rfl]
            rfl
          · rw [alts]
            rcases isOp with rfl | rfl <;> rfl
          · rw [St.alt?, alts]
            rfl
          · rw [← sentValues_events s', ← receivedValues_events s', keeps.events,
              sentValues_events, receivedValues_events]
            exact log_values _ ⟨rfl, rfl⟩
          · rw [St.queue, keeps.chan]
            refine (enqueued.member c' dir q).trans (or_congr Iff.rfl ?_)
            rw [enteredEq]
            constructor
            · rintro ⟨k, a, atK, rfl, channel, dirEq⟩
              rw [List.getElem?_singleton] at atK
              split at atK
              next zero =>
                obtain rfl := Option.some.inj atK
                subst zero
                exact ⟨channel.symm, dirEq, rfl⟩
              next => cases atK
            · rintro ⟨rfl, dirEq, rfl⟩
              exact ⟨0, _, rfl, rfl, rfl, dirEq⟩
          · obtain ⟨alts, sameState, others⟩ := before
            rw [keeps.alts]
            exact (congrFun (congrArg St.alts sameState) b).trans (others b other)

end Libtask
