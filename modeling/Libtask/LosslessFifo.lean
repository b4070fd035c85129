import Libtask.Chanop

/-!
# A channel is a lossless FIFO

The values that go through a channel are the bytes in the variables of the tasks: a step that
moves elements takes them from the variable of the sender, and stores them in that of the
receiver.
-/

namespace Libtask

open Function (update update_self update_of_ne)
open Transition

section

variable {s s' s₀ s₁ : St} {self : TaskPtr} {c : ChanPtr}

/-! ## Elements that move -/

/-- No value of channel `c` moves. -/
def Still (s s' : St) (c : ChanPtr) : Prop :=
  sentValues c s'.trace = sentValues c s.trace ∧
    receivedValues c s'.trace = receivedValues c s.trace

/-- An alternative on channel `c`: that of the caller, or one that waited in a queue. -/
structure Offered (s s' : St) (c : ChanPtr) (op : Op) (o : AltRef) : Prop where
  channel : o.2.c = c
  isOp : o.2.op = op
  found : s'.alt? o.1 = some o.2 ∨
    s.alt? o.1 = some o.2 ∧ ∃ dir, chanarray op = some dir ∧ o.1 ∈ s.queue c dir

/-- Channel `c` takes `given` from the variable of the sender `x` (zeros, if it names none), and
stores `value` in that of the receiver `r`.  No other byte changes. -/
structure Handed (s s' : St) (c : ChanPtr) (x r : Option AltRef) (given value : List UInt8) :
    Prop where
  moves : x ≠ none ∨ r ≠ none
  sender : ∀ o, x = some o → Offered s s' c .chansnd o
  receiver : ∀ o, r = some o → Offered s s' c .chanrcv o
  sent : sentValues c s'.trace = sentValues c s.trace ++ x.toList.map fun _ => given
  received : receivedValues c s'.trace = receivedValues c s.trace ++ r.toList.map fun _ => value
  zeros : ∀ o, x = some o → o.2.v = none → given = List.replicate (s.chan c).elemsize 0
  /-- a receiver is served first, unless the element goes past the buffer -/
  taken : ∀ o p, x = some o → o.2.v = some p →
    given = Bytes.read (if (s.chan c).nbuf = 0 then s.mem else s'.mem) p (s.chan c).elemsize
  stored : ∀ o p, r = some o → o.2.v = some p →
    Bytes.read s'.mem p (s.chan c).elemsize = value
  frame : ∀ addr, (∀ o p, r = some o → o.2.v = some p →
    addr < p ∨ p + (s.chan c).elemsize ≤ addr) → s'.mem addr = s.mem addr

/-- What a step may do to the values of channel `c`. -/
def Moves (s s' : St) (c : ChanPtr) : Prop :=
  Still s s' c ∨ ∃ x r given value, Handed s s' c x r given value

theorem Passed.handed {x r : Option AltRef} {value : List UInt8}
    (passed : Passed s s' c (x.map Prod.snd) (r.map Prod.snd) value)
    (moves : x ≠ none ∨ r ≠ none) (sender : ∀ o, x = some o → Offered s s' c .chansnd o)
    (receiver : ∀ o, r = some o → Offered s s' c .chanrcv o) : Moves s s' c := by
  refine Or.inr ⟨x, r, x.elim [] fun o => amoveBytes (s.source s' c) o.2.v (s.chan c).elemsize,
    value, moves, sender, receiver, ?_, ?_, ?_, ?_, ?_, ?_⟩
  · rw [passed.sent c, if_pos rfl]
    cases x <;> rfl
  · rw [passed.received c, if_pos rfl]
    cases r <;> rfl
  · rintro o rfl noVariable
    simp [amoveBytes, noVariable]
  · rintro o p rfl valEq
    simp [amoveBytes, valEq, St.source]
  · rintro o p rfl valEq
    rw [passed.mem, ← passed.length]
    simp [amove, valEq]
  · intro addr outside
    rw [passed.mem]
    cases r with
    | none => rfl
    | some o =>
        simp only [Option.map_some, Option.elim_some, amove]
        cases valEq : o.2.v with
        | none => rfl
        | some p =>
            rcases outside o p rfl valEq with below | above
            · exact Bytes.write_of_lt _ _ below
            · exact Bytes.write_of_ge _ _ (passed.length ▸ above)

/-- What the scheduler does before and after leaves the values alone. -/
theorem Moves.congr (moves : Moves s₀ s₁ c) (first : KeepsChannels s s₀)
    (last : KeepsChannels s₁ s') : Moves s s' c := by
  have sent₀ : sentValues c s₀.trace = sentValues c s.trace := by
    rw [← sentValues_events s₀, first.events, sentValues_events]
  have received₀ : receivedValues c s₀.trace = receivedValues c s.trace := by
    rw [← receivedValues_events s₀, first.events, receivedValues_events]
  have sent₁ : sentValues c s'.trace = sentValues c s₁.trace := by
    rw [← sentValues_events s', last.events, sentValues_events]
  have received₁ : receivedValues c s'.trace = receivedValues c s₁.trace := by
    rw [← receivedValues_events s', last.events, receivedValues_events]
  have offered : ∀ {op o}, Offered s₀ s₁ c op o → Offered s s' c op o := by
    rintro op o ⟨channel, isOp, found⟩
    refine ⟨channel, isOp, ?_⟩
    simpa only [St.alt?, St.queue, first.alts, first.chan, last.alts] using found
  rcases moves with ⟨sent, received⟩ | ⟨x, r, given, value, handed⟩
  · exact Or.inl ⟨by rw [sent₁, sent, sent₀], by rw [received₁, received, received₀]⟩
  · obtain ⟨moves, sender, receiver, sent, received, zeros, taken, stored, frame⟩ := handed
    rw [first.chan] at zeros taken stored frame
    refine Or.inr ⟨x, r, given, value, moves, fun o isX => offered (sender o isX),
      fun o isR => offered (receiver o isR), ?_, ?_, zeros, ?_, ?_, ?_⟩
    · rw [sent₁, sent, sent₀]
    · rw [received₁, received, received₀]
    · rwa [last.mem, ← first.mem]
    · rwa [last.mem]
    · rwa [last.mem, ← first.mem]

theorem chanarray_injective {op op' : Op} {dir : Dir} (isDir : chanarray op = some dir)
    (isDir' : chanarray op' = some dir) : op = op' := by
  cases op <;> cases op' <;> cases dir <;> simp_all [chanarray]

theorem Alted.moves {base rand2 : Nat} {alts : List Alt} {pc : Pc} {flow : Flow}
    (entering : Entering { s with alts := update s.alts base alts } self base)
    (all : ∀ c, Rendezvous s c)
    (alted : Alted { s with alts := update s.alts base alts } self base rand2 pc s' flow) :
    Moves s s' c := by
  cases alted with
  | @exec i a _ atI can executed =>
      obtain ⟨partner, value, exec, others⟩ := altexec_exec entering.entered_inv
        (entering.rendezvous all) (enter_alt? entering.isTerminated atI) can executed
      have passed : Passed s s' a.c (sender a (partner.map Prod.snd))
          (receiver a (partner.map Prod.snd)) value :=
        ⟨exec.passed.length, exec.passed.mem, exec.passed.sent, exec.passed.received⟩
      by_cases same : c = a.c
      · subst same
        have apart : ∀ o, partner = some o → o.1.base ≠ base := by
          intro o isPartner
          obtain ⟨-, dir, -, member⟩ := exec.queued o isPartner
          exact entering.unqueued member
        have own : Offered s s' a.c a.op (⟨base, i⟩, a) := by
          refine ⟨rfl, rfl, Or.inl ?_⟩
          rw [St.alt?, others base fun o isPartner => (apart o isPartner).symm]
          exact enter_alt? entering.isTerminated atI
        have other : ∀ o, partner = some o → Offered s s' a.c (otherop a.op) o := by
          intro o isPartner
          obtain ⟨altEq, dir, dirEq, member⟩ := exec.queued o isPartner
          obtain ⟨channel, dirEq', -⟩ := entering.entered_inv.parked.blocked member altEq
          refine ⟨channel, chanarray_injective dirEq' dirEq, Or.inr ⟨?_, dir, dirEq, member⟩⟩
          simpa only [St.alt?, enter, update_of_ne (apart o isPartner)] using altEq
        rcases altcanexec_iff.mp can with ⟨isSnd, -⟩ | ⟨isRcv, -⟩
        · have sends : Passed s s' a.c ((some (⟨base, i⟩, a) : Option AltRef).map Prod.snd)
              (partner.map Prod.snd) value := by
            simpa [sender, receiver, isSnd] using passed
          refine sends.handed (Or.inl (by simp)) ?_ fun o isPartner => ?_
          · rintro o ⟨⟩
            exact isSnd ▸ own
          · simpa only [isSnd, otherop] using other o isPartner
        · have receives : Passed s s' a.c (partner.map Prod.snd)
              ((some (⟨base, i⟩, a) : Option AltRef).map Prod.snd) value := by
            simpa [sender, receiver, isRcv] using passed
          refine receives.handed (Or.inr (by simp)) (fun o isPartner => ?_) ?_
          · simpa only [isRcv, otherop] using other o isPartner
          · rintro o ⟨⟩
            exact isRcv ▸ own
      · refine Or.inl ⟨?_, ?_⟩
        · simp [passed.sent, same]
        · simp [passed.received, same]
  | noblock blocked ends => exact Or.inl ⟨rfl, rfl⟩
  | block blocked ends enqueued =>
      obtain ⟨chan, rfl⟩ := enqueued.rest
      exact Or.inl (log_values _ ⟨rfl, rfl⟩)

theorem ChannelStep.moves {act : Act} (kind : ChannelStep self s s' act)
    (all : ∀ c, Rendezvous s c) : Moves s s' c := by
  cases kind with
  | keeps keeps =>
      refine Or.inl ⟨?_, ?_⟩
      · rw [← sentValues_events s', keeps.events, sentValues_events]
      · rw [← receivedValues_events s', keeps.events, receivedValues_events]
  | create fresh => exact Or.inl ⟨rfl, rfl⟩
  | alt entering alted => exact alted.moves entering all
  | resumed altbase altEq sameBase => exact Or.inl (log_values s ⟨rfl, rfl⟩)
  | store => exact Or.inl ⟨rfl, rfl⟩

end

/-! ## From its creation on -/

end Libtask
