import Libtask.Preserved

/-!
# What a step does to the channels

All that happens to channels happens in a few kinds of steps.  This module says once
what each of them does; what holds of the channels is derived from that.
-/

namespace Libtask

open Function (update update_self update_of_ne)
open Outcome (bind_eq_ok)

variable {s s' : St} {self : TaskPtr} {flow : Flow}

/-! ## chanalt -/

/-- The three ways of a `chanalt` on the array at `base`. -/
inductive Alted (s : St) (self : TaskPtr) (base rand2 : Nat) (pc : Pc) : St → Flow → Prop where
  /-- alternative `i` can proceed and is executed -/
  | exec {i : Nat} {a : Alt} {s' : St} : (entered s self base)[i]? = some a →
      altcanexec (enter s self base) a = true →
      altexec (enter s self base) self ⟨base, i⟩ rand2 = .ok s' →
      Alted s self base rand2 pc s' (.ret (some i))
  /-- no alternative can proceed, and the call does not wait -/
  | noblock : (∀ a ∈ entered s self base, altcanexec (enter s self base) a = false) →
      terminator s base ≠ some .chanend →
      Alted s self base rand2 pc (enter s self base) (.ret (some (-1)))
  /-- no alternative can proceed, and all are queued -/
  | block {s₁ : St} : (∀ a ∈ entered s self base, altcanexec (enter s self base) a = false) →
      terminator s base = some .chanend →
      Enqueued (enter s self base) s₁ base 0 (entered s self base) →
      Alted s self base rand2 pc (s₁.log (.altBlock self base)) (.switch pc)

theorem canCount_eq_zero {base : Nat} (none? : canCount s self base = 0) :
    ∀ a ∈ entered s self base, altcanexec (enter s self base) a = false := by
  intro a member
  rw [canCount, List.countP_eq_zero] at none?
  simpa using none? a member

theorem enter_alt? {base k : Nat} {a : Alt} (isTerminated : terminated (s.alts base) = true)
    (atK : (entered s self base)[k]? = some a) : (enter s self base).alt? ⟨base, k⟩ = some a := by
  obtain ⟨last, array, -⟩ := enter_array self isTerminated
  have inside : k < (entered s self base).length := by
    by_contra outside
    rw [List.getElem?_eq_none (by omega)] at atK
    cases atK
  rw [St.alt?, array, List.getElem?_append_left inside]
  exact atK

/-- An array that no other task is in, and nothing is queued from, as `chanalt` finds
it. -/
structure Entering (s : St) (t : TaskPtr) (base : Nat) : Prop where
  inv : Inv (some t) s
  isFree : ArrayFree (some t) s base
  isTerminated : terminated (s.alts base) = true
  known : ∀ a ∈ s.alts base, chanarray a.op ≠ none → a.c ∈ s.chans

theorem Entering.entered_inv {base : Nat} (entering : Entering s self base) :
    Inv (some self) (enter s self base) :=
  entering.inv.writeArray entering.isFree

theorem Entering.unqueued {base : Nat} (entering : Entering s self base) {c : ChanPtr}
    {dir : Dir} {q : AltPtr} (member : q ∈ s.queue c dir) : q.base ≠ base :=
  entering.inv.parked.not_queued entering.isFree member

theorem chanalt_alted {base rand1 rand2 : Nat} {pc : Pc} (entering : Entering s self base)
    (done : chanalt s self base rand1 rand2 pc = .ok (s', flow)) :
    Alted s self base rand2 pc s' flow := by
  rcases chanalt_ok done with
    ⟨some?, i, rfl, picked, executed⟩ | ⟨none?, ends, rfl, rfl⟩ |
    ⟨none?, ends, rfl, s₁, looped, rfl⟩
  · obtain ⟨k, a, atK, can, picked'⟩ := chanpick_lt (s := enter s self base) (i := 0)
      (Nat.mod_lt rand1 (Nat.pos_of_ne_zero some?))
    obtain rfl : 0 + k = i := Option.some.inj (picked'.symm.trans picked)
    rw [Nat.zero_add] at executed ⊢
    exact .exec atK can executed
  · exact .noblock (canCount_eq_zero none?) ends
  · obtain ⟨-, -, alternatives, -⟩ := enter_array self entering.isTerminated
    have parked := entering.entered_inv.parked
    obtain ⟨s₂, looped', enqueued⟩ := altqueueLoop_fresh (i := 0) parked.queues.nodup
      parked.queues.fits (fun a member => (alternatives a member).1)
      (fun c dir q member sameBase => absurd sameBase (entering.unqueued member))
    rw [looped] at looped'
    obtain rfl := Except.ok.inj looped'
    exact .block (canCount_eq_zero none?) ends enqueued

/-! ## Steps -/

/-- The kinds of steps that channels see. -/
inductive ChannelStep (self : TaskPtr) (s : St) : St → Act → Prop where
  | keeps {s' : St} {act : Act} : KeepsChannels s s' → ChannelStep self s s' act
  | create {c : ChanPtr} {elemsize bufsize : Int} {junk : Bytes.Memory} : c ∉ s.chans →
      ChannelStep self s { s.setChan c {
          elemsize := toUint elemsize
          bufsize := toUint bufsize
          buf := junk
          bufbytes := bufArea elemsize bufsize } with
        chans := c :: s.chans } (.call (.chancreate (some c) elemsize bufsize junk))
  | alt {c : Call} {base rand2 : Nat} {alts : List Alt} {pc : Pc} {s' : St} {flow : Flow} :
      Entering { s with alts := update s.alts base alts } self base →
      Alted { s with alts := update s.alts base alts } self base rand2 pc s' flow →
      ChannelStep self s s' (.call c)
  | resumed {base : Nat} {first : Alt} {env : Env} : (s.task self).pc.altbase = some base →
      s.alt? ⟨base, 0⟩ = some first → first.xalt.base = base →
      ChannelStep self s (s.log (.altReturn self base first.xalt.idx)) (.dispatch env)
  | store {mem : Nat → UInt8} {c : Call} : ChannelStep self s { s with mem } (.call c)

theorem entering_chanalt {a rand1 rand2 : Nat} {alts : List Alt} (inv : Inv (some self) s)
    (isLegal : legal s (.chanalt a alts rand1 rand2) = true) :
    Entering { s with alts := update s.alts a alts } self a := by
  simp only [legal, Bool.and_eq_true] at isLegal
  obtain ⟨⟨isFree, isTerminated⟩, known⟩ := isLegal
  have isFree := arrayFree_of_altfree (some self) isFree
  refine ⟨inv.writeArray isFree, ?_, by simpa using isTerminated, ?_⟩
  · exact fun t pc stopped => isFree t pc ⟨stopped.live, stopped.idle, stopped.pc⟩
  · intro x member queued
    simp only [update_self] at member
    have := List.all_eq_true.mp known x member
    cases opEq : x.op <;> simp_all [chanarray, Op.isTerminator]

theorem entering_chanop {c : ChanPtr} {op : Op} {v : Option Nat} {canblock : Bool}
    {a rand1 rand2 : Nat} (inv : Inv (some self) s)
    (isLegal : legal s (.chanop c op v canblock a rand1 rand2) = true) :
    Entering { s with alts := update s.alts a (chanopAlts c op v canblock) } self a := by
  simp only [legal, Bool.and_eq_true, decide_eq_true_eq] at isLegal
  obtain ⟨⟨isFree, known⟩, isOp⟩ := isLegal
  have isFree := arrayFree_of_altfree (some self) isFree
  refine ⟨inv.writeArray isFree, ?_, ?_, ?_⟩
  · exact fun t pc stopped => isFree t pc ⟨stopped.live, stopped.idle, stopped.pc⟩
  · simp only [update_self]
    rcases isOp with rfl | rfl <;> cases canblock <;> rfl
  · intro x member _
    simp only [update_self, chanopAlts, List.mem_cons, List.not_mem_nil, or_false] at member
    rcases member with rfl | rfl <;> exact known

theorem call_channels {c : Call} (inv : Inv (some self) s) (isLegal : legal s c = true)
    (called : call s self c = .ok (s', flow)) : ChannelStep self s s' (.call c) := by
  by_cases other : c.part ≠ .channels
  · exact .keeps (call_keepsChannels other called)
  have channels : c.part = .channels := not_not.mp other
  cases c <;> simp only [Call.part, reduceCtorEq] at channels
  case chancreate c elemsize bufsize junk =>
    obtain ⟨created, -⟩ := returning_ok called
    obtain ⟨c₀, rfl, rfl⟩ := chancreate_ok created
    exact .create (by simpa [legal] using isLegal)
  case chanalt a alts rand1 rand2 =>
    have entering := entering_chanalt inv isLegal
    exact .alt entering (chanalt_alted entering called)
  case chanop c op v canblock a rand1 rand2 =>
    obtain ⟨flow', inner, -⟩ := chanop_ok called
    have entering := entering_chanop inv isLegal
    exact .alt entering (chanalt_alted entering inner)
  case store p bytes =>
    obtain ⟨rfl, -⟩ := Prod.mk.inj (Except.ok.inj called)
    exact .store

theorem resume_channels {env : Env}
    (resumed : resume s self env (s.task self).pc = .ok (s', flow)) :
    ChannelStep self s s' (.dispatch env) := by
  by_cases other : (s.task self).pc.part ≠ .channels
  · exact .keeps (resume_keepsChannels other resumed)
  have channels : (s.task self).pc.part = .channels := not_not.mp other
  have returns : ∀ base, (s.task self).pc.altbase = some base → ∀ (s' : St) (i : Int),
      chanaltResume s self base = .ok (s', i) → ChannelStep self s s' (.dispatch env) := by
    intro base altbase s' i done
    obtain ⟨first, altEq, sameBase, -, rfl⟩ := chanaltResume_ok done
    exact .resumed altbase altEq sameBase
  cases pcEq : (s.task self).pc <;> rw [pcEq] at resumed channels <;>
    simp only [Pc.part, reduceCtorEq] at channels
  case chanalt a =>
    obtain ⟨⟨s₁, i⟩, inner, returned⟩ := bind_eq_ok.mp resumed
    obtain ⟨rfl, -⟩ := Prod.mk.inj (Except.ok.inj returned)
    exact returns a (by rw [pcEq]; rfl) _ i inner
  case chanop a =>
    obtain ⟨⟨s₁, i⟩, inner, returned⟩ := bind_eq_ok.mp resumed
    obtain ⟨rfl, -⟩ := Prod.mk.inj (Except.ok.inj returned)
    exact returns a (by rw [pcEq]; rfl) _ i inner

/-- A step does one of these things to the channels.  What the scheduler does before
and after it leaves them alone. -/
theorem step_channels {act : Act} (inv : Inv s.taskrunning s) (isEnabled : enabled s act)
    (stepped : step s act = .ok s') : ∃ self s₀ s₁, Inv (some self) s₀ ∧
      KeepsChannels s s₀ ∧ ChannelStep self s₀ s₁ act ∧ KeepsChannels s₁ s' := by
  cases step_shape isEnabled stepped with
  | dispatch idle scheduled resumed finished =>
      rename_i env t s₁ s₂ flow
      rw [idle] at inv
      exact ⟨t, s₁, s₂, inv.dispatch scheduled, (taskscheduler_frame scheduled).channels,
        resume_channels resumed, (finish_frame finished).channels⟩
  | call running isLegal called finished =>
      rename_i c self s₂ flow
      rw [running] at inv
      exact ⟨self, s, s₂, inv, .refl s, call_channels inv isLegal called,
        (finish_frame finished).channels⟩

end Libtask
