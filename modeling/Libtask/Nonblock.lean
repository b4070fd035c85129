import Libtask.Rendezvous

/-!
# Channel operations that do not block

`_chanop` with a `canblock` of 0 executes its one alternative if that can proceed, and otherwise
changes nothing but its own array.
-/

namespace Libtask

open Function (update update_self update_of_ne)
open Outcome (bind_eq_ok ok_bind)

variable {s s' : St} {self : TaskPtr} {c : ChanPtr} {op : Op} {v : Option Nat}
  {a rand1 rand2 : Nat}

/-- The one alternative of `_chanop`, as `chanalt` fills it in. -/
def chanopAlt (self : TaskPtr) (c : ChanPtr) (op : Op) (v : Option Nat) (a : Nat) : Alt :=
  { c, v, op, task := self, xalt := ⟨a, 0⟩ }

/-- The state in which `chanalt` looks at it. -/
def inChanop (s : St) (self : TaskPtr) (c : ChanPtr) (op : Op) (v : Option Nat) (a : Nat) : St :=
  { s with
    alts := update s.alts a [chanopAlt self c op v a,
      { c, v, op := .channoblk, task := 0, xalt := ⟨0, 0⟩ }] }

theorem inChanop_alt? :
    (inChanop s self c op v a).alt? ⟨a, 0⟩ = some (chanopAlt self c op v a) := by
  simp [inChanop, St.alt?]

theorem call_nonblock (isOp : op = .chansnd ∨ op = .chanrcv) :
    call s self (.chanop c op v false a rand1 rand2) =
      if altcanexec s (chanopAlt self c op v a) then
        altexec (inChanop s self c op v a) self ⟨a, 0⟩ rand2 >>= fun s' => .ok (s', .ret (some 1))
      else .ok (inChanop s self c op v a, .ret (some (-1))) := by
  have counted : altcount (chanopAlts c op v false) = 1 := by
    rcases isOp with rfl | rfl <;> rfl
  have entered : ((chanopAlts c op v false).take 1).map
      (fun x => { x with task := self, xalt := ⟨a, 0⟩ }) = [chanopAlt self c op v a] := rfl
  have last : (chanopAlts c op v false)[1]? =
    some { c, v, op := .channoblk, task := 0, xalt := ⟨0, 0⟩ } := rfl
  have left : (chanopAlts c op v false).drop 1 =
    [{ c, v, op := .channoblk, task := 0, xalt := ⟨0, 0⟩ }] := rfl
  have sameCan : altcanexec (inChanop s self c op v a) (chanopAlt self c op v a) =
      altcanexec s (chanopAlt self c op v a) := rfl
  have inside : { s with
      alts := update s.alts a ([chanopAlt self c op v a] ++
        [{ c, v, op := .channoblk, task := 0, xalt := ⟨0, 0⟩ }]) } = inChanop s self c op v a := rfl
  simp only [call, chanalt, update_self, counted, entered, last, left, Function.update_idem, inside]
  by_cases can : altcanexec s (chanopAlt self c op v a) = true
  · have one : [chanopAlt self c op v a].countP (altcanexec (inChanop s self c op v a)) = 1 := by
      simp [sameCan, can]
    have first : chanpick (inChanop s self c op v a) [chanopAlt self c op v a] 0 (rand1 % 1) =
        some 0 := by
      rw [chanpick, if_pos (by rwa [sameCan]), if_pos (Nat.mod_one rand1)]
    rw [if_pos can]
    simp only [one, first, ne_eq, Nat.succ_ne_zero, not_false_eq_true, if_true]
    cases altexec (inChanop s self c op v a) self ⟨a, 0⟩ rand2 with
    | error why => rfl
    | ok s' => rfl
  · have none : [chanopAlt self c op v a].countP (altcanexec (inChanop s self c op v a)) = 0 := by
      simp [sameCan, can]
    rw [if_neg can]
    simp only [none, ne_eq, not_true_eq_false, if_false]
    rfl

/-- It is the state that `chanalt` enters. -/
theorem enter_chanop (isOp : op = .chansnd ∨ op = .chanrcv) :
    enter { s with alts := update s.alts a (chanopAlts c op v false) } self a =
      inChanop s self c op v a := by
  have counted : altcount (chanopAlts c op v false) = 1 := by
    rcases isOp with rfl | rfl <;> rfl
  simp only [enter, entered, update_self, counted, Function.update_idem]
  rfl

/-- What the ownership of the array promises. -/
structure InChanop (s : St) (t : TaskPtr) (c : ChanPtr) (op : Op) (v : Option Nat) (a : Nat) :
    Prop where
  inv : Inv (some t) (inChanop s t c op v a)
  rendezvous : Rendezvous (inChanop s t c op v a) c
  /-- nothing is queued from the array -/
  unqueued : s.Unqueued a

theorem inChanop_intro (inv : Inv (some self) s) (all : ∀ c, Rendezvous s c)
    (isFree : altfree s a = true) (known : c ∈ s.chans)
    (isOp : op = .chansnd ∨ op = .chanrcv) : InChanop s self c op v a := by
  have isLegal : legal s (.chanop c op v false a 0 0) = true := by
    simp only [legal, isFree, known, isOp, decide_true, Bool.and_self]
  have entering := entering_chanop inv isLegal
  have unqueued : s.Unqueued a := fun c dir q member => entering.unqueued member
  have entered := entering.entered_inv
  rw [enter_chanop isOp] at entered
  exact ⟨entered, (all c).writeArray unqueued, unqueued⟩

end Libtask
