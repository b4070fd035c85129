import Libtask.Lib.Transition
import Mathlib.Algebra.Group.Int.Defs
import Mathlib.Data.Int.Notation
import Mathlib.Data.List.Basic

/-!
# Writing a buffer

`fdwrite` as a machine that the system calls drive: each `write` returns any value
it may return, and each `fdwait` comes back when another task has seen the
descriptor ready.  Ranges are relative to `buf`.
-/

namespace Libtask.Fdwrite

/-- The call `write(fd, buf+off, len)`, which returned `m`.  `eagain` says whether
it left `errno == EAGAIN`. -/
structure Write where
  fd : Int
  off : Int
  len : Int
  m : Int
  eagain : Bool
  deriving DecidableEq, Repr

inductive Event where
  | write (call : Write)
  | fdwait (fd : Int) (rw : Char)
  deriving DecidableEq, Repr

/-- Before a `write`, in `fdwait`, or returned. -/
inductive Pc where
  | write
  | fdwait
  | ret (r : Int)
  deriving DecidableEq, Repr

structure St where
  tot : Int
  pc : Pc
  trace : List Event
  deriving DecidableEq, Repr

/-- What the kernel does next: `write` returns, or the task is woken in `fdwait`. -/
inductive Action where
  | wrote (m : Int) (eagain : Bool)
  | woken
  deriving DecidableEq, Repr

section Machine

variable (fd n : Int)

/-- The test of the `for` loop. -/
def loop (tot : Int) : Pc := if tot < n then .write else .ret tot

def start : St where
  tot := 0
  pc := loop n 0
  trace := []

/-- The call of `write` at the top of the loop, which returns `m`. -/
def call (s : St) (m : Int) (eagain : Bool) : Write where
  fd := fd
  off := s.tot
  len := n - s.tot
  m := m
  eagain := eagain

/-- From the return of one `write` to the next call. -/
def wrote (s : St) (m : Int) (eagain : Bool) : St :=
  let trace := s.trace ++ [.write (call fd n s m eagain)]
  if m < 0 ∧ eagain then
    { s with pc := .fdwait, trace := trace ++ [.fdwait fd 'w'] }
  else if m < 0 then { s with pc := .ret m, trace }
  else if m = 0 then { s with pc := .ret s.tot, trace }
  else { tot := s.tot + m, pc := loop n (s.tot + m), trace }

/-- `write` fails, or accepts at most what it was asked for. -/
def enabled (s : St) : Action → Prop
  | .wrote m _ => s.pc = .write ∧ m ≤ n - s.tot
  | .woken => s.pc = .fdwait

instance (s : St) (a : Action) : Decidable (enabled n s a) :=
  match a with
  | .wrote _ _ => inferInstanceAs (Decidable (_ ∧ _))
  | .woken => inferInstanceAs (Decidable (_ = _))

def system : Transition.System St Action Empty where
  init s := s = start n
  enabled := enabled n
  step
    | s, .wrote m eagain => .ok (wrote fd n s m eagain)
    | s, .woken => .ok { s with pc := .write }

instance (s : St) (a : Action) : Decidable ((system fd n).enabled s a) :=
  inferInstanceAs (Decidable (enabled n s a))

end Machine

/-! ## Ranges -/

/-- The offsets `off`, ..., `off + len - 1`. -/
def range (off len : Int) : List Int :=
  (List.range len.toNat).map fun i : Nat => off + (i : Int)

theorem range_of_nonpos {off len : Int} (empty : len ≤ 0) : range off len = [] := by
  simp [range, Int.toNat_of_nonpos empty]

theorem range_append (off : Int) {a b : Int} (nonneg : 0 ≤ a) (more : 0 ≤ b) :
    range off a ++ range (off + a) b = range off (a + b) := by
  rw [range, range, range, Int.toNat_add nonneg more, List.range_add, List.map_append,
    List.map_map]
  congr 1
  apply List.map_congr_left
  intro i _
  simp [Int.add_assoc, Int.toNat_of_nonneg nonneg]

/-- The calls of `write` in a trace. -/
def writes (trace : List Event) : List Write :=
  trace.filterMap fun
    | .write call => some call
    | .fdwait _ _ => none

@[simp] theorem writes_append (first second : List Event) :
    writes (first ++ second) = writes first ++ writes second :=
  List.filterMap_append

@[simp] theorem writes_write (call : Write) : writes [.write call] = [call] := rfl

@[simp] theorem writes_fdwait (fd : Int) (rw : Char) : writes [.fdwait fd rw] = [] := rfl

namespace Write

/-- The offsets of the bytes that the call accepted. -/
def accepted (call : Write) : List Int := range call.off call.m

/-- The call failed with `EAGAIN`. -/
def Blocked (call : Write) : Prop := call.m < 0 ∧ call.eagain = true

instance (call : Write) : Decidable call.Blocked :=
  inferInstanceAs (Decidable (_ ∧ _))

/-- The call, with the wait that belongs to it. -/
def issued (call : Write) : List Event :=
  if call.Blocked then [.write call, .fdwait call.fd 'w'] else [.write call]

@[simp] theorem writes_issued (call : Write) : writes call.issued = [call] := by
  unfold issued
  split <;> rfl

/-- The loop goes on after the call: it made progress or it is to be repeated. -/
def GoesOn (call : Write) : Prop := 0 < call.m ∨ call.Blocked

end Write

/-! ## What holds in every run -/

/-- `fdwrite` on `n` bytes writes a prefix of the buffer, once. -/
structure WritesPrefix (fd n : Int) (s : St) : Prop where
  /-- the accepted ranges, one behind the other, are the bytes before `tot` -/
  accepted : (writes s.trace).flatMap Write.accepted = range 0 s.tot
  within : 0 ≤ s.tot ∧ s.tot ≤ n
  /-- each `write` asks for a part of the buffer -/
  inside : ∀ call ∈ writes s.trace, call.fd = fd ∧
    0 ≤ call.off ∧ 0 < call.len ∧ call.off + call.len ≤ n
  /-- `fdwait` follows each call that failed with `EAGAIN`, and no other -/
  waits : s.trace = (writes s.trace).flatMap Write.issued
  complete : s.pc = .ret n ↔ s.tot = n
  /-- a `write` of nothing ends the call with what was accepted -/
  empty : ∀ call ∈ writes s.trace, call.m = 0 → s.pc = .ret s.tot
  /-- any other error ends it with the result of `write` -/
  failed : ∀ call ∈ writes s.trace, call.m < 0 → call.eagain = false → s.pc = .ret call.m
  /-- there is no other way to return -/
  returned : ∀ r, s.pc = .ret r → s.tot = n ∨
    ∃ call ∈ writes s.trace, call.m = 0 ∨ call.m < 0 ∧ call.eagain = false

/-- Whether the last call ends the loop, and with which result. -/
def Ended (n : Int) (s : St) (r : Int) : Prop :=
  s.tot < n ∧ ∃ before last, writes s.trace = before ++ [last] ∧
    (∀ call ∈ before, call.GoesOn) ∧
    (last.m = 0 ∧ r = s.tot ∨ last.m < 0 ∧ last.eagain = false ∧ r = last.m)

/-- Where the machine is, from what the calls returned. -/
def Outcome (n : Int) (s : St) : Prop :=
  match s.pc with
  | .ret r => (s.tot = n ∧ r = n ∧ ∀ call ∈ writes s.trace, call.GoesOn) ∨ Ended n s r
  | _ => s.tot < n ∧ ∀ call ∈ writes s.trace, call.GoesOn

/-- The invariant of the loop. -/
structure Inv (fd n : Int) (s : St) : Prop where
  accepted : (writes s.trace).flatMap Write.accepted = range 0 s.tot
  within : 0 ≤ s.tot ∧ s.tot ≤ n
  inside : ∀ call ∈ writes s.trace, call.fd = fd ∧
    0 ≤ call.off ∧ 0 < call.len ∧ call.off + call.len ≤ n
  waits : s.trace = (writes s.trace).flatMap Write.issued
  outcome : Outcome n s

section

variable {fd n : Int} {s : St}

theorem Inv.start (nonneg : 0 ≤ n) : Inv fd n (start n) where
  accepted := rfl
  within := ⟨Int.le_refl 0, nonneg⟩
  inside := by simp [Fdwrite.start, writes]
  waits := rfl
  outcome := by
    by_cases positive : 0 < n
    · simp [Outcome, Fdwrite.start, loop, positive, writes]
    · have zero : n = 0 := Int.le_antisymm (Int.not_lt.mp positive) nonneg
      simp [Outcome, Fdwrite.start, loop, zero, writes]

/-- In the loop, bytes are left and no call has ended it. -/
theorem Inv.looping (inv : Inv fd n s) (running : s.pc = .write ∨ s.pc = .fdwait) :
    s.tot < n ∧ ∀ call ∈ writes s.trace, call.GoesOn := by
  have outcome := inv.outcome
  rcases running with pc | pc <;> simpa [Outcome, pc] using outcome

theorem Inv.woken (inv : Inv fd n s) (pc : s.pc = .fdwait) :
    Inv fd n { s with pc := .write } where
  accepted := inv.accepted
  within := inv.within
  inside := inv.inside
  waits := inv.waits
  outcome := inv.looping (.inr pc)

section Wrote

variable {m : Int} {eagain : Bool}

theorem wrote_trace :
    (wrote fd n s m eagain).trace = s.trace ++ (call fd n s m eagain).issued := by
  unfold wrote
  split
  next blocked => simp [Write.issued, Write.Blocked, call, blocked]
  next answered =>
    have alone : (call fd n s m eagain).issued = [.write (call fd n s m eagain)] :=
      if_neg answered
    rw [alone]
    split
    · rfl
    · split <;> rfl

theorem writes_wrote :
    writes (wrote fd n s m eagain).trace = writes s.trace ++ [call fd n s m eagain] := by
  rw [wrote_trace, writes_append, Write.writes_issued]

/-- The accepted bytes grow with `tot`, also when a call accepts nothing. -/
theorem accepted_wrote (nonneg : 0 ≤ s.tot) :
    range 0 s.tot ++ (call fd n s m eagain).accepted =
      range 0 (wrote fd n s m eagain).tot := by
  rcases Int.lt_or_le 0 m with positive | nothing
  · have tot : (wrote fd n s m eagain).tot = s.tot + m := by
      simp [wrote, Int.not_lt.mpr (Int.le_of_lt positive), Int.ne_of_gt positive]
    have joined := range_append 0 nonneg (Int.le_of_lt positive)
    simpa [tot, Write.accepted, call] using joined
  · have tot : (wrote fd n s m eagain).tot = s.tot := by
      unfold wrote
      split
      · rfl
      · split
        · rfl
        · rw [if_pos (by omega)]
    rw [tot, Write.accepted, range_of_nonpos (show (call fd n s m eagain).m ≤ 0 from nothing),
      List.append_nil]

theorem within_wrote (within : 0 ≤ s.tot ∧ s.tot ≤ n) (atMost : m ≤ n - s.tot) :
    0 ≤ (wrote fd n s m eagain).tot ∧ (wrote fd n s m eagain).tot ≤ n := by
  unfold wrote
  split
  · exact within
  · split
    · exact within
    · split
      · exact within
      · constructor <;> simp only <;> omega

/-- The last call decides between another turn of the loop and the result. -/
theorem outcome_wrote (left : s.tot < n) (before : ∀ call ∈ writes s.trace, call.GoesOn)
    (atMost : m ≤ n - s.tot) : Outcome n (wrote fd n s m eagain) := by
  have all (goesOn : (call fd n s m eagain).GoesOn) :
      ∀ c ∈ writes (wrote fd n s m eagain).trace, c.GoesOn := by
    rw [writes_wrote]
    intro c member
    rcases List.mem_append.mp member with earlier | last
    · exact before c earlier
    · exact List.mem_singleton.mp last ▸ goesOn
  have ended {r : Int} (tot : (wrote fd n s m eagain).tot = s.tot)
      (last : m = 0 ∧ r = s.tot ∨ m < 0 ∧ eagain = false ∧ r = m) :
      Ended n (wrote fd n s m eagain) r :=
    ⟨tot.symm ▸ left, writes s.trace, _, writes_wrote, before, tot.symm ▸ last⟩
  by_cases blocked : m < 0 ∧ eagain = true
  · have goesOn := all (.inr blocked)
    simp only [wrote, if_pos blocked] at goesOn ⊢
    exact ⟨left, goesOn⟩
  by_cases error : m < 0
  · have last := ended (r := m) (by simp only [wrote, if_neg blocked, if_pos error])
      (.inr ⟨error, by simpa [error] using blocked, rfl⟩)
    simp only [wrote, if_neg blocked, if_pos error] at last ⊢
    exact .inr last
  by_cases nothing : m = 0
  · have last := ended (r := s.tot) (by simp [wrote, nothing]) (.inl ⟨nothing, rfl⟩)
    simp only [wrote, if_neg blocked, if_neg error, if_pos nothing] at last ⊢
    exact .inr last
  · have goesOn := all (.inl (by simp only [call]; omega))
    simp only [wrote, if_neg blocked, if_neg error, if_neg nothing] at goesOn ⊢
    by_cases more : s.tot + m < n
    · simp only [Outcome, loop, if_pos more]
      exact ⟨more, goesOn⟩
    · simp only [Outcome, loop, if_neg more]
      exact .inl ⟨by omega, by omega, goesOn⟩

theorem Inv.wrote (inv : Inv fd n s) (pc : s.pc = .write) (atMost : m ≤ n - s.tot) :
    Inv fd n (wrote fd n s m eagain) := by
  obtain ⟨left, before⟩ := inv.looping (.inl pc)
  exact {
    accepted := by
      rw [writes_wrote, List.flatMap_append, inv.accepted, List.flatMap_singleton,
        accepted_wrote inv.within.1]
    within := within_wrote inv.within atMost
    inside := by
      rw [writes_wrote]
      intro c member
      rcases List.mem_append.mp member with earlier | last
      · exact inv.inside c earlier
      · obtain rfl := List.mem_singleton.mp last
        exact ⟨rfl, inv.within.1, by simp only [call]; omega, by simp only [call]; omega⟩
    waits := by
      rw [writes_wrote, wrote_trace, List.flatMap_append, ← inv.waits, List.flatMap_singleton]
    outcome := outcome_wrote left before atMost }

end Wrote

theorem Inv.reachable (nonneg : 0 ≤ n)
    (reachable : Transition.Reachable (system fd n) Transition.anyAction s) : Inv fd n s := by
  apply reachable.invariant (Inv fd n)
  · rintro s rfl
    exact .start nonneg
  · intro s a s' _ inv enabled _ stepped
    cases a with
    | wrote m eagain =>
        obtain rfl := Except.ok.inj stepped
        exact inv.wrote enabled.1 enabled.2
    | woken =>
        obtain rfl := Except.ok.inj stepped
        exact inv.woken enabled

theorem Write.GoesOn.ne_zero {call : Write} (goesOn : call.GoesOn) : call.m ≠ 0 := by
  rcases goesOn with positive | blocked
  · exact Int.ne_of_gt positive
  · exact Int.ne_of_lt blocked.1

theorem Write.GoesOn.eagain {call : Write} (goesOn : call.GoesOn) (error : call.m < 0) :
    call.eagain = true := by
  rcases goesOn with positive | blocked
  · exact absurd error (Int.not_lt.mpr (Int.le_of_lt positive))
  · exact blocked.2

/-- A call that ends the loop is the last one. -/
theorem Inv.ended (inv : Inv fd n s) {c : Write} (member : c ∈ writes s.trace)
    (ends : ¬ c.GoesOn) :
    ∃ r, s.pc = .ret r ∧ (c.m = 0 ∧ r = s.tot ∨ c.m < 0 ∧ c.eagain = false ∧ r = c.m) := by
  have outcome := inv.outcome
  cases pc : s.pc with
  | write => exact absurd ((inv.looping (.inl pc)).2 c member) ends
  | fdwait => exact absurd ((inv.looping (.inr pc)).2 c member) ends
  | ret r =>
      simp only [Outcome, pc] at outcome
      rcases outcome with ⟨-, -, all⟩ | ⟨-, before, last, split, goesOn, reason⟩
      · exact absurd (all c member) ends
      · rw [split] at member
        rcases List.mem_append.mp member with earlier | atEnd
        · exact absurd (goesOn c earlier) ends
        · obtain rfl := List.mem_singleton.mp atEnd
          exact ⟨r, rfl, reason⟩

theorem Inv.complete (inv : Inv fd n s) : s.pc = .ret n ↔ s.tot = n := by
  have outcome := inv.outcome
  constructor
  · intro pc
    simp only [Outcome, pc] at outcome
    rcases outcome with ⟨tot, -, -⟩ | ⟨left, _, last, -, -, reason⟩
    · exact tot
    · -- an early end returns less than `n`
      have nonneg := inv.within.1
      omega
  · intro tot
    cases pc : s.pc with
    | write => exact absurd (inv.looping (.inl pc)).1 (by omega)
    | fdwait => exact absurd (inv.looping (.inr pc)).1 (by omega)
    | ret r =>
        simp only [Outcome, pc] at outcome
        rcases outcome with ⟨-, result, -⟩ | ⟨left, -⟩
        · rw [result]
        · exact absurd left (by omega)

theorem Inv.writesPrefix (inv : Inv fd n s) : WritesPrefix fd n s where
  accepted := inv.accepted
  within := inv.within
  inside := inv.inside
  waits := inv.waits
  complete := inv.complete
  empty c member nothing := by
    obtain ⟨r, pc, reason⟩ := inv.ended member fun goesOn => goesOn.ne_zero nothing
    rcases reason with ⟨-, result⟩ | ⟨error, -⟩
    · rw [pc, result]
    · exact absurd nothing (Int.ne_of_lt error)
  failed c member error other := by
    obtain ⟨r, pc, reason⟩ := inv.ended member fun goesOn => by
      simp [goesOn.eagain error] at other
    rcases reason with ⟨nothing, -⟩ | ⟨-, -, result⟩
    · exact absurd nothing (Int.ne_of_lt error)
    · rw [pc, result]
  returned r pc := by
    have outcome := inv.outcome
    simp only [Outcome, pc] at outcome
    rcases outcome with ⟨tot, -⟩ | ⟨-, before, last, split, -, reason⟩
    · exact .inl tot
    · refine .inr ⟨last, by simp [split], ?_⟩
      rcases reason with ⟨nothing, -⟩ | ⟨error, other, -⟩
      · exact .inl nothing
      · exact .inr ⟨error, other⟩

theorem fdwrite_writesPrefix {fd n : Int} (nonneg : 0 ≤ n) {s : St}
    (reachable : Transition.Reachable (system fd n) Transition.anyAction s) :
    WritesPrefix fd n s :=
  (Inv.reachable nonneg reachable).writesPrefix

end

/-- Four bytes, where the first call has to wait and the second takes three. -/
theorem fdwrite_four :
    ∃ s, (s.pc = .ret 4 ∧ (writes s.trace).map Write.m = [-1, 3, 1]) ∧ WritesPrefix 1 4 s := by
  have executed : (Transition.exec (system 1 4) (fun _ _ => True) (start 4)
      [.wrote (-1) true, .woken, .wrote 3 false, .wrote 1 false]).any
        (fun s => s.pc = .ret 4 ∧ (writes s.trace).map Write.m = [-1, 3, 1]) = true := by
    decide
  obtain ⟨s, -, checked, reachable⟩ :=
    Transition.exists_reachable_exec (.init rfl) executed
  exact ⟨s, by simpa using checked, fdwrite_writesPrefix (by decide) reachable⟩

end Libtask.Fdwrite
