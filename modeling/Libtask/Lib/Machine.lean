import Libtask.Lib.WordMemory
import Mathlib.Logic.Function.Basic

/-!
# Straight-line machine code

Routines without branches over an arbitrary register file: their meaning, and
checks of the code text with what they guarantee.  `saves` finds that a routine
leaves an operand in a field of a block, `restores` that it loads a field into a
register, and `restored` joins the two across any change of the other state.
-/

namespace Machine

open Function (update)
open WordMemory

structure State (ρ : Type) (w : Nat) where
  reg : ρ → BitVec w
  mem : Memory w
  pc : BitVec w

inductive Operand (ρ : Type) (w : Nat) where
  | reg (r : ρ)
  | imm (v : BitVec w)
  deriving DecidableEq, Repr

/-- Instructions, with their destination first. -/
inductive Instr (ρ : Type) (w : Nat) where
  | load (k : Nat) (dst base : ρ) (off : Nat)
  | store (k : Nat) (src : Operand ρ w) (base : ρ) (off : Nat)
  | move (dst : ρ) (src : Operand ρ w)
  | lea (dst base : ρ) (off : Nat)
  | xor (dst left right : ρ)
  /-- push the word at `base + off` on the stack of `sp` -/
  | push (sp base : ρ) (off : Nat)
  | nop
  deriving DecidableEq, Repr

/-- How a routine ends: a return through the stack, a jump, or a jump after the
instruction in its delay slot. -/
inductive Exit (ρ : Type) (w : Nat) where
  | ret (sp : ρ)
  | jump (target : ρ)
  | jumpDelayed (target : ρ) (slot : Instr ρ w)
  deriving DecidableEq, Repr

structure Routine (ρ : Type) (w : Nat) where
  body : List (Instr ρ w)
  exit : Exit ρ w

variable {ρ : Type} [DecidableEq ρ] {w : Nat}

def State.set (s : State ρ w) (r : ρ) (v : BitVec w) : State ρ w :=
  { s with reg := update s.reg r v }

def State.address (s : State ρ w) (base : ρ) (off : Nat) : BitVec w :=
  s.reg base + BitVec.ofNat w off

def Operand.value (s : State ρ w) : Operand ρ w → BitVec w
  | .reg r => s.reg r
  | .imm v => v

section Semantics

-- the byte order, and the bytes of a word
variable (e : Endian) (k : Nat)

def exec (s : State ρ w) : Instr ρ w → State ρ w
  | .load k dst base off => s.set dst (load e k s.mem (s.address base off))
  | .store k src base off => { s with mem := store e k (s.address base off) (src.value s) s.mem }
  | .move dst src => s.set dst (src.value s)
  | .lea dst base off => s.set dst (s.address base off)
  | .xor dst left right => s.set dst (s.reg left ^^^ s.reg right)
  | .push sp base off =>
      let top := s.reg sp - BitVec.ofNat w k
      { s.set sp top with mem := store e k top (load e k s.mem (s.address base off)) s.mem }
  | .nop => s

def execAll (s : State ρ w) (code : List (Instr ρ w)) : State ρ w :=
  code.foldl (exec e k) s

def leave (s : State ρ w) : Exit ρ w → State ρ w
  | .ret sp => { s.set sp (s.address sp k) with pc := load e k s.mem (s.reg sp) }
  | .jump target => { s with pc := s.reg target }
  | .jumpDelayed target slot => { exec e k s slot with pc := s.reg target }

def Routine.run (routine : Routine ρ w) (s : State ρ w) : State ρ w :=
  leave e k (execAll e k s routine.body) routine.exit

end Semantics

variable {e : Endian} {k n off : Nat} {s t : State ρ w} {base : ρ}

@[simp] theorem execAll_nil : execAll e k s [] = s := rfl

@[simp] theorem execAll_cons (i : Instr ρ w) (code : List (Instr ρ w)) :
    execAll e k s (i :: code) = execAll e k (exec e k s i) code := rfl

theorem execAll_append (first second : List (Instr ρ w)) :
    execAll e k s (first ++ second) = execAll e k (execAll e k s first) second :=
  List.foldl_append

/-! ## Registers that code leaves alone -/

def Instr.writes (r : ρ) : Instr ρ w → Bool
  | .load _ dst _ _ => dst = r
  | .store .. => false
  | .move dst _ => dst = r
  | .lea dst _ _ => dst = r
  | .xor dst _ _ => dst = r
  | .push sp _ _ => sp = r
  | .nop => false

def Instr.stores : Instr ρ w → Bool
  | .store .. => true
  | .push .. => true
  | _ => false

theorem reg_set_of_ne {r dst : ρ} {v : BitVec w} (other : dst ≠ r) :
    (s.set dst v).reg r = s.reg r := by
  simp [State.set, Function.update_of_ne other.symm]

@[simp] theorem reg_set_self (r : ρ) (v : BitVec w) : (s.set r v).reg r = v := by
  simp [State.set]

theorem reg_exec {i : Instr ρ w} {r : ρ} (untouched : i.writes r = false) :
    (exec e k s i).reg r = s.reg r := by
  cases i with
  | store | nop => rfl
  | load | move | lea | xor | push =>
      exact reg_set_of_ne (of_decide_eq_false untouched)

theorem mem_exec {i : Instr ρ w} (readOnly : i.stores = false) :
    (exec e k s i).mem = s.mem := by
  cases i with
  | store | push => cases readOnly
  | load | move | lea | xor | nop => rfl

theorem reg_execAll {code : List (Instr ρ w)} {r : ρ}
    (untouched : code.all (fun i => !i.writes r) = true) :
    (execAll e k s code).reg r = s.reg r := by
  induction code generalizing s with
  | nil => rfl
  | cons i code ih =>
      simp only [List.all_cons, Bool.and_eq_true, Bool.not_eq_true'] at untouched
      rw [execAll_cons, ih untouched.2, reg_exec untouched.1]

theorem mem_execAll {code : List (Instr ρ w)}
    (readOnly : code.all (fun i => !i.stores) = true) :
    (execAll e k s code).mem = s.mem := by
  induction code generalizing s with
  | nil => rfl
  | cons i code ih =>
      simp only [List.all_cons, Bool.and_eq_true, Bool.not_eq_true'] at readOnly
      rw [execAll_cons, ih readOnly.2, mem_exec readOnly.1]

/-! ## Saving -/

/-- The instruction stores nothing outside the `n` bytes at `base`. -/
def Instr.inBlock (base : ρ) (n : Nat) : Instr ρ w → Bool
  | .store k _ b off => b = base ∧ off + k ≤ n
  | .push .. => false
  | _ => true

/-- Nor does it store in the `k` bytes at `off` there. -/
def Instr.spares (base : ρ) (n off k : Nat) : Instr ρ w → Bool
  | .store k' _ b off' => b = base ∧ off' + k' ≤ n ∧ (off' + k' ≤ off ∨ off + k ≤ off')
  | .push .. => false
  | _ => true

/-- The code keeps what is at `off`.  Where it overwrites `base` it stores no more. -/
def keeps (base : ρ) (n off k : Nat) : List (Instr ρ w) → Bool
  | [] => true
  | i :: code => i.spares base n off k &&
      if i.writes base then code.all fun i => !i.stores else keeps base n off k code

def Instr.changes : Operand ρ w → Instr ρ w → Bool
  | .reg r, i => i.writes r
  | .imm _, _ => false

/-- The code leaves `src`, as it is at the start, at `off`, perhaps by way of other
registers. -/
def saves (base : ρ) (n off k : Nat) : Operand ρ w → List (Instr ρ w) → Bool
  | _, [] => false
  | src, i :: code =>
      decide (i = .store k src base off) && keeps base n off k code ||
      !i.writes base &&
        (!i.changes src && saves base n off k src code ||
          match i with
          | .move dst src' => decide (src' = src) && saves base n off k (.reg dst) code
          | _ => false)

theorem load_exec_spares {i : Instr ρ w} (spares : i.spares base n off k = true)
    (inside : off + k ≤ n) (fits : n ≤ 2 ^ w) :
    load e k (exec e k s i).mem (s.address base off) = load e k s.mem (s.address base off) := by
  cases i with
  | store k₂ src b off₂ =>
      obtain ⟨rfl, inBlock, apart⟩ := of_decide_eq_true spares
      exact load_store_apart (apart_of_le _ apart.symm (by omega) (by omega))
  | push => cases spares
  | load | move | lea | xor | nop => rfl

theorem load_keeps {code : List (Instr ρ w)} (kept : keeps base n off k code = true)
    (inside : off + k ≤ n) (fits : n ≤ 2 ^ w) :
    load e k (execAll e k s code).mem (s.address base off) =
      load e k s.mem (s.address base off) := by
  induction code generalizing s with
  | nil => rfl
  | cons i code ih =>
      simp only [keeps, Bool.and_eq_true] at kept
      obtain ⟨spares, rest⟩ := kept
      have here := load_exec_spares (e := e) (s := s) spares inside fits
      split at rest
      next => rw [execAll_cons, mem_execAll rest, here]
      next stays =>
        have same : (exec e k s i).address base off = s.address base off := by
          rw [State.address, reg_exec (by simpa using stays), State.address]
        rw [execAll_cons, ← same, ih rest, same, here]

theorem value_exec {i : Instr ρ w} {src : Operand ρ w} (unchanged : i.changes src = false) :
    src.value (exec e k s i) = src.value s := by
  cases src with
  | reg r => exact reg_exec unchanged
  | imm v => rfl

/-- What `saves` guarantees, for fields of the width of a register. -/
theorem load_saves {code : List (Instr ρ w)} {src : Operand ρ w}
    (saved : saves base n off k src code = true) (whole : 8 * k = w)
    (inside : off + k ≤ n) (fits : n ≤ 2 ^ w) :
    load e k (execAll e k s code).mem (s.address base off) = src.value s := by
  induction code generalizing s src with
  | nil => cases saved
  | cons i code ih =>
      simp only [saves, Bool.or_eq_true, Bool.and_eq_true, decide_eq_true_eq,
        Bool.not_eq_true'] at saved
      rcases saved with ⟨rfl, kept⟩ | ⟨stays, later⟩
      · have here := load_keeps (e := e) (s := exec e k s (.store k src base off)) kept inside fits
        have same : (exec e k s (.store k src base off)).address base off =
            s.address base off := rfl
        rw [execAll_cons, ← same, here, same]
        exact load_store_self whole (by omega)
      · have same : (exec e k s i).address base off = s.address base off := by
          rw [State.address, reg_exec stays, State.address]
        rw [execAll_cons, ← same]
        rcases later with ⟨unchanged, later⟩ | copied
        · rw [ih later, value_exec unchanged]
        · cases i with
          | move dst src' =>
              simp only [Bool.and_eq_true, decide_eq_true_eq] at copied
              obtain ⟨rfl, later⟩ := copied
              rw [ih later]
              exact reg_set_self dst _
          | load | store | lea | xor | push | nop => cases copied

/-- The code stores in the block only. -/
def confined (base : ρ) (n : Nat) : List (Instr ρ w) → Bool
  | [] => true
  | i :: code => i.inBlock base n &&
      if i.writes base then code.all fun i => !i.stores else confined base n code

theorem same_exec_inBlock {i : Instr ρ w} {b : BitVec w} {l : Nat}
    (inBlock : i.inBlock base n = true) (apart : Apart (s.reg base) n b l) :
    Same b l (exec e k s i).mem s.mem := by
  cases i with
  | store k' src b' off =>
      obtain ⟨rfl, inside⟩ := of_decide_eq_true inBlock
      have field := apart.symm.sub (i := 0) (p := l) (by omega) inside
      simp only [BitVec.add_zero] at field
      exact same_store field
  | push => cases inBlock
  | load | move | lea | xor | nop => exact .refl b l s.mem

/-- Code that stores in the block only changes nothing outside. -/
theorem same_confined {code : List (Instr ρ w)} {b : BitVec w} {l : Nat}
    (inBlock : confined base n code = true) (apart : Apart (s.reg base) n b l) :
    Same b l (execAll e k s code).mem s.mem := by
  induction code generalizing s with
  | nil => exact .refl b l s.mem
  | cons i code ih =>
      simp only [confined, Bool.and_eq_true] at inBlock
      obtain ⟨here, rest⟩ := inBlock
      have first := same_exec_inBlock (e := e) (k := k) here apart
      rw [execAll_cons]
      split at rest
      next => rwa [mem_execAll rest]
      next stays =>
        have kept : (exec e k s i).reg base = s.reg base := reg_exec (by simpa using stays)
        exact (ih rest (by rwa [kept])).trans first

/-! ## Restoring -/

/-- What is in `r` at the start is in `dst` at the end. -/
def carries (dst : ρ) : ρ → List (Instr ρ w) → Bool
  | r, [] => r = dst
  | r, i :: code =>
      !i.writes r && carries dst r code ||
        match i with
        | .move r' (.reg src) => decide (src = r) && carries dst r' code
        | _ => false

/-- The field at `off`, as it is at the start, ends up in `dst`. -/
def restores (base dst : ρ) (off k : Nat) : List (Instr ρ w) → Bool
  | [] => false
  | i :: code =>
      (match i with
        | .load k' r b off' => decide (k' = k ∧ b = base ∧ off' = off) && carries dst r code
        | _ => false) ||
      !i.writes base && !i.stores && restores base dst off k code

theorem reg_carries {code : List (Instr ρ w)} {r dst : ρ} (carried : carries dst r code = true) :
    (execAll e k s code).reg dst = s.reg r := by
  induction code generalizing s r with
  | nil => rw [of_decide_eq_true carried, execAll_nil]
  | cons i code ih =>
      simp only [carries, Bool.or_eq_true, Bool.and_eq_true, Bool.not_eq_true'] at carried
      rcases carried with ⟨untouched, later⟩ | copied
      · rw [execAll_cons, ih later, reg_exec untouched]
      · cases i with
        | move r' src =>
            cases src with
            | reg src =>
                simp only [Bool.and_eq_true, decide_eq_true_eq] at copied
                obtain ⟨rfl, later⟩ := copied
                rw [execAll_cons, ih later]
                exact reg_set_self r' _
            | imm => cases copied
        | load | store | lea | xor | push | nop => cases copied

/-- What `restores` guarantees. -/
theorem reg_restores {code : List (Instr ρ w)} {dst : ρ}
    (restored : restores base dst off k code = true) :
    (execAll e k s code).reg dst = load e k s.mem (s.address base off) := by
  induction code generalizing s with
  | nil => cases restored
  | cons i code ih =>
      simp only [restores, Bool.or_eq_true, Bool.and_eq_true, Bool.not_eq_true'] at restored
      rcases restored with loaded | ⟨⟨stays, readOnly⟩, later⟩
      · cases i with
        | load k' r b off' =>
            simp only [Bool.and_eq_true, decide_eq_true_eq] at loaded
            obtain ⟨⟨rfl, rfl, rfl⟩, carried⟩ := loaded
            rw [execAll_cons, reg_carries carried]
            exact reg_set_self r _
        | store | move | lea | xor | push | nop => cases loaded
      · have same : (exec e k s i).address base off = s.address base off := by
          rw [State.address, reg_exec stays, State.address]
        rw [execAll_cons, ih later, mem_exec readOnly, same]

/-- What one routine saves and another restores comes back, in whatever state the
second is entered, if the block is as the first left it. -/
theorem restored {saving restoring : List (Instr ρ w)} {src : Operand ρ w} {base' dst : ρ}
    (saved : saves base n off k src saving = true)
    (restored : restores base' dst off k restoring = true) (whole : 8 * k = w)
    (inside : off + k ≤ n) (fits : n ≤ 2 ^ w) (argument : t.reg base' = s.reg base)
    (block : Same (s.reg base) n t.mem (execAll e k s saving).mem) :
    (execAll e k t restoring).reg dst = src.value s := by
  have address : t.address base' off = s.address base off := by
    rw [State.address, argument, State.address]
  calc (execAll e k t restoring).reg dst
      = load e k t.mem (s.address base off) := by rw [reg_restores restored, address]
    _ = load e k (execAll e k s saving).mem (s.address base off) :=
        load_congr (block.sub inside)
    _ = src.value s := load_saves saved whole inside fits

/-! ## Leaving through the stack -/

theorem mem_leave_ret (sp : ρ) : (leave e k s (.ret sp)).mem = s.mem := rfl

theorem reg_leave_ret {sp r : ρ} (other : sp ≠ r) :
    (leave e k s (.ret sp)).reg r = s.reg r :=
  reg_set_of_ne other

/-- A routine that pushes an address and returns goes to it, with the stack pointer
that it had before. -/
theorem leave_push {sp : ρ} {code : List (Instr ρ w)} (base : ρ) (off : Nat)
    (whole : 8 * k = w) (fits : k ≤ 2 ^ w)
    (readOnly : code.all (fun i => !i.stores) = true)
    (untouched : code.all (fun i => !i.writes sp) = true) :
    (leave e k (execAll e k s (.push sp base off :: code)) (.ret sp)).pc =
        load e k s.mem (s.address base off) ∧
      (leave e k (execAll e k s (.push sp base off :: code)) (.ret sp)).reg sp = s.reg sp := by
  have top : (execAll e k s (.push sp base off :: code)).reg sp =
      s.reg sp - BitVec.ofNat w k := by
    rw [execAll_cons, reg_execAll untouched]
    exact reg_set_self sp _
  have pushed : (execAll e k s (.push sp base off :: code)).mem =
      store e k (s.reg sp - BitVec.ofNat w k) (load e k s.mem (s.address base off)) s.mem := by
    rw [execAll_cons, mem_execAll readOnly]
    rfl
  constructor
  · simp only [leave, top, pushed]
    exact load_store_self whole fits
  · simp only [leave, reg_set_self, State.address, top]
    exact BitVec.sub_add_cancel _ _

end Machine
