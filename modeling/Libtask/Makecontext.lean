import Libtask.Swapcontext

/-!
# The first activation of a task

`makecontext` of `context.c` for 386 and amd64, and what `SET` does with the context
that it prepares.
-/

namespace Libtask.Makecontext

open WordMemory Machine Asm Swapcontext

/-- `uc_stack`: a region of the address space with room for the first frames. -/
structure Stack (w : Nat) where
  ss_sp : BitVec w
  ss_size : BitVec w
  fits : ss_sp.toNat + ss_size.toNat ≤ 2 ^ w
  large : 64 ≤ ss_size.toNat

/-- `makecontext` for 386, where `uc_mcontext` is at `mc` and the argument `argc` at
`argcp` on the stack of the caller. -/
def i386Makecontext (stack : Stack 32) (mc func : BitVec 32) (argc : Nat) (argcp : BitVec 32)
    (m : Memory 32) : Memory 32 :=
  let sp := stack.ss_sp + 4 * (stack.ss_size / 4)
  let sp := sp - 4 * BitVec.ofNat 32 argc
  let sp := sp - sp % 16
  let m := memmove sp (argcp + 4) (argc * 4) m
  let sp := sp - 4
  let m := store .little 4 sp 0 m
  let m := store .little 4 (mc + BitVec.ofNat 32 (I386.Field.offset .mc_eip)) func m
  store .little 4 (mc + BitVec.ofNat 32 (I386.Field.offset .mc_esp)) sp m

/-- `makecontext` for amd64, with its variable arguments.  It crashes on purpose when
there are not two. -/
def amd64Makecontext (stack : Stack 64) (mc func : BitVec 64) (argc : Nat)
    (va : Nat → BitVec 32) (m : Memory 64) : Option (Memory 64) :=
  let m := memset mc 0 Amd64.sizeofMcontext m
  if argc ≠ 2 then none
  else
    let m := store .little 8 (mc + BitVec.ofNat 64 (Amd64.Field.offset .mc_rdi))
      ((va 0).signExtend 64) m
    let m := store .little 8 (mc + BitVec.ofNat 64 (Amd64.Field.offset .mc_rsi))
      ((va 1).signExtend 64) m
    let sp := stack.ss_sp + 8 * (stack.ss_size / 8)
    let sp := sp - 8 * BitVec.ofNat 64 argc
    let sp := sp - sp % 16
    let sp := sp - 8
    let m := store .little 8 sp 0 m
    let m := store .little 8 (mc + BitVec.ofNat 64 (Amd64.Field.offset .mc_rip)) func m
    some (store .little 8 (mc + BitVec.ofNat 64 (Amd64.Field.offset .mc_rsp)) sp m)

/-! ## Where the stack starts -/

/-- The offset in the region at which `k` bytes for the return address end, with two
words of `k` bytes above, on a multiple of 16. -/
structure Stack.Top {w : Nat} (stack : Stack w) (k : Nat) (off : Nat) : Prop where
  above : off + 2 * k ≤ stack.ss_size.toNat
  below : 2 * k ≤ off
  aligned : (stack.ss_sp.toNat + off) % 16 = 0

/-- Both ports align the stack pointer that is two words below the end of the region. -/
theorem Stack.top_of_toNat {w : Nat} (stack : Stack w) {k : Nat} {sp : BitVec w}
    (positive : 0 < k) (small : k ≤ 8)
    (last : sp.toNat = stack.ss_sp.toNat + k * (stack.ss_size.toNat / k) - 2 * k) :
    ∃ off, stack.Top k off ∧ sp.toNat - sp.toNat % 16 = stack.ss_sp.toNat + off := by
  have large := stack.large
  have words := Nat.div_add_mod stack.ss_size.toNat k
  have partWord := Nat.mod_lt stack.ss_size.toNat positive
  have aligned := Nat.mod_lt sp.toNat (by decide : 0 < 16)
  refine ⟨sp.toNat - sp.toNat % 16 - stack.ss_sp.toNat, ?_, ?_⟩
  · exact {
      above := by omega
      below := by omega
      aligned := by omega }
  · omega

theorem Stack.top_i386 (stack : Stack 32) :
    ∃ off, stack.Top 4 off ∧
      (let sp := stack.ss_sp + 4 * (stack.ss_size / 4)
       let sp := sp - 4 * BitVec.ofNat 32 2
       sp - sp % 16) = stack.ss_sp + BitVec.ofNat 32 off := by
  have fits := stack.fits
  have large := stack.large
  let sp := stack.ss_sp + 4 * (stack.ss_size / 4) - 4 * BitVec.ofNat 32 2
  have last : sp.toNat = stack.ss_sp.toNat + 4 * (stack.ss_size.toNat / 4) - 2 * 4 := by
    have word : (4 : BitVec 32).toNat = 4 := rfl
    simp only [sp, BitVec.toNat_sub, BitVec.toNat_add, BitVec.toNat_mul, BitVec.toNat_udiv,
      BitVec.toNat_ofNat, word, Nat.reducePow, Nat.reduceMod, Nat.reduceMul]
    omega
  obtain ⟨off, top, aligned⟩ := stack.top_of_toNat (by decide) (by decide) last
  refine ⟨off, top, ?_⟩
  have above := top.above
  have sixteen : (16 : BitVec 32).toNat = 16 := rfl
  have remainder : (sp % 16).toNat = sp.toNat % 16 := by
    rw [BitVec.toNat_umod, sixteen]
  apply BitVec.eq_of_toNat_eq
  rw [BitVec.toNat_sub_of_le (BitVec.le_def.mpr (remainder ▸ Nat.mod_le _ _)), remainder,
    aligned, BitVec.toNat_add, BitVec.toNat_ofNat]
  omega

theorem Stack.top_amd64 (stack : Stack 64) :
    ∃ off, stack.Top 8 off ∧
      (let sp := stack.ss_sp + 8 * (stack.ss_size / 8)
       let sp := sp - 8 * BitVec.ofNat 64 2
       sp - sp % 16) = stack.ss_sp + BitVec.ofNat 64 off := by
  have fits := stack.fits
  have large := stack.large
  let sp := stack.ss_sp + 8 * (stack.ss_size / 8) - 8 * BitVec.ofNat 64 2
  have last : sp.toNat = stack.ss_sp.toNat + 8 * (stack.ss_size.toNat / 8) - 2 * 8 := by
    have word : (8 : BitVec 64).toNat = 8 := rfl
    simp only [sp, BitVec.toNat_sub, BitVec.toNat_add, BitVec.toNat_mul, BitVec.toNat_udiv,
      BitVec.toNat_ofNat, word, Nat.reducePow, Nat.reduceMod, Nat.reduceMul]
    omega
  obtain ⟨off, top, aligned⟩ := stack.top_of_toNat (by decide) (by decide) last
  refine ⟨off, top, ?_⟩
  have above := top.above
  have sixteen : (16 : BitVec 64).toNat = 16 := rfl
  have remainder : (sp % 16).toNat = sp.toNat % 16 := by
    rw [BitVec.toNat_umod, sixteen]
  apply BitVec.eq_of_toNat_eq
  rw [BitVec.toNat_sub_of_le (BitVec.le_def.mpr (remainder ▸ Nat.mod_le _ _)), remainder,
    aligned, BitVec.toNat_add, BitVec.toNat_ofNat]
  omega

/-! ## Activation -/

/-- In `t`, `SET` is called on the context at `mc`, and neither the context nor its
stack changed since `m`. -/
structure Enters {ρ : Type} {w : Nat} (port : Port ρ w) (stack : Stack w) (mc : BitVec w)
    (m : Memory w) (t : State ρ w) : Prop where
  argument : port.argument t = mc
  block : Same mc port.block t.mem m
  stack : Same stack.ss_sp stack.ss_size.toNat t.mem m

/-- `func` starts in `u`: on top of its stack are a zero return address and two more
words of the region, and the stack was aligned before that address was pushed. -/
structure Activated {ρ : Type} {w : Nat} (port : Port ρ w) (stack : Stack w) (func : BitVec w)
    (u : State ρ w) : Prop where
  pc : u.pc = func
  returnAddress : load .little port.returnSlot u.mem (u.reg port.sp) = 0
  inside : stack.ss_sp.toNat ≤ (u.reg port.sp).toNat ∧
    (u.reg port.sp).toNat + 3 * port.returnSlot ≤ stack.ss_sp.toNat + stack.ss_size.toNat
  aligned : ((u.reg port.sp).toNat + port.returnSlot) % 16 = 0

section Stacked

variable {ρ : Type} [DecidableEq ρ] {w : Nat} {port : Port ρ w} {k : Nat} {code : StackCode ρ w}
variable {enter : State ρ w → State ρ w} {stack : Stack w} {mc func : BitVec w} {m : Memory w}
variable {t : State ρ w} {off : Nat}

/-- A context whose stack pointer is one word below the top of the stack. -/
structure Prepared (stack : Stack w) (k off pcAt spAt : Nat) (mc func : BitVec w)
    (m : Memory w) : Prop where
  pc : load .little k m (mc + BitVec.ofNat w pcAt) = func
  sp : load .little k m (mc + BitVec.ofNat w spAt) = stack.ss_sp + BitVec.ofNat w (off - k)
  zero : load .little k m (stack.ss_sp + BitVec.ofNat w (off - k)) = 0

variable (stacked : port.Stacked .little k code enter) (checks : port.StackChecks k code)
variable (top : stack.Top k off) (prepared : Prepared stack k off code.pcAt code.spAt mc func m)
variable (enters : Enters port stack mc m t)
include stacked checks prepared enters

theorem set_pc : (port.set t).pc = func := by
  rw [(stacked.set_spec checks).1, enters.argument,
    load_congr (enters.block.sub checks.inside.1), prepared.pc]

theorem set_sp : (port.set t).reg port.sp = stack.ss_sp + BitVec.ofNat w (off - k) := by
  rw [stacked.sp, (stacked.set_spec checks).2.1, enters.argument,
    load_congr (enters.block.sub checks.inside.2), prepared.sp]

include top

/-- `SET` writes one word, below the stack pointer that it leaves. -/
theorem set_mem : (port.set t).mem =
    store .little k (stack.ss_sp + BitVec.ofNat w (off - 2 * k)) func t.mem := by
  have below := top.below
  have words : BitVec.ofNat w (off - k) =
      BitVec.ofNat w (off - 2 * k) + BitVec.ofNat w k := by
    rw [← BitVec.ofNat_add]
    congr 1
    omega
  rw [(stacked.set_spec checks).2.2, enters.argument,
    load_congr (enters.block.sub checks.inside.2), prepared.sp, words, ← BitVec.add_assoc,
    BitVec.add_sub_cancel, load_congr (enters.block.sub checks.inside.1), prepared.pc]

/-- The stack above that word is as it was prepared. -/
theorem load_set_stack {j l : Nat} (above : off - k ≤ j)
    (inside : j + l ≤ stack.ss_size.toNat) :
    load .little l (port.set t).mem (stack.ss_sp + BitVec.ofNat w j) =
      load .little l m (stack.ss_sp + BitVec.ofNat w j) := by
  have mem := set_mem stacked checks top prepared enters
  have below := top.below
  have atMost := top.above
  have size := stack.ss_size.isLt
  rw [mem, load_store_apart (apart_of_le _ (.inr (by omega)) (by omega) (by omega))]
  exact load_congr (enters.stack.sub inside)

/-- So is the context, which is not on the stack. -/
theorem load_set_block {i l n : Nat} (apart : Apart mc n stack.ss_sp stack.ss_size.toNat)
    (inside : i + l ≤ port.block) (inObject : i + l ≤ n) :
    load .little l (port.set t).mem (mc + BitVec.ofNat w i) =
      load .little l m (mc + BitVec.ofNat w i) := by
  have mem := set_mem stacked checks top prepared enters
  have below := top.below
  have atMost := top.above
  rw [mem, load_store_apart (apart.sub inObject (by omega))]
  exact load_congr (enters.block.sub inside)

theorem activated : Activated port stack func (port.set t) := by
  have sp := set_sp stacked checks prepared enters
  have below := top.below
  have above := top.above
  have fits := stack.fits
  have aligned := top.aligned
  have size := stack.ss_size.isLt
  have positive : 0 < k := by
    have large := stack.large
    have whole := stacked.whole
    rcases Nat.eq_zero_or_pos k with rfl | positive
    · obtain rfl : w = 0 := whole.symm
      omega
    · exact positive
  have number : ((port.set t).reg port.sp).toNat = stack.ss_sp.toNat + (off - k) := by
    rw [sp, BitVec.toNat_add, BitVec.toNat_ofNat,
      Nat.mod_eq_of_lt (show off - k < 2 ^ w by omega), Nat.mod_eq_of_lt (by omega)]
  exact {
    pc := set_pc stacked checks prepared enters
    returnAddress := by
      rw [sp, stacked.returnSlot,
        load_set_stack stacked checks top prepared enters (Nat.le_refl _) (by omega),
        prepared.zero]
    inside := by
      rw [number, stacked.returnSlot]
      omega
    aligned := by
      rw [number, stacked.returnSlot, Nat.add_assoc, Nat.sub_add_cancel (by omega)]
      exact aligned }

end Stacked

/-! ## The two ports -/

theorem ofNat_sub_word {w : Nat} (a : BitVec w) {off k : Nat} (enough : k ≤ off) :
    a + BitVec.ofNat w off - BitVec.ofNat w k = a + BitVec.ofNat w (off - k) := by
  have words : BitVec.ofNat w off = BitVec.ofNat w (off - k) + BitVec.ofNat w k := by
    rw [← BitVec.ofNat_add, Nat.sub_add_cancel enough]
  rw [words, ← BitVec.add_assoc, BitVec.add_sub_cancel]

section I386

variable {stack : Stack 32} {mc func argcp : BitVec 32} {m : Memory 32}

theorem i386Makecontext_spec (func argcp : BitVec 32) (m : Memory 32)
    (apart : Apart mc I386.sizeofMcontext stack.ss_sp stack.ss_size.toNat) :
    ∃ off, stack.Top 4 off ∧
      Prepared stack 4 off i386Code.pcAt i386Code.spAt mc func
        (i386Makecontext stack mc func 2 argcp m) ∧
      load .little 4 (i386Makecontext stack mc func 2 argcp m)
          (stack.ss_sp + BitVec.ofNat 32 off) = load .little 4 m (argcp + 4) ∧
      load .little 4 (i386Makecontext stack mc func 2 argcp m)
          (stack.ss_sp + BitVec.ofNat 32 (off + 4)) = load .little 4 m (argcp + 8) := by
  obtain ⟨off, top, spEq⟩ := stack.top_i386
  have above := top.above
  have below := top.below
  have size := stack.ss_size.isLt
  let m₁ := memmove (stack.ss_sp + BitVec.ofNat 32 off) (argcp + 4) 8 m
  let sp := stack.ss_sp + BitVec.ofNat 32 (off - 4)
  let m₂ := store .little 4 sp 0 m₁
  let m₃ := store .little 4 (mc + BitVec.ofNat 32 i386Code.pcAt) func m₂
  have made : i386Makecontext stack mc func 2 argcp m =
      store .little 4 (mc + BitVec.ofNat 32 i386Code.spAt) sp m₃ := by
    have word := ofNat_sub_word stack.ss_sp (show 4 ≤ off by omega)
    simp only [i386Makecontext, spEq]
    rw [show (4 : BitVec 32) = BitVec.ofNat 32 4 from rfl, word]
    rfl
  -- a word of the region is not in the context
  have outside {j : Nat} (inside : j + 4 ≤ stack.ss_size.toNat) :
      load .little 4 (i386Makecontext stack mc func 2 argcp m)
          (stack.ss_sp + BitVec.ofNat 32 j) =
        load .little 4 m₂ (stack.ss_sp + BitVec.ofNat 32 j) := by
    rw [made, load_store_apart (apart.symm.sub inside (by decide)),
      load_store_apart (apart.symm.sub inside (by decide))]
  have argument {i : Nat} (inside : i + 4 ≤ 8) :
      load .little 4 (i386Makecontext stack mc func 2 argcp m)
          (stack.ss_sp + BitVec.ofNat 32 (off + i)) =
        load .little 4 m (argcp + 4 + BitVec.ofNat 32 i) := by
    rw [outside (by omega), load_store_apart
      (apart_of_le _ (.inr (by omega)) (by omega) (by omega)), ← add_ofNat_add]
    exact load_memmove inside (by decide)
  refine ⟨off, top, ?_, by simpa using argument (i := 0) (by decide), ?_⟩
  · exact {
      pc := by
        rw [made, load_store_apart (apart_of_le _ (.inl (by decide)) (by decide) (by decide))]
        exact load_store_self rfl (by decide)
      sp := by
        rw [made]
        exact load_store_self rfl (by decide)
      zero := by
        rw [outside (by omega)]
        exact load_store_self rfl (by decide) }
  · have second := argument (i := 4) (by decide)
    rwa [BitVec.add_assoc] at second

end I386

section Amd64

variable {stack : Stack 64} {mc func : BitVec 64} {va : Nat → BitVec 32} {m m' : Memory 64}

theorem amd64Makecontext_spec (apart : Apart mc Amd64.sizeofMcontext stack.ss_sp
      stack.ss_size.toNat) (made : amd64Makecontext stack mc func 2 va m = some m') :
    ∃ off, stack.Top 8 off ∧
      Prepared stack 8 off amd64Code.pcAt amd64Code.spAt mc func m' ∧
      load .little 8 m' (mc + BitVec.ofNat 64 8) = (va 0).signExtend 64 ∧
      load .little 8 m' (mc + BitVec.ofNat 64 16) = (va 1).signExtend 64 := by
  obtain ⟨off, top, spEq⟩ := stack.top_amd64
  have above := top.above
  have below := top.below
  have size := stack.ss_size.isLt
  let m₁ := store .little 8 (mc + BitVec.ofNat 64 8) ((va 0).signExtend 64)
    (memset mc 0 Amd64.sizeofMcontext m)
  let m₂ := store .little 8 (mc + BitVec.ofNat 64 16) ((va 1).signExtend 64) m₁
  let sp := stack.ss_sp + BitVec.ofNat 64 (off - 8)
  let m₃ := store .little 8 sp 0 m₂
  let m₄ := store .little 8 (mc + BitVec.ofNat 64 amd64Code.pcAt) func m₃
  obtain rfl : m' = store .little 8 (mc + BitVec.ofNat 64 amd64Code.spAt) sp m₄ := by
    have word := ofNat_sub_word stack.ss_sp (show 8 ≤ off by omega)
    simp only [amd64Makecontext, spEq] at made
    rw [if_neg (by decide), show (8 : BitVec 64) = BitVec.ofNat 64 8 from rfl, word] at made
    exact (Option.some.inj made).symm
  have field {i : Nat} (early : i + 8 ≤ amd64Code.pcAt) :
      load .little 8 (store .little 8 (mc + BitVec.ofNat 64 amd64Code.spAt) sp m₄)
          (mc + BitVec.ofNat 64 i) = load .little 8 m₂ (mc + BitVec.ofNat 64 i) := by
    have pcAt : amd64Code.pcAt = 160 := rfl
    have spAt : amd64Code.spAt = 184 := rfl
    have block : Amd64.sizeofMcontext = 800 := rfl
    rw [load_store_apart (apart_of_le _ (.inl (by omega)) (by omega) (by omega)),
      load_store_apart (apart_of_le _ (.inl early) (by omega) (by omega)),
      load_store_apart (apart.sub (by omega) (by omega))]
  refine ⟨off, top, ?_, ?_, ?_⟩
  · exact {
      pc := by
        rw [load_store_apart (apart_of_le _ (.inl (by decide)) (by decide) (by decide))]
        exact load_store_self rfl (by decide)
      sp := load_store_self rfl (by decide)
      zero := by
        rw [load_store_apart (apart.symm.sub (by omega) (by decide)),
          load_store_apart (apart.symm.sub (by omega) (by decide))]
        exact load_store_self rfl (by decide) }
  · rw [field (by decide), load_store_apart (apart_of_le _ (.inl (by decide)) (by decide)
      (by decide))]
    exact load_store_self rfl (by decide)
  · rw [field (by decide)]
    exact load_store_self rfl (by decide)

/-- The low half of an `int` that was widened to a register. -/
theorem setWidth_signExtend (v : BitVec 32) : (v.signExtend 64).setWidth 32 = v := by
  apply BitVec.eq_of_getLsbD_eq
  intro i inWord
  simp [BitVec.getElem_signExtend, inWord, show i < 64 by omega]

end Amd64

/-! ## The first activation -/

/-- The first two arguments of a function that starts in `u`, in the places of the
calling convention. -/
def i386Arguments (u : State I386.Reg 32) : BitVec 32 × BitVec 32 :=
  (load .little 4 u.mem (u.address .esp 4), load .little 4 u.mem (u.address .esp 8))

def amd64Arguments (u : State Amd64.Reg 64) : BitVec 32 × BitVec 32 :=
  ((u.reg .rdi).setWidth 32, (u.reg .rsi).setWidth 32)

theorem i386_activated {stack : Stack 32} {mc func argcp : BitVec 32} {m : Memory 32}
    (apart : Apart mc I386.sizeofMcontext stack.ss_sp stack.ss_size.toNat)
    {t : State I386.Reg 32}
    (enters : Enters i386 stack mc (i386Makecontext stack mc func 2 argcp m) t) :
    Activated i386 stack func (i386.set t) ∧
      i386Arguments (i386.set t) =
        (load .little 4 m (argcp + 4), load .little 4 m (argcp + 8)) := by
  obtain ⟨off, top, prepared, first, second⟩ :=
    i386Makecontext_spec func argcp m apart
  have above := top.above
  have below := top.below
  have sp : (i386.set t).reg .esp = stack.ss_sp + BitVec.ofNat 32 (off - 4) :=
    set_sp i386_stacked i386_checks prepared enters
  constructor
  · exact activated i386_stacked i386_checks top prepared enters
  · rw [i386Arguments, State.address, State.address, sp, add_ofNat_add, add_ofNat_add,
      show off - 4 + 4 = off by omega, show off - 4 + 8 = off + 4 by omega,
      load_set_stack i386_stacked i386_checks top prepared enters (by omega) (by omega),
      load_set_stack i386_stacked i386_checks top prepared enters (by omega) (by omega),
      first, second]

theorem amd64_activated {stack : Stack 64} {mc func : BitVec 64} {va : Nat → BitVec 32}
    {m m' : Memory 64} (apart : Apart mc Amd64.sizeofMcontext stack.ss_sp stack.ss_size.toNat)
    (made : amd64Makecontext stack mc func 2 va m = some m') {t : State Amd64.Reg 64}
    (enters : Enters amd64 stack mc m' t) :
    Activated amd64 stack func (amd64.set t) ∧
      amd64Arguments (amd64.set t) = (va 0, va 1) := by
  obtain ⟨off, top, prepared, first, second⟩ := amd64Makecontext_spec apart made
  have rdi : (amd64.set t).reg .rdi = (va 0).signExtend 64 := by
    have last := amd64_stacked.set_base (t := t) amd64_checks 8 (by decide)
    rw [enters.argument, load_set_block amd64_stacked amd64_checks top prepared enters apart
      (by decide) (by decide), first] at last
    exact last
  have rsi : (amd64.set t).reg .rsi = (va 1).signExtend 64 := by
    have loaded : restores .rdi .rsi 16 8 (amd64Code.set 8) = true := by decide
    rw [amd64_stacked.set, reg_leave_ret (by decide), reg_restores loaded, ← second]
    have base : t.reg .rdi = mc := enters.argument
    rw [State.address, id, base]
    exact load_congr (enters.block.sub (by decide))
  constructor
  · exact activated amd64_stacked amd64_checks top prepared enters
  · rw [amd64Arguments, rdi, rsi, setWidth_signExtend, setWidth_signExtend]

/-- `SET` on a context that `makecontext` prepared with two arguments starts its
function on the region. -/
theorem first_activation :
    (∀ (stack : Stack 32) (mc func argcp : BitVec 32) (m : Memory 32) (t : State I386.Reg 32),
      Apart mc I386.sizeofMcontext stack.ss_sp stack.ss_size.toNat →
      Enters i386 stack mc (i386Makecontext stack mc func 2 argcp m) t →
      Activated i386 stack func (i386.set t) ∧
        i386Arguments (i386.set t) =
          (load .little 4 m (argcp + 4), load .little 4 m (argcp + 8))) ∧
    ∀ (stack : Stack 64) (mc func : BitVec 64) (va : Nat → BitVec 32) (m : Memory 64),
      Apart mc Amd64.sizeofMcontext stack.ss_sp stack.ss_size.toNat →
      ∃ m', amd64Makecontext stack mc func 2 va m = some m' ∧
        ∀ t, Enters amd64 stack mc m' t →
          Activated amd64 stack func (amd64.set t) ∧
            amd64Arguments (amd64.set t) = (va 0, va 1) := by
  constructor
  · intro stack mc func argcp m t apart enters
    exact i386_activated apart enters
  · intro stack mc func va m apart
    exact ⟨_, rfl, fun t enters => amd64_activated apart rfl enters⟩

/-- A region that is aligned at neither end, and a context below it. -/
theorem odd_stack_activated :
    (∃ stack : Stack 32, stack.ss_sp = 0x8001 ∧ stack.ss_size = 101 ∧
      ∃ t, Activated i386 stack 0x400000 (i386.set t) ∧
        i386Arguments (i386.set t) = (0x07060504, 0x0b0a0908)) ∧
    ∃ stack : Stack 64, stack.ss_sp = 0x8001 ∧ stack.ss_size = 101 ∧
      ∃ t, Activated amd64 stack 0x400000 (amd64.set t) ∧
        amd64Arguments (amd64.set t) = (1, 2) := by
  constructor
  · let stack : Stack 32 := ⟨0x8001, 101, by decide, by decide⟩
    let m : Memory 32 := fun a => a.setWidth 8
    let m' := i386Makecontext stack 0x1000 0x400000 2 0x200 m
    -- the call of `SET` has its argument at `0x104`
    let t : State I386.Reg 32 :=
      { reg := fun _ => 0x100, mem := store .little 4 0x104 0x1000 m', pc := 0 }
    have enters : Enters i386 stack 0x1000 m' t := {
      argument := load_store_self rfl (by decide)
      block := same_store (apart_ofNat (i := 0x104) (j := 0x1000) (by decide) (by decide)).symm
      stack := same_store (apart_ofNat (i := 0x104) (j := 0x8001) (by decide) (by decide)).symm }
    have activation := first_activation.1 stack 0x1000 0x400000 0x200 m t
      (apart_ofNat (i := 0x1000) (j := 0x8001) (by decide) (by decide)) enters
    exact ⟨stack, rfl, rfl, t, activation.1, activation.2.trans (by decide)⟩
  · let stack : Stack 64 := ⟨0x8001, 101, by decide, by decide⟩
    have apart : Apart (0x1000#64) Amd64.sizeofMcontext stack.ss_sp stack.ss_size.toNat :=
      apart_ofNat (i := 0x1000) (j := 0x8001) (by decide) (by decide)
    obtain ⟨m', -, starts⟩ := first_activation.2 stack 0x1000 0x400000
      (fun i => BitVec.ofNat 32 (i + 1)) (fun _ => 0) apart
    let t : State Amd64.Reg 64 := { reg := fun _ => 0x1000, mem := m', pc := 0 }
    have activation := starts t ⟨rfl, .refl _ _ _, .refl _ _ _⟩
    exact ⟨stack, rfl, rfl, t, activation⟩

end Libtask.Makecontext
