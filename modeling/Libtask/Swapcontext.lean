import Libtask.Ucontext

/-!
# Saving and resuming a context

`GET` and `SET` of the five architectures behind one interface, and `swapcontext`
on top of them.  A context is saved in a block of memory, the `uc_mcontext` of a
`ucontext_t`.
-/

namespace Libtask.Swapcontext

open WordMemory Machine Asm

/-- What C code relies on in an architecture, and the two routines. -/
structure Port (ρ : Type) (w : Nat) where
  /-- the first argument of a routine that was just called -/
  argument : State ρ w → BitVec w
  returnAddress : State ρ w → BitVec w
  /-- the bytes on top of the stack that hold the return address -/
  returnSlot : Nat
  sp : ρ
  /-- the integer registers that a callee has to preserve -/
  preserved : List ρ
  /-- the register of an `int` result -/
  result : ρ
  /-- the bytes of the block that the routines use -/
  block : Nat
  get : State ρ w → State ρ w
  set : State ρ w → State ρ w

namespace Port

variable {ρ : Type} {w : Nat} (port : Port ρ w)

/-- The routine that was called in `s` has returned in `u`: as its caller sees it. -/
structure Returned (s u : State ρ w) : Prop where
  pc : u.pc = port.returnAddress s
  sp : u.reg port.sp = s.reg port.sp + BitVec.ofNat w port.returnSlot
  preserved : ∀ r ∈ port.preserved, u.reg r = s.reg r

/-- The block is an object of its own: it does not contain the return address. -/
def Separate (s : State ρ w) : Prop :=
  Apart (port.argument s) port.block (s.reg port.sp) port.returnSlot

/-- In `t`, `SET` is called on the block that the call of `GET` in `s` left. -/
structure Resumes (s t : State ρ w) : Prop where
  argument : port.argument t = port.argument s
  block : Same (port.argument s) port.block t.mem (port.get s).mem

/-- The result of a call, as the C code sees it. -/
def int (u : State ρ w) : BitVec 32 := (u.reg port.result).setWidth 32

end Port

/-! ## The ports -/

def i386 : Port I386.Reg 32 where
  argument s := load .little 4 s.mem (s.address .esp 4)
  returnAddress s := load .little 4 s.mem (s.reg .esp)
  returnSlot := 4
  sp := .esp
  preserved := [.ebx, .esi, .edi, .ebp]
  result := .eax
  block := 80
  get := I386.GET.run .little 4
  set := I386.SET.run .little 4

def amd64 : Port Amd64.Reg 64 where
  argument s := s.reg .rdi
  returnAddress s := load .little 8 s.mem (s.reg .rsp)
  returnSlot := 8
  sp := .rsp
  preserved := [.rbx, .rbp, .r12, .r13, .r14, .r15]
  result := .rax
  block := 192
  get := Amd64.GET.run .little 8
  set := Amd64.SET.run .little 8

def power : Port Power.Reg 32 where
  argument s := s.reg (.r 3)
  returnAddress s := s.reg .lr
  returnSlot := 0
  sp := .r 1
  preserved := .r 2 :: [13, 14, 15, 16, 17, 18, 19, 20, 21, 22, 23, 24, 25, 26, 27, 28, 29, 30,
    31].map .r
  result := .r 3
  block := 104
  get := Power.GET.run .big 4
  set := Power.SET.run .big 4

def arm (e : Endian) : Port Arm.Reg 32 where
  argument s := s.reg 0
  returnAddress s := s.reg Arm.lr
  returnSlot := 0
  sp := 13
  preserved := [4, 5, 6, 7, 8, 9, 10, 11]
  result := 0
  block := 60
  get := Arm.GET.run e 4
  set := Arm.SET.run e 4

def mips (e : Endian) : Port Mips.Reg 32 where
  argument s := s.reg 4
  returnAddress s := s.reg 31
  returnSlot := 0
  sp := 29
  preserved := [16, 17, 18, 19, 20, 21, 22, 23, 28, 30]
  result := 2
  block := 136
  get := Mips.GET.run e 4
  set := Mips.SET.run e 4

/-- The architectures for which `context.c` supplies `swapcontext`.  ARM and MIPS
run in either byte order. -/
inductive Platform where
  | i386
  | amd64
  | power
  | arm (e : Endian)
  | mips (e : Endian)
  deriving DecidableEq, Repr

def Platform.Reg : Platform → Type
  | .i386 => I386.Reg
  | .amd64 => Amd64.Reg
  | .power => Power.Reg
  | .arm _ => Arm.Reg
  | .mips _ => Mips.Reg

def Platform.width : Platform → Nat
  | .amd64 => 64
  | _ => 32

def Platform.port : (p : Platform) → Port p.Reg p.width
  | .i386 => Swapcontext.i386
  | .amd64 => Swapcontext.amd64
  | .power => Swapcontext.power
  | .arm e => Swapcontext.arm e
  | .mips e => Swapcontext.mips e

/-! ## What the routines do -/

/-- `GET` returns, and `SET` returns once more from the same call. -/
structure Port.Sound {ρ : Type} {w : Nat} (port : Port ρ w) : Prop where
  get : ∀ s, port.Separate s → port.Returned s (port.get s)
  set : ∀ s t, port.Separate s → port.Resumes s t → port.Returned s (port.set t)

section Checks

variable {ρ : Type} [DecidableEq ρ] {w : Nat} {port : Port ρ w} {e : Endian} {k : Nat}
variable {base : ρ} {get set : List (Instr ρ w)} {s t : State ρ w}

/-- `get` saves `src` at `off`, and `set` loads it from there into `dst`. -/
def Saved (port : Port ρ w) (k : Nat) (base : ρ) (get set : List (Instr ρ w)) (off : Nat)
    (src : Operand ρ w) (dst : ρ) : Prop :=
  saves base port.block off k src get = true ∧ restores base dst off k set = true ∧
    off + k ≤ port.block

instance (off : Nat) (src : Operand ρ w) (dst : ρ) :
    Decidable (Saved port k base get set off src dst) :=
  inferInstanceAs (Decidable (_ ∧ _ ∧ _))

/-- The code leaves the registers alone. -/
def Leaves (code : List (Instr ρ w)) (registers : List ρ) : Prop :=
  ∀ r ∈ registers, code.all (fun i => !i.writes r) = true

instance (code : List (Instr ρ w)) (registers : List ρ) : Decidable (Leaves code registers) :=
  inferInstanceAs (Decidable (∀ r ∈ registers, _))

end Checks

section Link

/-! ### Routines that return through a register -/

variable {ρ : Type} [DecidableEq ρ] {w : Nat}

/-- An architecture where a call leaves the return address in `link`.  `SET` goes
back by way of `target`. -/
structure Port.Linked (port : Port ρ w) (e : Endian) (k : Nat) (base link target : ρ)
    (get set : List (Instr ρ w)) : Prop where
  whole : 8 * k = w
  fits : port.block ≤ 2 ^ w
  argument : ∀ s, port.argument s = s.reg base
  returnAddress : ∀ s, port.returnAddress s = s.reg link
  returnSlot : port.returnSlot = 0
  get : ∀ s, port.get s = { execAll e k s get with pc := (execAll e k s get).reg link }
  set : ∀ s, port.set s = { execAll e k s set with pc := (execAll e k s set).reg target }

variable {port : Port ρ w} {e : Endian} {k : Nat} {base link target : ρ}
variable {get set : List (Instr ρ w)}

theorem Port.Linked.restored (linked : port.Linked e k base link target get set) {off : Nat}
    {src : Operand ρ w} {dst : ρ} (saved : Saved port k base get set off src dst)
    {s t : State ρ w} (resumes : port.Resumes s t) :
    (execAll e k t set).reg dst = src.value s := by
  have argument : t.reg base = s.reg base := by
    rw [← linked.argument t, resumes.argument, linked.argument]
  have block : Same (s.reg base) port.block t.mem (execAll e k s get).mem := by
    have same := resumes.block
    rwa [linked.argument, linked.get] at same
  exact Machine.restored saved.1 saved.2.1 linked.whole saved.2.2 linked.fits argument block

theorem Port.Linked.sound (linked : port.Linked e k base link target get set) (slot : ρ → Nat)
    (leaves : Leaves get (link :: port.sp :: port.preserved))
    (address : Saved port k base get set (slot link) (.reg link) target)
    (registers : ∀ r ∈ port.sp :: port.preserved,
      Saved port k base get set (slot r) (.reg r) r) : port.Sound where
  get s _ := by
    have kept {r : ρ} (member : r ∈ link :: port.sp :: port.preserved) :
        (execAll e k s get).reg r = s.reg r :=
      reg_execAll (leaves r member)
    rw [linked.get]
    exact {
      pc := by simp only [linked.returnAddress, kept (List.mem_cons_self ..)]
      sp := by simp [linked.returnSlot, kept]
      preserved r member := kept (by simp [member]) }
  set s t _ resumes := by
    rw [linked.set]
    exact {
      pc := by
        rw [linked.returnAddress]
        exact linked.restored address resumes
      sp := by
        have back := linked.restored (registers port.sp (List.mem_cons_self ..)) resumes
        simpa [linked.returnSlot, Operand.value] using back
      preserved r member :=
        linked.restored (registers r (List.mem_cons_of_mem _ member)) resumes }

end Link

theorem power_linked :
    power.Linked .big 4 (.r 3) .lr .lr Power.GET.body Power.SET.body where
  whole := rfl
  fits := by decide
  argument _ := rfl
  returnAddress _ := rfl
  returnSlot := rfl
  get _ := rfl
  set _ := rfl

theorem arm_linked (e : Endian) :
    (arm e).Linked e 4 0 Arm.lr Arm.lr Arm.GET.body Arm.SET.body where
  whole := rfl
  fits := by cases e <;> decide
  argument _ := rfl
  returnAddress _ := rfl
  returnSlot := rfl
  get _ := rfl
  set _ := rfl

theorem mips_linked (e : Endian) :
    (mips e).Linked e 4 4 31 8 Mips.GET.body Mips.SET.body where
  whole := rfl
  fits := by cases e <;> decide
  argument _ := rfl
  returnAddress _ := rfl
  returnSlot := rfl
  get _ := rfl
  set _ := rfl

theorem power_sound : power.Sound :=
  power_linked.sound Power.slot (by decide) (by decide) (by decide)

theorem arm_sound (e : Endian) : (arm e).Sound :=
  (arm_linked e).sound Arm.slot (by cases e <;> decide) (by cases e <;> decide)
    (by cases e <;> decide)

theorem mips_sound (e : Endian) : (mips e).Sound :=
  (mips_linked e).sound Mips.slot (by cases e <;> decide) (by cases e <;> decide)
    (by cases e <;> decide)

section Stack

/-! ### Routines that return through the stack -/

/-- The parts of two routines of which the first copies the return address and the
caller's stack pointer into the block, by way of `tmp`, and the second pushes the
saved address on the saved stack. -/
structure StackCode (ρ : Type) (w : Nat) where
  base : ρ
  tmp : ρ
  sp : ρ
  pcAt : Nat
  spAt : Nat
  first : List (Instr ρ w)
  rest : List (Instr ρ w)
  loads : List (Instr ρ w)
  last : List (Instr ρ w)

namespace StackCode

variable {ρ : Type} {w : Nat} (code : StackCode ρ w) (k : Nat)

def saveSp : List (Instr ρ w) := .store k (.reg code.tmp) code.base code.spAt :: code.rest

def savePc : List (Instr ρ w) :=
  .store k (.reg code.tmp) code.base code.pcAt :: .lea code.tmp code.sp k :: code.saveSp k

def get : List (Instr ρ w) := code.first ++ .load k code.tmp code.sp 0 :: code.savePc k

def restoreSp : List (Instr ρ w) := code.loads ++ [.load k code.sp code.base code.spAt]

def pushPc : List (Instr ρ w) := .push code.sp code.base code.pcAt :: code.last

def set : List (Instr ρ w) := code.restoreSp k ++ code.pushPc

end StackCode

variable {ρ : Type} [DecidableEq ρ] {w : Nat}

/-- An architecture where a call pushes the return address.  In `enter s`, the base
register has the argument. -/
structure Port.Stacked (port : Port ρ w) (e : Endian) (k : Nat) (code : StackCode ρ w)
    (enter : State ρ w → State ρ w) : Prop where
  whole : 8 * k = w
  word : k ≤ 2 ^ w
  fits : port.block ≤ 2 ^ w
  sp : port.sp = code.sp
  returnSlot : port.returnSlot = k
  returnAddress : ∀ s, port.returnAddress s = load e k s.mem (s.reg code.sp)
  mem : ∀ s, (enter s).mem = s.mem
  argument : ∀ s, (enter s).reg code.base = port.argument s
  kept : ∀ s, ∀ r ∈ code.sp :: port.preserved, (enter s).reg r = s.reg r
  get : ∀ s, port.get s = leave e k (execAll e k (enter s) (code.get k)) (.ret code.sp)
  set : ∀ s, port.set s = leave e k (execAll e k (enter s) (code.set k)) (.ret code.sp)

/-- What is checked of the two routines. -/
structure Port.StackChecks (port : Port ρ w) (k : Nat) (code : StackCode ρ w) : Prop where
  inside : code.pcAt + k ≤ port.block ∧ code.spAt + k ≤ port.block
  distinct : code.tmp ≠ code.base ∧ code.tmp ≠ code.sp ∧ code.sp ≠ code.base ∧
    code.sp ∉ port.preserved
  first : confined code.base port.block code.first = true ∧
    Leaves code.first [code.base, code.sp]
  pc : saves code.base port.block code.pcAt k (.reg code.tmp) (code.savePc k) = true
  sp : saves code.base port.block code.spAt k (.reg code.tmp) (code.saveSp k) = true
  get : confined code.base port.block (code.get k) = true ∧
    Leaves (code.get k) (code.sp :: port.preserved)
  loads : code.loads.all (fun i => !i.stores) = true ∧ Leaves code.loads [code.base]
  last : code.last.all (fun i => !i.stores) = true ∧ Leaves code.last [code.sp]

variable {port : Port ρ w} {e : Endian} {k : Nat} {code : StackCode ρ w}
variable {enter : State ρ w → State ρ w} {s t : State ρ w}

/-- The stack slot of the return address is as it was while `GET` runs. -/
theorem Port.Stacked.top (stacked : port.Stacked e k code enter) (separate : port.Separate s)
    {saving : List (Instr ρ w)} (inBlock : confined code.base port.block saving = true) :
    load e k (execAll e k (enter s) saving).mem (s.reg code.sp) = port.returnAddress s := by
  have apart : Apart ((enter s).reg code.base) port.block (s.reg code.sp) k := by
    rw [stacked.argument, ← stacked.sp, ← stacked.returnSlot]
    exact separate
  have same := same_confined (e := e) (k := k) inBlock apart
  rw [stacked.returnAddress, load_congr same, stacked.mem]

/-- `GET` leaves the return address and the stack pointer of its caller in the block. -/
theorem Port.Stacked.saved (stacked : port.Stacked e k code enter)
    (checks : port.StackChecks k code) (separate : port.Separate s) :
    load e k (port.get s).mem (port.argument s + BitVec.ofNat w code.pcAt) =
        port.returnAddress s ∧
      load e k (port.get s).mem (port.argument s + BitVec.ofNat w code.spAt) =
        s.reg code.sp + BitVec.ofNat w k := by
  obtain ⟨tmpBase, tmpSp, -, -⟩ := checks.distinct
  let s₁ := execAll e k (enter s) code.first
  let s₂ := exec e k s₁ (.load k code.tmp code.sp 0)
  let s₄ := execAll e k s₂
    [.store k (.reg code.tmp) code.base code.pcAt, .lea code.tmp code.sp k]
  have base₁ : s₁.reg code.base = port.argument s := by
    rw [reg_execAll (checks.first.2 code.base (by simp)), stacked.argument]
  have sp₁ : s₁.reg code.sp = s.reg code.sp := by
    rw [reg_execAll (checks.first.2 code.sp (by simp)), stacked.kept s code.sp (by simp)]
  have base₂ : s₂.reg code.base = port.argument s := by
    rw [← base₁]
    exact reg_set_of_ne tmpBase
  have tmp₂ : s₂.reg code.tmp = port.returnAddress s := by
    rw [← stacked.top separate checks.first.1, ← sp₁]
    simp [s₂, s₁, exec, State.address]
  have base₄ : s₄.reg code.base = port.argument s := by
    rw [← base₂]
    exact reg_set_of_ne tmpBase
  have tmp₄ : s₄.reg code.tmp = s.reg code.sp + BitVec.ofNat w k := by
    have sp₂ : s₂.reg code.sp = s.reg code.sp := by
      rw [← sp₁]
      exact reg_set_of_ne tmpSp
    rw [← sp₂]
    exact reg_set_self code.tmp _
  have mem : (port.get s).mem = (execAll e k s₂ (code.savePc k)).mem := by
    rw [stacked.get, mem_leave_ret, StackCode.get, execAll_append, execAll_cons]
  have mem₄ : (port.get s).mem = (execAll e k s₄ (code.saveSp k)).mem := mem
  constructor
  · rw [mem, ← base₂, ← tmp₂]
    exact load_saves checks.pc stacked.whole checks.inside.1 stacked.fits
  · rw [mem₄, ← base₄, ← tmp₄]
    exact load_saves checks.sp stacked.whole checks.inside.2 stacked.fits

theorem Port.Stacked.get_returned (stacked : port.Stacked e k code enter)
    (checks : port.StackChecks k code) (separate : port.Separate s) :
    port.Returned s (port.get s) := by
  have kept {r : ρ} (member : r ∈ code.sp :: port.preserved) :
      (execAll e k (enter s) (code.get k)).reg r = s.reg r := by
    rw [reg_execAll (checks.get.2 r member), stacked.kept s r member]
  have kept_sp := kept (List.mem_cons_self ..)
  rw [stacked.get]
  exact {
    pc := by
      rw [← stacked.top separate checks.get.1, ← kept_sp]
      rfl
    sp := by
      rw [stacked.sp, stacked.returnSlot, ← kept_sp]
      exact reg_set_self code.sp _
    preserved r member := by
      rw [reg_leave_ret, kept (List.mem_cons_of_mem _ member)]
      rintro rfl
      exact checks.distinct.2.2.2 member }

theorem Port.Stacked.restored (stacked : port.Stacked e k code enter) {off : Nat}
    {src : Operand ρ w} {dst : ρ}
    (saved : Saved port k code.base (code.get k) (code.set k) off src dst)
    (resumes : port.Resumes s t) :
    (execAll e k (enter t) (code.set k)).reg dst = src.value (enter s) := by
  have argument : (enter t).reg code.base = (enter s).reg code.base := by
    rw [stacked.argument, stacked.argument, resumes.argument]
  have block : Same ((enter s).reg code.base) port.block (enter t).mem
      (execAll e k (enter s) (code.get k)).mem := by
    have same := resumes.block
    rwa [← stacked.argument, stacked.get, mem_leave_ret, ← stacked.mem t] at same
  exact Machine.restored saved.1 saved.2.1 stacked.whole saved.2.2 stacked.fits argument block

/-- `SET` just before it pushes the return address. -/
theorem Port.Stacked.restoreSp (stacked : port.Stacked e k code enter)
    (checks : port.StackChecks k code) :
    (execAll e k (enter t) (code.restoreSp k)).reg code.base = port.argument t ∧
      (execAll e k (enter t) (code.restoreSp k)).reg code.sp =
        load e k t.mem (port.argument t + BitVec.ofNat w code.spAt) ∧
      (execAll e k (enter t) (code.restoreSp k)).mem = t.mem := by
  have base₁ : (execAll e k (enter t) code.loads).reg code.base = port.argument t := by
    rw [reg_execAll (checks.loads.2 code.base (by simp)), stacked.argument]
  have mem₁ : (execAll e k (enter t) code.loads).mem = t.mem := by
    rw [mem_execAll checks.loads.1, stacked.mem]
  rw [StackCode.restoreSp, execAll_append]
  refine ⟨?_, ?_, mem₁⟩
  · rw [← base₁]
    exact reg_set_of_ne checks.distinct.2.2.1
  · rw [← mem₁, ← base₁]
    exact reg_set_self code.sp _

/-- Where `SET` goes, whatever is in the block: to the address at `pcAt`, with the
stack pointer at `spAt`, after it wrote the address below that stack. -/
theorem Port.Stacked.set_spec (stacked : port.Stacked e k code enter)
    (checks : port.StackChecks k code) :
    (port.set t).pc = load e k t.mem (port.argument t + BitVec.ofNat w code.pcAt) ∧
      (port.set t).reg code.sp = load e k t.mem (port.argument t + BitVec.ofNat w code.spAt) ∧
      (port.set t).mem = store e k
        (load e k t.mem (port.argument t + BitVec.ofNat w code.spAt) - BitVec.ofNat w k)
        (load e k t.mem (port.argument t + BitVec.ofNat w code.pcAt)) t.mem := by
  obtain ⟨base, sp, mem⟩ := stacked.restoreSp (t := t) checks
  have left : port.set t =
      leave e k (execAll e k (execAll e k (enter t) (code.restoreSp k)) code.pushPc)
        (.ret code.sp) := by
    rw [stacked.set, StackCode.set, execAll_append]
  obtain ⟨pc, kept⟩ := leave_push (e := e) (s := execAll e k (enter t) (code.restoreSp k))
    code.base code.pcAt stacked.whole stacked.word checks.last.1
    (checks.last.2 code.sp (by simp))
  rw [left]
  refine ⟨?_, ?_, ?_⟩
  · rw [← mem, ← base]
    exact pc
  · rw [← sp]
    exact kept
  · rw [mem_leave_ret, StackCode.pushPc, execAll_cons, mem_execAll checks.last.1]
    simp only [exec, State.address, base, sp, mem]

/-- `SET` may load its base register last, from behind the address that it wrote. -/
theorem Port.Stacked.set_base (stacked : port.Stacked e k code enter)
    (checks : port.StackChecks k code) (off : Nat)
    (last : code.last = [.load k code.base code.base off]) :
    (port.set t).reg code.base =
      load e k (port.set t).mem (port.argument t + BitVec.ofNat w off) := by
  have other := checks.distinct.2.2.1
  rw [stacked.set, reg_leave_ret other, mem_leave_ret, StackCode.set, execAll_append,
    StackCode.pushPc, last, execAll_cons, execAll_cons, execAll_nil]
  have kept : (exec e k (execAll e k (enter t) (code.restoreSp k))
      (.push code.sp code.base code.pcAt)).reg code.base = port.argument t := by
    rw [← (stacked.restoreSp (t := t) checks).1]
    exact reg_set_of_ne other
  rw [← kept]
  exact reg_set_self code.base _

theorem Port.Stacked.sound (stacked : port.Stacked e k code enter)
    (checks : port.StackChecks k code) (slot : ρ → Nat)
    (registers : ∀ r ∈ port.preserved,
      Saved port k code.base (code.get k) (code.set k) (slot r) (.reg r) r) : port.Sound where
  get s separate := stacked.get_returned checks separate
  set s t separate resumes := by
    obtain ⟨pc, sp, -⟩ := stacked.set_spec (t := t) checks
    obtain ⟨savedPc, savedSp⟩ := stacked.saved checks separate
    rw [resumes.argument] at pc sp
    exact {
      pc := by rw [pc, load_congr (resumes.block.sub checks.inside.1), savedPc]
      sp := by
        rw [stacked.sp, stacked.returnSlot, sp,
          load_congr (resumes.block.sub checks.inside.2), savedSp]
      preserved r member := by
        have back := stacked.restored (registers r member) resumes
        rw [stacked.set, reg_leave_ret, back]
        · exact stacked.kept s r (List.mem_cons_of_mem _ member)
        · rintro rfl
          exact checks.distinct.2.2.2 member }

end Stack

section X86

def i386Code : StackCode I386.Reg 32 where
  base := .eax
  tmp := .ecx
  sp := .esp
  pcAt := I386.Field.offset .mc_eip
  spAt := I386.Field.offset .mc_esp
  first := (I386.GET.body.drop 1).take 11
  rest := I386.GET.body.drop 16
  loads := (I386.SET.body.drop 1).take 10
  last := I386.SET.body.drop 13

/-- The first instruction of both routines. -/
def i386Enter (s : State I386.Reg 32) : State I386.Reg 32 :=
  exec .little 4 s (I386.movlFrom 4 .esp .eax)

theorem i386_get_body :
    I386.GET.body = I386.movlFrom 4 .esp .eax :: i386Code.get 4 := by
  decide

theorem i386_set_body :
    I386.SET.body = I386.movlFrom 4 .esp .eax :: i386Code.set 4 := by
  decide

theorem i386_stacked : i386.Stacked .little 4 i386Code i386Enter where
  whole := rfl
  word := by decide
  fits := by decide
  sp := rfl
  returnSlot := rfl
  returnAddress _ := rfl
  mem _ := rfl
  argument _ := reg_set_self _ _
  kept s r member := by
    apply reg_set_of_ne
    rintro rfl
    exact absurd member (by decide)
  get s := by
    simp only [i386, Routine.run, i386_get_body, execAll_cons]
    rfl
  set s := by
    simp only [i386, Routine.run, i386_set_body, execAll_cons]
    rfl

theorem i386_checks : i386.StackChecks 4 i386Code where
  inside := by decide
  distinct := by decide
  first := by decide
  pc := by decide
  sp := by decide
  get := by decide
  loads := by decide
  last := by decide

theorem i386_sound : i386.Sound :=
  i386_stacked.sound i386_checks (fun r => r.field.offset) (by decide)

def amd64Code : StackCode Amd64.Reg 64 where
  base := .rdi
  tmp := .rcx
  sp := .rsp
  pcAt := Amd64.Field.offset .mc_rip
  spAt := Amd64.Field.offset .mc_rsp
  first := Amd64.GET.body.take 15
  rest := Amd64.GET.body.drop 19
  loads := Amd64.SET.body.take 14
  last := Amd64.SET.body.drop 16

theorem amd64_stacked : amd64.Stacked .little 8 amd64Code id where
  whole := rfl
  word := by decide
  fits := by decide
  sp := rfl
  returnSlot := rfl
  returnAddress _ := rfl
  mem _ := rfl
  argument _ := rfl
  kept _ _ _ := rfl
  get _ := rfl
  set _ := rfl

theorem amd64_checks : amd64.StackChecks 8 amd64Code where
  inside := by decide
  distinct := by decide
  first := by decide
  pc := by decide
  sp := by decide
  get := by decide
  loads := by decide
  last := by decide

theorem amd64_sound : amd64.Sound :=
  amd64_stacked.sound amd64_checks (fun r => r.field.offset) (by decide)

end X86

theorem Platform.sound (p : Platform) : p.port.Sound := by
  cases p with
  | i386 => exact i386_sound
  | amd64 => exact amd64_sound
  | power => exact power_sound
  | arm e => exact arm_sound e
  | mips e => exact mips_sound e

theorem context_restored (p : Platform) {s : State p.Reg p.width} (separate : p.port.Separate s) :
    p.port.Returned s (p.port.get s) ∧
      ∀ t, p.port.Resumes s t → p.port.Returned s (p.port.set t) :=
  ⟨p.sound.get s separate, fun t resumes => p.sound.set s t separate resumes⟩

/-- The saved context of a caller with its stack at `0x8000`, resumed by another task, with its
stack at `0x4000` and that value in all other registers as well. -/
theorem amd64_example :
    ∃ s t : State Amd64.Reg 64, s.reg .rsp = 0x8000 ∧
      (∀ r, r ≠ .rdi → t.reg r = 0x4000) ∧ amd64.Separate s ∧ amd64.Resumes s t := by
  let s : State Amd64.Reg 64 :=
    { reg := fun r => if r = .rdi then 0x1000 else 0x8000, mem := fun _ => 0, pc := 0 }
  obtain ⟨saved, savedEq⟩ : ∃ saved, saved = (amd64.get s).mem := ⟨_, rfl⟩
  let t : State Amd64.Reg 64 :=
    { reg := fun r => if r = .rdi then 0x1000 else 0x4000, mem := saved, pc := 0x700 }
  have apart : Apart (0x1000#64) 192 (0x8000#64) 8 := apart_ofNat (by decide) (by decide)
  have block : Same (amd64.argument s) amd64.block saved (amd64.get s).mem :=
    savedEq ▸ .refl _ _ saved
  exact ⟨s, t, rfl, fun r other => if_neg other, apart, rfl, block⟩

theorem amd64_context_restored :
    ∃ s t : State Amd64.Reg 64, s.reg .rsp = 0x8000 ∧ (∀ r, r ≠ .rdi → t.reg r = 0x4000) ∧
      amd64.Returned s (amd64.set t) := by
  obtain ⟨s, t, rsp, others, separate, resumes⟩ := amd64_example
  exact ⟨s, t, rsp, others, (context_restored .amd64 separate).2 t resumes⟩

/-! ## The result of getcontext -/

/-- What `swapcontext` does when `getcontext` returns. -/
inductive Swap where
  | setcontext
  | ret (r : Int)
  deriving DecidableEq, Repr

/-- `if(getcontext(oucp) == 0) setcontext(ucp); return 0;` where `getcontext`
returns `result`. -/
def swapcontext (result : BitVec 32) : Swap :=
  if result = 0 then .setcontext else .ret 0

theorem swapcontext_ret_iff (result : BitVec 32) : swapcontext result = .ret 0 ↔ result ≠ 0 := by
  unfold swapcontext
  split <;> simp_all

section Result

theorem mips_int_get {e : Endian} (s : State Mips.Reg 32) :
    (mips e).int ((mips e).get s) = 0 := by
  let before := execAll e 4 s Mips.GET.body.dropLast
  have zero : ((mips e).get s).reg 2 = before.reg 2 ^^^ before.reg 2 := rfl
  rw [Port.int, show (mips e).result = 2 from rfl, zero, BitVec.xor_self]
  rfl

/-- `GET` returns 0 to its caller. -/
theorem Platform.int_get (p : Platform) (s : State p.Reg p.width) :
    p.port.int (p.port.get s) = 0 := by
  cases p with
  | i386 => rfl
  | amd64 => rfl
  | power => rfl
  | arm e => rfl
  | mips e => exact mips_int_get s

/-- `SET` loads the result after it pushed the return address.  The push does not
reach the block, as it goes to where the call of `GET` had its return address. -/
theorem i386_int_set {s t : State I386.Reg 32} (separate : i386.Separate s)
    (resumes : i386.Resumes s t) : i386.int (i386.set t) = 1 := by
  obtain ⟨-, -, mem⟩ := i386_stacked.set_spec (t := t) i386_checks
  have loaded := i386_stacked.set_base (t := t) i386_checks 48 (by decide)
  rw [resumes.argument, load_congr (resumes.block.sub i386_checks.inside.2),
    (i386_stacked.saved i386_checks separate).2, BitVec.add_sub_cancel] at mem
  rw [resumes.argument, mem, load_store_apart] at loaded
  · have saved : saves .eax 80 48 4 (.imm 1) (i386Code.get 4) = true := by decide
    have one : load .little 4 (i386.get s).mem (i386.argument s + BitVec.ofNat 32 48) = 1 := by
      rw [i386_stacked.get, mem_leave_ret, ← i386_stacked.argument]
      exact load_saves saved rfl (by decide) (by decide)
    rw [load_congr (resumes.block.sub (by decide)), one] at loaded
    exact congrArg (BitVec.setWidth 32) loaded
  · have apart := Apart.sub (i := 48) (j := 0) (p := 4) (q := 4) separate
      (by decide) (by decide)
    rwa [BitVec.add_zero] at apart

theorem amd64_int_set {s t : State Amd64.Reg 64} (resumes : amd64.Resumes s t) :
    amd64.int (amd64.set t) = 1 := by
  have saved : Saved amd64 8 .rdi (amd64Code.get 8) (amd64Code.set 8)
      (Amd64.Field.offset .mc_rax) (.imm 1) .rax := by
    decide
  have one : (amd64.set t).reg .rax = 1 := by
    rw [amd64_stacked.set, reg_leave_ret (by decide)]
    exact amd64_stacked.restored saved resumes
  exact congrArg (BitVec.setWidth 32) one

theorem power_int_set {s t : State Power.Reg 32} (resumes : power.Resumes s t) :
    power.int (power.set t) = 1 := by
  have saved : Saved power 4 (.r 3) Power.GET.body Power.SET.body
      (Power.slot (.r 3)) (.imm 1) (.r 3) := by
    decide
  exact congrArg (BitVec.setWidth 32) (power_linked.restored saved resumes)

theorem arm_int_set {e : Endian} {s t : State Arm.Reg 32} (resumes : (arm e).Resumes s t) :
    (arm e).int ((arm e).set t) = 1 := by
  have saved : Saved (arm e) 4 0 Arm.GET.body Arm.SET.body (Arm.slot 0) (.imm 1) 0 := by
    cases e <;> decide
  exact congrArg (BitVec.setWidth 32) ((arm_linked e).restored saved resumes)

/-- `SET` leaves `$2` alone. -/
theorem mips_int_set {e : Endian} (t : State Mips.Reg 32) :
    (mips e).int ((mips e).set t) = t.reg 2 := by
  have kept : (execAll e 4 t Mips.SET.body).reg 2 = t.reg 2 := reg_execAll (by decide)
  exact (BitVec.setWidth_eq _).trans kept

end Result

/-- The value that a resumed call of `getcontext` delivers is fixed by `SET`, or on
MIPS is not 0 for another reason. -/
def ResultSet : (p : Platform) → State p.Reg p.width → Prop
  | .mips _, t => t.reg (2 : Mips.Reg) ≠ 0
  | _, _ => True

/-- The call of `swapcontext` that saved the context in `s` switches once, where the
context is resumed in `t`. -/
structure SwapsOnce (p : Platform) (s t : State p.Reg p.width) : Prop where
  first : p.port.int (p.port.get s) = 0
  switches : swapcontext (p.port.int (p.port.get s)) = .setcontext
  again : p.port.int (p.port.set t) ≠ 0
  resumed : swapcontext (p.port.int (p.port.set t)) = .ret 0

theorem int_set_ne_zero_iff (p : Platform) {s t : State p.Reg p.width}
    (separate : p.port.Separate s) (resumes : p.port.Resumes s t) :
    p.port.int (p.port.set t) ≠ 0 ↔ ResultSet p t := by
  cases p with
  | i386 =>
      exact iff_of_true (ne_of_eq_of_ne (i386_int_set separate resumes) (by decide)) trivial
  | amd64 => exact iff_of_true (ne_of_eq_of_ne (amd64_int_set resumes) (by decide)) trivial
  | power => exact iff_of_true (ne_of_eq_of_ne (power_int_set resumes) (by decide)) trivial
  | arm e => exact iff_of_true (ne_of_eq_of_ne (arm_int_set resumes) (by decide)) trivial
  | mips e => exact not_congr (Eq.congr_left (mips_int_set t))

theorem swaps_once_iff (p : Platform) {s t : State p.Reg p.width}
    (separate : p.port.Separate s) (resumes : p.port.Resumes s t) :
    SwapsOnce p s t ↔ ResultSet p t := by
  rw [← int_set_ne_zero_iff p separate resumes]
  constructor
  · intro once
    exact once.again
  · intro result
    exact {
      first := p.int_get s
      switches := by rw [p.int_get s]; rfl
      again := result
      resumed := (swapcontext_ret_iff _).mpr result }

theorem amd64_swaps_once :
    ∃ s t : State Amd64.Reg 64, s.reg .rsp = 0x8000 ∧ (∀ r, r ≠ .rdi → t.reg r = 0x4000) ∧
      SwapsOnce .amd64 s t := by
  obtain ⟨s, t, rsp, others, separate, resumes⟩ := amd64_example
  exact ⟨s, t, rsp, others, (swaps_once_iff .amd64 separate resumes).mpr trivial⟩

/-- On MIPS, `getcontext` has just returned 0 in `$2` when `setcontext` is called on
the same context.  The resumed call then sees the 0 that it left. -/
theorem mips_swaps_again :
    ∃ s : State Mips.Reg 32, (mips .big).Separate s ∧
      (mips .big).Resumes s ((mips .big).get s) ∧
      ¬ SwapsOnce (.mips .big) s ((mips .big).get s) := by
  let s : State Mips.Reg 32 :=
    { reg := fun r => if r = 4 then 0x1000 else 0x8000, mem := fun _ => 0, pc := 0 }
  refine ⟨s, ?_, ⟨rfl, .refl _ _ _⟩, ?_⟩
  · intro i _ j inSlot
    exact absurd inSlot (Nat.not_lt_zero j)
  · intro once
    apply once.again
    exact (mips_int_set _).trans ((BitVec.setWidth_eq _).symm.trans (mips_int_get s))

end Libtask.Swapcontext
