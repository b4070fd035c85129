import Libtask.Asm

/-!
# The layouts of struct mcontext

The headers of the architectures declare the block that `GET` and `SET` address by
number.  A field is named as in its header, and its offset follows from the order
of the declarations.
-/

namespace Libtask.Asm

/-! ## 386-ucontext.h -/

namespace I386

inductive Field where
  | mc_onstack | mc_gs | mc_fs | mc_es | mc_ds | mc_edi | mc_esi | mc_ebp | mc_isp | mc_ebx
  | mc_edx | mc_ecx | mc_eax | mc_trapno | mc_err | mc_eip | mc_cs | mc_eflags | mc_esp | mc_ss
  deriving DecidableEq, Repr

/-- Each field is an `int`. -/
def Field.offset (field : Field) : Nat := 4 * field.ctorIdx

/-- With `mc_fpregs` and `__spare__`. -/
def sizeofMcontext : Nat := 4 * (20 + 28 + 17)

/-- The field of a register. -/
def Reg.field : Reg → Field
  | .eax => .mc_eax
  | .ecx => .mc_ecx
  | .edx => .mc_edx
  | .ebx => .mc_ebx
  | .esp => .mc_esp
  | .ebp => .mc_ebp
  | .esi => .mc_esi
  | .edi => .mc_edi
  | .fs => .mc_fs
  | .es => .mc_es
  | .ds => .mc_ds
  | .ss => .mc_ss

end I386

/-! ## amd64-ucontext.h -/

namespace Amd64

inductive Field where
  | mc_onstack | mc_rdi | mc_rsi | mc_rdx | mc_rcx | mc_r8 | mc_r9 | mc_rax | mc_rbx | mc_rbp
  | mc_r10 | mc_r11 | mc_r12 | mc_r13 | mc_r14 | mc_r15 | mc_trapno | mc_addr | mc_flags | mc_err
  | mc_rip | mc_cs | mc_rflags | mc_rsp | mc_ss | mc_len | mc_fpformat | mc_ownedfp
  deriving DecidableEq, Repr

/-- Each field is a `long`. -/
def Field.offset (field : Field) : Nat := 8 * field.ctorIdx

/-- With `mc_fpstate` and `mc_spare`. -/
def sizeofMcontext : Nat := 8 * (28 + 64 + 8)

/-- The field of a register. -/
def Reg.field : Reg → Field
  | .rax => .mc_rax
  | .rcx => .mc_rcx
  | .rdx => .mc_rdx
  | .rbx => .mc_rbx
  | .rsp => .mc_rsp
  | .rbp => .mc_rbp
  | .rsi => .mc_rsi
  | .rdi => .mc_rdi
  | .r8 => .mc_r8
  | .r9 => .mc_r9
  | .r10 => .mc_r10
  | .r11 => .mc_r11
  | .r12 => .mc_r12
  | .r13 => .mc_r13
  | .r14 => .mc_r14
  | .r15 => .mc_r15

end Amd64

/-! ## power-ucontext.h -/

namespace Power

/-- The offset of `pc`, `cr`, `ctr`, `xer`, `sp`, `toc`, `r3` and `gpr[n - 13]`. -/
def slot : Reg → Nat
  | .lr => 0
  | .cr => 4
  | .ctr => 8
  | .xer => 12
  | .r n => if n = 1 then 16 else if n = 2 then 20 else if n = 3 then 24 else 28 + 4 * (n.val - 13)

end Power

/-! ## ARM -/

namespace Arm

/-- The offset of `gregs[n]`. -/
def slot (n : Reg) : Nat := 4 * n.val

end Arm

/-! ## mips-ucontext.h -/

namespace Mips

/-- The offset of `mc_regs[n]`, behind `mc_onstack` and `mc_pc`. -/
def slot (n : Reg) : Nat := 8 + 4 * n.val

end Mips

end Libtask.Asm
