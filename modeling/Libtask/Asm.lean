import Libtask.Lib.Machine

/-!
# The routines of asm.S

`GET` (`getmcontext`) and `SET` (`setmcontext`) of each architecture, instruction
by instruction, under their mnemonics.  The operands stand in the order of the
source, a memory operand `off(base)` as two arguments.

Memory is flat: moves of segment registers move their 16 bits and do not change
how addresses are formed.
-/

namespace Libtask.Asm

open WordMemory Machine

/-! Registers that are numbered are written as numerals. -/

scoped instance neZero_16 : @NeZero Nat Zero.ofOfNat0 16 := ⟨Nat.succ_ne_zero 15⟩

scoped instance neZero_32 : @NeZero Nat Zero.ofOfNat0 32 := ⟨Nat.succ_ne_zero 31⟩

/-! ## 386 -/

namespace I386

inductive Reg where
  | eax | ecx | edx | ebx | esp | ebp | esi | edi
  | fs | es | ds | ss
  deriving DecidableEq, Repr

/-- The bytes that a `movl` of the register moves. -/
def Reg.bytes : Reg → Nat
  | .fs | .es | .ds | .ss => 2
  | _ => 4

/-- `movl off(base), dst` -/
def movlFrom (off : Nat) (base dst : Reg) : Instr Reg 32 := .load dst.bytes dst base off

/-- `movl src, off(base)` -/
def movlTo (src : Reg) (off : Nat) (base : Reg) : Instr Reg 32 :=
  .store src.bytes (.reg src) base off

/-- `movl $v, off(base)` -/
def movlImmTo (v : BitVec 32) (off : Nat) (base : Reg) : Instr Reg 32 :=
  .store 4 (.imm v) base off

/-- `movl $v, dst` -/
def movlImm (v : BitVec 32) (dst : Reg) : Instr Reg 32 := .move dst (.imm v)

/-- `leal off(base), dst` -/
def leal (off : Nat) (base dst : Reg) : Instr Reg 32 := .lea dst base off

/-- `pushl off(base)` -/
def pushl (off : Nat) (base : Reg) : Instr Reg 32 := .push .esp base off

open Reg

def SET : Routine Reg 32 where
  body := [
    movlFrom 4 esp eax,
    movlFrom 8 eax fs,
    movlFrom 12 eax es,
    movlFrom 16 eax ds,
    movlFrom 76 eax ss,
    movlFrom 20 eax edi,
    movlFrom 24 eax esi,
    movlFrom 28 eax ebp,
    movlFrom 36 eax ebx,
    movlFrom 40 eax edx,
    movlFrom 44 eax ecx,
    movlFrom 72 eax esp,
    pushl 60 eax,
    movlFrom 48 eax eax]
  exit := .ret esp

def GET : Routine Reg 32 where
  body := [
    movlFrom 4 esp eax,
    movlTo fs 8 eax,
    movlTo es 12 eax,
    movlTo ds 16 eax,
    movlTo ss 76 eax,
    movlTo edi 20 eax,
    movlTo esi 24 eax,
    movlTo ebp 28 eax,
    movlTo ebx 36 eax,
    movlTo edx 40 eax,
    movlTo ecx 44 eax,
    movlImmTo 1 48 eax,
    movlFrom 0 esp ecx,
    movlTo ecx 60 eax,
    leal 4 esp ecx,
    movlTo ecx 72 eax,
    movlFrom 44 eax ecx,
    movlImm 0 eax]
  exit := .ret esp

end I386

/-! ## amd64 -/

namespace Amd64

inductive Reg where
  | rax | rcx | rdx | rbx | rsp | rbp | rsi | rdi
  | r8 | r9 | r10 | r11 | r12 | r13 | r14 | r15
  deriving DecidableEq, Repr

/-- `movq off(base), dst` -/
def movqFrom (off : Nat) (base dst : Reg) : Instr Reg 64 := .load 8 dst base off

/-- `movq src, off(base)` -/
def movqTo (src : Reg) (off : Nat) (base : Reg) : Instr Reg 64 := .store 8 (.reg src) base off

/-- `movq $v, off(base)` -/
def movqImmTo (v : BitVec 64) (off : Nat) (base : Reg) : Instr Reg 64 :=
  .store 8 (.imm v) base off

/-- `movq $v, dst` -/
def movqImm (v : BitVec 64) (dst : Reg) : Instr Reg 64 := .move dst (.imm v)

/-- `leaq off(base), dst` -/
def leaq (off : Nat) (base dst : Reg) : Instr Reg 64 := .lea dst base off

/-- `pushq off(base)` -/
def pushq (off : Nat) (base : Reg) : Instr Reg 64 := .push .rsp base off

open Reg

def SET : Routine Reg 64 where
  body := [
    movqFrom 16 rdi rsi,
    movqFrom 24 rdi rdx,
    movqFrom 32 rdi rcx,
    movqFrom 40 rdi r8,
    movqFrom 48 rdi r9,
    movqFrom 56 rdi rax,
    movqFrom 64 rdi rbx,
    movqFrom 72 rdi rbp,
    movqFrom 80 rdi r10,
    movqFrom 88 rdi r11,
    movqFrom 96 rdi r12,
    movqFrom 104 rdi r13,
    movqFrom 112 rdi r14,
    movqFrom 120 rdi r15,
    movqFrom 184 rdi rsp,
    pushq 160 rdi,
    movqFrom 8 rdi rdi]
  exit := .ret rsp

def GET : Routine Reg 64 where
  body := [
    movqTo rdi 8 rdi,
    movqTo rsi 16 rdi,
    movqTo rdx 24 rdi,
    movqTo rcx 32 rdi,
    movqTo r8 40 rdi,
    movqTo r9 48 rdi,
    movqImmTo 1 56 rdi,
    movqTo rbx 64 rdi,
    movqTo rbp 72 rdi,
    movqTo r10 80 rdi,
    movqTo r11 88 rdi,
    movqTo r12 96 rdi,
    movqTo r13 104 rdi,
    movqTo r14 112 rdi,
    movqTo r15 120 rdi,
    movqFrom 0 rsp rcx,
    movqTo rcx 160 rdi,
    leaq 8 rsp rcx,
    movqTo rcx 184 rdi,
    movqFrom 32 rdi rcx,
    movqImm 0 rax]
  exit := .ret rsp

end Amd64

/-! ## POWER -/

namespace Power

inductive Reg where
  | r (n : Fin 32)
  | lr | cr | ctr | xer
  deriving DecidableEq, Repr

/-- `stw src, off(base)` -/
def stw (src : Fin 32) (off : Nat) (base : Fin 32) : Instr Reg 32 :=
  .store 4 (.reg (.r src)) (.r base) off

/-- `lwz dst, off(base)` -/
def lwz (dst : Fin 32) (off : Nat) (base : Fin 32) : Instr Reg 32 := .load 4 (.r dst) (.r base) off

/-- `li dst, v` -/
def li (dst : Fin 32) (v : BitVec 32) : Instr Reg 32 := .move (.r dst) (.imm v)

def mflr (dst : Fin 32) : Instr Reg 32 := .move (.r dst) (.reg .lr)
def mfcr (dst : Fin 32) : Instr Reg 32 := .move (.r dst) (.reg .cr)
def mfctr (dst : Fin 32) : Instr Reg 32 := .move (.r dst) (.reg .ctr)
def mfxer (dst : Fin 32) : Instr Reg 32 := .move (.r dst) (.reg .xer)
def mtlr (src : Fin 32) : Instr Reg 32 := .move .lr (.reg (.r src))
def mtcr (src : Fin 32) : Instr Reg 32 := .move .cr (.reg (.r src))
def mtctr (src : Fin 32) : Instr Reg 32 := .move .ctr (.reg (.r src))
def mtxer (src : Fin 32) : Instr Reg 32 := .move .xer (.reg (.r src))

/-- `blr` -/
def blr : Exit Reg 32 := .jump .lr

def GET : Routine Reg 32 where
  body := [
    mflr 0,
    mfcr 5,
    mfctr 6,
    mfxer 7,
    stw 0 (0 * 4) 3,
    stw 5 (1 * 4) 3,
    stw 6 (2 * 4) 3,
    stw 7 (3 * 4) 3,
    stw 1 (4 * 4) 3,
    stw 2 (5 * 4) 3,
    li 5 1,
    stw 5 (6 * 4) 3,
    stw 13 ((0 + 7) * 4) 3,
    stw 14 ((1 + 7) * 4) 3,
    stw 15 ((2 + 7) * 4) 3,
    stw 16 ((3 + 7) * 4) 3,
    stw 17 ((4 + 7) * 4) 3,
    stw 18 ((5 + 7) * 4) 3,
    stw 19 ((6 + 7) * 4) 3,
    stw 20 ((7 + 7) * 4) 3,
    stw 21 ((8 + 7) * 4) 3,
    stw 22 ((9 + 7) * 4) 3,
    stw 23 ((10 + 7) * 4) 3,
    stw 24 ((11 + 7) * 4) 3,
    stw 25 ((12 + 7) * 4) 3,
    stw 26 ((13 + 7) * 4) 3,
    stw 27 ((14 + 7) * 4) 3,
    stw 28 ((15 + 7) * 4) 3,
    stw 29 ((16 + 7) * 4) 3,
    stw 30 ((17 + 7) * 4) 3,
    stw 31 ((18 + 7) * 4) 3,
    li 3 0]
  exit := blr

def SET : Routine Reg 32 where
  body := [
    lwz 13 ((0 + 7) * 4) 3,
    lwz 14 ((1 + 7) * 4) 3,
    lwz 15 ((2 + 7) * 4) 3,
    lwz 16 ((3 + 7) * 4) 3,
    lwz 17 ((4 + 7) * 4) 3,
    lwz 18 ((5 + 7) * 4) 3,
    lwz 19 ((6 + 7) * 4) 3,
    lwz 20 ((7 + 7) * 4) 3,
    lwz 21 ((8 + 7) * 4) 3,
    lwz 22 ((9 + 7) * 4) 3,
    lwz 23 ((10 + 7) * 4) 3,
    lwz 24 ((11 + 7) * 4) 3,
    lwz 25 ((12 + 7) * 4) 3,
    lwz 26 ((13 + 7) * 4) 3,
    lwz 27 ((14 + 7) * 4) 3,
    lwz 28 ((15 + 7) * 4) 3,
    lwz 29 ((16 + 7) * 4) 3,
    lwz 30 ((17 + 7) * 4) 3,
    lwz 31 ((18 + 7) * 4) 3,
    lwz 1 (4 * 4) 3,
    lwz 2 (5 * 4) 3,
    lwz 0 (0 * 4) 3,
    mtlr 0,
    lwz 0 (1 * 4) 3,
    mtcr 0,
    lwz 0 (2 * 4) 3,
    mtctr 0,
    lwz 0 (3 * 4) 3,
    mtxer 0,
    lwz 3 (6 * 4) 3]
  exit := blr

end Power

/-! ## ARM -/

namespace Arm

abbrev Reg := Fin 16

def lr : Reg := 14

/-- `str src, [base, #off]` -/
def str (src base : Reg) (off : Nat) : Instr Reg 32 := .store 4 (.reg src) base off

/-- `ldr dst, [base, #off]` -/
def ldr (dst base : Reg) (off : Nat) : Instr Reg 32 := .load 4 dst base off

/-- `mov dst, #v` -/
def mov (dst : Reg) (v : BitVec 32) : Instr Reg 32 := .move dst (.imm v)

/-- `mov pc, src` -/
def movPc (src : Reg) : Exit Reg 32 := .jump src

def GET : Routine Reg 32 where
  body := [
    str 1 0 4,
    str 2 0 8,
    str 3 0 12,
    str 4 0 16,
    str 5 0 20,
    str 6 0 24,
    str 7 0 28,
    str 8 0 32,
    str 9 0 36,
    str 10 0 40,
    str 11 0 44,
    str 12 0 48,
    str 13 0 52,
    str 14 0 56,
    mov 1 1,
    str 1 0 0,
    mov 0 0]
  exit := movPc lr

def SET : Routine Reg 32 where
  body := [
    ldr 1 0 4,
    ldr 2 0 8,
    ldr 3 0 12,
    ldr 4 0 16,
    ldr 5 0 20,
    ldr 6 0 24,
    ldr 7 0 28,
    ldr 8 0 32,
    ldr 9 0 36,
    ldr 10 0 40,
    ldr 11 0 44,
    ldr 12 0 48,
    ldr 13 0 52,
    ldr 14 0 56,
    ldr 0 0 0]
  exit := movPc lr

end Arm

/-! ## MIPS -/

namespace Mips

abbrev Reg := Fin 32

/-- `sw src, off(base)` -/
def sw (src : Reg) (off : Nat) (base : Reg) : Instr Reg 32 := .store 4 (.reg src) base off

/-- `lw dst, off(base)` -/
def lw (dst : Reg) (off : Nat) (base : Reg) : Instr Reg 32 := .load 4 dst base off

/-- `j target`, with the `nop` behind it in the delay slot -/
def jNop (target : Reg) : Exit Reg 32 := .jumpDelayed target .nop

def GET : Routine Reg 32 where
  body := [
    sw 4 24 4,
    sw 5 28 4,
    sw 6 32 4,
    sw 7 36 4,
    sw 16 72 4,
    sw 17 76 4,
    sw 18 80 4,
    sw 19 84 4,
    sw 20 88 4,
    sw 21 92 4,
    sw 22 96 4,
    sw 23 100 4,
    sw 28 120 4,
    sw 29 124 4,
    sw 30 128 4,
    sw 31 132 4,
    .xor 2 2 2]
  exit := jNop 31

def SET : Routine Reg 32 where
  body := [
    lw 16 72 4,
    lw 17 76 4,
    lw 18 80 4,
    lw 19 84 4,
    lw 20 88 4,
    lw 21 92 4,
    lw 22 96 4,
    lw 23 100 4,
    lw 28 120 4,
    lw 29 124 4,
    lw 30 128 4,
    lw 8 132 4,
    lw 25 132 4,
    lw 5 28 4,
    lw 6 32 4,
    lw 7 36 4,
    lw 4 24 4]
  exit := jNop 8

end Mips

end Libtask.Asm
