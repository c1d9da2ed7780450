import Mathlib.Data.BitVec

/-! # Instruction fields of the base 32-bit encoding

Field and immediate extraction (`decode.rs`).  Register numbers are five-bit
words, immediates are the sign-extended 64-bit words the interpreter adds. -/

set_option autoImplicit false

namespace Rv64Js.Core

abbrev Word := BitVec 64
abbrev Insn := BitVec 32
abbrev Reg := BitVec 5

def opcode (insn : Insn) : BitVec 7 := insn.extractLsb' 0 7

def rd (insn : Insn) : Reg := insn.extractLsb' 7 5

def rs1 (insn : Insn) : Reg := insn.extractLsb' 15 5

def rs2 (insn : Insn) : Reg := insn.extractLsb' 20 5

def funct3 (insn : Insn) : BitVec 3 := insn.extractLsb' 12 3

def funct7 (insn : Insn) : BitVec 7 := insn.extractLsb' 25 7

def immI (insn : Insn) : Word := (insn.signExtend 64).sshiftRight 20

def immS (insn : Insn) : Word :=
  ((insn &&& 0xfe000000#32).signExtend 64).sshiftRight 20 |||
    ((insn >>> 7) &&& 0x1f#32).setWidth 64

def immB (insn : Insn) : Word :=
  ((insn &&& 0x80000000#32).signExtend 64).sshiftRight 19 |||
    ((insn &&& 0x80#32).setWidth 64 <<< 4) |||
    ((insn >>> 20) &&& 0x7e0#32).setWidth 64 |||
    ((insn >>> 7) &&& 0x1e#32).setWidth 64

def immU (insn : Insn) : Word := (insn &&& 0xfffff000#32).signExtend 64

def immJ (insn : Insn) : Word :=
  ((insn &&& 0x80000000#32).signExtend 64).sshiftRight 11 |||
    (insn &&& 0xff000#32).setWidth 64 |||
    ((insn >>> 9) &&& 0x800#32).setWidth 64 |||
    ((insn >>> 20) &&& 0x7fe#32).setWidth 64

-- `jal x0, -16` and `addi a0, a0, -1`
example : immJ 0xff1ff06f#32 = -16#64 := by decide
example : immI 0xfff50513#32 = -1#64 ∧ rd 0xfff50513#32 = 10#5 := by decide

def sextWord (v : BitVec 32) : Word := v.signExtend 64

def lowWord (v : Word) : BitVec 32 := v.setWidth 32

def boolWord (b : Bool) : Word := if b then 1#64 else 0#64

end Rv64Js.Core
