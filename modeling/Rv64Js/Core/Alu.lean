import Rv64Js.Core.CsrAccess

/-! # Integer results

The value each integer instruction computes, as the arms of `step` and of `scalar_t0_step` spell it
alike. `none` is a reserved encoding. -/

set_option autoImplicit false

namespace Rv64Js.Core

def branchTaken (f3 : BitVec 3) (a b : Word) : Option Bool :=
  match f3 with
  | 0#3 => some (a == b)
  | 1#3 => some (a != b)
  | 4#3 => some (a.slt b)
  | 5#3 => some (b.sle a)
  | 6#3 => some (a.ult b)
  | 7#3 => some (b.ule a)
  | _ => none

def shamt64 (b : Word) : Nat := (b &&& 0x3f#64).toNat

def shamt32 (b : BitVec 32) : Nat := (b &&& 0x1f#32).toNat

def opImm (insn : Insn) (a : Word) : Word :=
  let imm := immI insn
  match funct3 insn with
  | 0#3 => a + imm
  | 1#3 => a <<< shamt64 imm
  | 2#3 => boolWord (a.slt imm)
  | 3#3 => boolWord (a.ult imm)
  | 4#3 => a ^^^ imm
  | 5#3 => if insn >>> 26 = 0x10#32 then a.sshiftRight (shamt64 imm) else a >>> shamt64 imm
  | 6#3 => a ||| imm
  | 7#3 => a &&& imm

def opImm32 (insn : Insn) (a : BitVec 32) : Option (BitVec 32) :=
  let imm := lowWord (immI insn)
  match funct3 insn with
  | 0#3 => some (a + imm)
  | 1#3 => some (a <<< shamt32 imm)
  | 5#3 =>
    some (if funct7 insn = 0x20#7 then a.sshiftRight (shamt32 imm) else a >>> shamt32 imm)
  | _ => none

def mulHigh (a b : BitVec 128) : Word := ((a * b) >>> 64).setWidth 64

variable {w : Nat}

def divide (a b : BitVec w) : BitVec w := if b = 0 then ~~~0 else a.sdiv b

def divideU (a b : BitVec w) : BitVec w := if b = 0 then ~~~0 else a.udiv b

def remainder (a b : BitVec w) : BitVec w := if b = 0 then a else a.srem b

def remainderU (a b : BitVec w) : BitVec w := if b = 0 then a else a.umod b

def op (insn : Insn) (a b : Word) : Option Word :=
  match funct7 insn, funct3 insn with
  | 0x00#7, 0#3 => some (a + b)
  | 0x20#7, 0#3 => some (a - b)
  | 0x00#7, 1#3 => some (a <<< shamt64 b)
  | 0x00#7, 2#3 => some (boolWord (a.slt b))
  | 0x00#7, 3#3 => some (boolWord (a.ult b))
  | 0x00#7, 4#3 => some (a ^^^ b)
  | 0x00#7, 5#3 => some (a >>> shamt64 b)
  | 0x20#7, 5#3 => some (a.sshiftRight (shamt64 b))
  | 0x00#7, 6#3 => some (a ||| b)
  | 0x00#7, 7#3 => some (a &&& b)
  | 0x01#7, 0#3 => some (a * b)
  | 0x01#7, 1#3 => some (mulHigh (a.signExtend 128) (b.signExtend 128))
  | 0x01#7, 2#3 => some (mulHigh (a.signExtend 128) (b.setWidth 128))
  | 0x01#7, 3#3 => some (mulHigh (a.setWidth 128) (b.setWidth 128))
  | 0x01#7, 4#3 => some (divide a b)
  | 0x01#7, 5#3 => some (divideU a b)
  | 0x01#7, 6#3 => some (remainder a b)
  | 0x01#7, 7#3 => some (remainderU a b)
  | _, _ => none

def op32 (insn : Insn) (a b : BitVec 32) : Option (BitVec 32) :=
  match funct7 insn, funct3 insn with
  | 0x00#7, 0#3 => some (a + b)
  | 0x20#7, 0#3 => some (a - b)
  | 0x00#7, 1#3 => some (a <<< shamt32 b)
  | 0x00#7, 5#3 => some (a >>> shamt32 b)
  | 0x20#7, 5#3 => some (a.sshiftRight (shamt32 b))
  | 0x01#7, 0#3 => some (a * b)
  | 0x01#7, 4#3 => some (divide a b)
  | 0x01#7, 5#3 => some (divideU a b)
  | 0x01#7, 6#3 => some (remainder a b)
  | 0x01#7, 7#3 => some (remainderU a b)
  | _, _ => none

example : divide (.intMin 64) (-1#64) = BitVec.intMin 64 := by decide
example : remainder (.intMin 64) (-1#64) = 0#64 ∧ remainder (-7#64) 2#64 = -1#64 := by decide

def loadForm (f3 : BitVec 3) : Option (Width × Bool) :=
  match f3 with
  | 0#3 => some (.byte, true)
  | 1#3 => some (.half, true)
  | 2#3 => some (.word, true)
  | 3#3 => some (.dword, false)
  | 4#3 => some (.byte, false)
  | 5#3 => some (.half, false)
  | 6#3 => some (.word, false)
  | _ => none

def loadExtend (width : Width) (signed : Bool) (v : Word) : Word :=
  if signed then (v.setWidth width.bits).signExtend 64 else v

def storeForm (f3 : BitVec 3) : Option Width :=
  match f3 with
  | 0#3 => some .byte
  | 1#3 => some .half
  | 2#3 => some .word
  | 3#3 => some .dword
  | _ => none

/-- New memory value of an AMO on the sign-extended old value; the 32-bit forms compare the low
halves only. -/
def amoResult (funct5 : BitVec 5) (is64 : Bool) (old src : Word) : Option Word :=
  let co := if is64 then old else (lowWord old).setWidth 64
  let cs := if is64 then src else (lowWord src).setWidth 64
  let signedLt := if is64 then co.slt cs else (lowWord co).slt (lowWord cs)
  match funct5 with
  | 0x01#5 => some src
  | 0x00#5 => some (old + src)
  | 0x04#5 => some (old ^^^ src)
  | 0x0c#5 => some (old &&& src)
  | 0x08#5 => some (old ||| src)
  | 0x10#5 => some (if signedLt then old else src)
  | 0x14#5 => some (if !signedLt && co != cs then old else src)
  | 0x18#5 => some (if co.ult cs then old else src)
  | 0x1c#5 => some (if cs.ult co then old else src)
  | _ => none

end Rv64Js.Core
