import Rv64Js.Core.Fp

/-! # Compressed instructions

The RVC expander (`compressed.rs`) and the direct execution of RV64C (`step_compressed`); the caller
commits next pc and stop. -/

set_option autoImplicit false

namespace Rv64Js.Core

abbrev CInsn := BitVec 16

/-! ## Immediates and registers of the 16-bit forms -/

variable (c : Insn)

def cAddi4spnImm : BitVec 32 :=
  (((c >>> 11) &&& 3#32) <<< 4) ||| (((c >>> 7) &&& 0xf#32) <<< 6) |||
    (((c >>> 6) &&& 1#32) <<< 2) ||| (((c >>> 5) &&& 1#32) <<< 3)

def cLwImm : BitVec 32 :=
  (((c >>> 10) &&& 7#32) <<< 3) ||| (((c >>> 6) &&& 1#32) <<< 2) ||| (((c >>> 5) &&& 1#32) <<< 6)

def cLdImm : BitVec 32 := (((c >>> 10) &&& 7#32) <<< 3) ||| (((c >>> 5) &&& 3#32) <<< 6)

def cImm6 : BitVec 32 := (((c >>> 12) &&& 1#32) <<< 5) ||| ((c >>> 2) &&& 0x1f#32)

def cAddi16spImm : BitVec 32 :=
  (((c >>> 12) &&& 1#32) <<< 9) ||| (((c >>> 6) &&& 1#32) <<< 4) |||
    (((c >>> 5) &&& 1#32) <<< 6) |||
    (((c >>> 3) &&& 3#32) <<< 7) ||| (((c >>> 2) &&& 1#32) <<< 5)

def cJImm : BitVec 32 :=
  (((c >>> 12) &&& 1#32) <<< 11) ||| (((c >>> 11) &&& 1#32) <<< 4) |||
    (((c >>> 9) &&& 3#32) <<< 8) ||| (((c >>> 8) &&& 1#32) <<< 10) |||
    (((c >>> 7) &&& 1#32) <<< 6) ||| (((c >>> 6) &&& 1#32) <<< 7) |||
    (((c >>> 3) &&& 7#32) <<< 1) ||| (((c >>> 2) &&& 1#32) <<< 5)

def cBImm : BitVec 32 :=
  (((c >>> 12) &&& 1#32) <<< 8) ||| (((c >>> 10) &&& 3#32) <<< 3) |||
    (((c >>> 5) &&& 3#32) <<< 6) |||
    (((c >>> 3) &&& 3#32) <<< 1) ||| (((c >>> 2) &&& 1#32) <<< 5)

def cLwspImm : BitVec 32 :=
  (((c >>> 12) &&& 1#32) <<< 5) ||| (((c >>> 4) &&& 7#32) <<< 2) ||| (((c >>> 2) &&& 3#32) <<< 6)

def cLdspImm : BitVec 32 :=
  (((c >>> 12) &&& 1#32) <<< 5) ||| (((c >>> 5) &&& 3#32) <<< 3) ||| (((c >>> 2) &&& 7#32) <<< 6)

def cSwspImm : BitVec 32 := (((c >>> 9) &&& 0xf#32) <<< 2) ||| (((c >>> 7) &&& 3#32) <<< 6)

def cSdspImm : BitVec 32 := (((c >>> 10) &&& 7#32) <<< 3) ||| (((c >>> 7) &&& 7#32) <<< 6)

def cSext (value : BitVec 32) (bits : Nat) : BitVec 32 :=
  (value <<< (32 - bits)).sshiftRight (32 - bits)

def compressedSext (value : BitVec 32) (bits : Nat) : Word := (cSext value bits).signExtend 64

/-- `compressed_register`: the three-bit fields name `x8..x15`. -/
def compressedRegister (field : BitVec 3) : Reg := field.setWidth 5 + 8#5

theorem compressedRegister_ne_zero (field : BitVec 3) : compressedRegister field ≠ 0#5 := by
  revert field
  decide

def cFunct3 : BitVec 3 := c.extractLsb' 13 3

def cRdLow : Reg := compressedRegister (c.extractLsb' 2 3)
def cRs1Low : Reg := compressedRegister (c.extractLsb' 7 3)
def cRd : Reg := c.extractLsb' 7 5
def cRs2 : Reg := c.extractLsb' 2 5

def cArith : BitVec 3 := (c.extractLsb' 12 1) ++ (c.extractLsb' 5 2)

/-! ## The expander -/

def encR (op : BitVec 7) (rd : Reg) (f3 : BitVec 3) (rs1 rs2 : Reg) (f7 : BitVec 7) : Insn :=
  op.setWidth 32 ||| (rd.setWidth 32 <<< 7) ||| (f3.setWidth 32 <<< 12) |||
    (rs1.setWidth 32 <<< 15) ||| (rs2.setWidth 32 <<< 20) ||| (f7.setWidth 32 <<< 25)

def encI (op : BitVec 7) (rd : Reg) (f3 : BitVec 3) (rs1 : Reg) (imm : BitVec 32) : Insn :=
  op.setWidth 32 ||| (rd.setWidth 32 <<< 7) ||| (f3.setWidth 32 <<< 12) |||
    (rs1.setWidth 32 <<< 15) ||| ((imm &&& 0xfff#32) <<< 20)

def encS (op : BitVec 7) (f3 : BitVec 3) (rs1 rs2 : Reg) (imm : BitVec 32) : Insn :=
  op.setWidth 32 ||| ((imm &&& 0x1f#32) <<< 7) ||| (f3.setWidth 32 <<< 12) |||
    (rs1.setWidth 32 <<< 15) ||| (rs2.setWidth 32 <<< 20) ||| ((imm &&& 0xfe0#32) <<< 20)

def encB (op : BitVec 7) (f3 : BitVec 3) (rs1 rs2 : Reg) (imm : BitVec 32) : Insn :=
  op.setWidth 32 ||| (((imm >>> 11) &&& 1#32) <<< 7) ||| (((imm >>> 1) &&& 0xf#32) <<< 8) |||
    (f3.setWidth 32 <<< 12) ||| (rs1.setWidth 32 <<< 15) ||| (rs2.setWidth 32 <<< 20) |||
    (((imm >>> 5) &&& 0x3f#32) <<< 25) ||| (((imm >>> 12) &&& 1#32) <<< 31)

def encU (op : BitVec 7) (rd : Reg) (imm20 : BitVec 32) : Insn :=
  op.setWidth 32 ||| (rd.setWidth 32 <<< 7) ||| (imm20 <<< 12)

def encJ (op : BitVec 7) (rd : Reg) (imm : BitVec 32) : Insn :=
  op.setWidth 32 ||| (rd.setWidth 32 <<< 7) ||| (imm &&& 0xff000#32) |||
    (((imm >>> 11) &&& 1#32) <<< 20) ||| (((imm >>> 1) &&& 0x3ff#32) <<< 21) |||
    (((imm >>> 20) &&& 1#32) <<< 31)

def expandQuadrant0 : Option Insn :=
  let rd := cRdLow c
  let rs1 := cRs1Low c
  match cFunct3 c with
  | 0b000#3 =>
    if cAddi4spnImm c = 0#32 then none else some (encI 0x13#7 rd 0#3 2#5 (cAddi4spnImm c))
  | 0b010#3 => some (encI 0x03#7 rd 2#3 rs1 (cLwImm c))
  | 0b011#3 => some (encI 0x03#7 rd 3#3 rs1 (cLdImm c))
  | 0b110#3 => some (encS 0x23#7 2#3 rs1 rd (cLwImm c))
  | 0b111#3 => some (encS 0x23#7 3#3 rs1 rd (cLdImm c))
  | 0b001#3 => some (encI 0x07#7 rd 3#3 rs1 (cLdImm c))
  | 0b101#3 => some (encS 0x27#7 3#3 rs1 rd (cLdImm c))
  | _ => none

def expandQuadrant1 : Option Insn :=
  let rd := cRd c
  let imm6 := cSext (cImm6 c) 6
  match cFunct3 c with
  | 0b000#3 => some (encI 0x13#7 rd 0#3 rd imm6)
  | 0b001#3 => if rd = 0#5 then none else some (encI 0x1b#7 rd 0#3 rd imm6)
  | 0b010#3 => some (encI 0x13#7 rd 0#3 0#5 imm6)
  | 0b011#3 =>
    if rd = 2#5 then
      let imm := cSext (cAddi16spImm c) 10
      if imm = 0#32 then none else some (encI 0x13#7 2#5 0#3 2#5 imm)
    else if imm6 = 0#32 then none
    else some (encU 0x37#7 rd (imm6 &&& 0xfffff#32))
  | 0b100#3 =>
    let rdp := cRs1Low c
    match c.extractLsb' 10 2 with
    | 0#2 => some (encI 0x13#7 rdp 5#3 rdp (cImm6 c))
    | 1#2 => some (encI 0x13#7 rdp 5#3 rdp (cImm6 c ||| 0x400#32))
    | 2#2 => some (encI 0x13#7 rdp 7#3 rdp imm6)
    | _ =>
      let rs2 := cRdLow c
      match cArith c with
      | 0b000#3 => some (encR 0x33#7 rdp 0#3 rdp rs2 0x20#7)
      | 0b001#3 => some (encR 0x33#7 rdp 4#3 rdp rs2 0#7)
      | 0b010#3 => some (encR 0x33#7 rdp 6#3 rdp rs2 0#7)
      | 0b011#3 => some (encR 0x33#7 rdp 7#3 rdp rs2 0#7)
      | 0b100#3 => some (encR 0x3b#7 rdp 0#3 rdp rs2 0x20#7)
      | 0b101#3 => some (encR 0x3b#7 rdp 0#3 rdp rs2 0#7)
      | _ => none
  | 0b101#3 => some (encJ 0x6f#7 0#5 (cSext (cJImm c) 12))
  | 0b110#3 => some (encB 0x63#7 0#3 (cRs1Low c) 0#5 (cSext (cBImm c) 9))
  | 0b111#3 => some (encB 0x63#7 1#3 (cRs1Low c) 0#5 (cSext (cBImm c) 9))

def expandQuadrant2 : Option Insn :=
  let rd := cRd c
  let rs2 := cRs2 c
  match cFunct3 c with
  | 0b000#3 => some (encI 0x13#7 rd 1#3 rd (cImm6 c))
  | 0b010#3 => if rd = 0#5 then none else some (encI 0x03#7 rd 2#3 2#5 (cLwspImm c))
  | 0b011#3 => if rd = 0#5 then none else some (encI 0x03#7 rd 3#3 2#5 (cLdspImm c))
  | 0b100#3 =>
    if c.extractLsb' 12 1 = 0#1 then
      if rd = 0#5 then none
      else if rs2 = 0#5 then some (encI 0x67#7 0#5 0#3 rd 0#32)
      else some (encR 0x33#7 rd 0#3 0#5 rs2 0#7)
    else if rs2 = 0#5 then
      if rd = 0#5 then some 0x00100073#32 else some (encI 0x67#7 1#5 0#3 rd 0#32)
    else some (encR 0x33#7 rd 0#3 rd rs2 0#7)
  | 0b110#3 => some (encS 0x23#7 2#3 2#5 rs2 (cSwspImm c))
  | 0b111#3 => some (encS 0x23#7 3#3 2#5 rs2 (cSdspImm c))
  | 0b001#3 => some (encI 0x07#7 rd 3#3 2#5 (cLdspImm c))
  | 0b101#3 => some (encS 0x27#7 3#3 2#5 rs2 (cSdspImm c))

/-- The 32-bit equivalent of a compressed instruction; `none` is reserved. -/
def expand (instruction : CInsn) : Option Insn :=
  let c : Insn := instruction.setWidth 32
  if c = 0#32 then none
  else
    match c.extractLsb' 0 2 with
    | 0#2 => expandQuadrant0 c
    | 1#2 => expandQuadrant1 c
    | 2#2 => expandQuadrant2 c
    | _ => none

-- c.addi sp, -32; c.mv a0, a1; c.jr ra; c.ebreak; c.sdsp ra, 8(sp)
example : expand 0x1101#16 = some (encI 0x13#7 2#5 0#3 2#5 (-32#32)) := by decide
example : expand 0x852e#16 = some (encR 0x33#7 10#5 0#3 0#5 11#5 0#7) := by decide
example : expand 0x8082#16 = some (encI 0x67#7 0#5 0#3 1#5 0#32) := by decide
example : expand 0x9002#16 = some 0x00100073#32 := by decide
example : expand 0xe406#16 = some (encS 0x23#7 3#3 2#5 1#5 8#32) := by decide

end Rv64Js.Core
