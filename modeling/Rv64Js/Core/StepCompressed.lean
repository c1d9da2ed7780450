import Rv64Js.Core.Compressed

/-! # Direct execution of compressed instructions

`step_compressed` runs RV64C without the synthetic 32-bit instruction. The caller commits next pc
and retirement. -/

set_option autoImplicit false

namespace Rv64Js.Core

open Fallible (zoom)

structure Next where
  pc : Word
  stop : Option StopReason

section Registers

variable {β : Type}

def getX (r : Reg) : Exec β Word := fun m => .ok (m.hart.x r) m

def getF (r : Reg) : Exec β Word := fun m => .ok (m.hart.f r) m

def modifyHart (update : Hart → Hart) : Exec β Unit := fun m =>
  .ok () { m with hart := update m.hart }

def writeX (rd : Reg) (val : Word) : Exec β Unit := modifyHart fun hart => hart.wr rd val

def assignX (rd : Reg) (val : Word) : Exec β Unit := modifyHart fun hart => hart.setX rd val

def assignF (rd : Reg) (val : Word) : Exec β Unit := modifyHart fun hart => hart.setF rd val

def illegal {α : Type} (insn : Insn) : Exec β α := throw (.illegalInstruction insn)

def orIllegal {α : Type} (insn : Insn) : Option α → Exec β α
  | none => illegal insn
  | some v => pure v

def fpCheck (insn : Insn) : Exec β Unit := fun m =>
  if m.hart.fpEnabled then .ok () m else .error (.illegalInstruction insn) m

def inSystem : Exec β Bool := fun m => .ok m.hart.sys.isSome m

end Registers

variable {β : Type} [Bus β]

def ldSigned32 (addr : Word) : Exec β Word := do
  let v ← ld .word addr
  pure (sextWord (lowWord v))

/-- FP loads of the compressed forms report the expanded instruction. -/
def cFpLoad (instruction : CInsn) (rd base : Reg) (imm : BitVec 32) : Exec β Unit := do
  fpCheck ((expand instruction).getD 0#32)
  modifyHart Hart.fpDirty
  let v ← ld .dword ((← getX base) + imm.setWidth 64)
  assignF rd v

def cFpStore (instruction : CInsn) (rs2 base : Reg) (imm : BitVec 32) : Exec β Unit := do
  fpCheck ((expand instruction).getD 0#32)
  let addr := (← getX base) + imm.setWidth 64
  st .dword addr (← getF rs2)

def stepQuadrant0 (instruction : CInsn) (c : Insn) (pc : Word) : Exec β Next := do
  let rd := cRdLow c
  let rs1 := cRs1Low c
  match cFunct3 c with
  | 0b000#3 =>
    if cAddi4spnImm c = 0#32 then illegal c
    else writeX rd ((← getX 2#5) + (cAddi4spnImm c).setWidth 64)
  | 0b001#3 => cFpLoad instruction rd rs1 (cLdImm c)
  | 0b010#3 => writeX rd (← ldSigned32 ((← getX rs1) + (cLwImm c).setWidth 64))
  | 0b011#3 => writeX rd (← ld .dword ((← getX rs1) + (cLdImm c).setWidth 64))
  | 0b101#3 => cFpStore instruction rd rs1 (cLdImm c)
  | 0b110#3 => st .word ((← getX rs1) + (cLwImm c).setWidth 64) (← getX rd)
  | 0b111#3 => st .dword ((← getX rs1) + (cLdImm c).setWidth 64) (← getX rd)
  | _ => illegal c
  pure { pc := pc + 2, stop := none }

/-- The register group of quadrant 1: shifts, `andi` and register-register forms. -/
def stepArith (c : Insn) : Exec β Unit := do
  let rdp := cRs1Low c
  let a ← getX rdp
  match c.extractLsb' 10 2 with
  | 0#2 => assignX rdp (a >>> (cImm6 c).toNat)
  | 1#2 => assignX rdp (a.sshiftRight (cImm6 c).toNat)
  | 2#2 => assignX rdp (a &&& compressedSext (cImm6 c) 6)
  | _ =>
    let b ← getX (cRdLow c)
    match cArith c with
    | 0b000#3 => assignX rdp (a - b)
    | 0b001#3 => assignX rdp (a ^^^ b)
    | 0b010#3 => assignX rdp (a ||| b)
    | 0b011#3 => assignX rdp (a &&& b)
    | 0b100#3 => assignX rdp (sextWord (lowWord a - lowWord b))
    | 0b101#3 => assignX rdp (sextWord (lowWord a + lowWord b))
    | _ => illegal c

def stepQuadrant1 (c : Insn) (pc : Word) : Exec β Next := do
  let rd := cRd c
  let immediate := compressedSext (cImm6 c) 6
  match cFunct3 c with
  | 0b000#3 =>
    writeX rd ((← getX rd) + immediate)
    pure { pc := pc + 2, stop := none }
  | 0b001#3 =>
    if rd = 0#5 then illegal c
    else
      writeX rd (sextWord (lowWord (← getX rd) + lowWord immediate))
      pure { pc := pc + 2, stop := none }
  | 0b010#3 =>
    writeX rd immediate
    pure { pc := pc + 2, stop := none }
  | 0b011#3 =>
    if rd = 2#5 then
      let value := compressedSext (cAddi16spImm c) 10
      if value = 0#64 then illegal c
      else
        assignX 2#5 ((← getX 2#5) + value)
        pure { pc := pc + 2, stop := none }
    else if immediate = 0#64 then illegal c
    else
      writeX rd (immediate <<< 12)
      pure { pc := pc + 2, stop := none }
  | 0b100#3 =>
    stepArith c
    pure { pc := pc + 2, stop := none }
  | 0b101#3 => pure { pc := pc + compressedSext (cJImm c) 12, stop := none }
  | 0b110#3 =>
    let taken : Bool := (← getX (cRs1Low c)) = 0#64
    pure { pc := if taken then pc + compressedSext (cBImm c) 9 else pc + 2, stop := none }
  | 0b111#3 =>
    let taken : Bool := (← getX (cRs1Low c)) ≠ 0#64
    pure { pc := if taken then pc + compressedSext (cBImm c) 9 else pc + 2, stop := none }

def stepJumpMove (c : Insn) (pc : Word) : Exec β Next := do
  let rd := cRd c
  let rs2 := cRs2 c
  let nextPc := pc + 2
  if c.extractLsb' 12 1 = 0#1 then
    if rd = 0#5 then illegal c
    else if rs2 = 0#5 then pure { pc := (← getX rd) &&& ~~~1#64, stop := none }
    else
      writeX rd (← getX rs2)
      pure { pc := nextPc, stop := none }
  else if rs2 = 0#5 then
    if rd = 0#5 then
      if ← inSystem then throw .breakpoint
      else pure { pc := nextPc, stop := some .break }
    else
      let target := (← getX rd) &&& ~~~1#64
      assignX 1#5 nextPc
      pure { pc := target, stop := none }
  else
    writeX rd ((← getX rd) + (← getX rs2))
    pure { pc := nextPc, stop := none }

def stepQuadrant2 (instruction : CInsn) (c : Insn) (pc : Word) : Exec β Next := do
  let rd := cRd c
  let rs2 := cRs2 c
  match cFunct3 c with
  | 0b000#3 =>
    writeX rd ((← getX rd) <<< (cImm6 c).toNat)
    pure { pc := pc + 2, stop := none }
  | 0b001#3 =>
    cFpLoad instruction rd 2#5 (cLdspImm c)
    pure { pc := pc + 2, stop := none }
  | 0b010#3 =>
    if rd = 0#5 then illegal c
    else
      writeX rd (← ldSigned32 ((← getX 2#5) + (cLwspImm c).setWidth 64))
      pure { pc := pc + 2, stop := none }
  | 0b011#3 =>
    if rd = 0#5 then illegal c
    else
      writeX rd (← ld .dword ((← getX 2#5) + (cLdspImm c).setWidth 64))
      pure { pc := pc + 2, stop := none }
  | 0b100#3 => stepJumpMove c pc
  | 0b101#3 =>
    cFpStore instruction rs2 2#5 (cSdspImm c)
    pure { pc := pc + 2, stop := none }
  | 0b110#3 =>
    st .word ((← getX 2#5) + (cSwspImm c).setWidth 64) (← getX rs2)
    pure { pc := pc + 2, stop := none }
  | 0b111#3 =>
    st .dword ((← getX 2#5) + (cSdspImm c).setWidth 64) (← getX rs2)
    pure { pc := pc + 2, stop := none }

def stepCompressed (instruction : CInsn) (pc : Word) : Exec β Next :=
  let c : Insn := instruction.setWidth 32
  if c = 0#32 then illegal c
  else
    match c.extractLsb' 0 2 with
    | 0#2 => stepQuadrant0 instruction c pc
    | 1#2 => stepQuadrant1 c pc
    | 2#2 => stepQuadrant2 instruction c pc
    -- not reached: the caller saw a 32-bit prefix
    | _ => illegal c

end Rv64Js.Core
