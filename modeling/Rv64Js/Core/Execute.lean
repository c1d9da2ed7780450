import Rv64Js.Core.StepCompressed
import Rv64Js.Core.Assertion

/-! # The interpreter

`step` and `run` of `cpu.rs`. An instruction body returns the next pc; what it does to the fetch
cache and to the retirement count is in its `Outcome`. The vector unit is a parameter that touches
memory through the bus only. -/

set_option autoImplicit false

namespace Rv64Js.Core

open Fallible (zoom Along finalState)

/-- What an instruction that stays in its privilege mode does to the machine: the
bus moves by its operations. -/
def Machine.Evolves {β : Type} [Bus β] (m m' : Machine β) : Prop :=
  Bus.Evolves m.bus m'.bus ∧ m'.hart.mode? = m.hart.mode?

/-- The vector executors (`cpu/vector.rs`): they know neither pc nor retirement count, touch rows
and bus as the rest of the CPU does, and leave privilege mode and time base alone. -/
structure VectorUnit (β : Type) [Bus β] where
  unitStrideMemoryEncoding : Insn → Bool
  execUnitStrideMemoryInsn : Insn → Bool → Exec β Unit
  execVectorMemory : Insn → Bool → Exec β Unit
  execVectorConfig : Insn → EStateM Exception Hart Unit
  execVectorOp : Insn → EStateM Exception Hart Unit
  unitStride_evolves : ∀ insn load, Along Machine.Evolves (execUnitStrideMemoryInsn insn load)
  memory_evolves : ∀ insn load, Along Machine.Evolves (execVectorMemory insn load)
  unitStride_keeps : ∀ insn load (I : Machine β → Prop), Stable I →
    Keeps I (execUnitStrideMemoryInsn insn load)
  memory_keeps : ∀ insn load (I : Machine β → Prop), Stable I → Keeps I (execVectorMemory insn load)
  config_settles : ∀ insn, Along Hart.Settles (execVectorConfig insn)
  op_settles : ∀ insn, Along Hart.Settles (execVectorOp insn)
  config_mode : ∀ insn, Along (fun hart hart' => hart'.mode? = hart.mode?) (execVectorConfig insn)
  op_mode : ∀ insn, Along (fun hart hart' => hart'.mode? = hart.mode?) (execVectorOp insn)
  unitStride_time : ∀ insn load,
    Along (fun m m' => m'.hart.timeBase? = m.hart.timeBase?) (execUnitStrideMemoryInsn insn load)
  memory_time : ∀ insn load,
    Along (fun m m' => m'.hart.timeBase? = m.hart.timeBase?) (execVectorMemory insn load)
  config_time : ∀ insn,
    Along (fun hart hart' => hart'.timeBase? = hart.timeBase?) (execVectorConfig insn)
  op_time : ∀ insn, Along (fun hart hart' => hart'.timeBase? = hart.timeBase?) (execVectorOp insn)

structure Units (β : Type) [Bus β] where
  soft : SoftFp
  vector : VectorUnit β

variable {β : Type} [Bus β]

def liftHart {α : Type} (op : EStateM Exception Hart α) : Exec β α :=
  zoom Machine.hart (fun hart m => { m with hart := hart }) op

/-- Width encodings that LOAD-FP and STORE-FP share with vector memory. -/
def isVectorWidth (f3 : BitVec 3) : Bool := f3 = 0#3 || f3 = 5#3 || f3 = 6#3 || f3 = 7#3

def VectorUnit.memory (unit : VectorUnit β) (insn : Insn) (load : Bool) : Exec β Unit :=
  if unit.unitStrideMemoryEncoding insn then unit.execUnitStrideMemoryInsn insn load
  else unit.execVectorMemory insn load

def VectorUnit.arithmetic (unit : VectorUnit β) (insn : Insn) : Exec β Unit :=
  if funct3 insn = 7#3 then liftHart (unit.execVectorConfig insn)
  else liftHart (unit.execVectorOp insn)

/-- How an instruction ends: next pc and stop, the effect on the fetch cache. -/
structure Outcome where
  next : Next
  fetch : FetchOp

def Outcome.goto (pc : Word) : Outcome := { next := { pc := pc, stop := none }, fetch := .keep }

def updateHart {α : Type} (f : Hart → α × Hart) : Exec β α := fun m =>
  .ok (f m.hart).1 { m with hart := (f m.hart).2 }

variable (insn : Insn)

def tryHart (f : Hart → Option Hart) : Exec β Unit := fun m =>
  match f m.hart with
  | none => .error (.illegalInstruction insn) m
  | some hart => .ok () { m with hart := hart }

/-! ## Atomics -/

def amoIs64 (f3 : BitVec 3) : Option Bool :=
  match f3 with
  | 2#3 => some false
  | 3#3 => some true
  | _ => none

def aload (is64 : Bool) (addr : Word) : Exec β Word :=
  if is64 then ld .dword addr else ldSigned32 addr

def astore (is64 : Bool) (addr v : Word) : Exec β Unit :=
  if is64 then st .dword addr v else st .word addr v

def stepLr (is64 : Bool) (addr : Word) : Exec β Unit := do
  let v ← aload is64 addr
  modifyHart fun hart => { hart with reservation := some addr }
  writeX (rd insn) v

/-- Store if the reservation holds; the result says whether it failed. -/
def scStore (is64 : Bool) (addr src : Word) : Exec β Word := do
  if (← get).hart.reservation = some addr then
    astore is64 addr src
    pure 0#64
  else pure 1#64

def stepSc (is64 : Bool) (addr src : Word) : Exec β Unit := do
  let failed ← scStore is64 addr src
  writeX (rd insn) failed
  modifyHart fun hart => { hart with reservation := none }

def stepAmoOp (funct5 : BitVec 5) (is64 : Bool) (addr src : Word) : Exec β Unit := do
  let old ← aload is64 addr
  let new ← orIllegal insn (amoResult funct5 is64 old src)
  astore is64 addr new
  writeX (rd insn) old

def stepAmo : Exec β Unit := do
  let addr ← getX (rs1 insn)
  let src ← getX (rs2 insn)
  let funct5 : BitVec 5 := (funct7 insn).extractLsb' 2 5
  let is64 ← orIllegal insn (amoIs64 (funct3 insn))
  match funct5 with
  | 0x02#5 => stepLr insn is64 addr
  | 0x03#5 => stepSc insn is64 addr src
  | _ => stepAmoOp insn funct5 is64 addr src

/-! ## Floating point -/

/-- FLW and FLD; FS is dirty before the width is looked at. -/
def stepLoadFp : Exec β Unit := do
  fpCheck insn
  modifyHart Hart.fpDirty
  let addr := (← getX (rs1 insn)) + immI insn
  match funct3 insn with
  | 2#3 => assignF (rd insn) (box32 (lowWord (← ld .word addr)))
  | 3#3 => assignF (rd insn) (← ld .dword addr)
  | _ => illegal insn

def stepStoreFp : Exec β Unit := do
  fpCheck insn
  let addr := (← getX (rs1 insn)) + immS insn
  let v ← getF (rs2 insn)
  match funct3 insn with
  | 2#3 => st .word addr v
  | 3#3 => st .dword addr v
  | _ => illegal insn

/-- OP-FP or a fused multiply-add, with FS checked and made dirty first. -/
def stepFp (body : Hart → Insn → Option Hart) : Exec β Unit := do
  fpCheck insn
  modifyHart Hart.fpDirty
  tryHart insn fun hart => body hart insn

/-! ## System instructions -/

/-- `(0x0000_0073, _)`: trap, or stop for the host. -/
def stepEcall (hart : Hart) (pc nextPc insnCount : Word) : Hart × Outcome :=
  let stopped : Hart × Outcome :=
    (hart, { next := { pc := nextPc, stop := some .ecall }, fetch := .keep })
  match hart.sys with
  | none => stopped
  | some sys =>
    if hart.hostSbi ∧ sys.mode = .supervisor then stopped
    else
      let cause := match sys.mode with
        | .user => 8#64
        | .supervisor => 9#64
        | .machine => 11#64
      let trap := takeTrap hart pc insnCount cause 0#64 false
      (trap.hart, { next := { pc := trap.pc, stop := none }, fetch := trap.fetch })

def SysCsrs.mret (sys : SysCsrs) : SysCsrs :=
  let mpp := Mode.fromBits ((sys.mstatus &&& MSTATUS_MPP) >>> 11)
  let mpie := (sys.mstatus >>> 7) &&& 1#64
  let mstatus :=
    (sys.mstatus &&& ~~~(MSTATUS_MIE ||| MSTATUS_MPIE ||| MSTATUS_MPP)) ||| (mpie <<< 3) |||
      MSTATUS_MPIE
  { sys with
    mstatus := if mpp ≠ .machine then mstatus &&& ~~~MSTATUS_MPRV else mstatus
    mode := mpp }

/-- `mstatus` after SRET; the previous mode is never machine mode. -/
def SysCsrs.sret (sys : SysCsrs) : SysCsrs :=
  let spp : Mode := if sys.mstatus &&& MSTATUS_SPP ≠ 0#64 then .supervisor else .user
  let spie := (sys.mstatus >>> 5) &&& 1#64
  let mstatus :=
    (sys.mstatus &&& ~~~(MSTATUS_SIE ||| MSTATUS_SPIE ||| MSTATUS_SPP)) ||| (spie <<< 1) |||
      MSTATUS_SPIE
  { sys with mstatus := mstatus &&& ~~~MSTATUS_MPRV, mode := spp }

def Hart.xret (allowed : SysCsrs → Bool) (ret : SysCsrs → SysCsrs) (epc : SysCsrs → Word)
    (hart : Hart) : Option Outcome × Hart :=
  match hart.sys with
  | none => (none, hart)
  | some sys =>
    if allowed sys then
      let changed := Hart.privilegeChanged { hart with sys := some (ret sys) }
      (some { next := { pc := epc sys, stop := none }, fetch := changed.2 }, changed.1)
    else (none, hart)

/-- MRET and SRET: the poll countdown drops before the privilege check. -/
def stepXret (allowed : SysCsrs → Bool) (ret : SysCsrs → SysCsrs) (epc : SysCsrs → Word) :
    Exec β Outcome := do
  modifyHart fun hart => { hart with irqPollCd := 0#32 }
  let returned ← updateHart (Hart.xret allowed ret epc)
  orIllegal insn returned

def stepWfi (nextPc : Word) : Exec β Outcome := do
  match (← get).hart.sys with
  | none => pure (.goto nextPc)
  | some sys =>
    if sys.mode = .user ∨ (sys.mode = .supervisor ∧ sys.mstatus &&& MSTATUS_TW ≠ 0#64) then
      illegal insn
    else
      pure
        { next := { pc := nextPc, stop := if sys.mip &&& sys.mie = 0#64 then some .wfi else none }
          fetch := .keep }

def Hart.sfenceTraps (hart : Hart) : Bool :=
  hart.sys.any fun sys =>
    sys.mode = .user || (sys.mode = .supervisor && sys.mstatus &&& MSTATUS_TVM ≠ 0#64)

def Hart.fence (hart : Hart) : FetchOp × Hart :=
  let va := if rs1 insn ≠ 0#5 then some (hart.x (rs1 insn)) else none
  let asid := if rs2 insn ≠ 0#5 then some ((hart.x (rs2 insn)).setWidth 16) else none
  let fenced := hart.sfenceVma va asid
  (fenced.2, fenced.1)

def stepSfence (nextPc : Word) : Exec β Outcome := do
  if (← get).hart.sfenceTraps then illegal insn
  else
    let fetch ← updateHart (Hart.fence insn)
    pure { next := { pc := nextPc, stop := none }, fetch := fetch }

/-- New value of a CSR instruction; set and clear with a zero source do not write. -/
def csrSource (old src : Word) : Option Word :=
  let zero : Bool := if (funct3 insn).getLsbD 2 then src = 0#64 else rs1 insn = 0#5
  match (funct3 insn).extractLsb' 0 2 with
  | 1#2 => some src
  | 2#2 => if zero then none else some (old ||| src)
  | 3#2 => if zero then none else some (old &&& ~~~src)
  | _ => none

/-- fflags, frm and fcsr are FP state. -/
def csrFpCheck (csr : CsrAddr) : Exec β Unit :=
  if csr ≤ 3#12 then do
    fpCheck insn
    modifyHart Hart.fpDirty
  else pure ()

def csrOperand : Exec β Word :=
  if (funct3 insn).getLsbD 2 then pure ((rs1 insn).setWidth 64) else getX (rs1 insn)

def writeCsr (insnCount : Word) (csr : CsrAddr) (v : Word) : Exec β (Bool × FetchOp) :=
  updateHart fun hart =>
    let written := hart.csrWrite insnCount csr v
    ((written.accepted, written.fetch), written.hart)

def stepCsr (nextPc insnCount : Word) : Exec β Outcome := do
  let csr : CsrAddr := insn.extractLsb' 20 12
  csrFpCheck insn csr
  let src ← csrOperand insn
  let old ← orIllegal insn ((← get).hart.csrRead insnCount csr)
  match csrSource insn old src with
  | none =>
    writeX (rd insn) old
    pure (.goto nextPc)
  | some v =>
    let written ← writeCsr insnCount csr v
    if written.1 then
      writeX (rd insn) old
      pure { next := { pc := nextPc, stop := none }, fetch := written.2 }
    else illegal insn

def stepSystem (pc nextPc insnCount : Word) : Exec β Outcome := do
  if insn = 0x00000073#32 then
    updateHart fun hart =>
      ((stepEcall hart pc nextPc insnCount).2, (stepEcall hart pc nextPc insnCount).1)
  else if insn = 0x00100073#32 then
    if ← inSystem then throw .breakpoint
    else pure { next := { pc := nextPc, stop := some .break }, fetch := .keep }
  else if insn = 0x30200073#32 then
    stepXret insn (fun sys => sys.mode = .machine) SysCsrs.mret SysCsrs.mepc
  else if insn = 0x10200073#32 then
    stepXret insn
      (fun sys =>
        !(sys.mode = .user || (sys.mode = .supervisor && sys.mstatus &&& MSTATUS_TSR ≠ 0#64)))
      SysCsrs.sret SysCsrs.sepc
  else if insn = 0x10500073#32 then stepWfi insn nextPc
  else if funct7 insn = 0x09#7 ∧ funct3 insn = 0#3 then stepSfence insn nextPc
  else if (funct3 insn).extractLsb' 0 2 ≠ 0#2 then stepCsr insn nextPc insnCount
  else illegal insn

def executeNext (units : Units β) (insn : Insn) (pc nextPc insnCount : Word) : Exec β Outcome := do
  match opcode insn with
  | 0x37#7 =>
    writeX (rd insn) (immU insn)
    pure (.goto nextPc)
  | 0x17#7 =>
    writeX (rd insn) (pc + immU insn)
    pure (.goto nextPc)
  | 0x6f#7 =>
    writeX (rd insn) nextPc
    pure (.goto (pc + immJ insn))
  | 0x67#7 =>
    let target := ((← getX (rs1 insn)) + immI insn) &&& ~~~1#64
    writeX (rd insn) nextPc
    pure (.goto target)
  | 0x63#7 =>
    let a ← getX (rs1 insn)
    let b ← getX (rs2 insn)
    let taken ← orIllegal insn (branchTaken (funct3 insn) a b)
    pure (.goto (if taken then pc + immB insn else nextPc))
  | 0x03#7 =>
    let addr := (← getX (rs1 insn)) + immI insn
    let form ← orIllegal insn (loadForm (funct3 insn))
    let v ← ld form.1 addr
    writeX (rd insn) (loadExtend form.1 form.2 v)
    pure (.goto nextPc)
  | 0x23#7 =>
    let addr := (← getX (rs1 insn)) + immS insn
    let val ← getX (rs2 insn)
    let width ← orIllegal insn (storeForm (funct3 insn))
    st width addr val
    pure (.goto nextPc)
  | 0x13#7 =>
    writeX (rd insn) (opImm insn (← getX (rs1 insn)))
    pure (.goto nextPc)
  | 0x1b#7 =>
    let v ← orIllegal insn (opImm32 insn (lowWord (← getX (rs1 insn))))
    writeX (rd insn) (sextWord v)
    pure (.goto nextPc)
  | 0x33#7 =>
    let v ← orIllegal insn (op insn (← getX (rs1 insn)) (← getX (rs2 insn)))
    writeX (rd insn) v
    pure (.goto nextPc)
  | 0x3b#7 =>
    let v ← orIllegal insn
      (op32 insn (lowWord (← getX (rs1 insn))) (lowWord (← getX (rs2 insn))))
    writeX (rd insn) (sextWord v)
    pure (.goto nextPc)
  | 0x2f#7 =>
    stepAmo insn
    pure (.goto nextPc)
  | 0x07#7 =>
    if isVectorWidth (funct3 insn) then units.vector.memory insn true else stepLoadFp insn
    pure (.goto nextPc)
  | 0x27#7 =>
    if isVectorWidth (funct3 insn) then units.vector.memory insn false else stepStoreFp insn
    pure (.goto nextPc)
  | 0x57#7 =>
    units.vector.arithmetic insn
    pure (.goto nextPc)
  | 0x43#7 | 0x47#7 | 0x4b#7 | 0x4f#7 =>
    stepFp insn (Hart.fma units.soft)
    pure (.goto nextPc)
  | 0x53#7 =>
    stepFp insn (Hart.opFp units.soft)
    pure (.goto nextPc)
  -- FENCE and FENCE.I: nothing to do on a single in-order hart
  | 0x0f#7 => pure (.goto nextPc)
  | 0x73#7 => stepSystem insn pc nextPc insnCount
  | _ => illegal insn

def execute (units : Units β) (insn : Insn) (pc insnCount : Word) : Exec β Outcome :=
  executeNext units insn pc (pc + 4) insnCount

end Rv64Js.Core
