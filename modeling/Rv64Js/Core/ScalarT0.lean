import Rv64Js.Core.Run

/-! # The integrated scalar driver

`run_integrated_scalar_t0` without stop predicate and observer: pc, retirement and one
executable-page capability live in locals, ordinary instructions run inline, everything else falls
back to `step` on committed state. -/

set_option autoImplicit false

namespace Rv64Js.Core

open Fallible

inductive ScalarT0Step where
  | retired (pc : Word)
  | stop (pc : Word) (reason : StopReason)
  | slow

/-- What the integrated decoder works on: the CPU without pc and retirement, the
bus, and the driver's page capability. -/
structure T0 (β : Type) where
  hart : Hart
  row : Row
  bus : β
  capability : FetchCapability

namespace T0

variable {β : Type}

def machine (t : T0 β) : Machine β := { hart := t.hart, bus := t.bus }

def withMachine (m : Machine β) (t : T0 β) : T0 β := { t with hart := m.hart, bus := m.bus }

end T0

variable {β : Type} [Bus β]

/-! ## Fetch through the capability -/

structure FetchedHalf where
  pa : Word
  bits : BitVec 16
  address : Option Word

def scalarFetch16Slow (va tag : Word) : EStateM Exception (T0 β) FetchedHalf := fun t =>
  match translateIn t.row t.hart va .fetch t.bus with
  | .error e bus => .error e { t with bus := bus }
  | .ok (pa, row) bus =>
    match Bus.jitFastOff bus va pa false with
    | some off =>
      .ok { pa := pa, bits := Bus.peek .half bus (va + off), address := some (va + off) }
        { t with
          row := row
          bus := bus
          capability := { tag := tag, paDiff := pa - va, linearOff := off } }
    | none =>
      match Bus.fetch16 pa bus with
      | .ok half bus =>
        .ok { pa := pa, bits := half, address := none } { t with row := row, bus := bus }
      | .error e bus => .error e { t with row := row, bus := bus }

def scalarFetch16 (va context : Word) : EStateM Exception (T0 β) FetchedHalf := fun t =>
  let tag := pageOf va ||| context
  if t.capability.tag = tag then
    let address := va + t.capability.linearOff
    .ok { pa := va + t.capability.paDiff, bits := Bus.peek .half t.bus address,
          address := some address } t
  else scalarFetch16Slow va tag t

def t0Fetch16 (pa : Word) : EStateM Exception (T0 β) (BitVec 16) :=
  zoom T0.bus (fun bus t => { t with bus := bus }) (Bus.fetch16 pa)

def scalarFetch (pc context : Word) : EStateM Exception (T0 β) Fetched := do
  let low ← scalarFetch16 pc context
  if isCompressed low.bits then pure (.compressed low.bits)
  else
    let pc2 := pc + 2
    if pc2 &&& 0xfff#64 = 0#64 then
      let high ← scalarFetch16 pc2 context
      pure (.full (high.bits ++ low.bits))
    else
      match low.address with
      | some address =>
        let t ← get
        pure (.full (Bus.peek .half t.bus (address + 2) ++ low.bits))
      | none =>
        let hi ← t0Fetch16 (low.pa + 2)
        pure (.full (hi ++ low.bits))

/-! ## Inline instructions -/

variable (c : Insn)

def t0Quadrant0 (pc : Word) : Exec β ScalarT0Step := do
  let rd := cRdLow c
  let rs1 := cRs1Low c
  let nextPc := pc + 2
  match cFunct3 c with
  | 0b000#3 =>
    if cAddi4spnImm c = 0#32 then illegal c
    else
      writeX rd ((← getX 2#5) + (cAddi4spnImm c).setWidth 64)
      pure (.retired nextPc)
  | 0b001#3 | 0b101#3 => pure .slow
  | 0b010#3 =>
    writeX rd (← ldSigned32 ((← getX rs1) + (cLwImm c).setWidth 64))
    pure (.retired nextPc)
  | 0b011#3 =>
    writeX rd (← ld .dword ((← getX rs1) + (cLdImm c).setWidth 64))
    pure (.retired nextPc)
  | 0b110#3 =>
    st .word ((← getX rs1) + (cLwImm c).setWidth 64) (← getX rd)
    pure (.retired nextPc)
  | 0b111#3 =>
    st .dword ((← getX rs1) + (cLdImm c).setWidth 64) (← getX rd)
    pure (.retired nextPc)
  | _ => illegal c

def t0Arith : Exec β Unit := do
  let rdp := cRs1Low c
  let a ← getX rdp
  match c.extractLsb' 10 2 with
  | 0#2 => assignX rdp (a >>> (cImm6 c).toNat)
  | 1#2 => assignX rdp (a.sshiftRight (cImm6 c).toNat)
  | 2#2 => assignX rdp (a &&& compressedSext (cImm6 c) 6)
  | _ =>
    let b ← getX (cRdLow c)
    match cArith c with
    | 0b000#3 => assignX rdp (a - b)
    | 0b001#3 => assignX rdp (a ^^^ b)
    | 0b010#3 => assignX rdp (a ||| b)
    | 0b011#3 => assignX rdp (a &&& b)
    | 0b100#3 => assignX rdp (sextWord (lowWord a - lowWord b))
    | 0b101#3 => assignX rdp (sextWord (lowWord a + lowWord b))
    | _ => illegal c

def t0Quadrant1 (pc : Word) : Exec β ScalarT0Step := do
  let rd := cRd c
  let nextPc := pc + 2
  let immediate := compressedSext (cImm6 c) 6
  match cFunct3 c with
  | 0b000#3 =>
    writeX rd ((← getX rd) + immediate)
    pure (.retired nextPc)
  | 0b001#3 =>
    if rd = 0#5 then illegal c
    else
      writeX rd (sextWord (lowWord (← getX rd) + lowWord immediate))
      pure (.retired nextPc)
  | 0b010#3 =>
    writeX rd immediate
    pure (.retired nextPc)
  | 0b011#3 =>
    if rd = 2#5 then
      let value := compressedSext (cAddi16spImm c) 10
      if value = 0#64 then illegal c
      else
        assignX 2#5 ((← getX 2#5) + value)
        pure (.retired nextPc)
    else if immediate = 0#64 then illegal c
    else
      writeX rd (immediate <<< 12)
      pure (.retired nextPc)
  | 0b100#3 =>
    t0Arith c
    pure (.retired nextPc)
  | 0b101#3 => pure (.retired (pc + compressedSext (cJImm c) 12))
  | 0b110#3 =>
    let taken : Bool := (← getX (cRs1Low c)) = 0#64
    pure (.retired (if taken then pc + compressedSext (cBImm c) 9 else nextPc))
  | 0b111#3 =>
    let taken : Bool := (← getX (cRs1Low c)) ≠ 0#64
    pure (.retired (if taken then pc + compressedSext (cBImm c) 9 else nextPc))

def t0JumpMove (pc : Word) : Exec β ScalarT0Step := do
  let rd := cRd c
  let rs2 := cRs2 c
  let nextPc := pc + 2
  if c.extractLsb' 12 1 = 0#1 then
    if rd = 0#5 then illegal c
    else if rs2 = 0#5 then pure (.retired ((← getX rd) &&& ~~~1#64))
    else
      writeX rd (← getX rs2)
      pure (.retired nextPc)
  else if rs2 = 0#5 then
    if rd = 0#5 then
      if ← inSystem then throw .breakpoint
      else pure (.stop nextPc .break)
    else
      let target := (← getX rd) &&& ~~~1#64
      assignX 1#5 nextPc
      pure (.retired target)
  else
    writeX rd ((← getX rd) + (← getX rs2))
    pure (.retired nextPc)

def t0Quadrant2 (pc : Word) : Exec β ScalarT0Step := do
  let rd := cRd c
  let rs2 := cRs2 c
  let nextPc := pc + 2
  match cFunct3 c with
  | 0b000#3 =>
    writeX rd ((← getX rd) <<< (cImm6 c).toNat)
    pure (.retired nextPc)
  | 0b001#3 | 0b101#3 => pure .slow
  | 0b010#3 =>
    if rd = 0#5 then illegal c
    else
      writeX rd (← ldSigned32 ((← getX 2#5) + (cLwspImm c).setWidth 64))
      pure (.retired nextPc)
  | 0b011#3 =>
    if rd = 0#5 then illegal c
    else
      writeX rd (← ld .dword ((← getX 2#5) + (cLdspImm c).setWidth 64))
      pure (.retired nextPc)
  | 0b100#3 => t0JumpMove c pc
  | 0b110#3 =>
    st .word ((← getX 2#5) + (cSwspImm c).setWidth 64) (← getX rs2)
    pure (.retired nextPc)
  | 0b111#3 =>
    st .dword ((← getX 2#5) + (cSdspImm c).setWidth 64) (← getX rs2)
    pure (.retired nextPc)

def scalarT0Compressed (instruction : CInsn) (pc : Word) : Exec β ScalarT0Step :=
  let c : Insn := instruction.setWidth 32
  if c = 0#32 then illegal c
  else
    match c.extractLsb' 0 2 with
    | 0#2 => t0Quadrant0 c pc
    | 1#2 => t0Quadrant1 c pc
    | 2#2 => t0Quadrant2 c pc
    | _ => illegal c

def scalarT0Full (units : Units β) (insn : Insn) (pc : Word) : Exec β ScalarT0Step := do
  let nextPc := pc + 4
  match opcode insn with
  | 0x37#7 =>
    writeX (rd insn) (immU insn)
    pure (.retired nextPc)
  | 0x17#7 =>
    writeX (rd insn) (pc + immU insn)
    pure (.retired nextPc)
  | 0x6f#7 =>
    writeX (rd insn) nextPc
    pure (.retired (pc + immJ insn))
  | 0x67#7 =>
    let target := ((← getX (rs1 insn)) + immI insn) &&& ~~~1#64
    writeX (rd insn) nextPc
    pure (.retired target)
  | 0x63#7 =>
    let a ← getX (rs1 insn)
    let b ← getX (rs2 insn)
    let taken ← orIllegal insn (branchTaken (funct3 insn) a b)
    pure (.retired (if taken then pc + immB insn else nextPc))
  | 0x03#7 =>
    let addr := (← getX (rs1 insn)) + immI insn
    let form ← orIllegal insn (loadForm (funct3 insn))
    let v ← ld form.1 addr
    writeX (rd insn) (loadExtend form.1 form.2 v)
    pure (.retired nextPc)
  | 0x23#7 =>
    let addr := (← getX (rs1 insn)) + immS insn
    let val ← getX (rs2 insn)
    let width ← orIllegal insn (storeForm (funct3 insn))
    st width addr val
    pure (.retired nextPc)
  | 0x13#7 =>
    writeX (rd insn) (opImm insn (← getX (rs1 insn)))
    pure (.retired nextPc)
  | 0x1b#7 =>
    let v ← orIllegal insn (opImm32 insn (lowWord (← getX (rs1 insn))))
    writeX (rd insn) (sextWord v)
    pure (.retired nextPc)
  | 0x33#7 =>
    let v ← orIllegal insn (op insn (← getX (rs1 insn)) (← getX (rs2 insn)))
    writeX (rd insn) v
    pure (.retired nextPc)
  | 0x3b#7 =>
    let v ← orIllegal insn
      (op32 insn (lowWord (← getX (rs1 insn))) (lowWord (← getX (rs2 insn))))
    writeX (rd insn) (sextWord v)
    pure (.retired nextPc)
  | 0x07#7 =>
    if isVectorWidth (funct3 insn) then
      units.vector.memory insn true
      pure (.retired nextPc)
    else pure .slow
  | 0x27#7 =>
    if isVectorWidth (funct3 insn) then
      units.vector.memory insn false
      pure (.retired nextPc)
    else pure .slow
  | 0x57#7 =>
    units.vector.arithmetic insn
    pure (.retired nextPc)
  | _ => pure .slow

/-- The inline execution of a fetched instruction. -/
def t0Body (units : Units β) (pc : Word) : Fetched → Exec β ScalarT0Step
  | .compressed instruction => scalarT0Compressed instruction pc
  | .full insn => scalarT0Full units insn pc

def scalarT0Step (units : Units β) (pc context : Word) : EStateM Exception (T0 β) ScalarT0Step := do
  let fetched ← scalarFetch pc context
  zoom T0.machine T0.withMachine (t0Body units pc fetched)

/-! ## The driver loop -/

structure Driver (β : Type) where
  sys : System β
  pc : Word
  retired : Word
  context : Word
  capability : FetchCapability

/-- `self.sys.as_ref().map_or(0, |sys| sys.mode as u64)` -/
def Hart.fetchContext (hart : Hart) : Word :=
  match hart.sys with
  | none => 0#64
  | some sys => sys.mode.bits

namespace Driver

def commitState (s : System β) (pc retired : Word) : System β :=
  { s with cpu := { s.cpu with pc := pc, insnCount := s.cpu.insnCount + retired } }

def publish (s : System β) (capability : FetchCapability) : System β :=
  { s with
    cpu := { s.cpu with
      fetch := { s.cpu.fetch with
        capability := capability
        capabilityMapGen := s.cpu.hart.mapGen } } }

def start (s : System β) : Driver β where
  sys := s
  pc := s.cpu.pc
  retired := 0#64
  context := s.cpu.hart.fetchContext
  capability :=
    if s.cpu.fetch.capabilityMapGen = s.cpu.hart.mapGen then s.cpu.fetch.capability
    else .invalid

def poll (d : Driver β) : Driver β :=
  let hart := d.sys.cpu.hart
  if hart.irqPollCd = 0#32 then
    let committed := commitState d.sys d.pc d.retired
    let checked := System.checkInterrupts
      { committed with
        cpu := { committed.cpu with hart := { hart with irqPollCd := IRQ_POLL_INTERVAL } } }
    { sys := checked.2
      pc := checked.2.cpu.pc
      retired := 0#64
      context := if checked.1 then checked.2.cpu.hart.fetchContext else d.context
      capability :=
        if checked.1 then { d.capability with tag := TLB_INVALID } else d.capability }
  else
    { d with
      sys := { d.sys with
        cpu := { d.sys.cpu with hart := { hart with irqPollCd := hart.irqPollCd - 1 } } } }

def resume (s : System β) (capability : FetchCapability) : Driver β where
  sys := s
  pc := s.cpu.pc
  retired := 0#64
  context := s.cpu.hart.fetchContext
  capability := { capability with tag := TLB_INVALID }

def view (d : Driver β) : T0 β where
  hart := d.sys.cpu.hart
  row := d.sys.cpu.fetch.row
  bus := d.sys.bus
  capability := d.capability

/-- The state `step` works on, given what the integrated decoder left behind. -/
def stateAfter (d : Driver β) (t : T0 β) : System β where
  cpu := { d.sys.cpu with hart := t.hart, fetch := { d.sys.cpu.fetch with row := t.row } }
  bus := t.bus

def raise (system : Bool) (s : System β) (capability : FetchCapability) (e : Exception) :
    (StopReason × System β) ⊕ Driver β :=
  if system then .inr (resume (s.trap e) capability) else .inl (.trap e, s)

def advance (units : Units β) (system : Bool) (d : Driver β) : (StopReason × System β) ⊕ Driver β :=
  match scalarT0Step units d.pc d.context d.view with
  | .ok (.retired nextPc) t =>
    .inr { d with
      sys := d.stateAfter t
      pc := nextPc
      retired := d.retired + 1
      capability := t.capability }
  | .ok (.stop nextPc reason) t =>
    .inl (reason, publish (commitState (d.stateAfter t) nextPc (d.retired + 1)) t.capability)
  | .ok .slow t =>
    match System.step units (commitState (d.stateAfter t) d.pc d.retired) with
    | .ok none s => .inr (resume s t.capability)
    | .ok (some reason) s => .inl (reason, s)
    | .error e s => raise system s t.capability e
  | .error e t => raise system (commitState (d.stateAfter t) d.pc d.retired) t.capability e

def round (units : Units β) (system : Bool) (d : Driver β) : (StopReason × System β) ⊕ Driver β :=
  advance units system (if system then d.poll else d)

end Driver

def System.runIntegratedScalar (units : Units β) (budget : Nat) (s : System β) :
    StopReason × System β :=
  match Loop.iterate (Driver.round units s.cpu.hart.sys.isSome) budget (Driver.start s) with
  | .inl stopped => stopped
  | .inr d => (.budget, Driver.publish (Driver.commitState d.sys d.pc d.retired) d.capability)

end Rv64Js.Core
