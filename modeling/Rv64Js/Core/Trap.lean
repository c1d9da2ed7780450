import Rv64Js.Core.Mmu

/-! # Traps and interrupts

`take_trap`, `exception_to_trap` and `check_interrupts` of `cpu.rs`; handler address and fetch-cache
invalidation are returned. -/

set_option autoImplicit false

namespace Rv64Js.Core

structure Redirect where
  hart : Hart
  pc : Word
  fetch : FetchOp

namespace Hart

def recordTimerTrap (hart : Hart) (sys : SysCsrs) (pc insnCount : Word) : Hart :=
  let last := hart.lastTimerTrap
  let rdtime := sys.rdtime insnCount
  let prior := last.rdtime
  let delta := if prior ≤ rdtime then rdtime - prior else 0#64
  { hart with
    lastTimerTrap :=
      { pc := pc
        tp := hart.x 4#5
        sscratch := sys.sscratch
        mstatus := sys.mstatus
        satp := sys.satp
        mode := sys.mode.bits
        rdtime := rdtime
        insnCount := insnCount
        timeScale := sys.timeScale
        timeOffset := sys.timeOffset
        minDelta :=
          if prior = 0#64 then 0#64
          else if last.minDelta = 0#64 then delta
          else if last.minDelta ≤ delta then last.minDelta else delta
        maxDelta := if delta ≤ last.maxDelta then last.maxDelta else delta
        backwards := last.backwards + boolWord (prior ≠ 0#64 && decide (rdtime < prior)) } }

/-- Counters and logs a trap updates before it changes privileged state. -/
def recordTrap (hart : Hart) (sys : SysCsrs) (pc insnCount cause : Word) (isInterrupt : Bool) :
    Hart :=
  let hart := { hart with irqPollCd := 0#32, reservation := none }
  let hart :=
    if !isInterrupt && cause == 8#64 then
      { hart with
        syscallLog := fun i =>
          if i = hart.syscallLogPos then (hart.x 17#5, sys.satp) else hart.syscallLog i
        syscallLogPos := hart.syscallLogPos + 1 }
    else hart
  let slot : BitVec 4 := cause.setWidth 4
  let hart :=
    if isInterrupt then
      { hart with irqCounts := fun i =>
        if i = slot then hart.irqCounts i + 1 else hart.irqCounts i }
    else
      { hart with excCounts := fun i =>
        if i = slot then hart.excCounts i + 1 else hart.excCounts i }
  if isInterrupt && cause == 5#64 && sys.mode = .user then hart.recordTimerTrap sys pc insnCount
  else hart

end Hart

/-- Handler address: vectored only for interrupts. -/
def trapVector (tvec cause : Word) (isInterrupt : Bool) : Word :=
  let base := tvec &&& ~~~3#64
  if tvec &&& 3#64 = 1#64 ∧ isInterrupt then base + 4#64 * cause else base

def SysCsrs.trapToS (sys : SysCsrs) (pc causeVal tval : Word) : SysCsrs :=
  let sie := (sys.mstatus >>> 1) &&& 1#64
  { sys with
    scause := causeVal
    stval := tval
    sepc := pc
    mstatus :=
      (sys.mstatus &&& ~~~(MSTATUS_SPIE ||| MSTATUS_SPP ||| MSTATUS_SIE)) ||| (sie <<< 5) |||
        (if sys.mode = .supervisor then MSTATUS_SPP else 0#64)
    mode := .supervisor }

def SysCsrs.trapToM (sys : SysCsrs) (pc causeVal tval : Word) : SysCsrs :=
  let mie := (sys.mstatus >>> 3) &&& 1#64
  { sys with
    mcause := causeVal
    mtval := tval
    mepc := pc
    mstatus :=
      (sys.mstatus &&& ~~~(MSTATUS_MPIE ||| MSTATUS_MPP ||| MSTATUS_MIE)) ||| (mie <<< 7) |||
        (sys.mode.bits <<< 11)
    mode := .machine }

/-- Enter the trap handler.  Without privileged state (`unwrap` on `None`) there
is no handler; no caller gets there. -/
def takeTrap (hart : Hart) (pc insnCount cause tval : Word) (isInterrupt : Bool) : Redirect :=
  match hart.sys with
  | none => { hart := hart, pc := pc, fetch := .keep }
  | some sys =>
    let hart := hart.recordTrap sys pc insnCount cause isInterrupt
    let deleg := if isInterrupt then sys.mideleg else sys.medeleg
    let bit := 1#64 <<< (cause &&& 63#64).toNat
    let toS : Bool := sys.mode ≠ .machine ∧ deleg &&& bit ≠ 0#64
    let causeVal := if isInterrupt then (1#64 <<< 63) ||| cause else cause
    let sys' := if toS then sys.trapToS pc causeVal tval else sys.trapToM pc causeVal tval
    let handler :=
      if toS then trapVector sys.stvec cause isInterrupt else trapVector sys.mtvec cause isInterrupt
    let changed := Hart.privilegeChanged { hart with sys := some sys' }
    { hart := changed.1, pc := handler, fetch := changed.2 }

/-- Cause and trap value of an exception; the trap value of a breakpoint is the pc. -/
def Exception.trapValue (pc : Word) : Exception → Word × Word
  | .instructionAddressMisaligned addr => (0#64, addr)
  | .instructionAccessFault addr => (1#64, addr)
  | .illegalInstruction insn => (2#64, insn.setWidth 64)
  | .breakpoint => (3#64, pc)
  | .loadAddressMisaligned addr => (4#64, addr)
  | .loadAccessFault addr => (5#64, addr)
  | .storeAddressMisaligned addr => (6#64, addr)
  | .storeAccessFault addr => (7#64, addr)
  | .environmentCallFromUMode => (8#64, 0#64)
  | .environmentCallFromSMode => (9#64, 0#64)
  | .environmentCallFromMMode => (11#64, 0#64)
  | .instructionPageFault addr => (12#64, addr)
  | .loadPageFault addr => (13#64, addr)
  | .storePageFault addr => (15#64, addr)

def exceptionToTrap (hart : Hart) (pc insnCount : Word) (e : Exception) : Redirect :=
  takeTrap hart pc insnCount (e.trapValue pc).1 (e.trapValue pc).2 false

def IRQ_HW : Word := IRQ_MTIP ||| IRQ_MSIP ||| IRQ_MEIP ||| IRQ_SEIP

/-- Whether a pending interrupt is delivered in the current mode. -/
def SysCsrs.deliverable (sys : SysCsrs) (irq : Word) : Bool :=
  let bit := 1#64 <<< irq.toNat
  let mEnabled : Bool := sys.mode ≠ .machine ∨ sys.mstatus &&& MSTATUS_MIE ≠ 0#64
  let sEnabled : Bool :=
    sys.mode = .user ∨ (sys.mode = .supervisor ∧ sys.mstatus &&& MSTATUS_SIE ≠ 0#64)
  if sys.mip &&& sys.mie &&& bit = 0#64 then false
  else if sys.mideleg &&& bit ≠ 0#64 then
    sys.mode = .user || (sys.mode = .supervisor && sEnabled)
  else sys.mode ≠ .machine || mEnabled

/-- Interrupt numbers in priority order: MEI, MSI, MTI, SEI, SSI, STI. -/
def irqPriority : List Word := [11#64, 3#64, 7#64, 9#64, 1#64, 5#64]

/-- Sample the lines and take the highest-priority deliverable interrupt, if any. -/
def checkInterrupts {β : Type} [Bus β] (hart : Hart) (pc insnCount : Word) (bus : β) :
    Option Redirect × Hart × β :=
  match hart.sys with
  | none => (none, hart, bus)
  | some sys =>
    let lines := Bus.irqLines bus
    let sys := { sys with mip := (sys.mip &&& ~~~IRQ_HW) ||| (lines.1 &&& IRQ_HW) }
    let hart := { hart with sys := some sys }
    if sys.mip &&& sys.mie = 0#64 then (none, hart, lines.2)
    else
      match irqPriority.find? sys.deliverable with
      | none => (none, hart, lines.2)
      | some irq => (some (takeTrap hart pc insnCount irq 0#64 true), hart, lines.2)

end Rv64Js.Core
