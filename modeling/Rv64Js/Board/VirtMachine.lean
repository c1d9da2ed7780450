import Rv64Js.Board.SystemBus
import Rv64Js.Core.Run
import Rv64Js.Lib.Events

/-! # The virt board and its clocks

`VirtMachine` (`virt.rs`): the CLINT and the sifive test device, the guest clock that `sync_devices`
derives from retired instructions, idle ticks or host time, the SBI calls the board answers itself,
and `run_slice`. The other devices are the `Peripherals` parameter. -/

set_option autoImplicit false

namespace Rv64Js.Board

open Rv64Js.Core

def TEST_BASE : Word := 0x00100000#64
def CLINT_BASE : Word := 0x02000000#64
def CLINT_SIZE : Word := 0x10000#64
def UART_BASE : Word := 0x10000000#64
def KERNEL_OFFSET : Word := 0x200000#64

def RTC_FREQ : Nat := 10000000

def U64_MAX : Word := ~~~0#64

/-! ## Devices -/

structure VirtDevices (δ : Type) where
  mtime : Word
  mtimecmp : Word
  msip : Bool
  powerOff : Bool
  directSbi : Bool
  rest : δ

def windowOff (base size addr : Word) : Option Word :=
  if base ≤ addr ∧ addr < base + size then some (addr - base) else none

namespace VirtDevices

variable {δ : Type} [Peripherals δ]

omit [Peripherals δ] in
def clintRead (devices : VirtDevices δ) (off : Word) : Word :=
  if off = 0x0#64 then boolWord devices.msip
  else if off = 0x4000#64 then devices.mtimecmp
  else if off = 0xbff8#64 then devices.mtime
  else 0#64

omit [Peripherals δ] in
/-- The guest sets the software interrupt and the comparator; `mtime` is read-only. -/
def clintWrite (devices : VirtDevices δ) (off val : Word) : VirtDevices δ :=
  if off = 0x0#64 then { devices with msip := val &&& 1#64 ≠ 0#64 }
  else if off = 0x4000#64 then { devices with mtimecmp := val }
  else devices

omit [Peripherals δ] in
def testWrite (devices : VirtDevices δ) (val : Word) : VirtDevices δ :=
  let v := val &&& 0xffff#64
  if v = 0x5555#64 ∨ v = 0x7777#64 ∨ v = 0x3333#64 then { devices with powerOff := true }
  else devices

def mmioRead (width : Width) (addr : Word) (devices : VirtDevices δ) :
    Option (BitVec width.bits) × VirtDevices δ :=
  match windowOff TEST_BASE 0x1000#64 addr, windowOff CLINT_BASE CLINT_SIZE addr with
  | some _, _ => (some 0, devices)
  | none, some off => (some ((devices.clintRead off).setWidth width.bits), devices)
  | none, none =>
    let read := Peripherals.read width addr devices.rest
    (read.1, { devices with rest := read.2 })

def mmioWrite (width : Width) (addr : Word) (val : BitVec width.bits) (devices : VirtDevices δ)
    (ram : Ram) : Bool × VirtDevices δ × Ram :=
  match windowOff TEST_BASE 0x1000#64 addr, windowOff CLINT_BASE CLINT_SIZE addr with
  | some _, _ => (true, devices.testWrite (val.setWidth 64), ram)
  | none, some off => (true, devices.clintWrite off (val.setWidth 64), ram)
  | none, none =>
    let written := Peripherals.write width addr val devices.rest ram
    (written.1, { devices with rest := written.2.1 }, written.2.2)

/-- The timer line is the board's only while no firmware call replaces it. -/
def irqLines (devices : VirtDevices δ) : Word × VirtDevices δ :=
  let lines := Peripherals.irqLines devices.rest
  let timer := if !devices.directSbi ∧ devices.mtimecmp ≤ devices.mtime then IRQ_MTIP else 0#64
  let software := if devices.msip then IRQ_MSIP else 0#64
  (timer ||| software ||| lines.1, { devices with rest := lines.2 })

/-- RAM wins over every register. -/
instance : Peripherals (VirtDevices δ) where
  claims _ _ := false
  read := mmioRead
  write := mmioWrite
  irqLines := irqLines

end VirtDevices

/-! ## The machine -/

structure VirtMachine (layout : Layout) (δ : Type) where
  cpu : Cpu
  bus : SystemBus layout (VirtDevices δ)
  insnsPerTick : Word
  /-- timer ticks the hart spent halted in WFI -/
  idleTicks : Word
  /-- host ticks since boot, once the host has reported any -/
  realtimeTicks : Option Word
  powerOff : Bool
  unsupportedSbi : Option (Word × Word)

def wordMax (a b : Word) : Word := if a ≤ b then b else a

def saturatingAdd (a b : Word) : Word :=
  if a.toNat + b.toNat < 2 ^ 64 then a + b else U64_MAX

def saturatingSub (a b : Word) : Word := if b ≤ a then a - b else 0#64

def setStip (sys : SysCsrs) (mtime mtimecmp : Word) : SysCsrs :=
  { sys with mip := if mtimecmp ≤ mtime then sys.mip ||| IRQ_STIP else sys.mip &&& ~~~IRQ_STIP }

namespace VirtMachine

variable {layout : Layout} {δ : Type} (m : VirtMachine layout δ)

def system : System (SystemBus layout (VirtDevices δ)) where
  cpu := m.cpu
  bus := m.bus

def withSystem (s : System (SystemBus layout (VirtDevices δ))) : VirtMachine layout δ :=
  { m with cpu := s.cpu, bus := s.bus }

def mtime : Word := m.bus.devices.mtime

def mtimecmp : Word := m.bus.devices.mtimecmp

/-- The CSRs of a boot without firmware: supervisor mode, what firmware would delegate. -/
def directSys (sys : SysCsrs) : SysCsrs :=
  { sys with
    mode := .supervisor
    medeleg := 0xb109#64 ||| (1#64 <<< 2)
    mideleg := IRQ_SSIP ||| IRQ_STIP ||| IRQ_SEIP
    mcounteren := 0x7#64
    satp := 0#64 }

def new (ram : Ram) (rest : δ) (directSbi : Bool) (dtbAddr dynAddr : Word) : VirtMachine layout δ :=
  let cpu := Cpu.new.enableSystem 0#64
  let hart := ((cpu.hart.setX 10#5 0#64).setX 11#5 dtbAddr).setX 12#5 dynAddr
  { cpu :=
      { cpu with
        pc := if directSbi then RAM_BASE + KERNEL_OFFSET else RAM_BASE
        hart :=
          if directSbi then { hart.modifySys directSys with hostSbi := true } else hart }
    bus :=
      { ram := ram
        jitPages := fun _ => false
        jitDirtyPages := []
        devices :=
          { mtime := 0#64, mtimecmp := U64_MAX, msip := false, powerOff := false,
            directSbi := directSbi, rest := rest } }
    insnsPerTick := 100#64
    idleTicks := 0#64
    realtimeTicks := none
    powerOff := false
    unsupportedSbi := none }

def withRate (insnsPerTick : Word) : VirtMachine layout δ :=
  { m with insnsPerTick := insnsPerTick }

/-! ## Time -/

/-- The host reports elapsed time; the first report turns the board to real time. -/
def advanceRealtimeNs (ns : Word) : VirtMachine layout δ :=
  let ticks : Word := BitVec.ofNat 64 (ns.toNat * RTC_FREQ / 1000000000)
  { m with realtimeTicks := some (saturatingAdd (m.realtimeTicks.getD 0#64) ticks) }

def retiredTicks : Word := m.cpu.insnCount / m.insnsPerTick

def nextMtime : Word :=
  match m.realtimeTicks with
  | some wall => wordMax m.mtime wall
  | none => m.retiredTicks + m.idleTicks

def syncSys (mtime : Word) (sys : SysCsrs) : SysCsrs :=
  let offset := saturatingSub mtime m.retiredTicks
  let sys := if m.bus.devices.directSbi then setStip sys mtime m.mtimecmp else sys
  { sys with
    mtime := mtime
    timeScale := m.insnsPerTick
    timeOffset := if m.realtimeTicks.isSome then wordMax sys.timeOffset offset else offset }

def syncDevices : VirtMachine layout δ :=
  { m with
    bus := { m.bus with devices := { m.bus.devices with mtime := m.nextMtime } }
    cpu := { m.cpu with hart := m.cpu.hart.modifySys (m.syncSys m.nextMtime) } }

def awaitsTimer : Bool :=
  m.realtimeTicks.isNone && m.mtimecmp ≠ U64_MAX && decide (m.mtime < m.mtimecmp)

/-- Halted in WFI: instruction-counted time jumps to the next timer deadline. -/
def fastForward : VirtMachine layout δ :=
  if m.awaitsTimer then { m with idleTicks := m.idleTicks + (m.mtimecmp - m.mtime) } else m

/-! ## SBI calls -/

namespace Sbi

def NOT_SUPPORTED : Word := -2#64
def INVALID_PARAM : Word := -3#64
def ALREADY_STARTED : Word := -7#64
def BASE : Word := 0x10#64
def TIME : Word := 0x54494d45#64
def IPI : Word := 0x00735049#64
def RFENCE : Word := 0x52464e43#64
def HSM : Word := 0x48534d#64
def SRST : Word := 0x53525354#64

inductive Effect where
  | none
  | setTimer (deadline : Word)
  | putChar (byte : BitVec 8)
  | powerOff
  | unsupported

/-- Error, value and effect of a call. -/
structure Reply where
  error : Word
  value : Word
  effect : Effect

def Reply.ofValue (value : Word) : Reply := { error := 0#64, value := value, effect := .none }

def Reply.ofError (error : Word) : Reply := { error := error, value := 0#64, effect := .none }

def Reply.ofEffect (effect : Effect) : Reply := { error := 0#64, value := 0#64, effect := effect }

def base (function arg0 : Word) : Option Reply :=
  if function = 0#64 then some (.ofValue (2#64 <<< 24))
  else if function = 1#64 then some (.ofValue 0x52563634#64)
  else if function = 2#64 then some (.ofValue 1#64)
  else if function = 3#64 then
    some
      (.ofValue
        (boolWord (arg0 = BASE ∨ arg0 = TIME ∨ arg0 = IPI ∨ arg0 = RFENCE ∨ arg0 = HSM ∨
          arg0 = SRST)))
  else if function = 4#64 ∨ function = 5#64 then some (.ofValue 0#64)
  else if function = 6#64 then some (.ofValue 1#64)
  else none

def hsm (function arg0 : Word) : Option Reply :=
  if function = 0#64 then some (.ofError ALREADY_STARTED)
  else if function = 1#64 then some (.ofError INVALID_PARAM)
  else if function = 2#64 then
    some (if arg0 = 0#64 then .ofValue 0#64 else .ofError INVALID_PARAM)
  else if function = 3#64 then some (.ofError NOT_SUPPORTED)
  else none

def legacy (ext arg0 : Word) : Option Reply :=
  if ext = 0#64 then some (.ofEffect (.setTimer arg0))
  else if ext = 1#64 then some (.ofEffect (.putChar (arg0.setWidth 8)))
  else if ext = 2#64 then some (.ofValue U64_MAX)
  else if 3#64 ≤ ext ∧ ext ≤ 7#64 then some (.ofValue 0#64)
  else if ext = 8#64 then some (.ofEffect .powerOff)
  else none

def reply (ext function arg0 arg1 : Word) : Reply :=
  let known :=
    if ext = BASE then base function arg0
    else if ext = TIME then
      if function = 0#64 then some (.ofEffect (.setTimer arg0)) else none
    else if ext = IPI then
      if function = 0#64 then
        some (if arg1 ≠ 0#64 ∧ arg1 ≠ U64_MAX then .ofError INVALID_PARAM else .ofValue 0#64)
      else none
    else if ext = RFENCE then if function ≤ 6#64 then some (.ofValue 0#64) else none
    else if ext = HSM then hsm function arg0
    else if ext = SRST then
      if function = 0#64 then
        some (if arg0 ≤ 2#64 then .ofEffect .powerOff else .ofError INVALID_PARAM)
      else none
    else legacy ext arg0
  known.getD { error := NOT_SUPPORTED, value := 0#64, effect := .unsupported }

end Sbi

/-- The timer call moves the comparator and the pending bit with it. -/
def setTimer (deadline : Word) : VirtMachine layout δ :=
  { m with
    bus := { m.bus with devices := { m.bus.devices with mtimecmp := deadline } }
    cpu := { m.cpu with hart := m.cpu.hart.modifySys (setStip · m.mtime deadline) } }

variable [Peripherals δ]

def sbiEffect (ext function : Word) : Sbi.Effect → VirtMachine layout δ
  | .none => m
  | .setTimer deadline => m.setTimer deadline
  | .putChar byte =>
    let written := Peripherals.write .byte UART_BASE byte m.bus.devices.rest m.bus.ram
    { m with
      bus := { m.bus with
        devices := { m.bus.devices with rest := written.2.1 }
        ram := written.2.2 } }
  | .powerOff =>
    { m with
      bus := { m.bus with devices := { m.bus.devices with powerOff := true } }
      powerOff := true }
  | .unsupported => { m with unsupportedSbi := some (ext, function) }

def serviceSbi : VirtMachine layout δ :=
  let ext := m.cpu.hart.x 17#5
  let function := m.cpu.hart.x 16#5
  let reply := Sbi.reply ext function (m.cpu.hart.x 10#5) (m.cpu.hart.x 11#5)
  let m := m.sbiEffect ext function reply.effect
  { m with
    cpu := { m.cpu with
      hart := (m.cpu.hart.setX 10#5 reply.error).setX 11#5 reply.value } }

/-! ## Slices -/

/-- The devices take work of their own, DMA included: `poll_virtio`, host input. -/
def feed (rest : δ) (ram : Ram) : VirtMachine layout δ :=
  { m with bus := { m.bus with devices := { m.bus.devices with rest := rest }, ram := ram } }

structure Slice (layout : Layout) (δ : Type) where
  machine : VirtMachine layout δ
  remaining : Word
  stop : StopReason

/-- One turn of the loop: run, and answer the call the CPU stopped for. -/
def sliceRound (units : Units (SystemBus layout (VirtDevices δ))) (slice : Slice layout δ) :
    Slice layout δ ⊕ Slice layout δ :=
  let m := slice.machine
  if slice.remaining = 0#64 ∨ m.powerOff then .inl slice
  else
    let ran := m.system.run units slice.remaining.toNat
    let after := m.withSystem ran.2
    let left := saturatingSub slice.remaining (ran.2.cpu.insnCount - m.cpu.insnCount)
    let slice := { machine := after, remaining := left, stop := ran.1 : Slice layout δ }
    if ran.1 = .ecall ∧ after.bus.devices.directSbi then
      let served := after.serviceSbi
      if served.unsupportedSbi.isSome then
        .inl { slice with machine := { served with powerOff := true } }
      else .inr { slice with machine := served }
    else .inl slice

/-- The loop of a slice; a call the board answers retires the ECALL, so it turns at most once per
instruction. -/
def sliceLoop (units : Units (SystemBus layout (VirtDevices δ))) (m : VirtMachine layout δ)
    (maxInsns : Word) : Slice layout δ :=
  Sum.elim id id (Loop.iterate (sliceRound units) (maxInsns.toNat + 1)
    { machine := m, remaining := maxInsns, stop := .budget })

omit [Peripherals δ] in
def Slice.halt (slice : Slice layout δ) : VirtMachine layout δ :=
  if slice.stop = .wfi then slice.machine.fastForward else slice.machine

def runSlice (units : Units (SystemBus layout (VirtDevices δ))) (poll : δ → Ram → δ × Ram)
    (m : VirtMachine layout δ) (maxInsns : Word) : VirtMachine layout δ :=
  let polled := poll m.bus.devices.rest m.bus.ram
  let m := ((m.feed polled.1 polled.2).syncDevices.sliceLoop units maxInsns).halt.syncDevices
  { m with powerOff := m.bus.devices.powerOff }

end VirtMachine

end Rv64Js.Board
