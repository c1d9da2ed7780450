import Rv64Js.Core.Bus

/-! # Hart state

The fields of `Cpu` (`cpu.rs`). `Hart` is what the body of an instruction may read and write; the
integrated scalar driver keeps pc and retirement count in locals; `FetchCache` is read by
instruction fetch only. -/

set_option autoImplicit false

namespace Rv64Js.Core

inductive StopReason where
  | budget
  | ecall
  | break
  | trap (exception : Exception)
  | wfi
deriving DecidableEq, Repr

inductive Access where
  | fetch
  | load
  | store
deriving DecidableEq, Repr

def TLB_INVALID : Word := ~~~0#64
def TLB_CTX_SUM : Word := 1#64 <<< 2
def TLB_CTX_MXR : Word := 1#64 <<< 3
def IRQ_POLL_INTERVAL : BitVec 32 := 32#32

/-- Direct-mapped translation row: tags, and beside each tag the `pa - va`
difference (the linear offset, in a fused row). -/
structure Row where
  tag : BitVec 12 → Word
  val : BitVec 12 → Word

namespace Row

def empty : Row where
  tag := fun _ => TLB_INVALID
  val := fun _ => 0#64

def invalidate (row : Row) : Row := { row with tag := fun _ => TLB_INVALID }

def fill (row : Row) (index : BitVec 12) (tag val : Word) : Row where
  tag := fun i => if i = index then tag else row.tag i
  val := fun i => if i = index then val else row.val i

def dropPage (row : Row) (index : BitVec 12) (page : Word) : Row :=
  { row with
    tag := fun i => if i = index ∧ pageOf (row.tag i) = page then TLB_INVALID else row.tag i }

end Row

structure VectorState where
  regs : Reg → BitVec 4 → BitVec 8
  vl : Word
  vtype : Word
  vstart : Word
  vxrm : BitVec 8
  vxsat : Bool

def VLEN_BITS : Nat := 128
def VLEN_BYTES : Nat := 16

/-- State recorded at the last supervisor timer trap taken from user mode
(`last_timer_trap`, in the order of that array). -/
structure TimerTrap where
  pc : Word
  tp : Word
  sscratch : Word
  mstatus : Word
  satp : Word
  mode : Word
  rdtime : Word
  insnCount : Word
  timeScale : Word
  timeOffset : Word
  minDelta : Word
  maxDelta : Word
  backwards : Word

structure Hart where
  x : Reg → Word
  f : Reg → Word
  fcsr : BitVec 32
  vector : VectorState
  reservation : Option Word
  sys : Option SysCsrs
  hostSbi : Bool
  syscallLog : BitVec 6 → Word × Word
  syscallLogPos : BitVec 6
  excCounts : BitVec 4 → Word
  irqCounts : BitVec 4 → Word
  lastTimerTrap : TimerTrap
  jitFlushGen : Word
  irqPollCd : BitVec 32
  mapGen : Word
  tlbFlushes : Word
  storeJtlbClears : Word
  sfenceAll : Word
  sfencePage : Word
  sfenceForeignAsid : Word
  loadTlb : Row
  storeTlb : Row
  jitTlbContext : Word
  fusedLoad : Row
  fusedStore : Row
  jtlbHashed : Bool
  interpreterFusedMemory : Bool
  retainTlbOnPrivilegeChange : Bool

/-- One permission-proved executable page (`ScalarFetchCapability`). -/
structure FetchCapability where
  tag : Word
  paDiff : Word
  linearOff : Word

def FetchCapability.invalid : FetchCapability where
  tag := TLB_INVALID
  paDiff := 0#64
  linearOff := 0#64

/-- Fetch row and stored capability (`interpreter_fetch_*`). -/
structure FetchCache where
  row : Row
  capability : FetchCapability
  capabilityMapGen : Word

/-- What the rest of the CPU may do to the fetch cache. -/
inductive FetchOp where
  | keep
  /-- `flush_tlb` -/
  | flush
  /-- a page-scoped `sfence_vma`; the stored capability dies with `map_gen` -/
  | flushPage (va : Word)

structure Cpu where
  hart : Hart
  pc : Word
  insnCount : Word
  fetch : FetchCache

structure Machine (β : Type) where
  hart : Hart
  bus : β

structure System (β : Type) where
  cpu : Cpu
  bus : β

abbrev Exec (β : Type) := EStateM Exception (Machine β)

namespace Hart

def wr (hart : Hart) (rd : Reg) (val : Word) : Hart :=
  { hart with x := fun r => if r = rd ∧ rd ≠ 0#5 then val else hart.x r }

def setX (hart : Hart) (rd : Reg) (val : Word) : Hart :=
  { hart with x := fun r => if r = rd then val else hart.x r }

def setF (hart : Hart) (rd : Reg) (val : Word) : Hart :=
  { hart with f := fun r => if r = rd then val else hart.f r }

def mode? (hart : Hart) : Option Mode := hart.sys.map SysCsrs.mode

def timeBase? (hart : Hart) : Option TimeBase := hart.sys.map SysCsrs.timeBase

def modifySys (hart : Hart) (update : SysCsrs → SysCsrs) : Hart :=
  { hart with sys := hart.sys.map update }

def new : Hart where
  x := fun _ => 0
  f := fun _ => 0
  fcsr := 0
  vector :=
    { regs := fun _ _ => 0, vl := 0, vtype := 1#64 <<< 63, vstart := 0, vxrm := 0, vxsat := false }
  reservation := none
  sys := none
  hostSbi := false
  syscallLog := fun _ => (~~~0#64, 0)
  syscallLogPos := 0
  excCounts := fun _ => 0
  irqCounts := fun _ => 0
  lastTimerTrap := ⟨0, 0, 0, 0, 0, 0, 0, 0, 0, 0, 0, 0, 0⟩
  jitFlushGen := 0
  irqPollCd := 0
  mapGen := 0
  tlbFlushes := 0
  storeJtlbClears := 0
  sfenceAll := 0
  sfencePage := 0
  sfenceForeignAsid := 0
  loadTlb := Row.empty
  storeTlb := Row.empty
  jitTlbContext := 0
  fusedLoad := Row.empty
  fusedStore := Row.empty
  jtlbHashed := false
  interpreterFusedMemory := false
  retainTlbOnPrivilegeChange := true

end Hart

def FetchCache.new : FetchCache where
  row := Row.empty
  capability := FetchCapability.invalid
  capabilityMapGen := 0

def Cpu.new : Cpu where
  hart := Hart.new
  pc := 0
  insnCount := 0
  fetch := FetchCache.new

def Cpu.enableSystem (cpu : Cpu) (hartid : Word) : Cpu :=
  { cpu with
    hart := { cpu.hart with sys := some { SysCsrs.new with mhartid := hartid } }
    fetch := { cpu.fetch with
      capability := { cpu.fetch.capability with tag := TLB_INVALID } } }

end Rv64Js.Core
