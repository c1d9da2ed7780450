import Rv64Js.Core.Decode

/-! # Privileged state and exceptions

Privilege modes, the `mstatus` layout, the CSR file of full-system mode
(`csr.rs`) and the exception causes (`exception.rs`). -/

set_option autoImplicit false

namespace Rv64Js.Core

inductive Mode where
  | user
  | supervisor
  | machine
deriving DecidableEq, Repr

namespace Mode

def bits : Mode → Word
  | user => 0#64
  | supervisor => 1#64
  | machine => 3#64

def fromBits (b : Word) : Mode :=
  match b.extractLsb' 0 2 with
  | 0#2 => user
  | 1#2 => supervisor
  | _ => machine

end Mode

inductive Exception where
  | instructionAddressMisaligned (addr : Word)
  | instructionAccessFault (addr : Word)
  | illegalInstruction (insn : Insn)
  | breakpoint
  | loadAddressMisaligned (addr : Word)
  | loadAccessFault (addr : Word)
  | storeAddressMisaligned (addr : Word)
  | storeAccessFault (addr : Word)
  | environmentCallFromUMode
  | environmentCallFromSMode
  | environmentCallFromMMode
  | instructionPageFault (addr : Word)
  | loadPageFault (addr : Word)
  | storePageFault (addr : Word)
deriving DecidableEq, Repr

/-! ## `mstatus` bits and interrupt bits -/

def MSTATUS_SIE : Word := 1#64 <<< 1
def MSTATUS_MIE : Word := 1#64 <<< 3
def MSTATUS_SPIE : Word := 1#64 <<< 5
def MSTATUS_MPIE : Word := 1#64 <<< 7
def MSTATUS_SPP : Word := 1#64 <<< 8
def MSTATUS_VS : Word := 3#64 <<< 9
def MSTATUS_MPP : Word := 3#64 <<< 11
def MSTATUS_FS : Word := 3#64 <<< 13
def MSTATUS_MPRV : Word := 1#64 <<< 17
def MSTATUS_SUM : Word := 1#64 <<< 18
def MSTATUS_MXR : Word := 1#64 <<< 19
def MSTATUS_TVM : Word := 1#64 <<< 20
def MSTATUS_TW : Word := 1#64 <<< 21
def MSTATUS_TSR : Word := 1#64 <<< 22
def MSTATUS_UXL : Word := 3#64 <<< 32
def MSTATUS_SXL : Word := 3#64 <<< 34
def MSTATUS_SD : Word := 1#64 <<< 63

def SSTATUS_MASK : Word :=
  MSTATUS_SIE ||| MSTATUS_SPIE ||| MSTATUS_SPP ||| MSTATUS_VS ||| MSTATUS_FS |||
    MSTATUS_SUM ||| MSTATUS_MXR ||| MSTATUS_UXL ||| MSTATUS_SD

def IRQ_SSIP : Word := 1#64 <<< 1
def IRQ_MSIP : Word := 1#64 <<< 3
def IRQ_STIP : Word := 1#64 <<< 5
def IRQ_MTIP : Word := 1#64 <<< 7
def IRQ_SEIP : Word := 1#64 <<< 9
def IRQ_MEIP : Word := 1#64 <<< 11

def MISA_VALUE : Word :=
  (2#64 <<< 62) ||| (1#64 <<< 0) ||| (1#64 <<< 2) ||| (1#64 <<< 3) ||| (1#64 <<< 5) |||
    (1#64 <<< 8) ||| (1#64 <<< 12) ||| (1#64 <<< 18) ||| (1#64 <<< 20) ||| (1#64 <<< 21)

structure SysCsrs where
  mode : Mode
  mstatus : Word
  medeleg : Word
  mideleg : Word
  mie : Word
  mip : Word
  mtvec : Word
  mcounteren : Word
  mscratch : Word
  mepc : Word
  mcause : Word
  mtval : Word
  stvec : Word
  scounteren : Word
  sscratch : Word
  sepc : Word
  scause : Word
  stval : Word
  satp : Word
  mhartid : Word
  mtime : Word
  timeScale : Word
  timeOffset : Word
  pmpcfg : BitVec 3 → Word
  pmpaddr : BitVec 6 → Word
  minstretOff : Word

/-- What the guest's clock is read from, apart from the retired instructions. -/
structure TimeBase where
  mtime : Word
  timeScale : Word
  timeOffset : Word

namespace SysCsrs

def new : SysCsrs where
  mode := .machine
  mstatus := (MSTATUS_UXL &&& (2#64 <<< 32)) ||| (MSTATUS_SXL &&& (2#64 <<< 34))
  medeleg := 0
  mideleg := 0
  mie := 0
  mip := 0
  mtvec := 0
  mcounteren := 0
  mscratch := 0
  mepc := 0
  mcause := 0
  mtval := 0
  stvec := 0
  scounteren := 0
  sscratch := 0
  sepc := 0
  scause := 0
  stval := 0
  satp := 0
  mhartid := 0
  mtime := 0
  timeScale := 0
  timeOffset := 0
  pmpcfg := fun _ => 0
  pmpaddr := fun _ => 0
  minstretOff := 0

/-- `rdtime`: derived from the instruction count when a scale is set
(`checked_div`), the `mtime` mirror otherwise. -/
def rdtime (sys : SysCsrs) (insnCount : Word) : Word :=
  if sys.timeScale = 0#64 then sys.mtime else insnCount / sys.timeScale + sys.timeOffset

def timeBase (sys : SysCsrs) : TimeBase where
  mtime := sys.mtime
  timeScale := sys.timeScale
  timeOffset := sys.timeOffset

end SysCsrs

end Rv64Js.Core
