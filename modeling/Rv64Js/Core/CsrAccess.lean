import Rv64Js.Core.Trap

/-! # CSR reads and writes

`csr_read` and `csr_write` of `cpu.rs`.  The retired instruction count is a
parameter: counters read it, and it is never written here. -/

set_option autoImplicit false

namespace Rv64Js.Core

abbrev CsrAddr := BitVec 12

/-- The CSRs `csr_read` and `csr_write` know. `pmpcfg` exists at even addresses only; `trigger`
stands for the registers behind `tselect`. -/
inductive Csr where
  | fflags
  | frm
  | fcsr
  | vstart
  | vxsat
  | vxrm
  | vcsr
  | sstatus
  | sie
  | stvec
  | scounteren
  | sscratch
  | sepc
  | scause
  | stval
  | sip
  | satp
  | mstatus
  | misa
  | medeleg
  | mideleg
  | mie
  | mtvec
  | mcounteren
  | mscratch
  | mepc
  | mcause
  | mtval
  | mip
  | tselect
  | mcycle
  | minstret
  | cycle
  | time
  | instret
  | vl
  | vtype
  | vlenb
  | mvendorid
  | marchid
  | mimpid
  | mhartid
  | trigger
  | pmpcfg (index : BitVec 3)
  | pmpaddr (index : BitVec 6)
deriving DecidableEq, Repr

def Csr.ofAddr (csr : CsrAddr) : Option Csr :=
  match csr with
  | 0x001#12 => some .fflags
  | 0x002#12 => some .frm
  | 0x003#12 => some .fcsr
  | 0x008#12 => some .vstart
  | 0x009#12 => some .vxsat
  | 0x00a#12 => some .vxrm
  | 0x00f#12 => some .vcsr
  | 0x100#12 => some .sstatus
  | 0x104#12 => some .sie
  | 0x105#12 => some .stvec
  | 0x106#12 => some .scounteren
  | 0x140#12 => some .sscratch
  | 0x141#12 => some .sepc
  | 0x142#12 => some .scause
  | 0x143#12 => some .stval
  | 0x144#12 => some .sip
  | 0x180#12 => some .satp
  | 0x300#12 => some .mstatus
  | 0x301#12 => some .misa
  | 0x302#12 => some .medeleg
  | 0x303#12 => some .mideleg
  | 0x304#12 => some .mie
  | 0x305#12 => some .mtvec
  | 0x306#12 => some .mcounteren
  | 0x340#12 => some .mscratch
  | 0x341#12 => some .mepc
  | 0x342#12 => some .mcause
  | 0x343#12 => some .mtval
  | 0x344#12 => some .mip
  | 0x7a0#12 => some .tselect
  | 0xb00#12 => some .mcycle
  | 0xb02#12 => some .minstret
  | 0xc00#12 => some .cycle
  | 0xc01#12 => some .time
  | 0xc02#12 => some .instret
  | 0xc20#12 => some .vl
  | 0xc21#12 => some .vtype
  | 0xc22#12 => some .vlenb
  | 0xf11#12 => some .mvendorid
  | 0xf12#12 => some .marchid
  | 0xf13#12 => some .mimpid
  | 0xf14#12 => some .mhartid
  | 0x7a1#12 | 0x7a2#12 | 0x7a3#12 | 0x7a5#12 => some .trigger
  | _ =>
    if 0x3a0#12 ≤ csr ∧ csr ≤ 0x3af#12 ∧ csr &&& 1#12 = 0#12 then
      some (.pmpcfg (((csr - 0x3a0#12) >>> 1).setWidth 3))
    else if 0x3b0#12 ≤ csr ∧ csr ≤ 0x3ef#12 then some (.pmpaddr ((csr - 0x3b0#12).setWidth 6))
    else none

variable (sys : SysCsrs)

/-- Bits 9:8 of the address are the lowest mode that may touch the CSR. -/
def SysCsrs.mayAccess (csr : CsrAddr) : Bool :=
  (csr.extractLsb' 8 2).setWidth 64 ≤ sys.mode.bits

/-- `mstatus` as read: SD summarises dirty FS or VS. -/
def SysCsrs.mstatusRead : Word :=
  if sys.mstatus &&& MSTATUS_FS = MSTATUS_FS ∨ sys.mstatus &&& MSTATUS_VS = MSTATUS_VS then
    sys.mstatus ||| MSTATUS_SD
  else sys.mstatus

/-- Supervisor accesses to `satp` trap under TVM. -/
def SysCsrs.satpTraps : Bool :=
  sys.mode = .supervisor ∧ sys.mstatus &&& MSTATUS_TVM ≠ 0#64

def SysCsrs.read (csr : Csr) : Option Word :=
  match csr with
  | .sstatus => some (sys.mstatusRead &&& SSTATUS_MASK)
  | .sie => some (sys.mie &&& sys.mideleg)
  | .stvec => some sys.stvec
  | .scounteren => some sys.scounteren
  | .sscratch => some sys.sscratch
  | .sepc => some sys.sepc
  | .scause => some sys.scause
  | .stval => some sys.stval
  | .sip => some (sys.mip &&& sys.mideleg)
  | .satp => if sys.satpTraps then none else some sys.satp
  -- no triggers: tselect reads back nonzero
  | .tselect => some 1#64
  | .trigger => some 0#64
  | .mstatus => some sys.mstatusRead
  | .misa => some MISA_VALUE
  | .medeleg => some sys.medeleg
  | .mideleg => some sys.mideleg
  | .mie => some sys.mie
  | .mtvec => some sys.mtvec
  | .mcounteren => some sys.mcounteren
  | .mscratch => some sys.mscratch
  | .mepc => some sys.mepc
  | .mcause => some sys.mcause
  | .mtval => some sys.mtval
  | .mip => some sys.mip
  | .mvendorid | .marchid | .mimpid => some 0#64
  | .mhartid => some sys.mhartid
  | .pmpcfg index => some (sys.pmpcfg index)
  | .pmpaddr index => some (sys.pmpaddr index)
  | _ => none

namespace Hart

variable (hart : Hart)

def vectorEnabled : Bool := hart.sys.all fun sys => sys.mstatus &&& MSTATUS_VS ≠ 0#64

def vectorDirty : Hart :=
  hart.modifySys fun sys => { sys with mstatus := sys.mstatus ||| MSTATUS_VS }

def fpEnabled : Bool := hart.sys.all fun sys => sys.mstatus &&& MSTATUS_FS ≠ 0#64

def fpDirty : Hart :=
  hart.modifySys fun sys => { sys with mstatus := sys.mstatus ||| MSTATUS_FS }

/-- A vector CSR reads only while the vector unit is enabled. -/
def readVector (val : Word) : Option Word :=
  if hart.vectorEnabled then some val else none

def readCsr (insnCount : Word) (csr : Csr) : Option Word :=
  match csr with
  | .fflags => some ((hart.fcsr &&& 0x1f#32).setWidth 64)
  | .frm => some (((hart.fcsr >>> 5) &&& 7#32).setWidth 64)
  | .fcsr => some (hart.fcsr.setWidth 64)
  | .vstart => hart.readVector hart.vector.vstart
  | .vxsat => hart.readVector (boolWord hart.vector.vxsat)
  | .vxrm => hart.readVector (hart.vector.vxrm.setWidth 64)
  | .vcsr =>
    hart.readVector ((hart.vector.vxrm.setWidth 64 <<< 1) ||| boolWord hart.vector.vxsat)
  | .vl => hart.readVector hart.vector.vl
  | .vtype => hart.readVector hart.vector.vtype
  | .vlenb => hart.readVector (BitVec.ofNat 64 VLEN_BYTES)
  | .cycle | .instret | .mcycle | .minstret =>
    some (insnCount + (hart.sys.map SysCsrs.minstretOff).getD 0#64)
  | .time => some ((hart.sys.map fun sys => sys.rdtime insnCount).getD insnCount)
  | csr => hart.sys.bind fun sys => sys.read csr

/-- `none` is an unimplemented or inaccessible CSR. -/
def csrRead (insnCount : Word) (csr : CsrAddr) : Option Word :=
  if hart.sys.any fun sys => !sys.mayAccess csr then none
  else (Csr.ofAddr csr).bind (hart.readCsr insnCount)

end Hart

/-- Outcome of a CSR write: accepted or not, the hart, the effect on the fetch cache. -/
structure CsrWritten where
  accepted : Bool
  hart : Hart
  fetch : FetchOp

/-- Bits of `mstatus` that a write through `sstatus` may change. -/
def SSTATUS_WRITE : Word :=
  MSTATUS_SIE ||| MSTATUS_SPIE ||| MSTATUS_SPP ||| MSTATUS_VS ||| MSTATUS_FS ||| MSTATUS_SUM |||
    MSTATUS_MXR

/-- Bits of `mstatus` that a direct write may change. -/
def MSTATUS_WRITE : Word :=
  MSTATUS_SIE ||| MSTATUS_MIE ||| MSTATUS_SPIE ||| MSTATUS_MPIE ||| MSTATUS_SPP ||| MSTATUS_MPP |||
    MSTATUS_VS ||| MSTATUS_FS ||| MSTATUS_MPRV ||| MSTATUS_SUM ||| MSTATUS_MXR ||| MSTATUS_TVM |||
    MSTATUS_TW ||| MSTATUS_TSR

def replaceBits (mask old new : Word) : Word := (old &&& ~~~mask) ||| (new &&& mask)

namespace Hart

variable (hart : Hart)

def rejectCsr : CsrWritten := { accepted := false, hart := hart, fetch := .keep }

def acceptCsr : CsrWritten := { accepted := true, hart := hart, fetch := .keep }

def writeSys (update : SysCsrs → SysCsrs) : CsrWritten :=
  match hart.sys with
  | none => hart.rejectCsr
  | some sys => acceptCsr { hart with sys := some (update sys) }

/-- `mstatus` and `sstatus` writes: retained entries are safe under their
context tags, so rows go only when retention is off. -/
def writeStatus (mask v : Word) : CsrWritten :=
  match hart.sys with
  | none => hart.rejectCsr
  | some sys =>
    let changed := privilegeChanged
      { hart with sys := some { sys with mstatus := replaceBits mask sys.mstatus v } }
    { accepted := true, hart := changed.1, fetch := changed.2 }

/-- `satp`: bare, Sv39 and Sv48 are accepted, other modes ignored. -/
def writeSatp (v : Word) : CsrWritten :=
  match hart.sys with
  | none => hart.rejectCsr
  | some sys =>
    if sys.satpTraps then hart.rejectCsr
    else
      let vm := v >>> 60
      if vm = 0#64 ∨ vm = 8#64 ∨ vm = 9#64 then
        let flushed := flushTlb { hart with sys := some { sys with satp := v } }
        let moved :=
          if sys.satp ≠ v then
            { flushed with
              jitFlushGen := flushed.jitFlushGen + 1
              mapGen := flushed.mapGen + 1 }
          else flushed
        { accepted := true, hart := moved, fetch := .flush }
      else hart.acceptCsr

/-- Vector CSR writes mark the vector state dirty; they need the unit enabled. -/
def writeVector (update : VectorState → VectorState) : CsrWritten :=
  if hart.vectorEnabled then acceptCsr (vectorDirty { hart with vector := update hart.vector })
  else hart.rejectCsr

def writeCsr (insnCount : Word) (csr : Csr) (v : Word) : CsrWritten :=
  match csr with
  | .fflags =>
    acceptCsr { hart with fcsr := (hart.fcsr &&& ~~~0x1f#32) ||| (lowWord v &&& 0x1f#32) }
  | .frm =>
    acceptCsr { hart with fcsr := (hart.fcsr &&& ~~~0xe0#32) ||| ((lowWord v &&& 7#32) <<< 5) }
  | .fcsr => acceptCsr { hart with fcsr := lowWord v &&& 0xff#32 }
  | .vstart => hart.writeVector fun s => { s with vstart := v &&& BitVec.ofNat 64 (VLEN_BITS - 1) }
  | .vxsat => hart.writeVector fun s => { s with vxsat := v &&& 1#64 ≠ 0#64 }
  | .vxrm => hart.writeVector fun s => { s with vxrm := (v &&& 3#64).setWidth 8 }
  | .vcsr =>
    hart.writeVector fun s =>
      { s with vxsat := v &&& 1#64 ≠ 0#64, vxrm := ((v >>> 1) &&& 3#64).setWidth 8 }
  | .mcycle | .minstret =>
    -- the writing instruction retires after the write takes effect
    acceptCsr (hart.modifySys fun sys => { sys with minstretOff := v - (insnCount + 1) })
  | .sstatus => hart.writeStatus SSTATUS_WRITE v
  | .sie => hart.writeSys fun sys => { sys with mie := replaceBits sys.mideleg sys.mie v }
  | .stvec => hart.writeSys fun sys => { sys with stvec := v &&& ~~~2#64 }
  | .scounteren => hart.writeSys fun sys => { sys with scounteren := v &&& 7#64 }
  | .sscratch => hart.writeSys fun sys => { sys with sscratch := v }
  | .sepc => hart.writeSys fun sys => { sys with sepc := v &&& ~~~1#64 }
  | .scause => hart.writeSys fun sys => { sys with scause := v }
  | .stval => hart.writeSys fun sys => { sys with stval := v }
  | .sip =>
    hart.writeSys fun sys => { sys with mip := replaceBits (IRQ_SSIP &&& sys.mideleg) sys.mip v }
  | .satp => hart.writeSatp v
  | .tselect | .trigger => hart.acceptCsr
  | .mstatus => hart.writeStatus MSTATUS_WRITE v
  | .misa => hart.acceptCsr
  | .medeleg => hart.writeSys fun sys => { sys with medeleg := v }
  | .mideleg =>
    hart.writeSys fun sys => { sys with mideleg := v &&& (IRQ_SSIP ||| IRQ_STIP ||| IRQ_SEIP) }
  | .mie => hart.writeSys fun sys => { sys with mie := v }
  | .mtvec => hart.writeSys fun sys => { sys with mtvec := v &&& ~~~2#64 }
  | .mcounteren => hart.writeSys fun sys => { sys with mcounteren := v &&& 7#64 }
  | .mscratch => hart.writeSys fun sys => { sys with mscratch := v }
  | .mepc => hart.writeSys fun sys => { sys with mepc := v &&& ~~~1#64 }
  | .mcause => hart.writeSys fun sys => { sys with mcause := v }
  | .mtval => hart.writeSys fun sys => { sys with mtval := v }
  | .mip =>
    hart.writeSys fun sys =>
      { sys with mip := replaceBits (IRQ_SSIP ||| IRQ_STIP ||| IRQ_SEIP) sys.mip v }
  | .pmpcfg index =>
    hart.writeSys fun sys =>
      { sys with pmpcfg := fun i => if i = index then v else sys.pmpcfg i }
  | .pmpaddr index =>
    hart.writeSys fun sys =>
      { sys with
        pmpaddr := fun i => if i = index then v &&& 0x003fffffffffffff#64 else sys.pmpaddr i }
  | _ => hart.rejectCsr

def csrWrite (insnCount : Word) (csr : CsrAddr) (v : Word) : CsrWritten :=
  -- the next instruction polls interrupts again, whatever becomes of the write
  let hart := { hart with irqPollCd := 0#32 }
  if csr.extractLsb' 10 2 = 3#2 then hart.rejectCsr
  else if hart.sys.any fun sys => !sys.mayAccess csr then hart.rejectCsr
  else
    match Csr.ofAddr csr with
    | none => hart.rejectCsr
    | some csr => hart.writeCsr insnCount csr v

/-- What a CSR write makes of the hart. -/
inductive CsrEffect : CsrWritten → Prop
  | reject : CsrEffect hart.rejectCsr
  | fcsr (fcsr : BitVec 32) : CsrEffect (acceptCsr { hart with fcsr := fcsr })
  | vector (update : VectorState → VectorState) :
      CsrEffect (acceptCsr (vectorDirty { hart with vector := update hart.vector }))
  | counter (off : Word) :
      CsrEffect (acceptCsr (hart.modifySys fun sys => { sys with minstretOff := off }))
  | sys {sys sys' : SysCsrs} (system : hart.sys = some sys) (satp : sys'.satp = sys.satp)
      (mode : sys'.mode = sys.mode) (mstatus : sys'.mstatus = sys.mstatus)
      (timeBase : sys'.timeBase = sys.timeBase) :
      CsrEffect (acceptCsr { hart with sys := some sys' })
  | status {sys : SysCsrs} (system : hart.sys = some sys) {changed : Hart × FetchOp}
      (mstatus : Word)
      (changes : privilegeChanged { hart with sys := some { sys with mstatus := mstatus } } =
        changed) : CsrEffect { accepted := true, hart := changed.1, fetch := changed.2 }
  | satp {sys : SysCsrs} (system : hart.sys = some sys) (satp : Word) (jitFlushGen mapGen : Word) :
      CsrEffect
        { accepted := true
          hart :=
            { flushTlb { hart with sys := some { sys with satp := satp } } with
              jitFlushGen := jitFlushGen
              mapGen := mapGen }
          fetch := .flush }

theorem writeSys_effect {update : SysCsrs → SysCsrs}
    (kept : ∀ sys, (update sys).satp = sys.satp ∧ (update sys).mode = sys.mode ∧
      (update sys).mstatus = sys.mstatus ∧ (update sys).timeBase = sys.timeBase) :
    hart.CsrEffect (hart.writeSys update) := by
  unfold writeSys
  cases system : hart.sys with
  | none => exact .reject
  | some sys =>
    obtain ⟨satp, mode, mstatus, timeBase⟩ := kept sys
    exact .sys system satp mode mstatus timeBase

theorem writeVector_effect (update : VectorState → VectorState) :
    hart.CsrEffect (hart.writeVector update) := by
  unfold writeVector
  split
  · exact .vector update
  · exact .reject

theorem writeStatus_effect (mask v : Word) : hart.CsrEffect (hart.writeStatus mask v) := by
  unfold writeStatus
  cases system : hart.sys with
  | none => exact .reject
  | some sys => exact .status system _ rfl

theorem writeSatp_effect (v : Word) : hart.CsrEffect (hart.writeSatp v) := by
  unfold writeSatp
  cases system : hart.sys with
  | none => exact .reject
  | some sys =>
    simp only
    split
    · exact .reject
    · split
      · split <;> exact .satp system v _ _
      · exact .fcsr hart.fcsr

theorem writeCsr_effect (insnCount : Word) (csr : Csr) (v : Word) :
    hart.CsrEffect (hart.writeCsr insnCount csr v) := by
  unfold writeCsr
  split
  case h_1 | h_2 | h_3 => exact .fcsr _
  case h_4 | h_5 | h_6 | h_7 => exact hart.writeVector_effect _
  case h_8 | h_9 => exact .counter _
  case h_10 | h_22 => exact hart.writeStatus_effect _ v
  case h_19 => exact hart.writeSatp_effect v
  case h_20 | h_21 | h_23 => exact .fcsr hart.fcsr
  all_goals first | exact .reject | exact hart.writeSys_effect fun sys => ⟨rfl, rfl, rfl, rfl⟩

theorem csrWrite_effect (insnCount : Word) (csr : CsrAddr) (v : Word) :
    CsrEffect { hart with irqPollCd := 0#32 } (hart.csrWrite insnCount csr v) := by
  unfold csrWrite
  simp only
  split
  · exact .reject
  split
  · exact .reject
  cases Csr.ofAddr csr with
  | none => exact .reject
  | some csr => exact writeCsr_effect _ insnCount csr v

end Hart

end Rv64Js.Core
