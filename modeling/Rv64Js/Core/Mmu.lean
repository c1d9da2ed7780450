import Rv64Js.Core.State

/-! # Address translation and memory access

The translation part of `cpu.rs`: permission contexts folded into tags, the Sv39/Sv48 walk, the
direct-mapped and fused rows with their invalidation, and the load and store paths. -/

set_option autoImplicit false

namespace Rv64Js.Core

open Fallible (withError zoom)

/-! ## Permission contexts and indices -/

def fault (access : Access) (addr : Word) : Exception :=
  match access with
  | .fetch => .instructionPageFault addr
  | .load => .loadPageFault addr
  | .store => .storePageFault addr

def dataAccess (store : Bool) : Access := if store then .store else .load

/-- Effective privilege: `MPRV` redirects data accesses. -/
def SysCsrs.effMode (sys : SysCsrs) (access : Access) : Mode :=
  if access ≠ .fetch ∧ sys.mstatus &&& MSTATUS_MPRV ≠ 0#64 then
    Mode.fromBits ((sys.mstatus &&& MSTATUS_MPP) >>> 11)
  else sys.mode

def tlbIndex (va : Word) : BitVec 12 := va.extractLsb' 12 12

def jitTlbHashIndex (va : Word) : BitVec 12 :=
  let page := va >>> 12
  (page ^^^ (page >>> 12)).setWidth 12

namespace Hart

variable (hart : Hart)

def translationContext (access : Access) : Word :=
  match hart.sys with
  | none => 0#64
  | some sys =>
    (sys.effMode access).bits |||
      (if access ≠ .fetch ∧ sys.mstatus &&& MSTATUS_SUM ≠ 0#64 then TLB_CTX_SUM else 0#64) |||
      (if access = .load ∧ sys.mstatus &&& MSTATUS_MXR ≠ 0#64 then TLB_CTX_MXR else 0#64)

def dataTlbContext : Word :=
  match hart.sys with
  | none => 0#64
  | some sys =>
    (sys.effMode .load).bits |||
      (if sys.mstatus &&& MSTATUS_SUM ≠ 0#64 then TLB_CTX_SUM else 0#64) |||
      (if sys.mstatus &&& MSTATUS_MXR ≠ 0#64 then TLB_CTX_MXR else 0#64)

def translationTag (va : Word) (access : Access) : Word :=
  pageOf va ||| hart.translationContext access

def jitTlbIndex (va : Word) : BitVec 12 :=
  if hart.jtlbHashed then jitTlbHashIndex va else tlbIndex va

/-! ## Invalidation -/

/-- `flush_tlb` on the data and fused rows; the fetch side is `FetchOp.flush`. -/
def flushTlb : Hart :=
  { hart with
    tlbFlushes := hart.tlbFlushes + 1
    loadTlb := hart.loadTlb.invalidate
    storeTlb := hart.storeTlb.invalidate
    fusedLoad := hart.fusedLoad.invalidate
    fusedStore := hart.fusedStore.invalidate }

/-- Drop all fused store entries: a page may now hold code. -/
def clearStoreJtlb : Hart :=
  { hart with
    storeJtlbClears := hart.storeJtlbClears + 1
    fusedStore := hart.fusedStore.invalidate }

def currentAsid : BitVec 16 :=
  match hart.sys with
  | none => 0#16
  | some sys => sys.satp.extractLsb' 44 16

def sfenceVma (va : Option Word) (asid : Option (BitVec 16)) : Hart × FetchOp :=
  if asid.any (· ≠ hart.currentAsid) then
    ({ hart with sfenceForeignAsid := hart.sfenceForeignAsid + 1 }, .keep)
  else
    let hart := { hart with mapGen := hart.mapGen + 1 }
    match va with
    | none => (flushTlb { hart with sfenceAll := hart.sfenceAll + 1 }, .flush)
    | some va =>
      let page := pageOf va
      let index := tlbIndex va
      let jitIndex := hart.jitTlbIndex va
      ({ hart with
          sfencePage := hart.sfencePage + 1
          loadTlb := hart.loadTlb.dropPage index page
          storeTlb := hart.storeTlb.dropPage index page
          fusedLoad := hart.fusedLoad.dropPage jitIndex page
          fusedStore := hart.fusedStore.dropPage jitIndex page }, .flushPage va)

def syncJitTlbContext : Hart := { hart with jitTlbContext := hart.dataTlbContext }

/-- Flush unless context-tagged entries are retained, then refresh the context cell. -/
def privilegeChanged : Hart × FetchOp :=
  if hart.retainTlbOnPrivilegeChange then (hart.syncJitTlbContext, .keep)
  else (hart.flushTlb.syncJitTlbContext, .flush)

def setJitTlbHash (hashed : Bool) : Hart :=
  if hart.jtlbHashed ≠ hashed then
    { hart with
      jtlbHashed := hashed
      fusedLoad := hart.fusedLoad.invalidate
      fusedStore := hart.fusedStore.invalidate }
  else hart

def setInterpreterFusedMemory (enabled : Bool) : Hart :=
  { hart with interpreterFusedMemory := enabled }

def setPrivilegeTlbRetention (retain : Bool) : Hart × FetchOp :=
  if hart.retainTlbOnPrivilegeChange ≠ retain then
    (flushTlb { hart with retainTlbOnPrivilegeChange := retain }, .flush)
  else (hart, .keep)

/-! ## Fused rows -/

def fusedRow (store : Bool) : Row := if store then hart.fusedStore else hart.fusedLoad

def publishJtlb (store : Bool) (index : BitVec 12) (tag off : Word) : Hart :=
  if store then { hart with fusedStore := hart.fusedStore.fill index tag off }
  else { hart with fusedLoad := hart.fusedLoad.fill index tag off }

def fillJtlb {β : Type} [Bus β] (bus : β) (va pa : Word) (store : Bool) : Hart :=
  match Bus.jitFastOff bus va pa store with
  | none => hart
  | some off =>
    hart.publishJtlb store (hart.jitTlbIndex va) (pageOf va ||| hart.dataTlbContext) off

/-- The host pointer a fused row gives for `va`, when fused memory is enabled. -/
def interpreterFusedPtr (va : Word) (store : Bool) : Option Word :=
  if hart.interpreterFusedMemory then
    let index := hart.jitTlbIndex va
    if (hart.fusedRow store).tag index = pageOf va ||| hart.jitTlbContext then
      some (va + (hart.fusedRow store).val index)
    else none
  else none

def dataTlb (store : Bool) : Row := if store then hart.storeTlb else hart.loadTlb

def setDataTlb (store : Bool) (row : Row) : Hart :=
  if store then { hart with storeTlb := row } else { hart with loadTlb := row }

end Hart

/-! ## The page-table walk -/

section Walk

variable {β : Type} [Bus β]

def walkLeaf (sys : SysCsrs) (va : Word) (access : Access) (level : Nat) (pteAddr pte : Word) :
    EStateM Exception β Word :=
  let mode := sys.effMode access
  let sum : Bool := sys.mstatus &&& MSTATUS_SUM ≠ 0#64
  let mxr : Bool := sys.mstatus &&& MSTATUS_MXR ≠ 0#64
  let r := pte.getLsbD 1
  let w := pte.getLsbD 2
  let x := pte.getLsbD 3
  let u := pte.getLsbD 4
  let ppn := pte >>> 10
  let ok : Bool := match access with
    | .fetch => x
    | .load => r || (mxr && x)
    | .store => w
  -- superpages must be aligned
  if 0 < level ∧ ppn &&& ((1#64 <<< (9 * level)) - 1#64) ≠ 0#64 then throw (fault access va)
  else if mode = .user ∧ ¬ u then throw (fault access va)
  else if mode = .supervisor ∧ u ∧ ¬ (sum ∧ access ≠ .fetch) then throw (fault access va)
  else if ¬ ok then throw (fault access va)
  else do
    let newPte := pte ||| (1#64 <<< 6) ||| (if access = .store then 1#64 <<< 7 else 0#64)
    if newPte ≠ pte then
      withError (fault access va) (Bus.write .dword pteAddr newPte)
    let mask := (1#64 <<< (12 + 9 * level)) - 1#64
    pure (((ppn <<< 12) &&& ~~~mask) ||| (va &&& mask))

/-- One table entry: invalid, a pointer handed to `next`, or a leaf. -/
def walkEntry (sys : SysCsrs) (va : Word) (access : Access) (level : Nat) (table : Word)
    (next : Word → EStateM Exception β Word) : EStateM Exception β Word := do
  let vpn := (va >>> (12 + 9 * level)) &&& 0x1ff#64
  let pteAddr := table + vpn * 8#64
  let pte : Word ← withError (fault access va) (Bus.read .dword pteAddr)
  let r := pte.getLsbD 1
  let w := pte.getLsbD 2
  let x := pte.getLsbD 3
  if ¬ pte.getLsbD 0 ∨ (¬ r ∧ w) then throw (fault access va)
  else if ¬ r ∧ ¬ x then next ((pte >>> 10) <<< 12)
  else walkLeaf sys va access level pteAddr pte

def walkTable (sys : SysCsrs) (va : Word) (access : Access) : Nat → Word → EStateM Exception β Word
  | 0, table => walkEntry sys va access 0 table fun _ => throw (fault access va)
  | level + 1, table =>
    walkEntry sys va access (level + 1) table fun next => walkTable sys va access level next

/-- What a translation gives: a mapped address that goes into a row, or the
identity of bare and machine mode that does not. -/
structure Translation where
  pa : Word
  cached : Bool

def satpLevels (vm : Word) : Option Nat :=
  match vm with
  | 8#64 => some 3
  | 9#64 => some 4
  | _ => none

def walk (sys : SysCsrs) (va : Word) (access : Access) : EStateM Exception β Translation :=
  let vm := sys.satp >>> 60
  if vm = 0#64 ∨ sys.effMode access = .machine then pure { pa := va, cached := false }
  else
    match satpLevels vm with
    | none => throw (fault access va)
    | some levels =>
      -- canonical check: the high bits repeat bit `9 * levels + 11`
      let ext := va.sshiftRight (9 * levels + 12 - 1)
      if ext ≠ 0#64 ∧ ext ≠ ~~~0#64 then throw (fault access va)
      else do
        let table := (sys.satp &&& 0xfffffffffff#64) <<< 12
        let pa ← walkTable sys va access (levels - 1) table
        pure { pa := pa, cached := true }

/-- `translate_slow`: the walk, and the row with what it filled in. -/
def translateSlow (row : Row) (hart : Hart) (sys : SysCsrs) (va : Word) (access : Access) :
    EStateM Exception β (Word × Row) := do
  let result ← walk sys va access
  pure (result.pa,
    if result.cached then row.fill (tlbIndex va) (hart.translationTag va access) (result.pa - va)
    else row)

/-- `translate` through a given row; the row comes back with what the walk filled in. -/
def translateIn (row : Row) (hart : Hart) (va : Word) (access : Access) :
    EStateM Exception β (Word × Row) :=
  match hart.sys with
  | none => pure (va, row)
  | some sys =>
    let index := tlbIndex va
    let tag := hart.translationTag va access
    if row.tag index = tag then pure (va + row.val index, row)
    else do
      let result ← walk sys va access
      pure (result.pa, if result.cached then row.fill index tag (result.pa - va) else row)

/-! ## Loads and stores -/

def liftBus {α : Type} (op : EStateM Exception β α) : Exec β α :=
  zoom Machine.bus (fun bus m => { m with bus := bus }) op

def translate (va : Word) (store : Bool) : Exec β Word := fun m =>
  match translateIn (m.hart.dataTlb store) m.hart va (dataAccess store) m.bus with
  | .ok (pa, row) bus => .ok pa { hart := m.hart.setDataTlb store row, bus := bus }
  | .error e bus => .error e { m with bus := bus }

def fillJtlb (va pa : Word) (store : Bool) : Exec β Unit :=
  modify fun m => { m with hart := m.hart.fillJtlb m.bus va pa store }

def Hart.splits (hart : Hart) (width : Width) (va : Word) : Bool :=
  hart.sys.isSome && !decide (InPage width va)

/-- Bytes `i, i + 1, …` of a page-crossing load, each translated on its own. -/
def ldBytes (va : Word) : Nat → Nat → Word → Exec β Word
  | 0, _, v => pure v
  | n + 1, i, v => do
    let pa ← translate (va + BitVec.ofNat 64 i) false
    let b : BitVec 8 ← liftBus (Bus.read .byte pa)
    ldBytes va n (i + 1) (v ||| (b.setWidth 64 <<< (8 * i)))

def ldSlow (width : Width) (va : Word) : Exec β Word := do
  if (← get).hart.splits width va then ldBytes va width.bytes 0 0#64
  else
    let pa ← translate va false
    fillJtlb va pa false
    let v ← liftBus (Bus.read width pa)
    pure (v.setWidth 64)

def ld (width : Width) (va : Word) : Exec β Word := fun m =>
  if m.hart.splits width va then ldSlow width va m
  else
    match m.hart.interpreterFusedPtr va false with
    | some address => .ok ((Bus.peek width m.bus address).setWidth 64) m
    | none => ldSlow width va m

def stBytes (va val : Word) : Nat → Nat → Exec β Unit
  | 0, _ => pure ()
  | n + 1, i => do
    let pa ← translate (va + BitVec.ofNat 64 i) true
    liftBus (Bus.write .byte pa ((val >>> (8 * i)).setWidth 8))
    stBytes va val n (i + 1)

def stSlow (width : Width) (va val : Word) : Exec β Unit := do
  if (← get).hart.splits width va then stBytes va val width.bytes 0
  else
    let pa ← translate va true
    fillJtlb va pa true
    liftBus (Bus.write width pa (val.setWidth width.bits))

def st (width : Width) (va val : Word) : Exec β Unit := fun m =>
  if m.hart.splits width va then stSlow width va val m
  else
    match m.hart.interpreterFusedPtr va true with
    | some address =>
      .ok () { m with bus := Bus.poke width address (val.setWidth width.bits) m.bus }
    | none => stSlow width va val m

/-- Refill helper of generated code: never raises, `none` sends the block to the interpreter. -/
def jitFillTlb (va : Word) (store : Bool) (m : Machine β) : Option Word × Machine β :=
  match translate va store m with
  | .error _ m => (none, m)
  | .ok pa m =>
    match Bus.jitFastOff m.bus va pa store with
    | none => (none, m)
    | some off =>
      (some off, { m with
        hart := m.hart.publishJtlb store (m.hart.jitTlbIndex va)
          (pageOf va ||| m.hart.dataTlbContext) off })

end Walk

end Rv64Js.Core
