import Rv64Js.Jit.CodeCache
import Rv64Js.Lib.Events

/-! # The system JIT's bookkeeping

What `run_system_jit`, `issue_region_inner` and `sys_sb_ready` (`lib.rs`) do to the code cache, the
code-page marks, the trace windows and the pending regions. The decisions in between are data of the
events: hot pcs, results of the translator, finished modules, the fetch mapping in force. -/

set_option autoImplicit false

namespace Rv64Js.Jit

open Rv64Js.Core Rv64Js.Board
open Fallible (finalState)

/-- What `probe_fetch` gives at one moment: pages map as a whole. -/
structure FetchMap where
  probe : Word → Option Word
  wholePage : ∀ va pa, probe va = some pa → (probe (pageOf va)).map pageOf = some (pageOf pa)

/-- Gathered code of consecutive virtual pages. -/
structure TraceWin where
  aspace : Word
  mapGen : Word
  bootGen : Nat
  firstVa : Word
  pages : List CodePage

structure PendingSb where
  ticket : Nat
  bootGen : Nat
  pages : List CodePage
  entries : List Word
  /-- RAM when the compiler read the pages; nothing the code branches on -/
  code : Ram

structure Engine (layout : Layout) (δ : Type) where
  bus : SystemBus layout δ
  jit : JitState
  traceWin : List TraceWin
  pending : List PendingSb
  bootGen : Nat
  nextTicket : Nat
  tableNext : Nat
  /-- `TRACE_KEEP_MIN` -/
  keepMin : Nat

/-! ## Compile requests -/

/-- A translated trace or batch member: its code was read from `[lo, hi)`; zeros stand for the
instructions from `pc` on. -/
structure Translated where
  pc : Word
  span : Word × Word
  len : Word
  nInsns : Nat
  usesFp : Bool
  covers : span = (0, 0) ∧ pc.toNat + max len.toNat 2 ≤ 2 ^ 64 ∨ span.1 ≤ pc ∧ pc < span.2

structure Compile where
  pc : Word
  aspace : Word
  mapGen : Word
  map : FetchMap
  singlePage : Bool
  batch : Option { members : List Translated // (members.map Translated.pc).Nodup }
  /-- targets of a polymorphic indirect jump at `pc` -/
  picTargets : Option (List Word)
  block : Option { blk : Translated // blk.pc = pc }

def virtualPages (first last : Word) : List Word :=
  if first ≤ last then
    (List.range ((last - first).toNat / 4096 + 1)).map fun k => first + BitVec.ofNat 64 (4096 * k)
  else []

/-- Pages the code in `[lo, hi)` came from; none when one is not in the window. -/
def spanPages (pages : List CodePage) (lo hi : Word) : Option (List CodePage) :=
  (virtualPages (pageOf lo) (pageOf (hi - 1))).mapM fun va => pages.find? fun page => page.va = va

/-- The span a translation reports, with the given length for a span of zeros. -/
def Translated.bounds (blk : Translated) (len : Word) : Word × Word :=
  if blk.span = (0, 0) then (blk.pc, blk.pc + len) else blk.span

/-- A physical page that `m.ram()` has; the offset is truncated to the host word. -/
def ramHolds (layout : Layout) (pp : Word) : Bool :=
  decide (RAM_BASE ≤ pp) && decide (usize (pp - RAM_BASE) + 0x1000 ≤ layout.ramLen)

def gatherPage (layout : Layout) (map : FetchMap) (va : Word) : Option CodePage :=
  match map.probe va with
  | none => none
  | some p => if ramHolds layout (pageOf p) then some (.of va p) else none

/-- Gather the `count` pages from `firstVa` that can be fetched and lie in RAM. -/
def gather (layout : Layout) (map : FetchMap) (firstVa : Word) (count : Nat) : List CodePage :=
  (List.range count).filterMap fun k =>
    gatherPage layout map (firstVa + BitVec.ofNat 64 (4096 * k))

/-- The pages of `capture_pic_pages`, in the order wanted. -/
def capturePages (layout : Layout) (map : FetchMap) : List Word → Option (List CodePage)
  | [] => some []
  | va :: wanted =>
    match map.probe va with
    | none => capturePages layout map wanted
    | some p =>
      if pageOf p < RAM_BASE then capturePages layout map wanted
      else if 2 ^ 32 ≤ (pageOf p - RAM_BASE).toNat then none
      else if layout.ramLen < (pageOf p - RAM_BASE).toNat + 4096 then capturePages layout map wanted
      else (capturePages layout map wanted).map (CodePage.of va p :: ·)

def capturePicPages (layout : Layout) (map : FetchMap) (source : Word) (targets : List Word) :
    Option (List CodePage) :=
  let wanted := ((source :: targets.take 2).map pageOf).mergeSort (· ≤ ·)
  match capturePages layout map wanted.dedup with
  | none => none
  | some pages => if pages.any (fun page => page.va = pageOf source) then some pages else none

def TRACE_WIN_CACHE : Nat := 8

def TRACE_WIN_PAGES : Nat := 64

namespace Compile

def firstVa (c : Compile) : Word :=
  if c.singlePage then pageOf c.pc else pageOf c.pc &&& ~~~0x3ffff#64

def npages (c : Compile) : Nat := if c.singlePage then 1 else TRACE_WIN_PAGES

def finds (c : Compile) (bootGen : Nat) (w : TraceWin) : Bool :=
  decide (w.aspace = c.aspace) && decide (w.mapGen = c.mapGen) && decide (w.bootGen = bootGen) &&
    decide (w.firstVa = c.firstVa)

def newWin (c : Compile) (layout : Layout) (bootGen : Nat) : TraceWin where
  aspace := c.aspace
  mapGen := c.mapGen
  bootGen := bootGen
  firstVa := c.firstVa
  pages := gather layout c.map c.firstVa c.npages

end Compile

namespace Engine

variable {layout : Layout} {δ : Type}

/-! ## Installing compiled code -/

variable (engine : Engine layout δ)

def markPages (pages : List CodePage) : Engine layout δ :=
  { engine with bus := pages.foldl (fun bus page => bus.jitMarkPage page.pp) engine.bus }

def liveWindows : List TraceWin :=
  if engine.bus.jitDirtyPages.isEmpty then engine.traceWin else []

/-- The window a compile reads: a live one under its key, or a new one. -/
def window (c : Compile) : TraceWin :=
  (engine.liveWindows.find? (c.finds engine.bootGen)).getD (c.newWin layout engine.bootGen)

def gatherWindow (c : Compile) : Engine layout δ :=
  { engine with
    traceWin :=
      if engine.liveWindows.any (c.finds engine.bootGen) then engine.liveWindows
      else
        (if TRACE_WIN_CACHE ≤ engine.liveWindows.length then engine.liveWindows.drop 1
          else engine.liveWindows) ++ [c.newWin layout engine.bootGen] }

/-- Entry address and pages of a batch member, when the window has them. -/
def memberPages (w : TraceWin) (member : Translated) : Option (Word × List CodePage) :=
  let bounds := member.bounds 2
  match spanPages w.pages bounds.1 bounds.2 with
  | none => none
  | some spanned =>
    match spanned.find? fun page => page.va = pageOf member.pc with
    | none => none
    | some page =>
      let mpa := page.pp + (member.pc &&& 0xfff#64)
      if mpa = 0 then none else some (mpa, spanned)

/-- Member number `j` of a batch whose functions start at table index `base`. -/
def installMember (base : Nat) (w : TraceWin) (engine : Engine layout δ)
    (member : Translated × Nat) : Engine layout δ :=
  match memberPages w member.1 with
  | none => engine
  | some (mpa, spanned) =>
    let engine := engine.markPages spanned
    { engine with
      jit := engine.jit.install member.1.pc
        { fp := member.1.usesFp, idx := base + member.2, n := member.1.nInsns, pa := mpa } spanned }

def installBatch (w : TraceWin) (members : List Translated) : Engine layout δ :=
  let base := engine.tableNext
  members.zipIdx.foldl (installMember base w) { engine with tableNext := base + members.length }

/-- Pages a trace came from: those captured for its indirect targets, or its span. -/
def tracePages (layout : Layout) (c : Compile) (w : TraceWin) (blk : Translated) :
    Option (List CodePage) :=
  match c.picTargets.bind fun targets =>
      if 2 ≤ targets.length then capturePicPages layout c.map c.pc targets else none with
  | some pages => some pages
  | none =>
    let bounds := blk.bounds (if blk.len ≤ 2 then 2 else blk.len)
    spanPages w.pages bounds.1 bounds.2

def installTrace (c : Compile) (w : TraceWin) (pa : Word) : Engine layout δ :=
  match c.block.bind fun blk => (tracePages layout c w blk.1).map fun pages => (blk.1, pages) with
  | some (blk, spanned) =>
    let engine := engine.markPages spanned
    { engine with
      tableNext := engine.tableNext + 1
      jit := engine.jit.install c.pc
        { fp := blk.usesFp, idx := engine.tableNext, n := blk.nInsns, pa := pa } spanned }
  | none =>
    { engine with bus := engine.bus.jitMarkPage pa, jit := engine.jit.blacklist c.pc pa }

def batchOf (c : Compile) (w : TraceWin) : Option (List Translated) :=
  match c.batch with
  | none => none
  | some members => if w.pages ≠ [] ∧ 2 ≤ members.1.length then some members.1 else none

/-- Compile a hot pc that has no entry yet, from physical code bytes. -/
def compile (c : Compile) : Engine layout δ :=
  if (engine.jit.cache c.pc).isSome then engine
  else
    match c.map.probe c.pc with
    | none => engine
    | some pa =>
      if pa < RAM_BASE then engine
      else
        match batchOf c (engine.window c) with
        | some members => (engine.gatherWindow c).installBatch (engine.window c) members
        | none => (engine.gatherWindow c).installTrace c (engine.window c) pa

/-! ## Region functions -/

/-- `issue_region_inner` once the region has translated to the given entries. -/
def issueRegion (pages : List CodePage) (entries : List Word) : Engine layout δ :=
  let code := engine.bus.ram
  let engine := engine.markPages pages
  { engine with
    nextTicket := engine.nextTicket + 1
    pending := engine.pending ++
      [{ ticket := engine.nextTicket, bootGen := engine.bootGen, pages := pages,
         entries := entries, code := code }] }

/-- Some page was written, or lost its mark, since the region was issued. -/
def pendingRegionStale (bus : SystemBus layout δ) (pages : List CodePage) : Bool :=
  pages.any fun page =>
    !bus.jitPageMarked (pageIndex page.pp % 2 ^ 32) ||
      bus.jitDirtyPages.contains (pageIndex page.pp)

def swapRemove {α : Type} (l : List α) (i : Nat) : List α :=
  match l.getLast? with
  | none => []
  | some last => (l.set i last).dropLast

/-- The region `sys_sb_ready` installs for a ticket, if it installs one. -/
def installable (ticket : Nat) (built : Bool) : Option PendingSb :=
  match engine.pending.find? fun p => p.ticket = ticket with
  | none => none
  | some p =>
    if p.bootGen ≠ engine.bootGen then none
    else if built = false then none
    else if pendingRegionStale engine.bus p.pages then none
    else some p

/-- The host finished a module, or failed to (`idx < 0`). -/
def sysSbReady (ticket : Nat) (built : Bool) : Engine layout δ :=
  let pending := match engine.pending.findIdx? fun p => p.ticket = ticket with
    | none => engine.pending
    | some pos => swapRemove engine.pending pos
  let jit := match engine.installable ticket built with
    | none => engine.jit
    | some p => engine.jit.land engine.keepMin engine.tableNext p.pages p.entries
  { engine with
    pending := pending
    jit := jit
    tableNext := if built then engine.tableNext + 1 else engine.tableNext }

/-! ## Dropping code -/

def drainPage (page : Nat) : Engine layout δ :=
  { engine with bus := engine.bus.jitUnmarkPage page, jit := engine.jit.drainPage page }

def drainDirty : Engine layout δ :=
  if engine.bus.jitDirtyPages.isEmpty then engine
  else
    let taken := engine.bus.jitTakeDirty
    taken.1.foldl drainPage { engine with bus := taken.2, traceWin := [] }

/-- Start over: a new machine, another row hash, which also unmarks the indexed pages, or, in the
same generation, another policy. -/
def reset (unmarked : List Nat) (newGen : Bool) : Engine layout δ :=
  { engine with
    bus := unmarked.foldl SystemBus.jitUnmarkPage engine.bus
    jit := engine.jit.clear
    pending := []
    bootGen := if newGen then engine.bootGen + 1 else engine.bootGen }

end Engine

/-! ## Events -/

inductive Event (δ : Type) where
  | store (width : Width) (addr : Word) (val : BitVec width.bits)
  | devices (devices : δ)
  | drain
  | compile (c : Compile)
  | issue (pages : List CodePage) (entries : List Word)
  | ready (ticket : Nat) (built : Bool)
  | dispatch (map : FetchMap) (aspace : Word) (gen : BitVec 32) (pc : Word)
  | extendTargets (owner : Word)
  | demote (idx : Int)
  | reset (unmarked : List Nat) (newGen : Bool)

namespace Engine

variable {layout : Layout} {δ : Type} [Peripherals δ]

def step (engine : Engine layout δ) : Event δ → Engine layout δ
  | .store width addr val =>
    { engine with bus := finalState (Bus.write width addr val engine.bus) }
  | .devices devices => { engine with bus := { engine.bus with devices := devices } }
  | .drain => engine.drainDirty
  | .compile c => engine.compile c
  | .issue pages entries => engine.issueRegion pages entries
  | .ready ticket built => engine.sysSbReady ticket built
  | .dispatch map aspace gen pc =>
    { engine with jit := (engine.jit.dispatchAt (m := Id) map.probe aspace gen pc).2 }
  | .extendTargets owner => { engine with jit := engine.jit.drop owner }
  | .demote idx => { engine with jit := engine.jit.demoteRegion idx }
  | .reset unmarked newGen => engine.reset unmarked newGen

def boot (bus : SystemBus layout δ) (keepMin : Nat) : Engine layout δ where
  bus := bus
  jit := .new
  traceWin := []
  pending := []
  bootGen := 0
  nextTicket := 0
  tableNext := 0
  keepMin := keepMin

end Engine

end Rv64Js.Jit
