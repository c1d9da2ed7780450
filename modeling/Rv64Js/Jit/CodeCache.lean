import Rv64Js.Board.SystemBus
import Rv64Js.Core.Tags
import Mathlib.Logic.Function.Basic

/-! # The code cache and its page index

The part of `JitState` (`lib.rs`) that says which compiled function runs where: the cache from entry
pcs to blocks, the dispatch lines, the pages of multi-page functions, and the index from physical
pages to the pcs compiled from them. -/

set_option autoImplicit false

namespace Rv64Js.Jit

open Rv64Js.Core Rv64Js.Board

/-- A virtual page and the physical page it was compiled from. -/
structure CodePage where
  va : Word
  pp : Word
  aligned : pageOf pp = pp
deriving DecidableEq, Repr

def CodePage.of (va pa : Word) : CodePage where
  va := pageOf va
  pp := pageOf pa
  aligned := by simp [pageOf, BitVec.and_assoc]

/-- A table index and what the dispatcher knows of the function there; `-1` is the blacklist
sentinel. Indices stay far below `2 ^ 30`. -/
structure JitBlock where
  fp : Bool
  idx : Int
  n : Nat
  pa : Word
deriving DecidableEq, Repr

/-- A dispatch line; `region` is the `SB_IDX_BIT` of the packed index. -/
structure DispatchLine where
  pc : Word
  idx : Int
  region : Bool
  gen : BitVec 32
deriving DecidableEq, Repr

def NO_PC : Word := ~~~0#64

def UNVERIFIED_DISPATCH_GEN : BitVec 32 := ~~~0#32

/-- `compiled_entry_slot` for `2 ^ 18` lines. -/
def dslot (pc : Word) : BitVec 18 := ((pc >>> 1) ^^^ (pc >>> 19)).setWidth 18

def pageIndex (pa : Word) : Nat := ((pa - RAM_BASE) >>> 12).toNat

theorem toNat_sub_base {pa : Word} (above : RAM_BASE ≤ pa) :
    (pa - RAM_BASE).toNat = pa.toNat - 0x80000000 := by
  rw [BitVec.toNat_sub_of_le above]
  rfl

theorem pageIndex_eq (pa : Word) : pageIndex pa = (pa - RAM_BASE).toNat / 4096 := by
  rw [pageIndex, BitVec.toNat_ushiftRight, Nat.shiftRight_eq_div_pow]

theorem CodePage.toNat_mod (page : CodePage) : page.pp.toNat % 4096 = 0 := by
  have aligned := congrArg BitVec.toNat page.aligned
  rw [toNat_pageOf] at aligned
  omega

structure JitState where
  cache : Word → Option (Option JitBlock)
  dispatch : BitVec 18 → DispatchLine
  pageBlocks : Nat → List Word
  regions : Int → Option (List CodePage)
  /-- entry pcs of the landed functions that still have an exit profile -/
  regionExits : Int → Option (List Word)
  /-- `(satp, pc, physical pc)` of entries that keep retiring nothing -/
  zeroRetireSuppressed : List (Word × Word × Word)

namespace JitState

def new : JitState where
  cache _ := none
  dispatch _ := { pc := NO_PC, idx := 0, region := false, gen := 0 }
  pageBlocks _ := []
  regions _ := none
  regionExits _ := none
  zeroRetireSuppressed := []

variable (jit : JitState)

def clearDispatch : JitState :=
  { jit with dispatch := fun slot => { jit.dispatch slot with pc := NO_PC } }

def clear : JitState :=
  { jit with
    cache := fun _ => none
    pageBlocks := fun _ => []
    regions := fun _ => none
    regionExits := fun _ => none
    zeroRetireSuppressed := [] }.clearDispatch

/-! ## Insertion -/

def insert (pc : Word) (block : JitBlock) : JitState :=
  { jit with cache := Function.update jit.cache pc (some (some block)) }

def register (pc pp : Word) : JitState :=
  { jit with
    pageBlocks :=
      Function.update jit.pageBlocks (pageIndex pp) (jit.pageBlocks (pageIndex pp) ++ [pc]) }

def registerAll (pc : Word) (pages : List CodePage) : JitState :=
  pages.foldl (fun jit page => jit.register pc page.pp) jit

def recordRegion (idx : Int) (pages : List CodePage) : JitState :=
  if 1 < pages.length then { jit with regions := Function.update jit.regions idx (some pages) }
  else jit

/-- Install a block compiled from `spanned`; only a pc without an entry is put into
the index (`if cache.insert(..).is_none()`). -/
def install (pc : Word) (block : JitBlock) (spanned : List CodePage) : JitState :=
  let fresh := (jit.cache pc).isNone
  let jit := (jit.recordRegion block.idx spanned).insert pc block
  if fresh then jit.registerAll pc spanned else jit

/-- The sentinel for code that does not translate at these bytes. -/
def blacklist (pc pa : Word) : JitState :=
  let fresh := (jit.cache pc).isNone
  let jit := jit.insert pc { fp := false, idx := -1, n := 0, pa := pa }
  if fresh then jit.register pc pa else jit

/-- A trace at least `keepMin` long keeps its pc when a region lands (`TRACE_KEEP_MIN`). -/
def keepsTrace (keepMin : Nat) (e : Word) : Bool :=
  match jit.cache e with
  | some (some b) => keepMin != 0 && b.n != 0 && !b.fp && decide (keepMin ≤ b.n)
  | _ => false

/-- Register a landed entry: under the page it lies in only when it had no entry. -/
def registerLanded (e : Word) (fresh : Bool) (pi : Nat) (pages : List CodePage) : JitState :=
  pages.zipIdx.foldl (fun jit page =>
    if page.2 = pi ∧ ¬ fresh then jit else jit.register e page.1.pp) jit

/-- Repoint one entry at a landed region function. -/
def landEntry (keepMin : Nat) (idx : Int) (pages : List CodePage) (jit : JitState) (e : Word) :
    JitState :=
  match pages.findIdx? (fun page => page.va = pageOf e) with
  | none => jit
  | some pi =>
    if jit.keepsTrace keepMin e then jit
    else
      let fresh := (jit.cache e).isNone
      let epa := (pages.getD pi (.of 0 0)).pp + (e &&& 0xfff#64)
      let jit := jit.insert e { fp := false, idx := idx, n := 0, pa := epa }
      let jit := jit.registerLanded e fresh pi pages
      { jit with
        dispatch := Function.update jit.dispatch (dslot e)
          { pc := e, idx := idx, region := true, gen := UNVERIFIED_DISPATCH_GEN } }

/-- The installing half of `sys_sb_ready`. -/
def land (keepMin : Nat) (idx : Int) (pages : List CodePage) (entries : List Word)
    (jit : JitState) : JitState :=
  let jit := jit.recordRegion idx pages
  entries.foldl (landEntry keepMin idx pages)
    { jit with regionExits := Function.update jit.regionExits idx (some entries) }

/-! ## Removal -/

def remove (pc : Word) : JitState :=
  { jit with cache := Function.update jit.cache pc none }

def emptyLine (slot : BitVec 18) : JitState :=
  { jit with dispatch := Function.update jit.dispatch slot { jit.dispatch slot with pc := NO_PC } }

def invalidateLine (pc : Word) : JitState :=
  if (jit.dispatch (dslot pc)).pc = pc then jit.emptyLine (dslot pc) else jit

def invalidateZeroRetirePc (pc : Word) : JitState :=
  { jit with zeroRetireSuppressed := jit.zeroRetireSuppressed.filter fun key => key.2.1 ≠ pc }

/-- An entry that no longer maps where it was compiled (dispatch), or whose indirect
targets grew. -/
def drop (pc : Word) : JitState := (jit.remove pc).emptyLine (dslot pc)

def demoteEntry (idx : Int) (jit : JitState) (e : Word) : JitState :=
  match jit.cache e with
  | some (some b) => if b.idx = idx then (jit.remove e).invalidateLine e else jit
  | _ => jit

/-- Un-claim a region function that does not hold execution. -/
def demoteRegion (idx : Int) : JitState :=
  match jit.regionExits idx with
  | none => jit
  | some entries =>
    let jit := entries.foldl (demoteEntry idx)
      { jit with regionExits := Function.update jit.regionExits idx none }
    { jit with regions := Function.update jit.regions idx none }

def dropDirty (pc : Word) : JitState :=
  ((jit.remove pc).invalidateZeroRetirePc pc).invalidateLine pc

def drainPage (page : Nat) : JitState :=
  (jit.pageBlocks page).foldl dropDirty
    { jit with pageBlocks := Function.update jit.pageBlocks page [] }

/-! ## Dispatch -/

section Dispatch

variable {m : Type → Type} [Monad m] (probe : Word → m (Option Word))

def probesTo : List CodePage → m Bool
  | [] => pure true
  | page :: rest => do
    match ← probe page.va with
    | some q => if pageOf q = page.pp then probesTo rest else pure false
    | none => pure false

/-- The mapping check of a block: its entry, and each page of a multi-page function. -/
def verify (jit : JitState) (pc : Word) (b : JitBlock) : m Bool := do
  let self ← probe pc
  let region ← probesTo probe ((jit.regions b.idx).getD [])
  pure (self = some b.pa && region)

def verifiedLine (jit : JitState) (aspace pc : Word) (gen : BitVec 32) (b : JitBlock) :
    DispatchLine where
  pc := pc
  idx := if (aspace, pc, b.pa) ∈ jit.zeroRetireSuppressed then -1 else b.idx
  region := b.n == 0
  gen := gen

/-- One dispatch of `run_system_jit`: a line verified in this generation is taken as it is;
everything else goes through the cache and the mapping check, and an entry that fails it is dropped.
-/
def dispatchAt (aspace : Word) (gen : BitVec 32) (jit : JitState) (pc : Word) :
    m (Option Int × JitState) :=
  let line := jit.dispatch (dslot pc)
  if line.pc = pc ∧ line.gen = gen ∧ line.gen ≠ UNVERIFIED_DISPATCH_GEN then
    pure (if line.idx < 0 then none else some line.idx, jit)
  else
    match jit.cache pc with
    | some (some b) => do
      if ← jit.verify probe pc b then
        let line := jit.verifiedLine aspace pc gen b
        pure (if line.idx < 0 then none else some line.idx,
          { jit with dispatch := Function.update jit.dispatch (dslot pc) line })
      else pure (none, jit.drop pc)
    | _ => pure (none, jit)

end Dispatch

end JitState

end Rv64Js.Jit
