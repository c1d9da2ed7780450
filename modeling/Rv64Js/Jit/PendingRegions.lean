import Rv64Js.Jit.Engine
import Rv64Js.Board.CodePages

/-! # Pending regions and the bytes they were compiled from

`sys_sb_ready` takes a marked page that is not dirty for one nobody wrote since the region was
issued. What the bits say is that a page of a pending region has its old bytes, is dirty, or has
lost its mark; a page that gets the mark back for other code breaks the rest. -/

set_option autoImplicit false

namespace Rv64Js.Jit

open Rv64Js.Core Rv64Js.Board Engine SystemBus List
open Fallible (finalState)

variable {layout : Layout} {δ : Type}

def Unchanged (code ram : Ram) (page : Nat) : Prop :=
  ∀ i < 4096, ram (4096 * page + i) = code (4096 * page + i)

def CodePage.InRam (layout : Layout) (page : CodePage) : Prop :=
  RAM_BASE ≤ page.pp ∧ (page.pp - RAM_BASE).toNat + 0x1000 ≤ layout.ramLen

theorem CodePage.InRam.offset {page : CodePage} (inRam : page.InRam layout) :
    usize (page.pp - RAM_BASE) = 4096 * pageIndex page.pp := by
  obtain ⟨above, inside⟩ := inRam
  have fits := layout.fits
  have aligned := page.toNat_mod
  have base : RAM_BASE.toNat ≤ page.pp.toNat := above
  rw [usize, pageIndex_eq, Nat.mod_eq_of_lt (by omega)]
  rw [toNat_sub_base above] at inside ⊢
  change 0x80000000 ≤ page.pp.toNat at base
  omega

theorem CodePage.InRam.index_lt {page : CodePage} (inRam : page.InRam layout) :
    pageIndex page.pp < 2 ^ 32 := by
  have fits := layout.fits
  have inside := inRam.2
  rw [pageIndex_eq]
  omega

/-! ## What may happen while a region is pending -/

/-- What the bits of a page say about the bytes a pending region was compiled from. -/
def Tracked (bus : SystemBus layout δ) (code : Ram) (page : Nat) : Prop :=
  bus.jitPageMarked page = true → page ∉ bus.jitDirtyPages → Unchanged code bus.ram page

def PendingTracked (engine : Engine layout δ) : Prop :=
  ∀ region ∈ engine.pending, ∀ page ∈ region.pages,
    page.InRam layout ∧ Tracked engine.bus region.code (pageIndex page.pp)

variable [Peripherals δ]

/-- RAM changes by stores inside one page, at an address the host word holds, that `jit_check_store`
sees, and by nothing else. -/
structure StoreSeen (bus : SystemBus layout δ) (width : Width) (addr : Word)
    (val : BitVec width.bits) : Prop where
  inRam : ∀ off, bus.target addr width.bytes = some off →
    InPage width addr ∧ (addr - RAM_BASE).toNat < 2 ^ 32
  device : bus.target addr width.bytes = none →
    (finalState (Bus.write width addr val bus)).ram = bus.ram

def Seen (engine : Engine layout δ) : Event δ → Prop
  | .store width addr val => StoreSeen engine.bus width addr val
  | _ => True

/-- The event marks the page, which had no mark. -/
def Remarks (engine : Engine layout δ) (event : Event δ) (page : Nat) : Prop :=
  engine.bus.jitPageMarked page = false ∧ (engine.step event).bus.jitPageMarked page = true

/-- No page that a pending region compiled from other bytes gets a new mark. -/
def MarksCurrent (engine : Engine layout δ) (event : Event δ) : Prop :=
  ∀ region ∈ engine.pending, ∀ page ∈ region.pages, Remarks engine event (pageIndex page.pp) →
    Unchanged region.code engine.bus.ram (pageIndex page.pp)

def IssuesRam (layout : Layout) : Event δ → Prop
  | .issue pages _ => ∀ page ∈ pages, page.InRam layout
  | _ => True

structure Admits (engine : Engine layout δ) (event : Event δ) : Prop where
  seen : Seen engine event
  current : MarksCurrent engine event
  ram : IssuesRam layout event

/-! ## Events that only mark -/

variable {bus : SystemBus layout δ}

omit [Peripherals δ] in
theorem Tracked.of_marks {bus' : SystemBus layout δ} {code : Ram} {page : Nat}
    (tracked : Tracked bus code page) (ram : bus'.ram = bus.ram)
    (dirty : bus'.jitDirtyPages = bus.jitDirtyPages)
    (marks : bus.jitPageMarked page = false → bus'.jitPageMarked page = true →
      Unchanged code bus.ram page) : Tracked bus' code page := by
  intro marked clean
  rw [ram]
  rw [dirty] at clean
  cases before : bus.jitPageMarked page with
  | false => exact marks before marked
  | true => exact tracked before clean

structure SameMemory (engine engine' : Engine layout δ) : Prop where
  ram : engine'.bus.ram = engine.bus.ram
  dirty : engine'.bus.jitDirtyPages = engine.bus.jitDirtyPages
  pending : engine'.pending = engine.pending

namespace SameMemory

omit [Peripherals δ]

theorem of_eq {engine engine' : Engine layout δ} (bus : engine'.bus = engine.bus)
    (pending : engine'.pending = engine.pending) : SameMemory engine engine' :=
  ⟨congrArg SystemBus.ram bus, congrArg SystemBus.jitDirtyPages bus, pending⟩

variable (engine : Engine layout δ)

theorem refl : SameMemory engine engine := of_eq rfl rfl

theorem trans {a b c : Engine layout δ} (first : SameMemory a b) (second : SameMemory b c) :
    SameMemory a c :=
  ⟨second.ram.trans first.ram, second.dirty.trans first.dirty, second.pending.trans first.pending⟩

theorem markPages (pages : List CodePage) : SameMemory engine (engine.markPages pages) := by
  suffices ∀ bus : SystemBus layout δ,
      (pages.foldl (fun bus page => bus.jitMarkPage page.pp) bus).ram = bus.ram ∧
        (pages.foldl (fun bus page => bus.jitMarkPage page.pp) bus).jitDirtyPages =
          bus.jitDirtyPages from
    ⟨(this engine.bus).1, (this engine.bus).2, rfl⟩
  induction pages with
  | nil => exact fun _ => ⟨rfl, rfl⟩
  | cons page pages ih =>
    intro bus
    obtain ⟨ram, dirty⟩ := ih (bus.jitMarkPage page.pp)
    exact ⟨ram.trans (bus.jitMarkPage_ram page.pp), dirty.trans (bus.jitMarkPage_dirty page.pp)⟩

theorem installMember (base : Nat) (w : TraceWin) (engine : Engine layout δ)
    (member : Translated × Nat) : SameMemory engine (.installMember base w engine member) := by
  unfold Engine.installMember
  split
  · exact refl engine
  · exact (markPages engine _).trans (of_eq rfl rfl)

theorem installBatch (w : TraceWin) (members : List Translated) :
    SameMemory engine (engine.installBatch w members) := by
  unfold Engine.installBatch
  generalize members.zipIdx = numbered
  suffices ∀ engine : Engine layout δ, ∀ base,
      SameMemory engine (numbered.foldl (.installMember base w) engine) by
    have counted :
        SameMemory engine { engine with tableNext := engine.tableNext + members.length } :=
      of_eq rfl rfl
    exact counted.trans (this _ engine.tableNext)
  induction numbered with
  | nil => exact fun engine _ => refl engine
  | cons member rest ih =>
    exact fun engine base => (installMember base w engine member).trans (ih _ _)

theorem installTrace (c : Compile) (w : TraceWin) (pa : Word) :
    SameMemory engine (engine.installTrace c w pa) := by
  unfold Engine.installTrace
  split
  · exact (markPages engine _).trans (of_eq rfl rfl)
  · exact ⟨engine.bus.jitMarkPage_ram pa, engine.bus.jitMarkPage_dirty pa, rfl⟩

theorem compile (c : Compile) : SameMemory engine (engine.compile c) := by
  have gathered : SameMemory engine (engine.gatherWindow c) := of_eq rfl rfl
  unfold Engine.compile
  split
  · exact refl engine
  · split
    · exact refl engine
    · split
      · exact refl engine
      · split
        · exact gathered.trans (installBatch _ _ _)
        · exact gathered.trans (installTrace _ c _ _)

end SameMemory

variable {engine : Engine layout δ}

theorem PendingTracked.marks {event : Event δ} (tracked : PendingTracked engine)
    (current : MarksCurrent engine event)
    (same : SameMemory engine (engine.step event)) : PendingTracked (engine.step event) := by
  intro region pending page mem
  rw [same.pending] at pending
  obtain ⟨inRam, before⟩ := tracked region pending page mem
  exact ⟨inRam, before.of_marks same.ram same.dirty fun unmarked marked =>
    current region pending page mem ⟨unmarked, marked⟩⟩

/-! ## Stores -/

variable {off : Nat}

omit [Peripherals δ] in
theorem store_unchanged (ram : Ram) {n page : Nat} (val : Nat) (inside : off % 4096 + n ≤ 4096)
    (other : page ≠ off / 4096) : Unchanged ram (ram.store off n val) page := by
  intro i small
  rw [Ram.store, if_neg]
  omega

variable {addr : Word}

theorem target_page {n : Nat} (target : bus.target addr n = some off)
    (small : (addr - RAM_BASE).toNat < 2 ^ 32) :
    ramPage addr = some (off / 4096) ∧ off % 4096 = (addr &&& 0xfff#64).toNat := by
  unfold SystemBus.target at target
  split at target
  · simp at target
  · unfold ramSlice at target
    split at target
    · rename_i inside
      obtain rfl := Option.some.inj target
      have above : RAM_BASE.toNat ≤ addr.toNat := inside.1
      change 0x80000000 ≤ addr.toNat at above
      rw [ramPage, if_pos inside.1, usize, usize, Nat.mod_eq_of_lt small, BitVec.toNat_ushiftRight,
        Nat.shiftRight_eq_div_pow, toNat_pageOffset]
      rw [toNat_sub_base inside.1] at small ⊢
      refine ⟨congrArg some (Nat.mod_eq_of_lt ?_), ?_⟩ <;> omega
    · simp at target

variable {width : Width} (val : BitVec width.bits)

theorem write_ram (target : bus.target addr width.bytes = some off) :
    finalState (Bus.write width addr val bus) =
      { bus.jitCheckStore addr with ram := bus.ram.store off width.bytes val.toNat } := by
  have checked : (bus.jitCheckStore addr).target addr width.bytes = some off ∧
      (bus.jitCheckStore addr).ram = bus.ram := by
    unfold jitCheckStore
    split
    · exact ⟨target, rfl⟩
    · split
      · exact ⟨target, rfl⟩
      · exact ⟨target, rfl⟩
  change finalState (write width addr val bus) = _
  unfold write
  simp only [checked.1, checked.2]
  rfl

theorem write_dirty {page : Nat} (dirty : page ∈ bus.jitDirtyPages) :
    page ∈ (finalState (Bus.write width addr val bus)).jitDirtyPages := by
  rw [write_dirtyPages]
  unfold jitCheckStore
  split
  · exact dirty
  · split
    · exact mem_append_left _ dirty
    · exact dirty

theorem StoreSeen.page {val : BitVec width.bits} (seen : StoreSeen bus width addr val)
    (page : Nat) :
    Unchanged bus.ram (finalState (Bus.write width addr val bus)).ram page ∨
    (bus.jitPageMarked page = true →
        page ∈ (finalState (Bus.write width addr val bus)).jitDirtyPages) := by
  cases target : bus.target addr width.bytes with
  | none =>
    left
    rw [seen.device target]
    exact fun _ _ => rfl
  | some off =>
    obtain ⟨inPage, small⟩ := seen.inRam off target
    obtain ⟨at_page, offset⟩ := target_page target small
    by_cases other : page = off / 4096
    · right
      intro marked
      exact write_recorded bus width val (other ▸ at_page) marked
    · left
      rw [write_ram val target]
      refine store_unchanged bus.ram _ ?_ other
      rw [offset]
      exact inPage

omit [Peripherals δ] in
theorem Unchanged.trans {a b c : Ram} {page : Nat} (first : Unchanged a b page)
    (second : Unchanged b c page) : Unchanged a c page :=
  fun i small => (second i small).trans (first i small)

theorem PendingTracked.store {val : BitVec width.bits} (tracked : PendingTracked engine)
    (seen : StoreSeen engine.bus width addr val) :
    PendingTracked (engine.step (.store width addr val)) := by
  intro region pending page mem
  obtain ⟨inRam, before⟩ := tracked region pending page mem
  refine ⟨inRam, fun marked clean => ?_⟩
  have same : engine.bus.jitPageMarked (pageIndex page.pp) = true := by
    have pages := engine.bus.write_pages width addr val
    change jitPageMarked (finalState (Bus.write width addr val engine.bus)) _ = true at marked
    rw [jitPageMarked, pages] at marked
    exact marked
  have wasClean : pageIndex page.pp ∉ engine.bus.jitDirtyPages :=
    fun dirty => clean (write_dirty val dirty)
  rcases seen.page (pageIndex page.pp) with unchanged | recorded
  · exact (before same wasClean).trans unchanged
  · exact absurd (recorded same) clean

/-! ## Drains -/

omit [Peripherals δ] in
theorem drainPages_spec (pages : List Nat) (engine : Engine layout δ) :
    SameMemory engine (pages.foldl drainPage engine) ∧
      ∀ page, (pages.foldl drainPage engine).bus.jitPageMarked page = true →
        page ∉ pages ∧ engine.bus.jitPageMarked page = true := by
  induction pages generalizing engine with
  | nil => exact ⟨.refl engine, fun page marked => ⟨not_mem_nil, marked⟩⟩
  | cons drained pages ih =>
    obtain ⟨same, marks⟩ := ih (engine.drainPage drained)
    have one : SameMemory engine (engine.drainPage drained) :=
      ⟨engine.bus.setPage_ram drained false, engine.bus.setPage_dirty drained false, rfl⟩
    refine ⟨one.trans same, fun page marked => ?_⟩
    obtain ⟨later, marked⟩ := marks page marked
    obtain ⟨other, marked⟩ := jitUnmarkPage_marked marked
    exact ⟨not_mem_cons_of_ne_of_not_mem other later, marked⟩

omit [Peripherals δ] in
theorem PendingTracked.drain (tracked : PendingTracked engine) :
    PendingTracked engine.drainDirty := by
  unfold drainDirty
  split
  · exact tracked
  · obtain ⟨same, marks⟩ := drainPages_spec engine.bus.jitDirtyPages
      { engine with bus := engine.bus.jitTakeDirty.2, traceWin := [] }
    change PendingTracked (engine.bus.jitDirtyPages.foldl drainPage _)
    intro region pending page mem
    rw [same.pending] at pending
    obtain ⟨inRam, before⟩ := tracked region pending page mem
    refine ⟨inRam, fun marked _ => ?_⟩
    obtain ⟨clean, marked⟩ := marks (pageIndex page.pp) marked
    rw [same.ram]
    exact before marked clean

/-! ## Regions -/

omit [Peripherals δ] in
theorem mem_swapRemove {α : Type} {l : List α} {i : Nat} {a : α} (mem : a ∈ swapRemove l i) :
    a ∈ l := by
  unfold swapRemove at mem
  split at mem
  · simp at mem
  · rename_i last final
    rcases mem_or_eq_of_mem_set (mem_of_mem_dropLast mem) with found | rfl
    · exact found
    · exact mem_of_getLast? final

omit [Peripherals δ] in
theorem PendingTracked.ready (tracked : PendingTracked engine) (ticket : Nat)
    (built : Bool) : PendingTracked (engine.sysSbReady ticket built) := by
  intro region pending
  refine tracked region ?_
  unfold sysSbReady at pending
  dsimp only at pending
  split at pending
  · exact pending
  · exact mem_swapRemove pending

theorem PendingTracked.issue (tracked : PendingTracked engine) {pages : List CodePage}
    {entries : List Word} (admits : Admits engine (.issue pages entries)) :
    PendingTracked (engine.step (.issue pages entries)) := by
  have same := SameMemory.markPages engine pages
  intro region pending page mem
  rcases mem_append.mp pending with old | new
  · obtain ⟨inRam, before⟩ := tracked region old page mem
    exact ⟨inRam, before.of_marks same.ram same.dirty fun unmarked marked =>
      admits.current region old page mem ⟨unmarked, marked⟩⟩
  · obtain rfl := mem_singleton.mp new
    refine ⟨admits.ram page mem, fun _ _ => ?_⟩
    change Unchanged engine.bus.ram (engine.markPages pages).bus.ram _
    rw [same.ram]
    exact fun _ _ => rfl

theorem PendingTracked.step (tracked : PendingTracked engine) {event : Event δ}
    (admits : Admits engine event) : PendingTracked (engine.step event) := by
  cases event with
  | store width addr val => exact tracked.store admits.seen
  | drain => exact tracked.drain
  | compile c => exact tracked.marks admits.current (.compile engine c)
  | issue pages entries => exact tracked.issue admits
  | ready ticket built => exact tracked.ready ticket built
  | devices | dispatch | extendTargets | demote =>
    exact tracked.marks admits.current ⟨rfl, rfl, rfl⟩
  | reset unmarked newGen => exact fun region pending => absurd pending not_mem_nil

/-- While no page gets a new mark with a region compiled from other bytes of it pending, a region is
installed only over the bytes it was compiled from. -/
theorem installed_region_current {bus : SystemBus layout δ} {keepMin : Nat}
    {events : List (Event δ)}
    (admitted : Events.Admitted Engine.step Admits (Engine.boot bus keepMin) events) {ticket : Nat}
    {built : Bool} {region : PendingSb}
    (installs : (Events.run Engine.step (Engine.boot bus keepMin) events).installable ticket
      built = some region) :
    ∀ page ∈ region.pages, ∀ i < 4096,
    (Events.run Engine.step (Engine.boot bus keepMin) events).bus.ram
          (usize (page.pp - RAM_BASE) + i) = region.code (usize (page.pp - RAM_BASE) + i) := by
  have tracked : PendingTracked (Events.run Engine.step (Engine.boot bus keepMin) events) :=
    admitted.keeps (fun _ _ admits tracked => tracked.step admits)
      (fun _ pending => absurd pending List.not_mem_nil)
  generalize Events.run Engine.step (Engine.boot bus keepMin) events = engine at installs tracked
  intro page mem i small
  unfold Engine.installable at installs
  split at installs
  · simp at installs
  · rename_i found search
    split at installs
    · simp at installs
    · split at installs
      · simp at installs
      · split at installs
        · simp at installs
        · rename_i fresh
          obtain rfl := Option.some.inj installs
          obtain ⟨inRam, bits⟩ := tracked found (List.mem_of_find?_eq_some search) page mem
          have landed : engine.bus.jitPageMarked (pageIndex page.pp) = true ∧
              pageIndex page.pp ∉ engine.bus.jitDirtyPages := by
            simp only [Engine.pendingRegionStale, Bool.not_eq_true, List.any_eq_false,
              Bool.or_eq_true, not_or, List.contains_iff_mem] at fresh
            have both := fresh page mem
            rw [Nat.mod_eq_of_lt inRam.index_lt] at both
            simpa using both
          rw [inRam.offset]
          exact bits landed.1 landed.2 i small

/-! ## Two runs on a board with two pages -/

namespace TwoPages

open Rv64Js.Board.TwoPages (twoPages)

def bare : FetchMap where
  probe := some
  wholePage va pa same := by
    obtain rfl := Option.some.inj same
    simp [pageOf, BitVec.and_assoc]

def codePage : CodePage := .of 0x80001000#64 0x80001000#64

/-- A hot pc in the code page that does not translate. -/
def untranslatable : Compile where
  pc := 0x80001000#64
  aspace := 0
  mapGen := 0
  map := bare
  singlePage := true
  batch := none
  picTargets := none
  block := none

def boot : Engine twoPages NoDevices :=
  .boot { ram := fun _ => 0, jitPages := fun _ => false, jitDirtyPages := [], devices := {} } 0

/-- A region is issued, its page is written and drained, and then marked again for a
blacklist entry. -/
def rewritten : List (Event NoDevices) :=
  [.issue [codePage] [0x80001000#64], .store .byte 0x80001000#64 1#8, .drain,
    .compile untranslatable]

/-- The region is installed although the page holds another byte. -/
theorem installs_stale_region :
    ((Events.run Engine.step boot rewritten).installable 0 true).map (fun region =>
        (region.pages, region.code 0x1000,
          (Events.run Engine.step boot rewritten).bus.ram 0x1000)) =
      some ([codePage], 0#8, 1#8) := by
  decide

def undisturbed : List (Event NoDevices) :=
  [.issue [codePage] [0x80001000#64], .store .byte 0x80000000#64 1#8, .drain]

theorem undisturbed_admitted : Events.Admitted step Admits boot undisturbed := by
  refine ⟨⟨trivial, fun _ pending => absurd pending not_mem_nil, ?_⟩, ?_, ?_, trivial⟩
  · intro page mem
    obtain rfl := mem_singleton.mp mem
    exact ⟨by decide, by decide⟩
  · refine ⟨⟨fun _ _ => ⟨by decide, by decide⟩, fun none => absurd none (by decide)⟩, ?_, trivial⟩
    intro region pending page mem remarks
    obtain rfl := mem_singleton.mp pending
    obtain rfl := mem_singleton.mp mem
    exact absurd remarks.1 (by decide)
  · refine ⟨trivial, fun region pending page mem remarks => ?_, trivial⟩
    obtain rfl := mem_singleton.mp pending
    obtain rfl := mem_singleton.mp mem
    exact absurd remarks.1 (by decide)

theorem undisturbed_installs_current :
    ((Events.run Engine.step boot undisturbed).installable 0 true).isSome = true ∧
      ∀ region, (Events.run Engine.step boot undisturbed).installable 0 true = some region →
        ∀ page ∈ region.pages, ∀ i < 4096,
          (Events.run Engine.step boot undisturbed).bus.ram (usize (page.pp - RAM_BASE) + i) =
            region.code (usize (page.pp - RAM_BASE) + i) :=
  ⟨by decide, fun _ installs => installed_region_current undisturbed_admitted installs⟩

end TwoPages

end Rv64Js.Jit
