import Rv64Js.Board.FusedRows
import Rv64Js.Core.DriversAgree

/-! # Stores to code pages are seen

How hart, bus and marks change while a guest runs with the JIT, in any order. -/

set_option autoImplicit false

namespace Rv64Js.Board

open Rv64Js.Core SystemBus
open Fallible (finalState)

variable {layout : Layout} {δ : Type}

/-- Mark the pages of new code, then drop every fused store row
(`mark_jit_page` … `clear_store_jtlb`). -/
def installPages (pages : List Word) (s : System (SystemBus layout δ)) :
    System (SystemBus layout δ) where
  cpu := { s.cpu with hart := s.cpu.hart.clearStoreJtlb }
  bus := pages.foldl SystemBus.jitMarkPage s.bus

def withMachine {β : Type} (s : System β) (m : Machine β) : System β where
  cpu := { s.cpu with hart := m.hart }
  bus := m.bus

variable [Peripherals δ]

inductive Act (units : Units (SystemBus layout δ)) :
    System (SystemBus layout δ) → System (SystemBus layout δ) → Prop
  | run (s : System (SystemBus layout δ)) (budget : Nat) : Act units s (s.run units budget).2
  | runIntegrated (s : System (SystemBus layout δ)) (budget : Nat) :
      Act units s (s.runIntegratedScalar units budget).2
  /-- `jit_tlb_fill` and the refills of the bulk-copy helper -/
  | refill (s : System (SystemBus layout δ)) (va : Word) (store : Bool) :
      Act units s (withMachine s (jitFillTlb va store s.machine).2)
  /-- `jit_system_vector` -/
  | vectorMemory (s : System (SystemBus layout δ)) (insn : Insn) (load : Bool) :
      Act units s (withMachine s (finalState (units.vector.memory insn load s.machine)))
  | vectorArithmetic (s : System (SystemBus layout δ)) (insn : Insn) :
      Act units s (withMachine s (finalState (units.vector.arithmetic insn s.machine)))
  /-- a store of generated code or of the bulk-copy helper through a live row -/
  | inlineStore (s : System (SystemBus layout δ)) (i : BitVec 12) (width : Width) (va : Word)
      (val : BitVec width.bits) (live : s.cpu.hart.fusedStore.tag i ≠ TLB_INVALID)
      (samePage : pageOf (s.cpu.hart.fusedStore.tag i) = pageOf va) (inPage : InPage width va) :
      Act units s { s with bus := Bus.poke width (va + s.cpu.hart.fusedStore.val i) val s.bus }
  /-- registers written by generated code, and host calls: they lose translations or keep them -/
  | settle (s : System (SystemBus layout δ)) (cpu : Cpu) (settles : s.cpu.hart.Settles cpu.hart) :
      Act units s { s with cpu := cpu }
  | install (s : System (SystemBus layout δ)) (pages : List Word) :
      Act units s (installPages pages s)
  | unmark (s : System (SystemBus layout δ)) (page : Nat) :
      Act units s { s with bus := s.bus.jitUnmarkPage page }
  | takeDirty (s : System (SystemBus layout δ)) : Act units s { s with bus := s.bus.jitTakeDirty.2 }
  /-- device activity between instructions, DMA included -/
  | devices (s : System (SystemBus layout δ)) (devices : δ) (ram : Ram) :
      Act units s { s with bus := { s.bus with devices := devices, ram := ram } }

structure Booted (s : System (SystemBus layout δ)) : Prop where
  data : ∀ store i, (s.cpu.hart.dataTlb store).tag i = TLB_INVALID
  fused : ∀ i, s.cpu.hart.fusedStore.tag i = TLB_INVALID

variable {s : System (SystemBus layout δ)}

omit [Peripherals δ] in
theorem Booted.safe (booted : Booted s) : FusedSafe s.machine :=
  ⟨fun store i live => absurd (booted.data store i) live,
    fun i live => absurd (booted.fused i) live⟩

namespace FusedSafe

variable {m : Machine (SystemBus layout δ)}

theorem refill (safe : FusedSafe m) (va : Word) (store : Bool) :
    FusedSafe (jitFillTlb va store m).2 := by
  obtain ⟨kept, offset⟩ := translate_spec stable va store m safe
  unfold jitFillTlb
  cases run : translate va store m with
  | error e m' => rw [run] at kept; exact kept
  | ok pa m' =>
    rw [run, Fallible.finalState_ok] at kept
    have filled := FusedSafe.fused kept store (offset pa m' run)
    unfold Hart.fillJtlb at filled
    simp only
    cases handed : Bus.jitFastOff m'.bus va pa store with
    | none => exact kept
    | some off =>
      rw [handed] at filled
      exact filled

omit [Peripherals δ] in
theorem unmark (safe : FusedSafe m) (page : Nat) :
    FusedSafe { m with bus := m.bus.jitUnmarkPage page } := by
  refine ⟨safe.aligned, fun i live => ?_⟩
  obtain ⟨page', maps, unmarked⟩ := safe.unmarked i live
  refine ⟨page', maps, ?_⟩
  simp only [jitPageMarked, jitUnmarkPage, setPage,
    Bool.and_eq_false_iff, decide_eq_false_iff_not] at unmarked ⊢
  split
  · simp only
    split
    · exact .inr rfl
    · exact unmarked
  · exact unmarked

omit [Peripherals δ] in
theorem install {s : System (SystemBus layout δ)} (safe : FusedSafe s.machine) (pages : List Word) :
    FusedSafe (installPages pages s).machine :=
  ⟨safe.aligned, fun _ live => absurd rfl live⟩

end FusedSafe

variable {units : Units (SystemBus layout δ)}

theorem Act.keeps_safe {s' : System (SystemBus layout δ)} (act : Act units s s')
    (safe : FusedSafe s.machine) : FusedSafe s'.machine := by
  cases act with
  | run budget => exact System.keeps_run FusedSafe.stable units budget s safe
  | runIntegrated budget =>
    exact System.keeps_runIntegratedScalar FusedSafe.stable units budget s safe
  | refill va store => exact safe.refill va store
  | vectorMemory insn load =>
    exact keeps_vectorMemory FusedSafe.stable units.vector insn load _ safe
  | vectorArithmetic insn => exact keeps_vectorArithmetic FusedSafe.stable units.vector insn _ safe
  | inlineStore i width va val live samePage inPage => exact safe.withBus (poke_pages _ _ _ _)
  | settle cpu settles => exact safe.settle settles
  | install pages => exact safe.install pages
  | unmark page => exact safe.unmark page
  | takeDirty => exact safe.withBus rfl
  | devices devices ram => exact safe.withBus rfl

theorem reached_safe {boot : System (SystemBus layout δ)} (booted : Booted boot)
    (reached : Relation.ReflTransGen (Act units) boot s) : FusedSafe s.machine := by
  induction reached with
  | refl => exact booted.safe
  | tail _ act ih => exact act.keeps_safe ih

/-! ## What a row reaches, and what the bus records -/

variable {page : Nat}

omit [Peripherals δ] in
theorem Layout.Maps.unique {tag off : Word} {page' : Nat} (first : layout.Maps tag off page)
    (second : layout.Maps tag off page') : page = page' := by
  have fits := layout.fits
  have bound := first.1
  have bound' := second.1
  have same : BitVec.ofNat 64 (4096 * page) = BitVec.ofNat 64 (4096 * page') := by
    have both := first.2.symm.trans second.2
    grind
  have equal := congrArg BitVec.toNat same
  rw [BitVec.toNat_ofNat, BitVec.toNat_ofNat, Nat.mod_eq_of_lt (by omega),
    Nat.mod_eq_of_lt (by omega)] at equal
  omega

omit [Peripherals δ] in
/-- An access inside the row's page reaches the mapped RAM page and no other. -/
theorem Layout.Maps.reaches {tag off va : Word} (maps : layout.Maps tag off page)
    (samePage : pageOf tag = pageOf va) {width : Width} (inPage : InPage width va) :
    ∃ start, linearSlice layout (va + off) width.bytes = some start ∧
      4096 * page ≤ start ∧ start + width.bytes ≤ 4096 * (page + 1) := by
  obtain ⟨bound, mapped⟩ := maps
  have fits := layout.fits
  unfold InPage at inPage
  have small : (va &&& 0xfff#64).toNat < 4096 := by
    rw [toNat_pageOffset]
    exact Nat.mod_lt _ (by decide)
  have address : va + off = layout.ramPtr + (.ofNat 64 (4096 * page) + (va &&& 0xfff#64)) := by
    have split := pageOf_add_offset va
    rw [samePage] at mapped
    grind
  have inner : (.ofNat 64 (4096 * page) + (va &&& 0xfff#64)).toNat =
      4096 * page + (va &&& 0xfff#64).toNat := by
    rw [BitVec.toNat_add, BitVec.toNat_ofNat, Nat.mod_eq_of_lt (a := 4096 * page) (by omega),
      Nat.mod_eq_of_lt (by omega)]
  have whole : (va + off).toNat =
      layout.ramPtr.toNat + (4096 * page + (va &&& 0xfff#64).toNat) := by
    rw [address, BitVec.toNat_add, inner, Nat.mod_eq_of_lt (by omega)]
  have above : layout.ramPtr ≤ va + off := by
    rw [BitVec.le_def]
    omega
  have start : (va + off - layout.ramPtr).toNat = 4096 * page + (va &&& 0xfff#64).toNat := by
    rw [BitVec.toNat_sub_of_le above]
    omega
  refine ⟨4096 * page + (va &&& 0xfff#64).toNat, ?_, by omega, by omega⟩
  rw [linearSlice, start, if_pos ⟨above, by omega⟩]

theorem write_dirtyPages (bus : SystemBus layout δ) (width : Width) (addr : Word)
    (val : BitVec width.bits) :
    (finalState (Bus.write width addr val bus)).jitDirtyPages =
      (bus.jitCheckStore addr).jitDirtyPages := by
  change (finalState (SystemBus.write width addr val bus)).jitDirtyPages = _
  unfold SystemBus.write
  generalize bus.jitCheckStore addr = bus
  simp only
  cases bus.target addr width.bytes with
  | some off => rfl
  | none =>
    simp only
    rcases Peripherals.write width addr val bus.devices bus.ram with ⟨ok, devices, ram⟩
    cases ok <;> rfl

/-- A bus write to a code page is recorded, whatever becomes of the write. -/
theorem write_recorded (bus : SystemBus layout δ) (width : Width) {addr : Word}
    (val : BitVec width.bits) (at_page : ramPage addr = some page)
    (marked : bus.jitPageMarked page = true) :
    page ∈ (finalState (Bus.write width addr val bus)).jitDirtyPages := by
  rw [write_dirtyPages]
  simp [jitCheckStore, at_page, marked]

/-- From boot on, a live fused store row maps no RAM page with code, a store through it stays inside
one page, and a bus write to a page with code is recorded as dirty. -/
theorem fused_store_rows_avoid_code {units : Units (SystemBus layout δ)}
    {boot s : System (SystemBus layout δ)} (booted : Booted boot)
    (reached : Relation.ReflTransGen (Act units) boot s) :
    (∀ i page, s.cpu.hart.fusedStore.tag i ≠ TLB_INVALID →
      layout.Maps (s.cpu.hart.fusedStore.tag i) (s.cpu.hart.fusedStore.val i) page →
        s.bus.jitPageMarked page = false) ∧
        (∀ i width va, s.cpu.hart.fusedStore.tag i ≠ TLB_INVALID →
      pageOf (s.cpu.hart.fusedStore.tag i) = pageOf va → InPage width va → ∃ start page,
          SystemBus.linearSlice layout (va + s.cpu.hart.fusedStore.val i) width.bytes = some start ∧
            4096 * page ≤ start ∧ start + width.bytes ≤ 4096 * (page + 1) ∧
            s.bus.jitPageMarked page = false) ∧
    (∀ (width : Width) (addr : Word) (val : BitVec width.bits) (page : Nat),
      ramPage addr = some page → s.bus.jitPageMarked page = true →
        page ∈ (finalState (Bus.write width addr val s.bus)).jitDirtyPages) := by
  have safe := reached_safe booted reached
  refine ⟨?_, ?_, ?_⟩
  · intro i page live maps
    obtain ⟨page', maps', unmarked⟩ := safe.unmarked i live
    rw [maps.unique maps']
    exact unmarked
  · intro i width va live samePage inPage
    obtain ⟨page, maps, unmarked⟩ := safe.unmarked i live
    obtain ⟨start, slice, low, high⟩ := maps.reaches samePage inPage
    exact ⟨start, page, slice, low, high, unmarked⟩
  · intro width addr val page at_page marked
    exact write_recorded s.bus width val at_page marked

/-! ## A board with two pages -/

structure NoDevices where

instance : Peripherals NoDevices where
  claims _ _ := false
  read _ _ devices := (none, devices)
  write _ _ _ devices ram := (false, devices, ram)
  irqLines devices := (0, devices)

namespace TwoPages

def twoPages : Layout where
  ramPtr := 0x10000#64
  ramLen := 0x2000
  fits := by decide

def boot : System (SystemBus twoPages NoDevices) where
  cpu := Cpu.new.enableSystem 0#64
  bus := { ram := fun _ => 0, jitPages := fun _ => false, jitDirtyPages := [], devices := {} }

theorem boot_booted : Booted boot := ⟨fun store _ => by cases store <;> rfl, fun _ => rfl⟩

/-- Code is installed in the second page, then a store to the first one refills its row. -/
def running : System (SystemBus twoPages NoDevices) :=
  let installed := installPages [0x80001000#64] boot
  withMachine installed (jitFillTlb 0x80000000#64 true installed.machine).2

theorem running_avoids_code :
    running.cpu.hart.fusedStore.tag 0#12 ≠ TLB_INVALID ∧ running.bus.jitPageMarked 1 = true ∧
      ∀ i page, running.cpu.hart.fusedStore.tag i ≠ TLB_INVALID →
        twoPages.Maps (running.cpu.hart.fusedStore.tag i) (running.cpu.hart.fusedStore.val i) page →
          running.bus.jitPageMarked page = false := by
  refine ⟨by decide, by decide, ?_⟩
  have reached : Relation.ReflTransGen (Act Units.scalar) boot running :=
    .tail (.tail .refl (.install boot [0x80001000#64])) (.refill _ 0x80000000#64 true)
  exact (fused_store_rows_avoid_code boot_booted reached).1

end TwoPages

end Rv64Js.Board
