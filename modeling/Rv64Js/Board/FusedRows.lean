import Rv64Js.Board.SystemBus
import Rv64Js.Core.StableStep

/-! # Fused store rows and code pages

A store through a fused row passes the check that records stores to code pages by. Filling a row
therefore asks `jit_fast_off`, which refuses marked pages, and marking clears all fused store rows.
-/

set_option autoImplicit false

namespace Rv64Js.Board

open Rv64Js.Core BitVec
open Fallible (finalState)

variable {layout : Layout} {δ : Type}

/-- The row entry `tag, off` maps its virtual page to RAM page `page`. -/
def Layout.Maps (layout : Layout) (tag off : Word) (page : Nat) : Prop :=
  4096 * (page + 1) ≤ layout.ramLen ∧
    pageOf tag + off = layout.ramPtr + BitVec.ofNat 64 (4096 * page)

/-- Data rows hold whole-page differences, and every live fused store entry maps a
RAM page that holds no code. -/
structure FusedSafe (m : Machine (SystemBus layout δ)) : Prop where
  aligned : ∀ store i, (m.hart.dataTlb store).tag i ≠ TLB_INVALID →
    (m.hart.dataTlb store).val i &&& 0xfff#64 = 0#64
  unmarked : ∀ i, m.hart.fusedStore.tag i ≠ TLB_INVALID →
    ∃ page, layout.Maps (m.hart.fusedStore.tag i) (m.hart.fusedStore.val i) page ∧
      m.bus.jitPageMarked page = false

/-! ## The bus leaves the marks alone -/

namespace SystemBus

variable (bus : SystemBus layout δ)

theorem jitCheckStore_pages (addr : Word) : (bus.jitCheckStore addr).jitPages = bus.jitPages := by
  unfold jitCheckStore
  cases ramPage addr with
  | none => rfl
  | some page => simp only; split <;> rfl

variable [Peripherals δ] (width : Width)

theorem read_pages (addr : Word) :
    (finalState (Bus.read width addr bus)).jitPages = bus.jitPages := by
  change (finalState (SystemBus.read width addr bus)).jitPages = _
  unfold SystemBus.read
  cases bus.target addr width.bytes with
  | some off => rfl
  | none =>
    simp only
    rcases Peripherals.read width addr bus.devices with ⟨v, devices⟩
    cases v <;> rfl

theorem write_pages (addr : Word) (val : BitVec width.bits) :
    (finalState (Bus.write width addr val bus)).jitPages = bus.jitPages := by
  change (finalState (SystemBus.write width addr val bus)).jitPages = _
  unfold SystemBus.write
  rw [← jitCheckStore_pages bus addr]
  generalize bus.jitCheckStore addr = bus
  simp only
  cases bus.target addr width.bytes with
  | some off => rfl
  | none =>
    simp only
    rcases Peripherals.write width addr val bus.devices bus.ram with ⟨ok, devices, ram⟩
    cases ok <;> rfl

theorem poke_pages (address : Word) (val : BitVec width.bits) :
    (Bus.poke width address val bus).jitPages = bus.jitPages := by
  simp only [Bus.poke]
  split <;> rfl

end SystemBus

/-! ## What `jit_fast_off` hands out -/

theorem pageOf_add_shift {va pa base ptr : Word} (same : SameOffset va pa) :
    pageOf va + (ptr + (pa - base) - va) = ptr + (pageOf pa - base) := by
  have page := pageOf_add_offset va
  have page' := pageOf_add_offset pa
  rw [same] at page'
  generalize va &&& 0xfff#64 = offset at page page'
  generalize pageOf va = first at *
  generalize pageOf pa = second at *
  subst page page'
  grind

theorem ramPage_inside {pa : Word} (above : ¬ pa < RAM_BASE)
    (inside : ¬ RAM_BASE.toNat + layout.ramLen ≤ (pa ||| 0xfff#64).toNat) :
    4096 * (usize ((pa - RAM_BASE) >>> 12) + 1) ≤ layout.ramLen ∧
      pageOf pa - RAM_BASE = BitVec.ofNat 64 (4096 * usize ((pa - RAM_BASE) >>> 12)) := by
  have fits := layout.fits
  have base : RAM_BASE.toNat = 0x80000000 := rfl
  rw [lt_def, base] at above
  rw [toNat_or_pageMask, base] at inside
  have offset : (pa - RAM_BASE).toNat = pa.toNat - 0x80000000 :=
    toNat_sub_of_le (le_def.2 (by omega))
  have page : usize ((pa - RAM_BASE) >>> 12) = (pa.toNat - 0x80000000) / 4096 := by
    rw [usize, toNat_ushiftRight, Nat.shiftRight_eq_div_pow, offset]
    exact Nat.mod_eq_of_lt (by omega)
  rw [page]
  refine ⟨by omega, ?_⟩
  apply eq_of_toNat_eq
  rw [toNat_sub_of_le (le_def.2 (by rw [toNat_pageOf]; omega)), toNat_pageOf, base,
    toNat_ofNat, Nat.mod_eq_of_lt (by omega)]
  omega

/-- An offset is handed out for a whole RAM page, and for a store only when the
page holds no code. -/
theorem jitFastOff_maps {bus : SystemBus layout δ} {va pa off context : Word} {store : Bool}
    (handed : bus.jitFastOff va pa store = some off) (same : SameOffset va pa)
    (small : IsContext context) :
    ∃ page, layout.Maps (pageOf va ||| context) off page ∧
    (store = true → bus.jitPageMarked page = false) := by
  unfold SystemBus.jitFastOff at handed
  by_cases outside : pa < RAM_BASE ∨ RAM_BASE.toNat + layout.ramLen ≤ (pa ||| 0xfff#64).toNat
  · rw [if_pos outside] at handed
    cases handed
  · rw [if_neg outside] at handed
    by_cases code : (store && bus.jitPageMarked (usize ((pa - RAM_BASE) >>> 12))) = true
    · rw [if_pos code] at handed
      cases handed
    · rw [if_neg code] at handed
      cases handed
      obtain ⟨above, inside⟩ := not_or.1 outside
      obtain ⟨whole, at_page⟩ := ramPage_inside above inside
      refine ⟨usize ((pa - RAM_BASE) >>> 12), ⟨whole, ?_⟩, fun isStore => ?_⟩
      · rw [pageOf_tag small, pageOf_add_shift same, at_page]
      · simpa [isStore] using code

/-! ## The invariant is stable -/

namespace FusedSafe

variable {m : Machine (SystemBus layout δ)}

theorem settle (safe : FusedSafe m) {hart : Hart} (settles : m.hart.Settles hart) :
    FusedSafe { m with hart := hart } := by
  constructor
  · intro store i live
    have shrinks : (m.hart.dataTlb store).Shrinks (hart.dataTlb store) := by
      cases store with
      | true => exact settles.store
      | false => exact settles.load
    rcases shrinks i with dropped | ⟨tag, val⟩
    · exact absurd dropped live
    · change (hart.dataTlb store).tag i ≠ TLB_INVALID at live
      change (hart.dataTlb store).val i &&& 0xfff#64 = 0#64
      rw [tag] at live
      rw [val]
      exact safe.aligned store i live
  · intro i live
    rcases settles.fusedStore i with dropped | ⟨tag, val⟩
    · exact absurd dropped live
    · change hart.fusedStore.tag i ≠ TLB_INVALID at live
      rw [tag] at live
      simpa only [tag, val] using safe.unmarked i live

theorem withBus (safe : FusedSafe m) {bus : SystemBus layout δ}
    (pages : bus.jitPages = m.bus.jitPages) : FusedSafe { m with bus := bus } := by
  refine ⟨safe.aligned, fun i live => ?_⟩
  obtain ⟨page, maps, unmarked⟩ := safe.unmarked i live
  refine ⟨page, maps, ?_⟩
  simpa only [SystemBus.jitPageMarked, pages] using unmarked

theorem row (safe : FusedSafe m) (va : Word) {pa : Word} (store : Bool) (tag : Word)
    (same : SameOffset va pa) :
    FusedSafe { m with
        hart :=
          m.hart.setDataTlb store ((m.hart.dataTlb store).fill (tlbIndex va) tag (pa - va)) } := by
  constructor
  · intro store' i live
    have old := safe.aligned store' i
    have filled : ∀ row : Row, (row.tag i ≠ TLB_INVALID → row.val i &&& 0xfff#64 = 0#64) →
        (row.fill (tlbIndex va) tag (pa - va)).tag i ≠ TLB_INVALID →
          (row.fill (tlbIndex va) tag (pa - va)).val i &&& 0xfff#64 = 0#64 := by
      intro row before after
      by_cases here : i = tlbIndex va
      · simp only [Row.fill, if_pos here]
        exact pageOffset_sub same
      · simp only [Row.fill, if_neg here] at after ⊢
        exact before after
    cases store <;> cases store' <;> first | exact filled _ old live | exact old live
  · intro i live
    cases store <;> exact safe.unmarked i live

theorem fused [Peripherals δ] (safe : FusedSafe m) {va pa : Word} (store : Bool)
    (same : SameOffset va pa) : FusedSafe { m with hart := m.hart.fillJtlb m.bus va pa store } := by
  unfold Hart.fillJtlb
  cases handed : Bus.jitFastOff m.bus va pa store with
  | none => exact safe
  | some off =>
    obtain ⟨page, maps, unmarked⟩ := jitFastOff_maps handed same (isContext_data m.hart)
    cases store with
    | false => exact ⟨safe.aligned, safe.unmarked⟩
    | true =>
      refine ⟨safe.aligned, fun i live => ?_⟩
      by_cases here : i = m.hart.jitTlbIndex va
      · refine ⟨page, ?_, unmarked rfl⟩
        simpa [Hart.publishJtlb, Row.fill, here] using maps
      · have old := safe.unmarked i
        simp only [Hart.publishJtlb, Row.fill, if_neg here, if_true] at live ⊢
        exact old live

theorem stable [Peripherals δ] : Stable (FusedSafe : Machine (SystemBus layout δ) → Prop) where
  settle _ _ settles safe := safe.settle settles
  read m width addr safe := safe.withBus (SystemBus.read_pages m.bus width addr)
  write m width addr val safe := safe.withBus (SystemBus.write_pages m.bus width addr val)
  irqLines _ safe := safe.withBus rfl
  aligned _ store i safe live := safe.aligned store i live
  row _ va _ store same safe := safe.row va store _ same
  fused _ _ _ store same safe := safe.fused store same
  poke m width _ val address _ _ safe := safe.withBus (SystemBus.poke_pages m.bus width address val)

end FusedSafe

end Rv64Js.Board
