import Rv64Js.Core.Mmu

/-! # Translation tags

A tag is a page address with a permission context in its low bits; both can be read back, and no tag
is the invalid one. -/

set_option autoImplicit false

namespace Rv64Js.Core

open BitVec

variable (va : Word)

theorem getLsbD_pageOf (i : Nat) : (pageOf va).getLsbD i = (decide (12 ≤ i) && va.getLsbD i) := by
  have mask : ∀ j : Fin 64, pageMask.getLsbD j = decide (12 ≤ j.val) := by decide
  by_cases h : i < 64
  · have bit := mask ⟨i, h⟩
    simp only at bit
    rw [pageOf, getLsbD_and, bit, Bool.and_comm]
  · simp [pageOf, getLsbD_of_ge va i (by omega)]

theorem toNat_pageOffset : (va &&& 0xfff#64).toNat = va.toNat % 4096 := by
  rw [toNat_and]
  exact Nat.and_two_pow_sub_one_eq_mod va.toNat 12

theorem toNat_pageOf : (pageOf va).toNat = va.toNat / 4096 * 4096 := by
  have shifted : pageOf va = (va >>> 12) <<< 12 := by
    apply eq_of_getLsbD_eq
    intro i h
    rw [getLsbD_pageOf, getLsbD_shiftLeft, getLsbD_ushiftRight]
    by_cases low : i < 12
    · simp [low]
    · simp [low, h, show 12 + (i - 12) = i by omega, show 12 ≤ i by omega]
  have small := va.isLt
  rw [shifted, toNat_shiftLeft, toNat_ushiftRight, Nat.shiftLeft_eq, Nat.shiftRight_eq_div_pow]
  omega

theorem pageOf_add_offset : pageOf va + (va &&& 0xfff#64) = va := by
  apply eq_of_toNat_eq
  rw [toNat_add, toNat_pageOf, toNat_pageOffset, Nat.div_add_mod', Nat.mod_eq_of_lt va.isLt]

theorem toNat_or_pageMask (pa : Word) :
    (pa ||| 0xfff#64).toNat = pa.toNat / 4096 * 4096 + 4095 := by
  have high : pa.toNat ||| 4095 = (pa.toNat / 4096) <<< 12 ||| 4095 := by
    apply Nat.eq_of_testBit_eq
    intro i
    rw [Nat.testBit_or, Nat.testBit_or, show 4095 = 2 ^ 12 - 1 from rfl,
      Nat.testBit_two_pow_sub_one, Nat.testBit_shiftLeft, show 4096 = 2 ^ 12 from rfl,
      Nat.testBit_div_two_pow]
    by_cases low : i < 12
    · simp [low]
    · simp [low, show 12 ≤ i by omega, show i - 12 + 12 = i by omega]
  rw [toNat_or]
  change pa.toNat ||| 4095 = _
  rw [high, ← Nat.shiftLeft_add_eq_or_of_lt (by decide), Nat.shiftLeft_eq]

def IsContext (context : Word) : Prop := context.toNat < 16

instance (context : Word) : Decidable (IsContext context) :=
  inferInstanceAs (Decidable (_ < _))

theorem isContext_zero : IsContext 0#64 := by decide

variable {context : Word}

theorem IsContext.high (small : IsContext context) {i : Nat} (h : 4 ≤ i) :
    context.getLsbD i = false := by
  have bound : context.toNat < 2 ^ i :=
    Nat.lt_of_lt_of_le (show context.toNat < 2 ^ 4 from small) (Nat.pow_le_pow_right (by omega) h)
  exact Nat.testBit_lt_two_pow bound

theorem getLsbD_tag (small : IsContext context) (va : Word) (i : Nat) :
    (pageOf va ||| context).getLsbD i =
      if 12 ≤ i then va.getLsbD i else context.getLsbD i := by
  rw [getLsbD_or, getLsbD_pageOf]
  by_cases h : 12 ≤ i
  · simp [h, small.high (show 4 ≤ i by omega)]
  · simp [h]

variable {a b : Word}

theorem getLsbD_of_page (same : pageOf a = pageOf b) {i : Nat} (high : 12 ≤ i) :
    a.getLsbD i = b.getLsbD i := by
  have bit := congrArg (fun w : Word => w.getLsbD i) same
  simpa only [getLsbD_pageOf, high, decide_true, Bool.true_and] using bit

theorem shiftRight_of_page (same : pageOf a = pageOf b) {n : Nat} (high : 12 ≤ n) :
    a >>> n = b >>> n := by
  apply eq_of_getLsbD_eq
  intro i _
  rw [getLsbD_ushiftRight, getLsbD_ushiftRight, getLsbD_of_page same (by omega)]

theorem tlbIndex_of_page (same : pageOf a = pageOf b) : tlbIndex a = tlbIndex b :=
  congrArg (setWidth 12) (shiftRight_of_page same le_rfl)

theorem pageOf_tag (small : IsContext context) (va : Word) :
    pageOf (pageOf va ||| context) = pageOf va := by
  apply eq_of_getLsbD_eq
  intro i _
  rw [getLsbD_pageOf, getLsbD_pageOf, getLsbD_tag small]
  by_cases h : 12 ≤ i <;> simp [h]

theorem pageOf_pageOf : pageOf (pageOf va) = pageOf va := by
  have plain := pageOf_tag isContext_zero va
  simpa using plain

theorem tlbIndex_tag (small : IsContext context) (va : Word) :
    tlbIndex (pageOf va ||| context) = tlbIndex va :=
  tlbIndex_of_page (pageOf_tag small va)

theorem tag_ne_invalid (small : IsContext context) (va : Word) :
    pageOf va ||| context ≠ TLB_INVALID := by
  intro same
  have bit := congrArg (fun w : Word => w.getLsbD 4) same
  simp only [getLsbD_tag small, small.high (le_refl 4)] at bit
  simp [TLB_INVALID] at bit

theorem tag_context_eq {c c' : Word} (small : IsContext c) (small' : IsContext c')
    (same : pageOf a ||| c = pageOf b ||| c') : c = c' := by
  apply eq_of_getLsbD_eq
  intro i _
  have bit := congrArg (fun w : Word => w.getLsbD i) same
  simp only [getLsbD_tag small, getLsbD_tag small'] at bit
  by_cases h : 12 ≤ i
  · rw [small.high (show 4 ≤ i by omega), small'.high (show 4 ≤ i by omega)]
  · simpa [h] using bit

theorem tag_page_eq {c c' : Word} (small : IsContext c) (small' : IsContext c')
    (same : pageOf a ||| c = pageOf b ||| c') : pageOf a = pageOf b := by
  rw [← pageOf_tag small a, same, pageOf_tag small']

theorem IsContext.or (ha : IsContext a) (hb : IsContext b) : IsContext (a ||| b) := by
  unfold IsContext at *
  have both : a.toNat ||| b.toNat < 2 ^ 4 := Nat.or_lt_two_pow ha hb
  rwa [toNat_or]

theorem isContext_bits (mode : Mode) : IsContext mode.bits := by
  cases mode <;> decide

theorem isContext_flag (p : Prop) [Decidable p] {flag : Word} (small : IsContext flag) :
    IsContext (if p then flag else 0#64) := by
  split
  · exact small
  · decide

variable (hart : Hart)

theorem isContext_translation (access : Access) : IsContext (hart.translationContext access) := by
  unfold Hart.translationContext
  cases hart.sys with
  | none => exact isContext_zero
  | some sys =>
    exact ((isContext_bits _).or (isContext_flag _ (by decide))).or (isContext_flag _ (by decide))

theorem isContext_data : IsContext hart.dataTlbContext := by
  unfold Hart.dataTlbContext
  cases hart.sys with
  | none => exact isContext_zero
  | some sys =>
    exact ((isContext_bits _).or (isContext_flag _ (by decide))).or (isContext_flag _ (by decide))

theorem tlbIndex_translationTag (va : Word) (access : Access) :
    tlbIndex (hart.translationTag va access) = tlbIndex va :=
  tlbIndex_tag (isContext_translation hart access) va

theorem translationTag_ne_invalid (va : Word) (access : Access) :
    hart.translationTag va access ≠ TLB_INVALID :=
  tag_ne_invalid (isContext_translation hart access) va

end Rv64Js.Core
