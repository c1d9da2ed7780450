import Rv64Js.Core.Accesses
import Rv64Js.Core.ScalarT0Inline
import Rv64Js.Core.StatusChange
import Rv64Js.Core.Tags

/-! # Stable assertions and translation

The rules of `Keeps`, and what translation does to a stable assertion. -/

set_option autoImplicit false

namespace Rv64Js.Core

open Fallible BitVec

variable {β : Type} [Bus β]

namespace Keeps

variable {α : Type} {I : Machine β → Prop}

omit [Bus β]

variable {m : Exec β α}

theorem ite {p : Prop} [Decidable p] {n : Exec β α} (yes : Keeps I m) (no : Keeps I n) :
    Keeps I (if p then m else n) :=
  Along.ite yes no

theorem pure (a : α) : Keeps I (Pure.pure a : Exec β α) := fun _ kept => kept

end Keeps

theorem sameOffset_add {va diff : Word} (aligned : diff &&& 0xfff#64 = 0#64) :
    SameOffset va (va + diff) := by
  have zero : diff.toNat % 4096 = 0 := by
    rw [← toNat_pageOffset, aligned]
    rfl
  apply eq_of_toNat_eq
  rw [toNat_pageOffset, toNat_pageOffset, toNat_add]
  omega

theorem pageOffset_sub {va pa : Word} (same : SameOffset va pa) :
    (pa - va) &&& 0xfff#64 = 0#64 := by
  have offsets : pa.toNat % 4096 = va.toNat % 4096 := by
    rw [← toNat_pageOffset, ← toNat_pageOffset]
    exact congrArg BitVec.toNat same
  apply BitVec.eq_of_toNat_eq
  rw [toNat_pageOffset, toNat_sub]
  simp only [toNat_ofNat]
  omega

/-! ## What a walk returns -/

theorem leafMask_low (level i : Nat) (low : i < 12) :
    ((1#64 <<< (12 + 9 * level)) - 1#64).getLsbD i = true := by
  have split : 2 ^ (12 + 9 * level) = 4096 * 2 ^ (9 * level) := by rw [Nat.pow_add]
  have ones : ((1#64 <<< (12 + 9 * level)) - 1#64).toNat % 2 ^ 12 = 2 ^ 12 - 1 := by
    rw [toNat_sub, toNat_shiftLeft, Nat.shiftLeft_eq]
    simp only [toNat_ofNat, split]
    omega
  have bit := Nat.testBit_mod_two_pow ((1#64 <<< (12 + 9 * level)) - 1#64).toNat 12 i
  rw [ones, Nat.testBit_two_pow_sub_one] at bit
  simp only [low, decide_true, Bool.true_and] at bit
  exact bit.symm

theorem sameOffset_leaf (va ppn : Word) (level : Nat) : SameOffset va
      (((ppn <<< 12) &&& ~~~((1#64 <<< (12 + 9 * level)) - 1#64)) |||
        (va &&& ((1#64 <<< (12 + 9 * level)) - 1#64))) := by
  apply eq_of_getLsbD_eq
  intro i h
  by_cases low : i < 12
  · have mask := leafMask_low level i low
    simp only [getLsbD_and, getLsbD_or, getLsbD_not, mask, Bool.not_true,
      Bool.and_false, Bool.false_or, Bool.and_true]
  · have high : (0xfff#64).getLsbD i = false := by
      apply Nat.testBit_lt_two_pow
      exact Nat.lt_of_lt_of_le (show 0xfff < 2 ^ 12 by decide)
        (Nat.pow_le_pow_right (by omega) (by omega))
    simp only [getLsbD_and, high, Bool.and_false]

variable (sys : SysCsrs)

theorem walkLeaf_offset (va : Word) (access : Access) (level : Nat) (pteAddr pte : Word) :
    Returns (SameOffset va)
      (walkLeaf sys va access level pteAddr pte : EStateM Exception β Word) := by
  refine .ite (.throw _) (.ite (.throw _) (.ite (.throw _) (.ite (.throw _) ?_)))
  exact .ite (.bind fun _ => .pure (sameOffset_leaf va _ level))
    (.pure (sameOffset_leaf va _ level))

theorem walkTable_offset (va : Word) (access : Access) (level : Nat) (table : Word) :
    Returns (SameOffset va) (walkTable sys va access level table : EStateM Exception β Word) := by
  induction level generalizing table with
  | zero => exact .bind fun pte => .ite (.throw _) (.ite (.throw _) (walkLeaf_offset _ _ _ _ _ _))
  | succ level ih =>
    exact .bind fun pte => .ite (.throw _) (.ite (ih _) (walkLeaf_offset _ _ _ _ _ _))

theorem walk_offset (va : Word) (access : Access) : Returns (fun result => SameOffset va result.pa)
      (walk sys va access : EStateM Exception β Translation) := by
  refine .ite (.pure rfl) ?_
  cases satpLevels (sys.satp >>> 60) with
  | none => exact .throw _
  | some levels =>
    refine .ite (.throw _) ?_
    intro bus result bus' run
    have found := walkTable_offset (β := β) sys va access (levels - 1)
      ((sys.satp &&& 0xfffffffffff#64) <<< 12)
    cases walked : walkTable sys va access (levels - 1)
        ((sys.satp &&& 0xfffffffffff#64) <<< 12) bus with
    | ok pa bus'' =>
      rw [bind_ok _ walked] at run
      cases run
      exact found bus pa _ walked
    | error e bus'' =>
      rw [bind_error _ walked] at run
      cases run

/-! ## Bus operations, translation, loads and stores -/

def KeepsBus {α : Type} (I : Machine β → Prop) (op : EStateM Exception β α) : Prop :=
  ∀ hart,
    Along (fun bus bus' => I { hart := hart, bus := bus } → I { hart := hart, bus := bus' }) op

section Translation

variable {I : Machine β → Prop}

variable (stable : Stable I)

include stable

theorem keepsBus_read (width : Width) (addr : Word) :
    KeepsBus I (Bus.read width addr : EStateM Exception β _) :=
  fun hart bus kept => stable.read { hart := hart, bus := bus } width addr kept

theorem keepsBus_write (width : Width) (addr : Word) (val : BitVec width.bits) :
    KeepsBus I (Bus.write width addr val : EStateM Exception β _) :=
  fun hart bus kept => stable.write { hart := hart, bus := bus } width addr val kept

theorem keepsBus_fetch16 (addr : Word) : KeepsBus I (Bus.fetch16 addr : EStateM Exception β _) := by
  intro hart bus kept
  have after := keepsBus_read stable .half addr hart bus kept
  unfold Bus.fetch16
  cases run : Bus.read .half addr bus <;> rw [run] at after <;> exact after

theorem keepsBus_translateIn (row : Row) (hart : Hart) (va : Word) (access : Access) :
    KeepsBus I (translateIn row hart va access : EStateM Exception β (Word × Row)) :=
  fun held bus =>
  Operates.translateIn (R := fun bus bus' => I ⟨held, bus⟩ → I ⟨held, bus'⟩)
    { refl := fun _ => id
      trans := fun _ _ _ first second => second ∘ first
      read := fun width addr => keepsBus_read stable width addr held
      write := fun width addr val => keepsBus_write stable width addr val held } va access row hart
        bus

omit stable in
/-- How a data translation ends: the page offset is kept, and the row is the old
one or has this translation filled in. -/
theorem translateIn_data {hart : Hart} {store : Bool} {va pa : Word} {row : Row} {bus bus' : β}
    (aligned : ∀ i, (hart.dataTlb store).tag i ≠ TLB_INVALID →
      (hart.dataTlb store).val i &&& 0xfff#64 = 0#64)
    (run : translateIn (hart.dataTlb store) hart va (dataAccess store) bus = .ok (pa, row) bus') :
    SameOffset va pa ∧ (row = hart.dataTlb store ∨ row = (hart.dataTlb store).fill (tlbIndex va)
        (hart.translationTag va (dataAccess store)) (pa - va)) := by
  unfold translateIn at run
  cases system : hart.sys with
  | none =>
    simp only [system] at run
    cases run
    exact ⟨rfl, .inl rfl⟩
  | some sys =>
    simp only [system] at run
    by_cases hit : (hart.dataTlb store).tag (tlbIndex va) =
      hart.translationTag va (dataAccess store)
    · rw [if_pos hit] at run
      cases run
      refine ⟨sameOffset_add (aligned _ ?_), .inl rfl⟩
      rw [hit]
      exact translationTag_ne_invalid _ _ _
    · rw [if_neg hit] at run
      cases walked : walk sys va (dataAccess store) bus with
      | error e bus'' =>
        rw [bind_error _ walked] at run
        cases run
      | ok result bus'' =>
        rw [bind_ok _ walked] at run
        have offset := walk_offset sys va (dataAccess store) bus result bus'' walked
        by_cases cached : result.cached
        · simp only [if_pos cached] at run
          cases run
          exact ⟨offset, .inr rfl⟩
        · simp only [if_neg cached] at run
          cases run
          exact ⟨offset, .inl rfl⟩

omit stable [Bus β] in
theorem setDataTlb_self (hart : Hart) (store : Bool) :
    hart.setDataTlb store (hart.dataTlb store) = hart := by
  cases store <;> rfl

theorem translate_spec (va : Word) (store : Bool) (m : Machine β) (holds : I m) :
    I (finalState (translate va store m)) ∧ ∀ pa m', translate va store m = .ok pa m' →
    SameOffset va pa := by
  have onBus := keepsBus_translateIn stable (m.hart.dataTlb store) m.hart va (dataAccess store)
    m.hart m.bus holds
  unfold Core.translate
  cases run : translateIn (m.hart.dataTlb store) m.hart va (dataAccess store) m.bus with
  | error e bus =>
    rw [run] at onBus
    refine ⟨onBus, fun pa m' impossible => ?_⟩
    cases impossible
  | ok result bus =>
    obtain ⟨pa, row⟩ := result
    rw [run] at onBus
    obtain ⟨offset, rows⟩ := translateIn_data (fun i => stable.aligned m store i holds) run
    constructor
    · rcases rows with rfl | rfl
      · change I { hart := m.hart.setDataTlb store (m.hart.dataTlb store), bus := bus }
        rw [setDataTlb_self]
        exact onBus
      · exact stable.row { hart := m.hart, bus := bus } va pa store offset onBus
    · rintro pa' m' ⟨⟩
      exact offset

end Translation

end Rv64Js.Core
