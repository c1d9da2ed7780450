import Rv64Js.Core.Mmu

/-! # Assertions about hart and bus

`Stable` lists the ways in which the CPU touches its rows and its bus; an assertion that survives
each of them survives every instruction, trap and interrupt. Hart changes that put no entry into a
data or fused row settle it. -/

set_option autoImplicit false

namespace Rv64Js.Core

open Fallible (Along finalState)

def Row.Shrinks (row row' : Row) : Prop :=
  ∀ i, row'.tag i = TLB_INVALID ∨ (row'.tag i = row.tag i ∧ row'.val i = row.val i)

namespace Row.Shrinks

theorem refl (row : Row) : row.Shrinks row := fun _ => .inr ⟨rfl, rfl⟩

theorem trans {a b c : Row} (first : a.Shrinks b) (second : b.Shrinks c) : a.Shrinks c := by
  intro i
  rcases second i with dropped | ⟨tag, val⟩
  · exact .inl dropped
  · rcases first i with dropped | ⟨tag', val'⟩
    · exact .inl (tag.trans dropped)
    · exact .inr ⟨tag.trans tag', val.trans val'⟩

theorem invalidate (row : Row) : row.Shrinks row.invalidate := fun _ => .inl rfl

theorem dropPage (row : Row) (index : BitVec 12) (page : Word) :
    row.Shrinks (row.dropPage index page) := by
  intro i
  by_cases dropped : i = index ∧ pageOf (row.tag i) = page
  · left
    simp only [Row.dropPage, if_pos dropped]
  · right
    simp only [Row.dropPage, if_neg dropped, and_self]

end Row.Shrinks

/-- The hart keeps its translations or drops some, and stays a full system or not. -/
structure Hart.Settles (hart hart' : Hart) : Prop where
  load : hart.loadTlb.Shrinks hart'.loadTlb
  store : hart.storeTlb.Shrinks hart'.storeTlb
  fusedLoad : hart.fusedLoad.Shrinks hart'.fusedLoad
  fusedStore : hart.fusedStore.Shrinks hart'.fusedStore
  system : hart'.sys.isSome = hart.sys.isSome

namespace Hart.Settles

variable {a b c : Hart}

theorem refl (hart : Hart) : hart.Settles hart :=
  ⟨.refl _, .refl _, .refl _, .refl _, rfl⟩

theorem trans (first : a.Settles b) (second : b.Settles c) : a.Settles c :=
  ⟨first.load.trans second.load, first.store.trans second.store,
    first.fusedLoad.trans second.fusedLoad, first.fusedStore.trans second.fusedStore,
    second.system.trans first.system⟩

theorem same (load : b.loadTlb = a.loadTlb) (store : b.storeTlb = a.storeTlb)
    (fusedLoad : b.fusedLoad = a.fusedLoad) (fusedStore : b.fusedStore = a.fusedStore)
    (system : b.sys.isSome = a.sys.isSome) : a.Settles b :=
  ⟨load ▸ .refl _, store ▸ .refl _, fusedLoad ▸ .refl _, fusedStore ▸ .refl _, system⟩

end Hart.Settles

variable {β : Type} [Bus β]

/-- Translation keeps the offset inside the page. -/
def SameOffset (va pa : Word) : Prop := pa &&& 0xfff#64 = va &&& 0xfff#64

/-- An assertion that survives whatever the CPU does to rows and bus. -/
structure Stable (I : Machine β → Prop) : Prop where
  /-- registers, CSRs, traps and fences -/
  settle : ∀ m hart, m.hart.Settles hart → I m → I { m with hart := hart }
  read : ∀ m width addr, I m → I { m with bus := finalState (Bus.read width addr m.bus) }
  write : ∀ m width addr val, I m → I { m with bus := finalState (Bus.write width addr val m.bus) }
  irqLines : ∀ m, I m → I { m with bus := (Bus.irqLines m.bus).2 }
  /-- data rows hold differences of whole pages -/
  aligned : ∀ m store i, I m → (m.hart.dataTlb store).tag i ≠ TLB_INVALID →
    (m.hart.dataTlb store).val i &&& 0xfff#64 = 0#64
  /-- a walk fills a data row -/
  row : ∀ m va pa store, SameOffset va pa → I m →
    I { m with
        hart := m.hart.setDataTlb store
          ((m.hart.dataTlb store).fill (tlbIndex va)
            (m.hart.translationTag va (dataAccess store)) (pa - va)) }
  /-- a translated access offers its page to a fused row -/
  fused : ∀ m va pa store, SameOffset va pa → I m →
    I { m with hart := m.hart.fillJtlb m.bus va pa store }
  /-- a store through a fused row -/
  poke : ∀ m width va val address, m.hart.splits width va = false →
    m.hart.interpreterFusedPtr va true = some address → I m →
    I { m with bus := Bus.poke width address val m.bus }

/-- The computation keeps the assertion, successful or not. -/
def Keeps {α : Type} (I : Machine β → Prop) (m : Exec β α) : Prop :=
  Along (fun m m' => I m → I m') m

end Rv64Js.Core
