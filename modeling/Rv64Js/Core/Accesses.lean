import Rv64Js.Core.Mmu

/-! # Data accesses and their parts

What holds of reads and writes of the bus holds of translation; what holds of the parts of a load
or a store holds of the whole. -/

set_option autoImplicit false

namespace Rv64Js.Core

open Fallible

variable {β : Type} [Bus β]

/-! ## Translation -/

/-- Reads and writes of the bus move it along `R`. -/
structure Operates (R : β → β → Prop) : Prop where
  refl : ∀ bus, R bus bus
  trans : ∀ a b c, R a b → R b c → R a c
  read : ∀ width addr, Along R (Bus.read width addr : EStateM Exception β _)
  write : ∀ width addr val, Along R (Bus.write width addr val : EStateM Exception β _)

namespace Operates

variable {R : β → β → Prop} (operates : Operates R) (sys : SysCsrs) (va : Word) (access : Access)
include operates

theorem walkLeaf (level : Nat) (pteAddr pte : Word) :
    Along R (walkLeaf sys va access level pteAddr pte : EStateM Exception β Word) := by
  have stop : Along R (throw (fault access va) : EStateM Exception β Word) := .throw operates.refl _
  refine .ite stop (.ite stop (.ite stop (.ite stop (.ite ?_ (.pure operates.refl _)))))
  exact .map _ (.withError (operates.write _ _ _))

theorem walkEntry (level : Nat) (table : Word) {next : Word → EStateM Exception β Word}
    (deeper : ∀ table, Along R (next table)) : Along R (walkEntry sys va access level table next) :=
  .bind operates.trans (.withError (operates.read _ _)) fun _ =>
    .ite (.throw operates.refl _) (.ite (deeper _) (operates.walkLeaf sys va access level _ _))

theorem walkTable (level : Nat) (table : Word) :
    Along R (walkTable sys va access level table : EStateM Exception β Word) := by
  induction level generalizing table with
  | zero => exact operates.walkEntry sys va access 0 table fun _ => .throw operates.refl _
  | succ level ih => exact operates.walkEntry sys va access (level + 1) table ih

theorem walk : Along R (walk sys va access : EStateM Exception β Translation) := by
  refine .ite (.pure operates.refl _) ?_
  cases satpLevels (sys.satp >>> 60) with
  | none => exact .throw operates.refl _
  | some levels =>
    exact .ite (.throw operates.refl _) (.map _ (operates.walkTable sys va access _ _))

theorem translateIn (row : Row) (hart : Hart) :
    Along R (translateIn row hart va access : EStateM Exception β (Word × Row)) := by
  unfold Core.translateIn
  cases hart.sys with
  | none => exact .pure operates.refl _
  | some sys => exact .ite (.pure operates.refl _) (.map _ (operates.walk sys va access))

end Operates

/-! ## Loads and stores -/

/-- The parts of a load move the machine along `R`; a fused entry is filled with the translation
just made. -/
structure Loads (R : Machine β → Machine β → Prop) : Prop where
  refl : ∀ m, R m m
  trans : ∀ a b c, R a b → R b c → R a c
  read : ∀ width pa, Along R (liftBus (Bus.read width pa) : Exec β _)
  walk : ∀ va store, Along R (translate va store : Exec β Word)
  fill : ∀ {m m' : Machine β} {va pa : Word} {store : Bool}, translate va store m = .ok pa m' →
    R m { m' with hart := m'.hart.fillJtlb m'.bus va pa store }

structure Stores (R : Machine β → Machine β → Prop) : Prop extends Loads R where
  write : ∀ width pa val, Along R (liftBus (Bus.write width pa val) : Exec β Unit)
  poke : ∀ (m : Machine β) (width : Width) (va : Word) (val : BitVec width.bits) (address : Word),
    m.hart.splits width va = false → m.hart.interpreterFusedPtr va true = some address →
      R m { m with bus := Bus.poke width address val m.bus }

section Accesses

variable {R : Machine β → Machine β → Prop}

theorem Loads.access (loads : Loads R) {α : Type} (va : Word) (store : Bool) {k : Word → Exec β α}
    (rest : ∀ pa, Along R (k pa)) :
    Along R (do let pa ← translate va store; fillJtlb va pa store; k pa) := by
  intro m
  cases run : translate va store m with
  | error e m' =>
    have walked := loads.walk va store m
    rw [run] at walked
    rw [bind_error _ run]
    exact walked
  | ok pa m' =>
    rw [bind_ok _ run]
    exact loads.trans _ _ _ (loads.fill run) (rest pa _)

theorem Loads.ldBytes (loads : Loads R) (va : Word) (n i : Nat) (v : Word) :
    Along R (ldBytes va n i v : Exec β Word) := by
  induction n generalizing i v with
  | zero => exact .pure loads.refl v
  | succ n ih =>
    exact .bind loads.trans (loads.walk _ _) fun pa => .bind loads.trans (loads.read _ pa) fun b =>
      ih _ _

theorem Loads.ldSlow (loads : Loads R) (width : Width) (va : Word) :
    Along R (ldSlow width va : Exec β Word) := by
  refine .bind loads.trans (.get loads.refl) fun m => .ite (loads.ldBytes _ _ _ _) ?_
  exact loads.access va false fun pa => .bind loads.trans (loads.read _ pa) fun v =>
    .pure loads.refl _

theorem Loads.ld (loads : Loads R) (width : Width) (va : Word) :
    Along R (ld width va : Exec β Word) := by
  intro m
  unfold Core.ld
  split
  · exact loads.ldSlow width va m
  · cases m.hart.interpreterFusedPtr va false with
    | none => exact loads.ldSlow width va m
    | some address => exact loads.refl m

theorem Stores.stBytes (stores : Stores R) (va val : Word) (n i : Nat) :
    Along R (stBytes va val n i : Exec β Unit) := by
  induction n generalizing i with
  | zero => exact .pure stores.refl ()
  | succ n ih =>
    exact .bind stores.trans (stores.walk _ _) fun pa =>
      .bind stores.trans (stores.write _ pa _) fun _ => ih _

theorem Stores.stSlow (stores : Stores R) (width : Width) (va val : Word) :
    Along R (stSlow width va val : Exec β Unit) := by
  refine .bind stores.trans (.get stores.refl) fun m => .ite (stores.stBytes _ _ _ _) ?_
  exact stores.access va true fun pa => stores.write _ pa _

theorem Stores.st (stores : Stores R) (width : Width) (va val : Word) :
    Along R (st width va val : Exec β Unit) := by
  intro m
  unfold Core.st
  by_cases splits : m.hart.splits width va
  · rw [if_pos splits]
    exact stores.stSlow width va val m
  · rw [if_neg splits]
    cases pointer : m.hart.interpreterFusedPtr va true with
    | none => exact stores.stSlow width va val m
    | some address => exact stores.poke m width va _ address (by simpa using splits) pointer

end Accesses

end Rv64Js.Core
