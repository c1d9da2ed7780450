import Rv64Js.Board.PageTables
import Rv64Js.Board.PageFence
import Rv64Js.Core.StatusChange

/-! # Cached translations agree with the page tables

Rows are filled under one setting and hit under another; the context bits of the tag keep them
apart. Each entry is compared with the tables at the time the rows were last emptied (the anchor);
while those stay, A and D aside, a walk gives what the entry gives. -/

set_option autoImplicit false

namespace Rv64Js.Board

open Rv64Js.Core Hart
open Fallible

/-! ## Contexts -/

def rightsContext (sys : SysCsrs) (access : Access) : Word :=
  (sys.effMode access).bits |||
    (if access ≠ .fetch ∧ sys.mstatus &&& MSTATUS_SUM ≠ 0#64 then TLB_CTX_SUM else 0#64) |||
    (if access = .load ∧ sys.mstatus &&& MSTATUS_MXR ≠ 0#64 then TLB_CTX_MXR else 0#64)

def dataContext (sys : SysCsrs) : Word :=
  (sys.effMode .load).bits |||
    (if sys.mstatus &&& MSTATUS_SUM ≠ 0#64 then TLB_CTX_SUM else 0#64) |||
    (if sys.mstatus &&& MSTATUS_MXR ≠ 0#64 then TLB_CTX_MXR else 0#64)

theorem translationContext_some {hart : Hart} {sys : SysCsrs} (system : hart.sys = some sys)
    (access : Access) : hart.translationContext access = rightsContext sys access := by
  unfold translationContext
  rw [system]
  rfl

theorem dataTlbContext_some {hart : Hart} {sys : SysCsrs} (system : hart.sys = some sys) :
    hart.dataTlbContext = dataContext sys := by
  unfold dataTlbContext
  rw [system]
  rfl

variable (sys : SysCsrs)

theorem isContext_rights (access : Access) : IsContext (rightsContext sys access) :=
  ((isContext_bits _).or (isContext_flag _ (by decide))).or (isContext_flag _ (by decide))

theorem isContext_dataContext : IsContext (dataContext sys) :=
  ((isContext_bits _).or (isContext_flag _ (by decide))).or (isContext_flag _ (by decide))

theorem context_bits_inj (m m' : Mode) : ∀ p q p' q' : Bool,
    m'.bits ||| (if p' then TLB_CTX_SUM else 0#64) ||| (if q' then TLB_CTX_MXR else 0#64) =
      m.bits ||| (if p then TLB_CTX_SUM else 0#64) ||| (if q then TLB_CTX_MXR else 0#64) →
    m' = m ∧ p' = p ∧ q' = q := by
  cases m <;> cases m' <;> decide

theorem context_inj {m m' : Mode} {p q p' q' : Prop} [Decidable p] [Decidable q] [Decidable p']
    [Decidable q']
    (same : m'.bits ||| (if p' then TLB_CTX_SUM else 0#64) ||| (if q' then TLB_CTX_MXR else 0#64) =
      m.bits ||| (if p then TLB_CTX_SUM else 0#64) ||| (if q then TLB_CTX_MXR else 0#64)) :
    m' = m ∧ (p' ↔ p) ∧ (q' ↔ q) := by
  have bits := context_bits_inj m m' (decide p) (decide q) (decide p') (decide q')
  simp only [decide_eq_true_eq] at bits
  obtain ⟨mode, sum, mxr⟩ := bits same
  exact ⟨mode, decide_eq_decide.mp sum, decide_eq_decide.mp mxr⟩

theorem sameRights_of_context {sys sys' : SysCsrs} {access : Access} (satp : sys'.satp = sys.satp)
    (same : rightsContext sys' access = rightsContext sys access) : SameRights sys sys' access := by
  obtain ⟨mode, sum, mxr⟩ := context_inj same
  refine ⟨satp, mode, fun data => ?_, fun load => ?_⟩
  · simpa [data] using sum
  · simpa [load] using mxr

theorem effMode_data (store : Bool) : sys.effMode (dataAccess store) = sys.effMode .load := by
  cases store with
  | false => rfl
  | true => simp [SysCsrs.effMode, dataAccess]

theorem sameRights_of_data {sys sys' : SysCsrs} (satp : sys'.satp = sys.satp)
    (same : dataContext sys' = dataContext sys) (store : Bool) :
    SameRights sys sys' (dataAccess store) := by
  obtain ⟨mode, sum, mxr⟩ := context_inj same
  exact ⟨satp, by rw [effMode_data, effMode_data, mode], fun _ => sum, fun _ => mxr⟩

section Rows

variable {layout : Layout} {δ : Type} [Peripherals δ] {anchor : SystemBus layout δ} {satp : Word}

variable {bus : SystemBus layout δ}

theorem TablesKept.left {va : Word} (kept : TablesKept satp va anchor bus) :
    TablesKept satp va anchor anchor := by
  intro levels depth
  obtain ⟨e, -, found, -⟩ := kept levels depth
  exact ⟨e, e, found, found, rfl, rfl⟩

/-! ## Rows -/

/-- Every hit of a row, under any setting, is what a walk of the anchor gives. -/
def RowSound (anchor : SystemBus layout δ) (satp : Word) (access : Access) (row : Row) : Prop :=
  ∀ sys va, sys.satp = satp → row.tag (tlbIndex va) = pageOf va ||| rightsContext sys access →
    anchor.Yields sys va access (va + row.val (tlbIndex va))

/-- A fused entry gives the linear address of the byte a walk of the anchor gives. -/
def FusedSound (anchor : SystemBus layout δ) (satp : Word) (hart : Hart) (store : Bool)
    (row : Row) : Prop :=
  ∀ sys va, sys.satp = satp → row.tag (hart.jitTlbIndex va) = pageOf va ||| dataContext sys →
    ∃ pa, anchor.Yields sys va (dataAccess store) pa ∧
      va + row.val (hart.jitTlbIndex va) = layout.ramPtr + (pa - RAM_BASE)

variable {row row' : Row}

theorem RowSound.shrink {access : Access} (sound : RowSound anchor satp access row)
    (shrinks : row.Shrinks row') : RowSound anchor satp access row' := by
  intro sys va same hit
  rcases shrinks (tlbIndex va) with dropped | ⟨tag, val⟩
  · exact absurd (hit.symm.trans dropped) (tag_ne_invalid (isContext_rights sys access) va)
  · rw [val]
    exact sound sys va same (tag.symm.trans hit)

variable {hart hart' : Hart} {store : Bool}

theorem FusedSound.shrink (sound : FusedSound anchor satp hart store row)
    (shrinks : row.Shrinks row')
    (hashed : hart'.jtlbHashed = hart.jtlbHashed) : FusedSound anchor satp hart' store row' := by
  have index : ∀ va, hart'.jitTlbIndex va = hart.jitTlbIndex va := fun va => by
    unfold jitTlbIndex
    rw [hashed]
  intro sys va same hit
  rw [index] at hit ⊢
  rcases shrinks (hart.jitTlbIndex va) with dropped | ⟨tag, val⟩
  · exact absurd (hit.symm.trans dropped) (tag_ne_invalid (isContext_dataContext sys) va)
  · rw [val]
    exact sound sys va same (tag.symm.trans hit)

variable {va pa : Word} {sys : SysCsrs}

theorem RowSound.fill {access : Access} (sound : RowSound anchor satp access row)
    (inRam : TablesKept satp va anchor anchor) (root : sys.satp = satp)
    (yields : anchor.Yields sys va access pa) :
    RowSound anchor satp access
      (row.fill (tlbIndex va) (pageOf va ||| rightsContext sys access) (pa - va)) := by
  intro sys' va' root' hit
  simp only [Row.fill] at hit ⊢
  by_cases here : tlbIndex va' = tlbIndex va
  · rw [if_pos here] at hit ⊢
    have small := isContext_rights sys access
    have small' := isContext_rights sys' access
    have page := tag_page_eq small' small hit.symm
    have rights := sameRights_of_context (root'.trans root.symm)
      (tag_context_eq small' small hit.symm)
    subst root
    rw [rights.yields (inRam.of_page page)]
    exact yields_of_page inRam page yields
  · rw [if_neg here] at hit ⊢
    exact sound sys' va' root' hit

variable {off : Word}

theorem FusedSound.fill (sound : FusedSound anchor satp hart store row)
    (inRam : TablesKept satp va anchor anchor) (root : sys.satp = satp)
    (yields : anchor.Yields sys va (dataAccess store) pa)
    (offset : va + off = layout.ramPtr + (pa - RAM_BASE)) :
    FusedSound anchor satp hart store
      (row.fill (hart.jitTlbIndex va) (pageOf va ||| dataContext sys) off) := by
  intro sys' va' root' hit
  simp only [Row.fill] at hit ⊢
  by_cases here : hart.jitTlbIndex va' = hart.jitTlbIndex va
  · rw [if_pos here] at hit ⊢
    have small := isContext_dataContext sys
    have small' := isContext_dataContext sys'
    have page := tag_page_eq small' small hit.symm
    have rights := sameRights_of_data (root'.trans root.symm)
      (tag_context_eq small' small hit.symm) store
    subst root
    refine ⟨va' + (pa - va), ?_, ?_⟩
    · rw [rights.yields (inRam.of_page page)]
      exact yields_of_page inRam page yields
    · grind
  · rw [if_neg here] at hit ⊢
    exact sound sys' va' root' hit

/-! ## The hart -/

/-- The context cell is up to date, or has not been set since reset and no entry has its
context: the hart is in machine mode and the cell says user mode. -/
def CellSound (hart : Hart) : Prop :=
  hart.jitTlbContext = hart.dataTlbContext ∨
    hart.jitTlbContext = 0#64 ∧ hart.dataTlbContext = 3#64 ∧
      ∀ store i, (hart.fusedRow store).tag i = TLB_INVALID ∨
        ∃ va, (hart.fusedRow store).tag i = pageOf va ||| 3#64

structure TlbSound (anchor : SystemBus layout δ) (satp : Word) (hart : Hart) (fetch : Row) :
    Prop where
  fetch : RowSound anchor satp .fetch fetch
  data : ∀ store, RowSound anchor satp (dataAccess store) (hart.dataTlb store)
  fused : ∀ store, FusedSound anchor satp hart store (hart.fusedRow store)
  cell : CellSound hart

/-! ## Translation fills rows soundly -/

theorem translateIn_sound (system : hart.sys = some sys) {bus' : SystemBus layout δ}
    (kept : TablesKept sys.satp va anchor bus) {access : Access}
    (sound : RowSound anchor sys.satp access row)
    (run : translateIn row hart va access bus = .ok (pa, row') bus') :
    anchor.Yields sys va access pa ∧ RowSound anchor sys.satp access row' := by
  unfold translateIn at run
  rw [system] at run
  simp only at run
  have tag : hart.translationTag va access = pageOf va ||| rightsContext sys access := by
    unfold translationTag
    rw [translationContext_some system]
  rw [tag] at run
  by_cases hit : row.tag (tlbIndex va) = pageOf va ||| rightsContext sys access
  · rw [if_pos hit] at run
    cases run
    exact ⟨sound sys va rfl hit, sound⟩
  · rw [if_neg hit] at run
    cases walked : walk sys va access bus with
    | error e bus₁ => rw [bind_error _ walked] at run; cases run
    | ok result bus₁ =>
      rw [bind_ok _ walked] at run
      cases run
      have yields : anchor.Yields sys va access result.pa :=
        (kept.yields access result.pa).mp ⟨result.cached, bus', walked⟩
      refine ⟨yields, ?_⟩
      split
      · exact sound.fill kept.left rfl yields
      · exact sound

variable {fetch : Row}

theorem TlbSound.setDataTlb (sound : TlbSound anchor satp hart fetch) (store : Bool)
    (filled : RowSound anchor satp (dataAccess store) row) :
    TlbSound anchor satp (hart.setDataTlb store row) fetch := by
  refine ⟨sound.fetch, fun store' => ?_, fun store' => ?_, ?_⟩
  · have others := sound.data store'
    cases store <;> cases store' <;> first | exact filled | exact others
  · have others := sound.fused store'
    cases store <;> cases store' <;> exact others
  · have cell := sound.cell
    cases store <;> exact cell

variable {m : Machine (SystemBus layout δ)}

/-- A translation keeps the rows sound, and gives what a walk of the anchor gives. -/
theorem translate_sound (system : m.hart.sys = some sys)
    (kept : TablesKept sys.satp va anchor m.bus) (sound : TlbSound anchor sys.satp m.hart fetch)
    (store : Bool) :
    (finalState (translate va store m)).hart.sys = some sys ∧
      TlbSound anchor sys.satp (finalState (translate va store m)).hart fetch ∧
      ∀ pa m', translate va store m = .ok pa m' → anchor.Yields sys va (dataAccess store) pa := by
  unfold Core.translate
  cases run : translateIn (m.hart.dataTlb store) m.hart va (dataAccess store) m.bus with
  | error e bus => exact ⟨system, sound, fun _ _ absurd => nomatch absurd⟩
  | ok found bus =>
    obtain ⟨yields, filled⟩ := translateIn_sound system kept (sound.data store) run
    refine ⟨(sys_of_registers (registers_setDataTlb _ _ _)).trans system,
      sound.setDataTlb store filled, ?_⟩
    intro pa m' same
    cases same
    exact yields

theorem jitFastOff_linear (found : Bus.jitFastOff bus va pa store = some off) :
    va + off = layout.ramPtr + (pa - RAM_BASE) := by
  change SystemBus.jitFastOff bus va pa store = some off at found
  unfold SystemBus.jitFastOff at found
  split at found
  · cases found
  · split at found
    · cases found
    · obtain rfl := Option.some.inj found
      grind

theorem TlbSound.publish (system : hart.sys = some sys)
    (sound : TlbSound anchor sys.satp hart fetch) (inRam : TablesKept sys.satp va anchor anchor)
    (yields : anchor.Yields sys va (dataAccess store) pa)
    (offset : va + off = layout.ramPtr + (pa - RAM_BASE)) :
    TlbSound anchor sys.satp
      (hart.publishJtlb store (hart.jitTlbIndex va) (pageOf va ||| hart.dataTlbContext) off)
        fetch := by
  have filled := (sound.fused store).fill inRam rfl yields offset
  rw [dataTlbContext_some system]
  refine ⟨sound.fetch, fun store' => ?_, fun store' => ?_, ?_⟩
  · have same := sound.data store'
    cases store <;> cases store' <;> exact same
  · have others := sound.fused store'
    cases store <;> cases store' <;> first | exact filled | exact others
  · rcases sound.cell with synced | ⟨unset, machine, tags⟩
    · left
      cases store <;> exact synced
    · right
      have context : dataContext sys = 3#64 := (dataTlbContext_some system).symm.trans machine
      refine ⟨by cases store <;> exact unset, by cases store <;> exact machine, ?_⟩
      intro store' i
      have old := tags store' i
      have new : ∀ row : Row, (row.tag i = TLB_INVALID ∨ ∃ va, row.tag i = pageOf va ||| 3#64) →
          ((row.fill (hart.jitTlbIndex va) (pageOf va ||| dataContext sys) off).tag
            i = TLB_INVALID ∨
            ∃ va', (row.fill (hart.jitTlbIndex va) (pageOf va ||| dataContext sys) off).tag i =
              pageOf va' ||| 3#64) := by
        intro row kept
        simp only [Row.fill]
        split
        · exact .inr ⟨va, by rw [context]⟩
        · exact kept
      cases store <;> cases store' <;> first | exact new _ old | exact old

theorem TlbSound.fillJtlb (system : m.hart.sys = some sys)
    (sound : TlbSound anchor sys.satp m.hart fetch) (inRam : TablesKept sys.satp va anchor anchor)
    (yields : anchor.Yields sys va (dataAccess store) pa) :
    TlbSound anchor sys.satp (m.hart.fillJtlb m.bus va pa store) fetch := by
  unfold Hart.fillJtlb
  cases found : Bus.jitFastOff m.bus va pa store with
  | none => exact sound
  | some off => exact sound.publish system inRam yields (jitFastOff_linear found)

/-! ## Accesses -/

def Holds (anchor : SystemBus layout δ) (sys : SysCsrs) (fetch : Row)
    (m : Machine (SystemBus layout δ)) : Prop :=
  m.hart.sys = some sys ∧ TlbSound anchor sys.satp m.hart fetch

variable {sys : SysCsrs} {m : Machine (SystemBus layout δ)}

theorem Holds.translate (holds : Holds anchor sys fetch m)
    (kept : TablesKept sys.satp va anchor m.bus) (store : Bool) :
    Holds anchor sys fetch (finalState (translate va store m)) := by
  obtain ⟨system, sound, -⟩ := translate_sound holds.1 kept holds.2 store
  exact ⟨system, sound⟩

/-- The slow path of an access: translate, offer the page to a fused row, go to the bus. -/
theorem Holds.access (holds : Holds anchor sys fetch m) (kept : TablesKept sys.satp va anchor m.bus)
    (store : Bool) {α : Type} {rest : Word → Exec (SystemBus layout δ) α}
    (onBus : ∀ pa, Along (fun m m' => m'.hart = m.hart) (rest pa)) :
    Holds anchor sys fetch (finalState ((Core.translate va store >>= fun pa =>
      Core.fillJtlb va pa store >>= fun _ => rest pa) m)) := by
  obtain ⟨system, sound, yields⟩ := translate_sound holds.1 kept holds.2 store
  cases run : Core.translate va store m with
  | error e m₁ =>
    rw [bind_error _ run]
    rw [run] at system sound
    exact ⟨system, sound⟩
  | ok pa m₁ =>
    rw [bind_ok _ run]
    rw [run] at system sound
    have filled := sound.fillJtlb system kept.left (yields pa m₁ run)
    have after := onBus pa { m₁ with hart := m₁.hart.fillJtlb m₁.bus va pa store }
    change Holds anchor sys fetch (finalState (rest pa
      { m₁ with hart := m₁.hart.fillJtlb m₁.bus va pa store }))
    refine ⟨?_, ?_⟩
    · rw [after]
      exact (sys_of_registers (registers_fillJtlb _ _ _ _ _)).trans system
    · rw [after]
      exact filled

omit [Peripherals δ] in
theorem liftBus_hart {α : Type} (op : EStateM Exception (SystemBus layout δ) α) :
    Along (fun m m' => m'.hart = m.hart) (liftBus op) := by
  intro m
  unfold liftBus zoom
  cases op m.bus <;> rfl

/-- One byte of a page-crossing access: translate, go to the bus, go on from where that led. -/
theorem Holds.byte (holds : Holds anchor sys fetch m) (kept : TablesKept sys.satp va anchor m.bus)
    (store : Bool) {α γ : Type} (op : Word → EStateM Exception (SystemBus layout δ) α)
    {rest : α → Exec (SystemBus layout δ) γ} (next : ∀ a m₂, Holds anchor sys fetch m₂ →
      (∀ f : α → Exec (SystemBus layout δ) γ,
        (Core.translate va store >>= fun pa => liftBus (op pa) >>= f) m = f a m₂) →
      Holds anchor sys fetch (finalState (rest a m₂))) :
    Holds anchor sys fetch
    (finalState ((Core.translate va store >>= fun pa => liftBus (op pa) >>= rest) m)) := by
  have first := holds.translate kept store
  cases translated : Core.translate va store m with
  | error e m₁ =>
    rw [translated] at first
    rw [bind_error _ translated]
    exact first
  | ok pa m₁ =>
    rw [translated] at first
    cases run : op pa m₁.bus with
    | error e bus =>
      have failed : liftBus (op pa) m₁ = .error e { m₁ with bus := bus } := zoom_error run
      rw [bind_ok _ translated, bind_error _ failed]
      exact first
    | ok a bus =>
      have reached : ∀ f : α → Exec (SystemBus layout δ) γ, (Core.translate va store >>= fun pa =>
          liftBus (op pa) >>= f) m = f a { m₁ with bus := bus } := fun f =>
        (bind_ok _ translated).trans (bind_ok f (zoom_ok run))
      rw [reached]
      exact next a _ first reached

/-- The bytes of a page-crossing load, while the tables are kept at each of them. -/
theorem Holds.ldBytes (holds : Holds anchor sys fetch m) (va : Word) (n i : Nat) (v : Word)
    (kept : ∀ k < n, TablesKept sys.satp (va + BitVec.ofNat 64 (i + k)) anchor
      (finalState (ldBytes va k i v m)).bus) :
    Holds anchor sys fetch (finalState (Core.ldBytes va n i v m)) := by
  induction n generalizing i v m with
  | zero => exact holds
  | succ n ih =>
    have here : TablesKept sys.satp (va + BitVec.ofNat 64 i) anchor m.bus := kept 0 (by omega)
    refine holds.byte here false _ fun b m₂ after reached => ih after _ _ fun k below => ?_
    have later := kept (k + 1) (by omega)
    rw [Nat.succ_add_eq_add_succ]
    rwa [Core.ldBytes, reached] at later

theorem Holds.stBytes (holds : Holds anchor sys fetch m) (va val : Word) (n i : Nat)
    (kept : ∀ k < n, TablesKept sys.satp (va + BitVec.ofNat 64 (i + k)) anchor
      (finalState (stBytes va val k i m)).bus) :
    Holds anchor sys fetch (finalState (Core.stBytes va val n i m)) := by
  induction n generalizing i m with
  | zero => exact holds
  | succ n ih =>
    have here : TablesKept sys.satp (va + BitVec.ofNat 64 i) anchor m.bus := kept 0 (by omega)
    refine holds.byte here true _ fun _ m₂ after reached => ih after _ fun k below => ?_
    have later := kept (k + 1) (by omega)
    rw [Nat.succ_add_eq_add_succ]
    rwa [Core.stBytes, reached] at later

/-- The addresses a load translates, each with the bus before. -/
def loadWalks (width : Width) (va : Word) (m : Machine (SystemBus layout δ)) :
    List (Word × SystemBus layout δ) :=
  if m.hart.splits width va then
    (List.range width.bytes).map fun k =>
      (va + BitVec.ofNat 64 k, (finalState (Core.ldBytes va k 0 0#64 m)).bus)
  else [(va, m.bus)]

def storeWalks (width : Width) (va val : Word) (m : Machine (SystemBus layout δ)) :
    List (Word × SystemBus layout δ) :=
  if m.hart.splits width va then
    (List.range width.bytes).map fun k =>
      (va + BitVec.ofNat 64 k, (finalState (Core.stBytes va val k 0 m)).bus)
  else [(va, m.bus)]

theorem Holds.ld (holds : Holds anchor sys fetch m) (width : Width) (va : Word)
    (kept : ∀ walk ∈ loadWalks width va m, TablesKept sys.satp walk.1 anchor walk.2) :
    Holds anchor sys fetch (finalState (Core.ld width va m)) := by
  unfold loadWalks at kept
  unfold Core.ld
  by_cases splits : m.hart.splits width va = true
  · rw [if_pos splits] at kept
    rw [if_pos splits, ldSlow, get_bind, if_pos splits]
    refine holds.ldBytes va width.bytes 0 0#64 fun k below => ?_
    rw [Nat.zero_add]
    exact kept _ (List.mem_map.mpr ⟨k, List.mem_range.mpr below, rfl⟩)
  · rw [if_neg splits] at kept
    rw [if_neg splits]
    cases m.hart.interpreterFusedPtr va false with
    | some address => exact holds
    | none =>
      simp only
      rw [ldSlow, get_bind, if_neg splits]
      refine holds.access (kept _ List.mem_cons_self) false fun pa => ?_
      exact .bind (fun _ _ _ first second => second.trans first) (liftBus_hart _)
        fun _ m => rfl

theorem Holds.st (holds : Holds anchor sys fetch m) (width : Width) (va val : Word)
    (kept : ∀ walk ∈ storeWalks width va val m, TablesKept sys.satp walk.1 anchor walk.2) :
    Holds anchor sys fetch (finalState (Core.st width va val m)) := by
  unfold storeWalks at kept
  unfold Core.st
  by_cases splits : m.hart.splits width va = true
  · rw [if_pos splits] at kept
    rw [if_pos splits, stSlow, get_bind, if_pos splits]
    refine holds.stBytes va val width.bytes 0 fun k below => ?_
    rw [Nat.zero_add]
    exact kept _ (List.mem_map.mpr ⟨k, List.mem_range.mpr below, rfl⟩)
  · rw [if_neg splits] at kept
    rw [if_neg splits]
    cases m.hart.interpreterFusedPtr va true with
    | some address => exact holds
    | none =>
      simp only
      rw [stSlow, get_bind, if_neg splits]
      exact holds.access (kept _ List.mem_cons_self) true fun pa => liftBus_hart _

theorem Holds.jitFillTlb (holds : Holds anchor sys fetch m)
    (kept : TablesKept sys.satp va anchor m.bus) (store : Bool) :
    Holds anchor sys fetch (Core.jitFillTlb va store m).2 := by
  obtain ⟨system, sound, yields⟩ := translate_sound holds.1 kept holds.2 store
  unfold Core.jitFillTlb
  cases run : Core.translate va store m with
  | error e m₁ =>
    rw [run] at system sound
    exact ⟨system, sound⟩
  | ok pa m₁ =>
    rw [run] at system sound
    simp only
    cases found : Bus.jitFastOff m₁.bus va pa store with
    | none => exact ⟨system, sound⟩
    | some off =>
      refine ⟨?_, sound.publish system kept.left (yields pa m₁ run) (jitFastOff_linear found)⟩
      refine .trans ?_ system
      cases store <;> rfl

/-! ## Fetches -/

def Sound (anchor : SystemBus layout δ) (sys : SysCsrs) (s : System (SystemBus layout δ)) : Prop :=
  s.cpu.hart.sys = some sys ∧ TlbSound anchor sys.satp s.cpu.hart s.cpu.fetch.row

variable {s : System (SystemBus layout δ)}

theorem Sound.translateFetch (sound : Sound anchor sys s)
    (kept : TablesKept sys.satp va anchor s.bus) :
    Sound anchor sys (finalState (System.translateFetch va s)) := by
  unfold System.translateFetch
  cases run : translateIn s.cpu.fetch.row s.cpu.hart va .fetch s.bus with
  | error e bus => exact sound
  | ok found bus =>
    obtain ⟨-, filled⟩ := translateIn_sound sound.1 kept sound.2.fetch run
    exact ⟨sound.1, filled, sound.2.data, sound.2.fused, sound.2.cell⟩

theorem Sound.fetch16 (sound : Sound anchor sys s) (pa : Word) :
    Sound anchor sys (finalState (System.fetch16 pa s)) := by
  unfold System.fetch16 zoom
  cases Bus.fetch16 pa s.bus <;> exact sound

theorem Sound.thenFetch16 {address : EStateM Exception (System (SystemBus layout δ)) Word}
    (found : Sound anchor sys (finalState (address s))) {α : Type} (result : Word → BitVec 16 → α) :
    Sound anchor sys (finalState ((address >>= fun pa =>
      System.fetch16 pa >>= fun half => pure (result pa half)) s)) := by
  cases run : address s with
  | error e s₁ =>
    rw [bind_error _ run]
    rwa [run] at found
  | ok pa s₁ =>
    rw [run] at found
    rw [bind_ok _ run]
    have second : Sound anchor sys (finalState (System.fetch16 pa s₁)) := Sound.fetch16 found pa
    cases read : System.fetch16 pa s₁ with
    | error e s₂ =>
      rw [bind_error _ read]
      rwa [read] at second
    | ok half s₂ =>
      rw [bind_ok _ read]
      rwa [read] at second

def fetchWalks (s : System (SystemBus layout δ)) : List (Word × SystemBus layout δ) :=
  let low := finalState (System.fetchLow s)
  [(s.cpu.pc, s.bus), (low.cpu.pc + 2, low.bus)]

theorem Sound.highAddress (sound : Sound anchor sys s)
    (kept : TablesKept sys.satp (s.cpu.pc + 2) anchor s.bus)
    (pa : Word) : Sound anchor sys (finalState (System.highAddress pa s)) := by
  unfold System.highAddress
  rw [get_bind]
  split
  · exact sound.translateFetch kept
  · exact sound

theorem Sound.instruction (sound : Sound anchor sys s)
    (kept : ∀ walk ∈ fetchWalks s, TablesKept sys.satp walk.1 anchor walk.2) :
    Sound anchor sys (finalState (System.fetch s)) := by
  have low : Sound anchor sys (finalState (System.fetchLow s)) :=
    (sound.translateFetch (kept _ List.mem_cons_self)).thenFetch16 fun pa half => (pa, half)
  have middle := kept _ (List.mem_cons_of_mem _ List.mem_cons_self)
  unfold System.fetch
  cases run : System.fetchLow s with
  | error e s₁ =>
    rw [bind_error _ run]
    rwa [run] at low
  | ok half s₁ =>
    rw [run] at low middle
    rw [bind_ok _ run]
    split
    · exact low
    · unfold System.fetchHigh
      rw [bind_assoc]
      exact (low.highAddress middle half.1).thenFetch16 fun _ hi => Fetched.full (hi ++ half.2)

/-! ## Privilege and status -/

omit [Peripherals δ] in
theorem CellSound.restatus {op : FetchOp} (cell : CellSound hart)
    (change : hart.Restatus hart' op) : CellSound hart' := by
  rcases change.cell with synced | ⟨same, context⟩
  · exact .inl synced
  · rcases cell with synced | ⟨unset, machine, tags⟩
    · exact .inl (by rw [same, context, synced])
    · refine .inr ⟨same.trans unset, context.trans machine, fun store i => ?_⟩
      have shrinks : (hart.fusedRow store).Shrinks (hart'.fusedRow store) := by
        cases store
        · exact change.settles.fusedLoad
        · exact change.settles.fusedStore
      rcases shrinks i with dropped | ⟨tag, -⟩
      · exact .inl dropped
      · rw [tag]
        exact tags store i

omit [Peripherals δ] in
theorem apply_shrinks (cache : FetchCache) (op : FetchOp) :
    cache.row.Shrinks (cache.apply op).row := by
  cases op with
  | keep => exact .refl _
  | flush => exact .invalidate _
  | flushPage va => exact .dropPage _ _ _

theorem RowSound.emptied {access : Access} (empty : ∀ i, row.tag i = TLB_INVALID) :
    RowSound anchor satp access row := fun sys va _ hit =>
  absurd (hit.symm.trans (empty _)) (tag_ne_invalid (isContext_rights sys access) va)

theorem FusedSound.emptied (empty : ∀ i, row.tag i = TLB_INVALID) :
    FusedSound anchor satp hart store row :=
  fun sys va _ hit =>
    absurd (hit.symm.trans (empty _)) (tag_ne_invalid (isContext_dataContext sys) va)

theorem TlbSound.settle {fetch' : Row} (sound : TlbSound anchor satp hart fetch)
    (settles : hart.Settles hart') (hashed : hart'.jtlbHashed = hart.jtlbHashed)
    (cell : CellSound hart') (shrinks : fetch.Shrinks fetch') :
    TlbSound anchor satp hart' fetch' where
  fetch := sound.fetch.shrink shrinks
  data := by
    rintro (_ | _)
    · exact (sound.data false).shrink settles.load
    · exact (sound.data true).shrink settles.store
  fused := by
    rintro (_ | _)
    · exact (sound.fused false).shrink settles.fusedLoad hashed
    · exact (sound.fused true).shrink settles.fusedStore hashed
  cell := cell

theorem TlbSound.emptied {fetch : Row} (empty : hart.Emptied)
    (dropped : ∀ i, fetch.tag i = TLB_INVALID) (cell : CellSound hart) :
    TlbSound anchor satp hart fetch where
  fetch := .emptied dropped
  data := fun store => .emptied fun i => (empty store i).1
  fused := fun store => .emptied fun i => (empty store i).2
  cell := cell

theorem Sound.restatus (sound : Sound anchor sys s) {op : FetchOp}
    (change : s.cpu.hart.Restatus hart op) (pc insnCount : Word) :
    ∃ sys', Sound anchor sys' { s with cpu :=
          { hart := hart, pc := pc, insnCount := insnCount, fetch := s.cpu.fetch.apply op } } := by
  have still := change.settles.system
  rw [sound.1, Option.isSome_some, Option.isSome_iff_exists] at still
  obtain ⟨sys', system⟩ := still
  have cell := sound.2.cell.restatus change
  refine ⟨sys', system, ?_⟩
  rcases change.root with same | ⟨empty, rfl⟩
  · have root : sys'.satp = sys.satp := by simpa [system, sound.1] using same
    rw [root]
    exact sound.2.settle change.settles change.hashed cell (apply_shrinks _ _)
  · exact .emptied empty (fun _ => rfl) cell

/-- Another index function empties the fused rows. -/
theorem Sound.setJitTlbHash (sound : Sound anchor sys s) (hashed : Bool) :
    Sound anchor sys { s with cpu := { s.cpu with
      hart := s.cpu.hart.setJitTlbHash hashed, fetch := s.cpu.fetch.apply .keep } } := by
  unfold Hart.setJitTlbHash
  split
  · refine ⟨sound.1, sound.2.fetch, sound.2.data, fun store => ?_, ?_⟩
    · exact .emptied fun i => by cases store <;> rfl
    · exact sound.2.cell.imp_right fun unset =>
        ⟨unset.1, unset.2.1, fun store i => .inl (by cases store <;> rfl)⟩
  · exact sound

end Rows

/-! ## Runs -/

/-- What touches the rows, or what they depend on. -/
inductive TlbEvent where
  | load (width : Width) (va : Word)
  | store (width : Width) (va val : Word)
  | fetch
  /-- `jit_tlb_fill` -/
  | refill (va : Word) (store : Bool)
  | trap (cause tval : Word) (isInterrupt : Bool)
  | mret
  | sret
  | csrWrite (csr : CsrAddr) (v : Word)
  | sfence (va : Option Word) (asid : Option (BitVec 16))
  /-- `set_jit_tlb_hash` -/
  | hash (hashed : Bool)
  | fusedMemory (enabled : Bool)
  | retention (retain : Bool)

section Runs

variable {layout : Layout} {δ : Type} [Peripherals δ]

def restate (s : System (SystemBus layout δ)) (hart : Hart) (op : FetchOp) :
    System (SystemBus layout δ) :=
  { s with cpu := { s.cpu with hart := hart, fetch := s.cpu.fetch.apply op } }

namespace TlbEvent

def run (s : System (SystemBus layout δ)) : TlbEvent → System (SystemBus layout δ)
  | load width va => withMachine s (finalState (ld width va s.machine))
  | store width va val => withMachine s (finalState (st width va val s.machine))
  | fetch => finalState (System.fetch s)
  | refill va isStore => withMachine s (jitFillTlb va isStore s.machine).2
  | trap cause tval isInterrupt =>
    s.redirect (takeTrap s.cpu.hart s.cpu.pc s.cpu.insnCount cause tval isInterrupt)
  | mret =>
    let returned := s.cpu.hart.xret mretAllowed SysCsrs.mret SysCsrs.mepc
    restate s returned.2 (returned.1.elim .keep Outcome.fetch)
  | sret =>
    let returned := s.cpu.hart.xret sretAllowed SysCsrs.sret SysCsrs.sepc
    restate s returned.2 (returned.1.elim .keep Outcome.fetch)
  | csrWrite csr v =>
    let written := s.cpu.hart.csrWrite s.cpu.insnCount csr v
    restate s written.hart written.fetch
  | sfence va asid =>
    let fenced := s.cpu.hart.sfenceVma va asid
    restate s fenced.1 fenced.2
  | hash hashed => restate s (s.cpu.hart.setJitTlbHash hashed) .keep
  | fusedMemory enabled => restate s (s.cpu.hart.setInterpreterFusedMemory enabled) .keep
  | retention retain =>
    let retained := s.cpu.hart.setPrivilegeTlbRetention retain
    restate s retained.1 retained.2

/-- The addresses an event translates, each with the bus before. -/
def walks (s : System (SystemBus layout δ)) : TlbEvent → List (Word × SystemBus layout δ)
  | load width va => loadWalks width va s.machine
  | store width va val => storeWalks width va val s.machine
  | fetch => fetchWalks s
  | refill va _ => [(va, s.bus)]
  | _ => []

/-- A write of `satp` that takes effect, or a fence for all addresses of this address space. -/
def flushes (s : System (SystemBus layout δ)) : TlbEvent → Bool
  | csrWrite csr v =>
    csr = 0x180#12 && (s.cpu.hart.csrWrite s.cpu.insnCount csr v).accepted &&
      (v >>> 60 = 0#64 || v >>> 60 = 8#64 || v >>> 60 = 9#64)
  | sfence none asid => !asid.any (· ≠ s.cpu.hart.currentAsid)
  | _ => false

variable {anchor : SystemBus layout δ} {sys : SysCsrs} {s : System (SystemBus layout δ)}
  (e : TlbEvent)

/-- An event keeps the rows sound while the tables are those of the anchor. -/
theorem run_sound (sound : Sound anchor sys s)
    (kept : ∀ walk ∈ e.walks s, TablesKept sys.satp walk.1 anchor walk.2) :
    ∃ sys', Sound anchor sys' (e.run s) := by
  have machine : Holds anchor sys s.cpu.fetch.row s.machine := sound
  cases e with
  | load width va => exact ⟨sys, machine.ld width va kept⟩
  | store width va val => exact ⟨sys, machine.st width va val kept⟩
  | fetch => exact ⟨sys, sound.instruction kept⟩
  | refill va isStore => exact ⟨sys, machine.jitFillTlb (kept _ List.mem_cons_self) isStore⟩
  | trap cause tval isInterrupt => exact sound.restatus (.takeTrap _ _ _ _ _ _) _ _
  | mret =>
    have root : ∀ sys, (SysCsrs.mret sys).satp = sys.satp := fun _ => rfl
    exact sound.restatus (.xret root) _ _
  | sret =>
    have root : ∀ sys, (SysCsrs.sret sys).satp = sys.satp := fun _ => rfl
    exact sound.restatus (.xret root) _ _
  | csrWrite csr v => exact sound.restatus (.csrWrite _ _ _ _) _ _
  | sfence va asid => exact sound.restatus (.sfenceVma _ _ _) _ _
  | hash hashed => exact ⟨sys, sound.setJitTlbHash hashed⟩
  | fusedMemory enabled => exact sound.restatus (.setInterpreterFusedMemory _ _) _ _
  | retention retain => exact sound.restatus (.setPrivilegeTlbRetention _ _) _ _

theorem walks_of_flushes (flush : e.flushes s = true) : e.walks s = [] := by
  cases e with
  | csrWrite csr v => rfl
  | sfence va asid => rfl
  | _ => cases flush

omit [Peripherals δ] in
theorem csrWrite_satp {hart : Hart} {insnCount v : Word}
    (accepted : (hart.csrWrite insnCount 0x180#12 v).accepted = true)
    (mode : v >>> 60 = 0#64 ∨ v >>> 60 = 8#64 ∨ v >>> 60 = 9#64) :
    (hart.csrWrite insnCount 0x180#12 v).hart.Emptied ∧
    (hart.csrWrite insnCount 0x180#12 v).fetch = .flush := by
  unfold Hart.csrWrite at accepted ⊢
  simp only at accepted ⊢
  rw [if_neg (by decide)] at accepted ⊢
  split at accepted
  · cases accepted
  · rename_i may
    rw [if_neg may]
    change (writeSatp _ v).accepted = true at accepted
    change (writeSatp _ v).hart.Emptied ∧ (writeSatp _ v).fetch = .flush
    unfold writeSatp at accepted ⊢
    cases system : hart.sys with
    | none =>
      simp only [system] at accepted
      cases accepted
    | some sys =>
      simp only [system] at accepted ⊢
      split at accepted
      · cases accepted
      · rename_i allowed
        rw [if_neg allowed, if_pos mode]
        refine ⟨fun store i => ?_, rfl⟩
        split <;> cases store <;> exact ⟨rfl, rfl⟩

theorem flushes_empties (flush : e.flushes s = true) :
    (e.run s).cpu.hart.Emptied ∧ ∀ i, (e.run s).cpu.fetch.row.tag i = TLB_INVALID := by
  cases e with
  | csrWrite csr v =>
    simp only [flushes, Bool.and_eq_true, Bool.or_eq_true, decide_eq_true_eq, or_assoc] at flush
    obtain ⟨⟨rfl, accepted⟩, mode⟩ := flush
    obtain ⟨empty, dropped⟩ := csrWrite_satp accepted mode
    refine ⟨empty, fun i => ?_⟩
    change (s.cpu.fetch.apply (s.cpu.hart.csrWrite _ _ v).fetch).row.tag i = TLB_INVALID
    rw [dropped]
    rfl
  | sfence va asid =>
    cases va with
    | some va => cases flush
    | none =>
      have own : ¬ asid.any (· ≠ s.cpu.hart.currentAsid) = true := by
        simpa [flushes] using flush
      have fenced : s.cpu.hart.sfenceVma none asid = (flushTlb { s.cpu.hart with
          mapGen := s.cpu.hart.mapGen + 1, sfenceAll := s.cpu.hart.sfenceAll + 1 }, .flush) := by
        unfold sfenceVma
        rw [if_neg own]
      change (s.cpu.hart.sfenceVma none asid).1.Emptied ∧ ∀ i,
        (s.cpu.fetch.apply (s.cpu.hart.sfenceVma none asid).2).row.tag i = TLB_INVALID
      rw [fenced]
      exact ⟨fun store i => by cases store <;> exact ⟨rfl, rfl⟩, fun i => rfl⟩
  | _ => cases flush

end TlbEvent

/-- The states of a run, with the bus as it was at the last `satp` write or full fence. Whenever an
event translates an address, the page tables that map it are as they were then, A and D aside. -/
inductive Reached : System (SystemBus layout δ) → SystemBus layout δ → Prop
  | reset (hartid : Word) (bus : SystemBus layout δ) :
      Reached { cpu := Cpu.new.enableSystem hartid, bus := bus } bus
  | event {s : System (SystemBus layout δ)} {anchor : SystemBus layout δ} (e : TlbEvent)
      (before : Reached s anchor)
      (unchanged : ∀ sys, s.cpu.hart.sys = some sys →
        ∀ walk ∈ e.walks s, TablesKept sys.satp walk.1 anchor walk.2) : Reached (e.run s) anchor
  | flush {s : System (SystemBus layout δ)} {anchor : SystemBus layout δ} (e : TlbEvent)
      (before : Reached s anchor) (flush : e.flushes s = true) :
      Reached (e.run s) (e.run s).bus
  | world {s : System (SystemBus layout δ)} {anchor : SystemBus layout δ} (bus : SystemBus layout δ)
      (before : Reached s anchor) : Reached { s with bus := bus } anchor

variable {anchor : SystemBus layout δ} {s : System (SystemBus layout δ)}

theorem reset_sound (hartid : Word) (bus : SystemBus layout δ) :
    ∃ sys, Sound anchor sys { cpu := Cpu.new.enableSystem hartid, bus := bus } := by
  refine ⟨_, rfl, .emptied (fun store _ => by cases store <;> exact ⟨rfl, rfl⟩) (fun _ => rfl) ?_⟩
  have machine : (Cpu.new.enableSystem hartid).hart.dataTlbContext = 3#64 := by
    have any_hart : (Cpu.new.enableSystem hartid).hart.dataTlbContext =
      (Cpu.new.enableSystem 0#64).hart.dataTlbContext := Restatus.dataTlbContext_congr rfl
    rw [any_hart]
    decide
  exact .inr ⟨rfl, machine, fun store i => by cases store <;> exact .inl rfl⟩

theorem Reached.sound (reached : Reached s anchor) : ∃ sys, Sound anchor sys s := by
  induction reached with
  | reset hartid bus => exact reset_sound hartid bus
  | event e _ unchanged ih =>
    obtain ⟨sys, sound⟩ := ih
    exact e.run_sound sound (unchanged sys sound.1)
  | @flush s anchor e _ flush ih =>
    obtain ⟨sys, sound⟩ := ih
    obtain ⟨empty, dropped⟩ := e.flushes_empties flush
    have moved : ∃ sys', Sound anchor sys' (e.run s) :=
      e.run_sound sound (e.walks_of_flushes flush ▸ fun _ mem => nomatch mem)
    obtain ⟨sys', system, rows⟩ := moved
    exact ⟨sys', system, .emptied empty dropped rows.cell⟩
  | world bus _ ih => exact ih

/-- Every hit gives the address and the permission of a fresh walk in the present setting. -/
theorem tlb_hits_agree (reached : Reached s anchor) {sys : SysCsrs}
    (system : s.cpu.hart.sys = some sys) (va : Word)
    (unchanged : TablesKept sys.satp va anchor s.bus) :
    (s.cpu.fetch.row.tag (tlbIndex va) = s.cpu.hart.translationTag va .fetch →
      s.bus.Yields sys va .fetch (va + s.cpu.fetch.row.val (tlbIndex va))) ∧ ∀ store,
      ((s.cpu.hart.dataTlb store).tag (tlbIndex va) = s.cpu.hart.translationTag va
        (dataAccess store) →
        s.bus.Yields sys va (dataAccess store)
          (va + (s.cpu.hart.dataTlb store).val (tlbIndex va))) ∧
      ∀ context, context = s.cpu.hart.jitTlbContext ∨ context = s.cpu.hart.dataTlbContext →
        (s.cpu.hart.fusedRow store).tag (s.cpu.hart.jitTlbIndex va) = pageOf va ||| context →
          ∃ pa, s.bus.Yields sys va (dataAccess store) pa ∧
            va + (s.cpu.hart.fusedRow store).val (s.cpu.hart.jitTlbIndex va) =
              layout.ramPtr + (pa - RAM_BASE) := by
  obtain ⟨sys', system', sound⟩ := reached.sound
  obtain rfl : sys' = sys := Option.some.inj (system'.symm.trans system)
  have tag : ∀ access,
      s.cpu.hart.translationTag va access = pageOf va ||| rightsContext sys' access :=
    fun access => by
      unfold Hart.translationTag
      rw [translationContext_some system]
  refine ⟨fun hit => ?_, fun store => ⟨fun hit => ?_, fun context which hit => ?_⟩⟩
  · exact (unchanged.yields _ _).mpr (sound.fetch sys' va rfl (hit.trans (tag _)))
  · exact (unchanged.yields _ _).mpr (sound.data store sys' va rfl (hit.trans (tag _)))
  · have current : context = dataContext sys' := by
      rw [← dataTlbContext_some system]
      rcases which with rfl | rfl
      · rcases sound.cell with synced | ⟨unset, -, tags⟩
        · exact synced
        · exfalso
          rw [unset] at hit
          rcases tags store (s.cpu.hart.jitTlbIndex va) with dropped | ⟨va', tagged⟩
          · exact tag_ne_invalid isContext_zero va (hit.symm.trans dropped)
          · exact absurd (tag_context_eq isContext_zero (by decide) (hit.symm.trans tagged))
              (by decide)
      · rfl
    rw [current] at hit
    obtain ⟨pa, yields, linear⟩ := sound.fused store sys' va rfl hit
    exact ⟨pa, (unchanged.yields _ _).mpr yields, linear⟩

end Runs

namespace Gigapage

open TwoPages

/-- The second page of RAM is a root table with one leaf, the gigabyte of RAM. -/
def bus : SystemBus twoPages NoDevices where
  ram := Ram.store (fun _ => 0) 0x1010 8 0x2000000f
  jitPages := fun _ => false
  jitDirtyPages := []
  devices := {}

def satp : Word := 0x8000000000080001#64

def paged : System (SystemBus twoPages NoDevices) :=
  TlbEvent.run (TlbEvent.run { cpu := Cpu.new.enableSystem 0#64, bus := bus }
    (.csrWrite 0x300#12 0x20800#64)) (.csrWrite 0x180#12 satp)

def loaded : System (SystemBus twoPages NoDevices) :=
  { TlbEvent.run paged (.load .word 0x80000000#64) with bus := bus }

theorem tables_in_ram (va : Word) : TablesKept satp va bus bus := by
  have entries : ∀ k : Fin 512, (bus.tableEntry (rootTable satp + BitVec.ofNat 64 k * 8#64)).any
      (fun pte => !isPointer pte) = true := by decide +kernel
  intro levels depth
  obtain rfl : levels = 3 := (Option.some.inj depth).symm
  have bound : ((va >>> 30) &&& 0x1ff#64).toNat < 512 := by
    rw [BitVec.toNat_and]
    exact Nat.lt_of_le_of_lt Nat.and_le_right (by decide)
  have entry := entries ⟨((va >>> 30) &&& 0x1ff#64).toNat, bound⟩
  simp only [BitVec.ofNat_toNat, BitVec.setWidth_eq] at entry
  obtain ⟨pte, found, stop⟩ := (Option.any_eq_true _ _).mp entry
  have stop' : ¬ isPointer pte = true := by simpa using stop
  have last : bus.lastEntry va 2 (rootTable satp) =
      some { level := 2, addr := entryAddr va 2 (rootTable satp), pte := pte } := by
    rw [SystemBus.lastEntry]
    change (bus.tableEntry (rootTable satp + ((va >>> 30) &&& 0x1ff#64) * 8#64)).bind _ = _
    rw [found, Option.bind_some, if_neg stop']
  exact ⟨_, _, last, last, rfl, rfl⟩

def root (s : System (SystemBus twoPages NoDevices)) : Option Word :=
  s.cpu.hart.sys.map SysCsrs.satp

theorem kept_of_root {s : System (SystemBus twoPages NoDevices)} {sys : SysCsrs}
    (paging : root s = some satp) (system : s.cpu.hart.sys = some sys) (va : Word) :
    TablesKept sys.satp va bus bus := by
  rw [root, system, Option.map_some, Option.some.injEq] at paging
  rw [paging]
  exact tables_in_ram va

theorem loaded_reached : Reached loaded bus := by
  have reset : Reached { cpu := Cpu.new.enableSystem 0#64, bus := bus } bus := .reset 0#64 bus
  have status := Reached.event (.csrWrite 0x300#12 0x20800#64) reset fun _ _ _ mem => nomatch mem
  have flushed : Reached paged bus := .flush (.csrWrite 0x180#12 satp) status (by decide +kernel)
  refine .world bus (.event (.load .word 0x80000000#64) flushed fun sys system walk mem => ?_)
  have single : TlbEvent.walks paged (.load .word 0x80000000#64) = [(0x80000000#64, bus)] := by
    have whole : ¬ paged.machine.hart.splits .word 0x80000000#64 = true := by decide +kernel
    change loadWalks .word 0x80000000#64 paged.machine = [(0x80000000#64, bus)]
    rw [loadWalks, if_neg whole]
    rfl
  rw [single, List.mem_singleton] at mem
  rw [mem]
  exact kept_of_root (by decide +kernel) system _

theorem loaded_hit : (loaded.cpu.hart.dataTlb false).tag (tlbIndex 0x80000004#64) =
        loaded.cpu.hart.translationTag 0x80000004#64 .load ∧ ∃ sys, loaded.cpu.hart.sys = some sys ∧
        loaded.bus.Yields sys 0x80000004#64 .load
          (0x80000004#64 + (loaded.cpu.hart.dataTlb false).val (tlbIndex 0x80000004#64)) := by
  have hit : (loaded.cpu.hart.dataTlb false).tag (tlbIndex 0x80000004#64) =
      loaded.cpu.hart.translationTag 0x80000004#64 .load := by decide +kernel
  have full : loaded.cpu.hart.sys.isSome = true := by decide +kernel
  obtain ⟨sys, system⟩ := Option.isSome_iff_exists.mp full
  have kept : TablesKept sys.satp 0x80000004#64 bus loaded.bus :=
    kept_of_root (by decide +kernel) system _
  exact ⟨hit, sys, system,
    ((tlb_hits_agree loaded_reached system 0x80000004#64 kept).2 false).1 hit⟩

end Gigapage

end Rv64Js.Board
