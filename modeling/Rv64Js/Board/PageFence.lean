import Rv64Js.Board.CodePages

/-! # The page-scoped fence

`SFENCE.VMA` with an address drops the entry of one 4 KiB page. A superpage leaf is cached page by
page, so the fence reaches all of it exactly when no other page of it is cached. -/

set_option autoImplicit false

namespace Rv64Js.Core

open Fallible

/-- The addresses `va` and `va'` lie under the same leaf of the given level. -/
def Covers (level : Nat) (va va' : Word) :
    Prop := va >>> (12 + 9 * level) = va' >>> (12 + 9 * level)

instance (level : Nat) (va va' : Word) : Decidable (Covers level va va') :=
  inferInstanceAs (Decidable (_ = _))

/-- The entry in a slot is one of the page of `va`, for some permission context. -/
def Row.Serves (row : Row) (index : BitVec 12) (va : Word) : Prop :=
  ∃ context, IsContext context ∧ row.tag index = pageOf va ||| context

/-- No table has an entry that an access to `va` can hit. -/
structure Cpu.Uncached (cpu : Cpu) (va : Word) : Prop where
  fetch : ¬ cpu.fetch.row.Serves (tlbIndex va) va
  load : ¬ cpu.hart.loadTlb.Serves (tlbIndex va) va
  store : ¬ cpu.hart.storeTlb.Serves (tlbIndex va) va
  fusedLoad : ¬ cpu.hart.fusedLoad.Serves (cpu.hart.jitTlbIndex va) va
  fusedStore : ¬ cpu.hart.fusedStore.Serves (cpu.hart.jitTlbIndex va) va

theorem jitTlbIndex_of_page (hart : Hart) {a b : Word} (same : pageOf a = pageOf b) :
    hart.jitTlbIndex a = hart.jitTlbIndex b := by
  unfold Hart.jitTlbIndex jitTlbHashIndex
  rw [tlbIndex_of_page same, shiftRight_of_page same le_rfl]

theorem Row.serves_dropPage (row : Row) {slot : Word → BitVec 12}
    (byPage : ∀ a b, pageOf a = pageOf b → slot a = slot b) (va va' : Word) :
    (row.dropPage (slot va) (pageOf va)).Serves (slot va') va' ↔
      row.Serves (slot va') va' ∧ pageOf va' ≠ pageOf va := by
  constructor
  · rintro ⟨context, small, found⟩
    simp only [Row.dropPage] at found
    split at found
    · exact absurd found.symm (tag_ne_invalid small va')
    · rename_i kept
      refine ⟨⟨context, small, found⟩, fun same => kept ⟨byPage va' va same, ?_⟩⟩
      rw [found, pageOf_tag small, same]
  · rintro ⟨⟨context, small, found⟩, other⟩
    refine ⟨context, small, ?_⟩
    simp only [Row.dropPage]
    rw [if_neg, found]
    rintro ⟨-, same⟩
    rw [found, pageOf_tag small] at same
    exact other same

def Cpu.pageFence (cpu : Cpu) (va : Word) (asid : Option (BitVec 16)) : Cpu :=
  let fenced := cpu.hart.sfenceVma (some va) asid
  { cpu with hart := fenced.1, fetch := cpu.fetch.apply fenced.2 }

theorem Cpu.uncached_pageFence (cpu : Cpu) (va va' : Word) {asid : Option (BitVec 16)}
    (own : ∀ target, asid = some target → target = cpu.hart.currentAsid) :
    (cpu.pageFence va asid).Uncached va' ↔ (pageOf va' ≠ pageOf va → cpu.Uncached va') := by
  have resident : asid.any (· ≠ cpu.hart.currentAsid) = false := by
    cases asid with
    | none => rfl
    | some target => simp [own target rfl]
  have fenced : cpu.hart.sfenceVma (some va) asid =
      ({ cpu.hart with
          mapGen := cpu.hart.mapGen + 1
          sfencePage := cpu.hart.sfencePage + 1
          loadTlb := cpu.hart.loadTlb.dropPage (tlbIndex va) (pageOf va)
          storeTlb := cpu.hart.storeTlb.dropPage (tlbIndex va) (pageOf va)
          fusedLoad := cpu.hart.fusedLoad.dropPage (cpu.hart.jitTlbIndex va) (pageOf va)
          fusedStore := cpu.hart.fusedStore.dropPage (cpu.hart.jitTlbIndex va) (pageOf va) },
        .flushPage va) := by
    simp only [Hart.sfenceVma, resident]
    rfl
  have plain : ∀ row : Row, (row.dropPage (tlbIndex va) (pageOf va)).Serves (tlbIndex va') va' ↔
      row.Serves (tlbIndex va') va' ∧ pageOf va' ≠ pageOf va :=
    fun row => row.serves_dropPage (fun _ _ => tlbIndex_of_page) va va'
  have fused : ∀ row : Row,
      (row.dropPage (cpu.hart.jitTlbIndex va) (pageOf va)).Serves (cpu.hart.jitTlbIndex va') va' ↔
        row.Serves (cpu.hart.jitTlbIndex va') va' ∧ pageOf va' ≠ pageOf va :=
    fun row => row.serves_dropPage (fun _ _ => jitTlbIndex_of_page cpu.hart) va va'
  unfold Cpu.pageFence
  rw [fenced]
  constructor
  · intro uncached other
    exact
      { fetch := fun hit => uncached.fetch ((plain _).mpr ⟨hit, other⟩)
        load := fun hit => uncached.load ((plain _).mpr ⟨hit, other⟩)
        store := fun hit => uncached.store ((plain _).mpr ⟨hit, other⟩)
        fusedLoad := fun hit => uncached.fusedLoad ((fused _).mpr ⟨hit, other⟩)
        fusedStore := fun hit => uncached.fusedStore ((fused _).mpr ⟨hit, other⟩) }
  · intro others
    exact
      { fetch := fun hit => (others ((plain _).mp hit).2).fetch ((plain _).mp hit).1
        load := fun hit => (others ((plain _).mp hit).2).load ((plain _).mp hit).1
        store := fun hit => (others ((plain _).mp hit).2).store ((plain _).mp hit).1
        fusedLoad := fun hit => (others ((fused _).mp hit).2).fusedLoad ((fused _).mp hit).1
        fusedStore := fun hit => (others ((fused _).mp hit).2).fusedStore ((fused _).mp hit).1 }

theorem covers_zero {va va' : Word} (covered : Covers 0 va va') : pageOf va' = pageOf va := by
  apply BitVec.eq_of_getLsbD_eq
  intro i _
  rw [getLsbD_pageOf, getLsbD_pageOf]
  by_cases high : 12 ≤ i
  · have bit := congrArg (fun w : Word => w.getLsbD (i - 12)) covered
    simp only [BitVec.getLsbD_ushiftRight, show 12 + 9 * 0 + (i - 12) = i by omega] at bit
    rw [bit]
  · simp [high]

/-! ## The instruction -/

section Instruction

variable {β : Type} [Bus β]

structure IsSfence (insn : Insn) : Prop where
  opcode : opcode insn = 0x73#7
  funct7 : funct7 insn = 0x09#7
  funct3 : funct3 insn = 0#3

theorem IsSfence.execute_eq {insn : Insn} (fence : IsSfence insn) (units : Units β)
    (pc insnCount : Word) :
    execute units insn pc insnCount = (stepSfence insn (pc + 4) : Exec β Outcome) := by
  have other : ∀ word : Insn, Core.funct7 word ≠ 0x09#7 → insn ≠ word := by
    rintro word different rfl
    exact different fence.funct7
  unfold execute executeNext
  rw [fence.opcode]
  change stepSystem insn pc (pc + 4) insnCount = _
  unfold stepSystem
  rw [if_neg (other _ (by decide)), if_neg (other _ (by decide)), if_neg (other _ (by decide)),
    if_neg (other _ (by decide)), if_neg (other _ (by decide)), if_pos ⟨fence.funct7, fence.funct3⟩]

theorem IsSfence.commit_page {insn : Insn} (fence : IsSfence insn) (units : Units β) (s : System β)
    (address : rs1 insn ≠ 0#5) (allowed : s.cpu.hart.sfenceTraps = false) :
    System.commit (execute units insn s.cpu.pc s.cpu.insnCount) s = .ok none { s with
          cpu := { s.cpu.pageFence (s.cpu.hart.x (rs1 insn))
              (if rs2 insn ≠ 0#5 then some ((s.cpu.hart.x (rs2 insn)).setWidth 16) else none) with
            pc := s.cpu.pc + 4
            insnCount := s.cpu.insnCount + 1 } } := by
  have fenced : stepSfence insn (s.cpu.pc + 4) { hart := s.cpu.hart, bus := s.bus } =
      .ok { next := { pc := s.cpu.pc + 4, stop := none }, fetch := (s.cpu.hart.fence insn).1 }
        { hart := (s.cpu.hart.fence insn).2, bus := s.bus } := by
    unfold stepSfence
    rw [get_bind, if_neg (by rw [allowed]; exact Bool.false_ne_true)]
    rfl
  rw [fence.execute_eq, System.commit, fenced]
  simp only [Hart.fence, if_pos address]
  rfl

/-- An SFENCE.VMA for `va` reaches every entry under the leaf that maps `va` exactly when no other 4
KiB page under the leaf is cached. -/
theorem sfence_page_covers_leaf {insn : Insn} (fence : IsSfence insn) (units : Units β)
    (s : System β) (address : rs1 insn ≠ 0#5)
    (own : rs2 insn = 0#5 ∨ (s.cpu.hart.x (rs2 insn)).setWidth 16 = s.cpu.hart.currentAsid)
    (allowed : s.cpu.hart.sfenceTraps = false) :
    ∃ s', System.commit (execute units insn s.cpu.pc s.cpu.insnCount) s = .ok none s' ∧
      (∀ va', Covers 0 (s.cpu.hart.x (rs1 insn)) va' → s'.cpu.Uncached va') ∧
      ∀ level, (∀ va', Covers level (s.cpu.hart.x (rs1 insn)) va' → s'.cpu.Uncached va') ↔
        ∀ va', Covers level (s.cpu.hart.x (rs1 insn)) va' →
          pageOf va' ≠ pageOf (s.cpu.hart.x (rs1 insn)) → s.cpu.Uncached va' := by
  refine ⟨_, fence.commit_page units s address allowed, ?_⟩
  have own : ∀ target, (if rs2 insn ≠ 0#5 then some ((s.cpu.hart.x (rs2 insn)).setWidth 16)
      else none) = some target → target = s.cpu.hart.currentAsid := by
    intro target found
    split at found
    · rename_i named
      rw [← Option.some.inj found]
      exact own.resolve_left named
    · simp at found
  have fenced := fun va' => s.cpu.uncached_pageFence (s.cpu.hart.x (rs1 insn)) va' own
  generalize s.cpu.pageFence _ _ = cpu at fenced
  have moved : ∀ va',
    Cpu.Uncached { cpu with pc := s.cpu.pc + 4, insnCount := s.cpu.insnCount + 1 } va' ↔
      cpu.Uncached va' :=
    fun va' => ⟨fun h => ⟨h.fetch, h.load, h.store, h.fusedLoad, h.fusedStore⟩,
      fun h => ⟨h.fetch, h.load, h.store, h.fusedLoad, h.fusedStore⟩⟩
  constructor
  · intro va' covered
    rw [moved, fenced]
    exact fun other => absurd (covers_zero covered) other
  · intro level
    refine forall_congr' fun va' => forall_congr' fun _ => ?_
    rw [moved, fenced]

end Instruction

/-! ## A gigapage -/

namespace Gigapage

open Rv64Js.Board Rv64Js.Board.TwoPages

def sfenceA0 : Insn := 0x12050073#32

/-- Supervisor mode under Sv39; entry 2 of the root table is a leaf for the gigabyte at
`0x80000000`. -/
def boot : System (SystemBus twoPages NoDevices) where
  cpu := { Cpu.new with
    hart := { Hart.new with
      x := fun r => if r = 10#5 then 0x80000000#64 else 0#64
      sys := some { SysCsrs.new with mode := .supervisor, satp := 0x8000000000080000#64 } } }
  bus :=
    { ram := Ram.store (fun _ => 0#8) 16 8 0x200000cf
      jitPages := fun _ => false
      jitDirtyPages := []
      devices := {} }

def first : System (SystemBus twoPages NoDevices) :=
  withMachine boot (finalState (ld .byte 0x80000000#64 boot.machine))

def loaded : System (SystemBus twoPages NoDevices) :=
  withMachine first (finalState (ld .byte 0x80001000#64 first.machine))

def fenced : System (SystemBus twoPages NoDevices) :=
  finalState
    (System.commit (execute Units.scalar sfenceA0 loaded.cpu.pc loaded.cpu.insnCount) loaded)

/-- The fence for the first page leaves the entry of the second page, which a load hits. -/
theorem other_page_survives : Covers 2 0x80000000#64 0x80001000#64 ∧ fenced.cpu.pc = 4#64 ∧
      fenced.cpu.hart.loadTlb.tag (tlbIndex 0x80000000#64) = TLB_INVALID ∧
      fenced.cpu.hart.loadTlb.tag (tlbIndex 0x80001000#64) =
        fenced.cpu.hart.translationTag 0x80001000#64 .load := by
  decide

theorem served_page {index i : BitVec 12} {tag val va : Word} (row : Row)
    (filled : row = Row.empty.fill index tag val) (served : row.Serves i va) :
    pageOf va = pageOf tag := by
  subst filled
  obtain ⟨context, small, found⟩ := served
  simp only [Row.fill] at found
  split at found
  · rw [found, pageOf_tag small]
  · exact absurd found.symm (tag_ne_invalid small va)

/-- With the page of the fence cached and no other. -/
theorem first_fence_covers : ¬ first.cpu.Uncached 0x80000000#64 ∧
    ∃ s', System.commit (execute Units.scalar sfenceA0 first.cpu.pc first.cpu.insnCount) first =
      .ok none s' ∧
      ∀ va', Covers 2 0x80000000#64 va' → s'.cpu.Uncached va' := by
  have fence : IsSfence sfenceA0 := ⟨by decide, by decide, by decide⟩
  have load : first.cpu.hart.loadTlb = Row.empty.fill (tlbIndex 0x80000000#64) 0x80000001#64 0#64 :=
    rfl
  have fused : first.cpu.hart.fusedLoad = Row.empty.fill (first.cpu.hart.jitTlbIndex 0x80000000#64)
    0x80000001#64 (twoPages.ramPtr - 0x80000000#64) := rfl
  obtain ⟨s', run, -, covers⟩ := sfence_page_covers_leaf fence Units.scalar first (by decide)
    (.inl (by decide)) (by decide)
  refine ⟨fun uncached => uncached.load ⟨1#64, by decide, by decide⟩, s', run,
    (covers 2).mpr fun va' _ other => ?_⟩
  have empty : ∀ index, ¬ Row.Serves Row.empty index va' := by
    rintro index ⟨context, small, found⟩
    exact tag_ne_invalid small va' found.symm
  have page : pageOf 0x80000001#64 = pageOf (first.cpu.hart.x (rs1 sfenceA0)) := by decide
  exact ⟨empty _, fun hit => other ((served_page _ load hit).trans page), empty _,
    fun hit => other ((served_page _ fused hit).trans page), empty _⟩

end Gigapage

end Rv64Js.Core
