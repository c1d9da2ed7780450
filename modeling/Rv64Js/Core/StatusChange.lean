import Rv64Js.Core.Execute

/-! # Changes of privilege and status

What traps, returns, CSR writes and fences leave of the cached translations: rows keep entries or
drop them, the root of the tables stays or every row is emptied, and the context cell follows its
inputs. -/

set_option autoImplicit false

namespace Rv64Js.Core

/-! ## Changes that only lose translations -/

namespace Hart.Settles

variable {a b c : Hart} (hart : Hart) (update : SysCsrs → SysCsrs)

theorem modifySys : hart.Settles (hart.modifySys update) :=
  same rfl rfl rfl rfl (by simp [Hart.modifySys])

theorem withSys {hart : Hart} {sys : SysCsrs} (system : hart.sys = some sys) (sys' : SysCsrs) :
    hart.Settles { hart with sys := some sys' } :=
  same rfl rfl rfl rfl (by simp [system])

theorem flushTlb : hart.Settles hart.flushTlb :=
  ⟨.invalidate _, .invalidate _, .invalidate _, .invalidate _, rfl⟩

theorem privilegeChanged : hart.Settles hart.privilegeChanged.1 := by
  unfold Hart.privilegeChanged
  split
  · exact same rfl rfl rfl rfl rfl
  · exact (flushTlb hart).trans (same rfl rfl rfl rfl rfl)

theorem sfenceVma (va : Option Word) (asid : Option (BitVec 16)) :
    hart.Settles (hart.sfenceVma va asid).1 := by
  unfold Hart.sfenceVma
  split
  · exact same rfl rfl rfl rfl rfl
  · cases va with
    | none => exact ⟨.invalidate _, .invalidate _, .invalidate _, .invalidate _, rfl⟩
    | some va => exact ⟨.dropPage _ _ _, .dropPage _ _ _, .dropPage _ _ _, .dropPage _ _ _, rfl⟩

theorem recordTrap (sys : SysCsrs) (pc insnCount cause : Word) (isInterrupt : Bool) :
    hart.Settles (hart.recordTrap sys pc insnCount cause isInterrupt) := by
  unfold Hart.recordTrap
  simp only
  split_ifs <;> exact same rfl rfl rfl rfl rfl

end Hart.Settles

/-! ## Traps, returns and fences -/

def Hart.Emptied (hart : Hart) : Prop :=
  ∀ store i, (hart.dataTlb store).tag i = TLB_INVALID ∧ (hart.fusedRow store).tag i = TLB_INVALID

structure Hart.Restatus (hart hart' : Hart) (op : FetchOp) : Prop where
  settles : hart.Settles hart'
  hashed : hart'.jtlbHashed = hart.jtlbHashed
  root : hart'.sys.map SysCsrs.satp = hart.sys.map SysCsrs.satp ∨ hart'.Emptied ∧ op = .flush
  cell : hart'.jitTlbContext = hart'.dataTlbContext ∨
    hart'.jitTlbContext = hart.jitTlbContext ∧ hart'.dataTlbContext = hart.dataTlbContext

namespace Hart.Restatus

variable {hart hart' : Hart}

theorem same (settles : hart.Settles hart') (hashed : hart'.jtlbHashed = hart.jtlbHashed)
    (root : hart'.sys.map SysCsrs.satp = hart.sys.map SysCsrs.satp)
    (cell : hart'.jitTlbContext = hart.jitTlbContext)
    (context : hart'.dataTlbContext = hart.dataTlbContext) (op : FetchOp) :
    hart.Restatus hart' op :=
  ⟨settles, hashed, .inl root, .inr ⟨cell, context⟩⟩

theorem refl (hart : Hart) : hart.Restatus hart .keep :=
  same (.refl hart) rfl rfl rfl rfl .keep

theorem after {a b c : Hart} {op : FetchOp} (settles : a.Settles b)
    (hashed : b.jtlbHashed = a.jtlbHashed) (root : b.sys.map SysCsrs.satp = a.sys.map SysCsrs.satp)
    (cell : b.jitTlbContext = a.jitTlbContext) (context : b.dataTlbContext = a.dataTlbContext)
    (change : b.Restatus c op) : a.Restatus c op where
  settles := settles.trans change.settles
  hashed := change.hashed.trans hashed
  root := change.root.imp_left fun same => same.trans root
  cell := change.cell.imp_right fun both => ⟨both.1.trans cell, both.2.trans context⟩

theorem privilegeChanged (settles : hart.Settles hart')
    (hashed : hart'.jtlbHashed = hart.jtlbHashed)
    (root : hart'.sys.map SysCsrs.satp = hart.sys.map SysCsrs.satp) :
    hart.Restatus hart'.privilegeChanged.1 hart'.privilegeChanged.2 := by
  have rows := settles.trans (.privilegeChanged hart')
  unfold Hart.privilegeChanged at rows ⊢
  split at rows
  · rename_i retain
    rw [if_pos retain]
    exact ⟨rows, hashed, .inl root, .inl rfl⟩
  · rename_i retain
    rw [if_neg retain]
    exact ⟨rows, hashed, .inl root, .inl rfl⟩

theorem takeTrap (hart : Hart) (pc insnCount cause tval : Word) (isInterrupt : Bool) :
    hart.Restatus (takeTrap hart pc insnCount cause tval isInterrupt).hart
      (takeTrap hart pc insnCount cause tval isInterrupt).fetch := by
  unfold Core.takeTrap
  cases system : hart.sys with
  | none => exact .refl hart
  | some sys =>
    simp only
    have recorded := Settles.recordTrap hart sys pc insnCount cause isInterrupt
    have still : (hart.recordTrap sys pc insnCount cause isInterrupt).sys.isSome := by
      rw [recorded.system, system]
      rfl
    refine privilegeChanged (recorded.trans (.same rfl rfl rfl rfl still.symm)) ?_ ?_
    · unfold Hart.recordTrap
      simp only
      split_ifs <;> rfl
    · rw [system]
      simp only [Option.map_some, Option.some.injEq]
      split_ifs <;> rfl

theorem xret {allowed : SysCsrs → Bool} {ret : SysCsrs → SysCsrs} {epc : SysCsrs → Word}
    (root : ∀ sys, (ret sys).satp = sys.satp) :
    hart.Restatus (hart.xret allowed ret epc).2
      ((hart.xret allowed ret epc).1.elim .keep Outcome.fetch) := by
  unfold Hart.xret
  cases system : hart.sys with
  | none => exact .refl hart
  | some sys =>
    simp only
    split
    · exact privilegeChanged (.withSys system _) rfl (by simp [system, root])
    · exact .refl hart

theorem setInterpreterFusedMemory (hart : Hart) (enabled : Bool) :
    hart.Restatus (hart.setInterpreterFusedMemory enabled) .keep :=
  ⟨.same rfl rfl rfl rfl rfl, rfl, .inl rfl, .inr ⟨rfl, rfl⟩⟩

theorem setPrivilegeTlbRetention (hart : Hart) (retain : Bool) :
    hart.Restatus (hart.setPrivilegeTlbRetention retain).1
      (hart.setPrivilegeTlbRetention retain).2 := by
  unfold Hart.setPrivilegeTlbRetention
  split
  · have settles : hart.Settles (flushTlb { hart with retainTlbOnPrivilegeChange := retain }) :=
      ⟨.invalidate _, .invalidate _, .invalidate _, .invalidate _, rfl⟩
    exact .same settles rfl rfl rfl rfl _
  · exact .refl hart

theorem sfenceVma (hart : Hart) (va : Option Word) (asid : Option (BitVec 16)) :
    hart.Restatus (hart.sfenceVma va asid).1 (hart.sfenceVma va asid).2 := by
  have rows := Settles.sfenceVma hart va asid
  unfold Hart.sfenceVma at rows ⊢
  split
  · rename_i foreign
    rw [if_pos foreign] at rows
    exact .same rows rfl rfl rfl rfl _
  · rename_i own
    rw [if_neg own] at rows
    cases va with
    | none => exact .same rows rfl rfl rfl rfl _
    | some va => exact .same rows rfl rfl rfl rfl _

/-! ## CSR writes -/

theorem dataTlbContext_congr (same : hart'.sys.map (fun sys => (sys.mode, sys.mstatus)) =
      hart.sys.map fun sys => (sys.mode, sys.mstatus)) : hart'.dataTlbContext =
        hart.dataTlbContext := by
  unfold Hart.dataTlbContext SysCsrs.effMode
  cases old : hart.sys with
  | none =>
    rw [old, Option.map_none, Option.map_eq_none_iff] at same
    rw [same]
  | some sys =>
    rw [old, Option.map_some] at same
    obtain ⟨sys', new, both⟩ := Option.map_eq_some_iff.mp same
    rw [Prod.mk.injEq] at both
    rw [new]
    simp only [both.1, both.2]

theorem or_and_of_disjoint {bits mask : Word} (outside : bits &&& mask = 0#64) (w : Word) :
    (w ||| bits) &&& mask = w &&& mask := by
  apply BitVec.eq_of_getLsbD_eq
  intro i _
  have bit := congrArg (fun v : Word => v.getLsbD i) outside
  simp only [BitVec.getLsbD_and, BitVec.getLsbD_or, BitVec.getLsbD_zero] at bit ⊢
  revert bit
  cases bits.getLsbD i <;> cases mask.getLsbD i <;> simp

theorem dataTlbContext_or (hart : Hart) {bits : Word} (mprv : bits &&& MSTATUS_MPRV = 0#64)
    (mpp : bits &&& MSTATUS_MPP = 0#64) (sum : bits &&& MSTATUS_SUM = 0#64)
    (mxr : bits &&& MSTATUS_MXR = 0#64) :
    (hart.modifySys fun sys => { sys with mstatus := sys.mstatus ||| bits }).dataTlbContext =
      hart.dataTlbContext := by
  unfold Hart.dataTlbContext Hart.modifySys
  cases hart.sys with
  | none => rfl
  | some sys =>
    simp only [Option.map_some, SysCsrs.effMode, or_and_of_disjoint mprv, or_and_of_disjoint mpp,
      or_and_of_disjoint sum, or_and_of_disjoint mxr]

theorem csrEffect {written : CsrWritten} (effect : hart.CsrEffect written) :
    hart.Restatus written.hart written.fetch := by
  cases effect with
  | reject => exact .refl hart
  | fcsr => exact ⟨.same rfl rfl rfl rfl rfl, rfl, .inl rfl, .inr ⟨rfl, rfl⟩⟩
  | vector update =>
    have rows : hart.Settles ({ hart with vector := update hart.vector } : Hart).vectorDirty :=
      .same rfl rfl rfl rfl (by simp [vectorDirty, modifySys])
    refine .same rows rfl ?_ rfl ?_ _
    · simp [Hart.vectorDirty, Hart.modifySys]
      cases hart.sys <;> rfl
    · exact dataTlbContext_or { hart with vector := update hart.vector } (by decide) (by decide)
        (by decide) (by decide)
  | counter =>
    refine .same (.modifySys hart _) rfl ?_ rfl (dataTlbContext_congr ?_) _ <;>
      cases system : hart.sys <;> simp [Hart.modifySys, system]
  | sys system satp mode mstatus =>
    refine .same (.withSys system _) rfl ?_ rfl (dataTlbContext_congr ?_) _
    · simp [system, satp]
    · simp [system, mode, mstatus]
  | status system _ changes =>
    exact changes ▸ privilegeChanged (.withSys system _) rfl (by simp [system])
  | satp system =>
    refine ⟨⟨.invalidate _, .invalidate _, .invalidate _, .invalidate _, ?_⟩, rfl,
      .inr ⟨fun store i => ?_, rfl⟩, .inr ⟨rfl, dataTlbContext_congr ?_⟩⟩
    · rw [system]
      rfl
    · cases store <;> exact ⟨rfl, rfl⟩
    · rw [system]
      rfl

theorem csrWrite (hart : Hart) (insnCount : Word) (csr : CsrAddr) (v : Word) :
    hart.Restatus (hart.csrWrite insnCount csr v).hart (hart.csrWrite insnCount csr v).fetch :=
  have polled : hart.Settles { hart with irqPollCd := 0#32 } := .same rfl rfl rfl rfl rfl
  .after polled rfl rfl rfl rfl (.csrEffect (hart.csrWrite_effect insnCount csr v))

end Hart.Restatus

end Rv64Js.Core
