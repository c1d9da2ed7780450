import Rv64Js.Board.CodePages
import Mathlib.Tactic.IntervalCases

/-! # Privilege

Trap entry and xRET are inverse on mode, interrupt enable and pc; only `take_trap` raises the mode;
CSR instructions of supervisor and user mode leave the machine-level CSRs alone, but for their own
views. -/

set_option autoImplicit false

namespace Rv64Js.Core

open Fallible BitVec Hart SysCsrs

/-! ## Trap entry and return -/

def Mode.ret : Mode → Insn
  | .machine => 0x30200073#32
  | _ => 0x10200073#32

def Mode.epc : Mode → SysCsrs → Word
  | .machine, sys => sys.mepc
  | _, sys => sys.sepc

def Mode.enable : Mode → Nat
  | .machine => 3
  | _ => 1

section Bits

variable (sys : SysCsrs) (pc causeVal tval : Word)

theorem trapToM_mpp :
    Mode.fromBits (((sys.trapToM pc causeVal tval).mstatus &&& MSTATUS_MPP) >>> 11) = sys.mode := by
  have previous : (((sys.trapToM pc causeVal tval).mstatus &&& MSTATUS_MPP) >>> 11).extractLsb' 0
    2 =
      sys.mode.bits.extractLsb' 0 2 := by
    apply eq_of_getLsbD_eq
    intro i h
    unfold trapToM MSTATUS_MPP MSTATUS_MPIE MSTATUS_MIE
    cases sys.mode <;> interval_cases i <;> simp [Mode.bits]
  unfold Mode.fromBits
  rw [previous]
  cases sys.mode <;> rfl

theorem trapToM_mpie :
    (sys.trapToM pc causeVal tval).mstatus.getLsbD 7 = sys.mstatus.getLsbD 3 := by
  unfold trapToM MSTATUS_MPP MSTATUS_MPIE MSTATUS_MIE
  cases sys.mode <;> simp [Mode.bits]

theorem trapToS_spp (below : sys.mode ≠ .machine) :
    (if (sys.trapToS pc causeVal tval).mstatus &&& MSTATUS_SPP ≠ 0#64 then Mode.supervisor
      else .user) = sys.mode := by
  have spp : (sys.trapToS pc causeVal tval).mstatus.getLsbD 8 =
      decide (sys.mode = .supervisor) := by
    unfold trapToS MSTATUS_SPP MSTATUS_SPIE MSTATUS_SIE
    cases sys.mode <;> simp
  rw [show MSTATUS_SPP = twoPow 64 8 from rfl, and_twoPow, spp]
  generalize sys.mode = mode at below
  cases mode with
  | user => rfl
  | supervisor => rfl
  | machine => exact absurd rfl below

theorem trapToS_spie :
    (sys.trapToS pc causeVal tval).mstatus.getLsbD 5 = sys.mstatus.getLsbD 1 := by
  unfold trapToS MSTATUS_SPP MSTATUS_SPIE MSTATUS_SIE
  cases sys.mode <;> simp

theorem trapToS_tsr :
    (sys.trapToS pc causeVal tval).mstatus &&& MSTATUS_TSR = sys.mstatus &&& MSTATUS_TSR := by
  have tsr : (sys.trapToS pc causeVal tval).mstatus.getLsbD 22 = sys.mstatus.getLsbD 22 := by
    unfold trapToS MSTATUS_SPP MSTATUS_SPIE MSTATUS_SIE
    cases sys.mode <;> simp
  rw [show MSTATUS_TSR = twoPow 64 22 from rfl, and_twoPow, and_twoPow, tsr]

theorem mret_mie : sys.mret.mstatus.getLsbD 3 = sys.mstatus.getLsbD 7 := by
  unfold SysCsrs.mret MSTATUS_MPP MSTATUS_MPIE MSTATUS_MIE MSTATUS_MPRV
  dsimp only
  split <;> simp

theorem sret_sie : sys.sret.mstatus.getLsbD 1 = sys.mstatus.getLsbD 5 := by
  unfold SysCsrs.sret MSTATUS_SPP MSTATUS_SPIE MSTATUS_SIE MSTATUS_MPRV
  simp

end Bits

theorem privilegeChanged_sys (hart : Hart) : hart.privilegeChanged.1.sys = hart.sys := by
  unfold privilegeChanged
  split <;> rfl

/-- Where a trap goes: to supervisor mode only from below machine mode and if delegated. -/
def SysCsrs.delegates (sys : SysCsrs) (cause : Word) (isInterrupt : Bool) : Bool :=
  sys.mode ≠ .machine ∧
    (if isInterrupt then sys.mideleg else sys.medeleg) &&& (1#64 <<< (cause &&& 63#64).toNat) ≠ 0#64

variable {hart : Hart} {sys : SysCsrs}

theorem takeTrap_sys (system : hart.sys = some sys) (pc insnCount cause tval : Word)
    (isInterrupt : Bool) :
    ∃ causeVal, (takeTrap hart pc insnCount cause tval isInterrupt).hart.sys =
      some (if sys.delegates cause isInterrupt then sys.trapToS pc causeVal tval
        else sys.trapToM pc causeVal tval) := by
  unfold takeTrap
  simp only [system]
  rw [privilegeChanged_sys]
  exact ⟨_, rfl⟩

variable {allowed : SysCsrs → Bool}

theorem Hart.xret_allowed (system : hart.sys = some sys) (may : allowed sys)
    (ret : SysCsrs → SysCsrs) (epc : SysCsrs → Word) : ∃ fetch hart', hart.xret allowed ret epc =
        (some { next := { pc := epc sys, stop := none }, fetch := fetch }, hart') ∧
      hart'.sys = some (ret sys) := by
  unfold xret
  simp only [system, if_pos may]
  exact ⟨_, _, rfl, privilegeChanged_sys _⟩

variable {β : Type} [Bus β]

variable {m : Machine β}

omit [Bus β] in
theorem stepXret_allowed (system : m.hart.sys = some sys) (may : allowed sys) (insn : Insn)
    (ret : SysCsrs → SysCsrs) (epc : SysCsrs → Word) : ∃ fetch m', stepXret insn allowed ret epc m =
        .ok { next := { pc := epc sys, stop := none }, fetch := fetch } m' ∧
      m'.hart.sys = some (ret sys) := by
  have polled : ({ m.hart with irqPollCd := 0#32 } : Hart).sys = some sys := system
  obtain ⟨fetch, hart', returned, after⟩ := xret_allowed polled may ret epc
  refine ⟨fetch, { m with hart := hart' }, ?_, after⟩
  change orIllegal insn (xret allowed ret epc { m.hart with irqPollCd := 0#32 }).1
    { m with hart := (xret allowed ret epc { m.hart with irqPollCd := 0#32 }).2 } = _
  rw [returned]
  rfl

omit [Bus β] in
theorem stepXret_refused (system : m.hart.sys = some sys) (refused : allowed sys = false)
    (insn : Insn) (ret : SysCsrs → SysCsrs) (epc : SysCsrs → Word) :
    stepXret insn allowed ret epc m =
      .error (.illegalInstruction insn) { m with hart := { m.hart with irqPollCd := 0#32 } } := by
  have unchanged : xret allowed ret epc { m.hart with irqPollCd := 0#32 } =
      (none, { m.hart with irqPollCd := 0#32 }) := by
    unfold xret
    simp only [system, refused, Bool.false_eq_true, if_false]
  change orIllegal insn (xret allowed ret epc { m.hart with irqPollCd := 0#32 }).1
    { m with hart := (xret allowed ret epc { m.hart with irqPollCd := 0#32 }).2 } = _
  rw [unchanged]
  rfl

/-- What a trap to `handler` saved: xRET restores the mode, the enable bit and the pc. -/
structure Restores (sys : SysCsrs) (pc : Word) (handler : Mode) (saved : SysCsrs) : Prop where
  epc : handler.epc saved = pc
  mode : ∀ later : SysCsrs, later.mstatus = saved.mstatus →
    (if handler = .machine then later.mret else later.sret).mode = sys.mode
  enable : ∀ later : SysCsrs, later.mstatus = saved.mstatus →
    (if handler = .machine then later.mret else later.sret).mstatus.getLsbD handler.enable =
      sys.mstatus.getLsbD handler.enable

theorem trapToM_restores (sys : SysCsrs) (pc causeVal tval : Word) :
    Restores sys pc .machine (sys.trapToM pc causeVal tval) where
  epc := rfl
  mode later same := by
    change Mode.fromBits ((later.mstatus &&& MSTATUS_MPP) >>> 11) = sys.mode
    rw [same, trapToM_mpp]
  enable later same := by
    change later.mret.mstatus.getLsbD 3 = sys.mstatus.getLsbD 3
    rw [mret_mie, same, trapToM_mpie]

theorem trapToS_restores (below : sys.mode ≠ .machine) (pc causeVal tval : Word) :
    Restores sys pc .supervisor (sys.trapToS pc causeVal tval) where
  epc := rfl
  mode later same := by
    change (if later.mstatus &&& MSTATUS_SPP ≠ 0#64 then Mode.supervisor else .user) = sys.mode
    rw [same, trapToS_spp sys pc causeVal tval below]
  enable later same := by
    change later.sret.mstatus.getLsbD 1 = sys.mstatus.getLsbD 1
    rw [sret_sie, same, trapToS_spie]

theorem ret_restores {saved later : SysCsrs} {pc : Word} {handler : Mode}
    (restores : Restores sys pc handler saved) (units : Units β) (system : m.hart.sys = some later)
    (mode : later.mode = handler) (epc : handler.epc later = handler.epc saved)
    (status : later.mstatus = saved.mstatus) (notUser : handler ≠ .user)
    (allowed : handler = .supervisor → saved.mstatus &&& MSTATUS_TSR = 0#64) (at_pc n : Word) :
    ∃ fetch m' sys', execute units handler.ret at_pc n m =
        .ok { next := { pc := pc, stop := none }, fetch := fetch } m' ∧
      m'.hart.sys = some sys' ∧ sys'.mode = sys.mode ∧
      sys'.mstatus.getLsbD handler.enable = sys.mstatus.getLsbD handler.enable := by
  have back := restores.mode later status
  have enabled := restores.enable later status
  rw [← restores.epc, ← epc]
  cases handler with
  | user => exact absurd rfl notUser
  | machine =>
    have may : mretAllowed later = true := by simp [mretAllowed, mode]
    obtain ⟨fetch, m', run, after⟩ := stepXret_allowed system may Mode.machine.ret SysCsrs.mret
      SysCsrs.mepc
    exact ⟨fetch, m', _, run, after, back, enabled⟩
  | supervisor =>
    have clear : later.mstatus &&& MSTATUS_TSR = 0#64 := by rw [status, allowed rfl]
    have may : sretAllowed later = true := by simp [sretAllowed, mode, clear]
    obtain ⟨fetch, m', run, after⟩ := stepXret_allowed system may Mode.supervisor.ret SysCsrs.sret
      SysCsrs.sepc
    exact ⟨fetch, m', _, run, after, back, enabled⟩

/-! ## The mode along a run -/

def Hart.level (hart : Hart) : Nat := ((hart.mode?.map Mode.bits).getD 0#64).toNat

theorem Hart.level_of_mode? {a b : Hart} (same : b.mode? = a.mode?) : b.level = a.level := by
  rw [Hart.level, same, Hart.level]

theorem Mode.bits_le_machine (mode : Mode) : mode.bits.toNat ≤ Mode.machine.bits.toNat := by
  cases mode <;> decide

theorem Hart.level_some (system : hart.sys = some sys) : hart.level = sys.mode.bits.toNat := by
  unfold Hart.level Hart.mode?
  rw [system]
  rfl

theorem xret_level {ret : SysCsrs → SysCsrs}
    (lower : ∀ sys, allowed sys → (ret sys).mode.bits.toNat ≤ sys.mode.bits.toNat)
    (epc : SysCsrs → Word) (hart : Hart) : (hart.xret allowed ret epc).2.level ≤ hart.level := by
  cases system : hart.sys with
  | none =>
    unfold xret
    simp only [system]
    exact le_rfl
  | some sys =>
    by_cases may : allowed sys
    · obtain ⟨fetch, hart', returned, after⟩ := xret_allowed system may ret epc
      rw [returned, level_some after, level_some system]
      exact lower sys may
    · unfold xret
      simp only [system, if_neg may]
      exact le_rfl

theorem mret_lower (sys : SysCsrs) (may : mretAllowed sys) :
    sys.mret.mode.bits.toNat ≤ sys.mode.bits.toNat := by
  have machine : sys.mode = .machine := by simpa [mretAllowed] using may
  rw [machine]
  exact Mode.bits_le_machine _

theorem sret_lower (sys : SysCsrs) (may : sretAllowed sys) :
    sys.sret.mode.bits.toNat ≤ sys.mode.bits.toNat := by
  have notUser : sys.mode ≠ .user := by
    intro user
    simp [sretAllowed, user] at may
  have previous : sys.sret.mode = .supervisor ∨ sys.sret.mode = .user := by
    change (if _ then Mode.supervisor else Mode.user) = _ ∨
      (if _ then Mode.supervisor else Mode.user) = _
    split
    · exact .inl rfl
    · exact .inr rfl
  generalize sys.mode = mode at notUser
  rcases previous with h | h <;> rw [h] <;> cases mode <;> first | decide | exact absurd rfl notUser

/-- What no CSR write and no fence changes. -/
def SysCsrs.standing (sys : SysCsrs) : Mode × TimeBase := (sys.mode, sys.timeBase)

def Hart.Stands (hart hart' : Hart) :
    Prop := hart'.sys.map SysCsrs.standing = hart.sys.map SysCsrs.standing

namespace Hart.Stands

theorem mode? {hart' : Hart} (stands : hart.Stands hart') : hart'.mode? = hart.mode? := by
  have first := congrArg (Option.map Prod.fst) stands
  rwa [Option.map_map, Option.map_map] at first

theorem timeBase? {hart' : Hart} (stands : hart.Stands hart') :
    hart'.timeBase? = hart.timeBase? := by
  have second := congrArg (Option.map Prod.snd) stands
  rwa [Option.map_map, Option.map_map] at second

variable (hart : Hart) {update : SysCsrs → SysCsrs}

theorem modifySys (same : ∀ sys, (update sys).standing = sys.standing) :
    hart.Stands (hart.modifySys update) := by
  unfold Stands Hart.modifySys
  cases hart.sys with
  | none => rfl
  | some sys => exact congrArg some (same sys)

theorem withSys {hart : Hart} {sys sys' : SysCsrs} (system : hart.sys = some sys)
    (same : sys'.standing = sys.standing) : hart.Stands { hart with sys := some sys' } := by
  unfold Stands
  rw [system]
  exact congrArg some same

theorem csrWrite (insnCount : Word) (csr : CsrAddr) (v : Word) :
    hart.Stands (hart.csrWrite insnCount csr v).hart := by
  have effect := hart.csrWrite_effect insnCount csr v
  generalize hart.csrWrite insnCount csr v = written at effect
  cases effect with
  | reject | fcsr => rfl
  | vector | counter => exact modifySys _ fun _ => rfl
  | sys system _ mode _ timeBase => exact withSys system (congrArg₂ Prod.mk mode timeBase)
  | status system _ changes =>
    unfold Stands
    rw [← changes, privilegeChanged_sys]
    exact withSys system rfl
  | satp system => exact withSys system rfl

theorem sfenceVma (va : Option Word) (asid : Option (BitVec 16)) :
    hart.Stands (hart.sfenceVma va asid).1 := by
  unfold Hart.sfenceVma
  split
  · rfl
  · cases va <;> rfl

end Hart.Stands

variable (units : Units β)

theorem permits_level : Permits units fun m m' : Machine β => m'.hart.level ≤ m.hart.level where
  refl _ := le_rfl
  trans _ _ _ first second := second.trans first
  setX _ _ _ _ := le_rfl
  setF _ _ _ := le_rfl
  fpDirty m := (level_of_mode? (mode?_fpDirty m.hart)).le
  raise _ _ := le_rfl
  reserve _ _ := le_rfl
  pollNow _ := le_rfl
  csrWrite m n csr v := (level_of_mode? (Hart.Stands.csrWrite m.hart n csr v).mode?).le
  mret m := xret_level mret_lower _ m.hart
  sret m := xret_level sret_lower _ m.hart
  fence m _ _ := (level_of_mode? (Hart.Stands.sfenceVma m.hart _ _).mode?).le
  ld width va m := (level_of_mode? (Drives.ld width va m).2).le
  st width va val m := (level_of_mode? (Drives.st width va val m).2).le
  vectorMemory insn load m := (level_of_mode? (Drives.vectorMemory units.vector insn load m).2).le
  vectorArithmetic insn m := (level_of_mode? (Drives.vectorArithmetic units.vector insn m).2).le

/-- The hart and pc of `s'` are what `take_trap` makes of a hart in the mode of `s`. -/
def TookTrap (s s' : System β) : Prop :=
  ∃ (hart : Hart) (pc insnCount cause tval : Word) (isInterrupt : Bool),
    hart.mode? = s.cpu.hart.mode? ∧
      s'.cpu.hart = (takeTrap hart pc insnCount cause tval isInterrupt).hart ∧
      s'.cpu.pc = (takeTrap hart pc insnCount cause tval isInterrupt).pc

inductive Transition (units : Units β) : System β → System β → Prop
  | step (s : System β) : Transition units s (finalState (System.step units s))
  | trap (s : System β) (e : Exception) : Transition units s (s.trap e)
  | poll (s : System β) : Transition units s s.poll

def SameRegisters (s s' : System β) : Prop :=
  s'.cpu.hart = s.cpu.hart ∧ s'.cpu.pc = s.cpu.pc ∧ s'.cpu.insnCount = s.cpu.insnCount

variable (s : System β)

theorem fetch_registers :
    Along SameRegisters (System.fetch : EStateM Exception (System β) Fetched) := fun s =>
  have ⟨hart, pc, count, _⟩ := System.fetch_along (R := fun _ _ _ => True) (fun _ _ => trivial)
    (fun _ _ _ _ _ _ => trivial) (fun _ _ _ _ => trivial) (fun _ _ _ => trivial) s
  ⟨hart, pc, count⟩

theorem stepEcall_cases (hart : Hart) (pc nextPc insnCount : Word) :
    (stepEcall hart pc nextPc insnCount).1 = hart ∨
      ∃ cause,
      (stepEcall hart pc nextPc insnCount).1 = (takeTrap hart pc insnCount cause 0#64 false).hart ∧
        (stepEcall hart pc nextPc insnCount).2.next.pc =
          (takeTrap hart pc insnCount cause 0#64 false).pc := by
  unfold stepEcall
  cases hart.sys with
  | none => exact .inl rfl
  | some sys =>
    simp only
    split
    · exact .inl rfl
    · exact .inr ⟨_, rfl, rfl⟩

theorem commit_level (fetched : Fetched) :
    (finalState (System.commit (body units s.cpu.pc s.cpu.insnCount fetched) s)).cpu.hart.level ≤
      s.cpu.hart.level ∨
      TookTrap s (finalState (System.commit (body units s.cpu.pc s.cpu.insnCount fetched) s)) := by
  by_cases call : fetched = .full ECALL
  · subst call
    rcases stepEcall_cases s.cpu.hart s.cpu.pc (s.cpu.pc + 4) s.cpu.insnCount with
      same | ⟨cause, hart, pc⟩
    · left
      change (stepEcall s.cpu.hart s.cpu.pc (s.cpu.pc + 4) s.cpu.insnCount).1.level ≤ _
      rw [same]
    · exact .inr ⟨s.cpu.hart, s.cpu.pc, s.cpu.insnCount, cause, 0#64, false, rfl, hart, pc⟩
  · left
    have lower : Along _ (body units s.cpu.pc s.cpu.insnCount fetched) :=
      (permits_level units).body fun isCall => absurd isCall call
    replace lower := lower { hart := s.cpu.hart, bus := s.bus }
    unfold System.commit
    cases run : body units s.cpu.pc s.cpu.insnCount fetched { hart := s.cpu.hart, bus := s.bus } <;>
      rw [run] at lower <;> exact lower

theorem step_level : (finalState (System.step units s)).cpu.hart.level ≤ s.cpu.hart.level ∨
      TookTrap s (finalState (System.step units s)) := by
  have registers := fetch_registers s
  unfold System.step
  cases fetched : System.fetch s with
  | error e s' =>
    rw [fetched] at registers
    rw [bind_error _ fetched]
    exact .inl (congrArg Hart.level registers.1).le
  | ok instruction s' =>
    rw [fetched] at registers
    rw [bind_ok _ fetched, get_bind]
    rcases commit_level units s' instruction with lower
      | ⟨hart, pc, n, cause, tval, irq, mode, after⟩
    · rw [← registers.1]
      exact .inl lower
    · exact .inr
        ⟨hart, pc, n, cause, tval, irq, mode.trans (congrArg Hart.mode? registers.1), after⟩

theorem checkInterrupts_level :
    s.checkInterrupts.2.cpu.hart.level ≤ s.cpu.hart.level ∨ TookTrap s s.checkInterrupts.2 := by
  have mode (mip : Word) : (s.sampled mip).cpu.hart.mode? = s.cpu.hart.mode? :=
    Hart.Stands.mode? (.modifySys s.cpu.hart fun _ => rfl)
  refine System.checkInterrupts_rule
    (P := fun s' => s'.cpu.hart.level ≤ s.cpu.hart.level ∨ TookTrap s s') (.inl le_rfl)
    (fun mip => .inl (level_of_mode? (mode mip)).le) fun mip irq => ?_
  exact .inr ⟨_, _, _, _, _, _, mode mip, rfl, rfl⟩

theorem Transition.level {units : Units β} {s s' : System β} (moved : Transition units s s') :
    s'.cpu.hart.level ≤ s.cpu.hart.level ∨ TookTrap s s' := by
  cases moved with
  | step => exact step_level units s
  | trap e =>
    exact .inr ⟨s.cpu.hart, s.cpu.pc, s.cpu.insnCount, _, _, false, rfl, rfl, rfl⟩
  | poll =>
    unfold System.poll
    simp only
    split
    · exact checkInterrupts_level _
    · exact .inl le_rfl

section Runs

open Relation (ReflTransGen)

theorem runRound_transitions (units : Units β) (system : Bool) {start s : System β}
    (path : ReflTransGen (Transition units) start s) :
    Sum.elim (fun stopped => ReflTransGen (Transition units) start stopped.2)
      (ReflTransGen (Transition units) start) (System.runRound units system s) := by
  have polled : ReflTransGen (Transition units) start (if system then s.poll else s) := by
    split
    · exact path.tail (.poll s)
    · exact path
  exact System.runRound_rule polled (fun s' path => path.tail (.step s')) fun s' e path =>
    path.tail (.trap s' e)

theorem run_transitions (units : Units β) (budget : Nat) (s : System β) :
    ReflTransGen (Transition units) s (s.run units budget).2 :=
  System.run_rule budget .refl fun _ path => runRound_transitions units _ path

end Runs

/-! ## CSR instructions below machine mode -/

def Csr.privilege : Csr → BitVec 2
  | .fflags | .frm | .fcsr | .vstart | .vxsat | .vxrm | .vcsr | .cycle | .time | .instret | .vl
  | .vtype | .vlenb => 0#2
  | .sstatus | .sie | .stvec | .scounteren | .sscratch | .sepc | .scause | .stval | .sip
  | .satp => 1#2
  | _ => 3#2

theorem privilege_of_range {csr : CsrAddr} (low : 0x300#12 ≤ csr) (high : csr ≤ 0x3ff#12) :
    csr.extractLsb' 8 2 = 3#2 := by
  apply eq_of_toNat_eq
  rw [extractLsb'_toNat]
  have low' : 0x300 ≤ csr.toNat := low
  have high' : csr.toNat ≤ 0x3ff := high
  rw [Nat.shiftRight_eq_div_pow]
  simp only [toNat_ofNat]
  omega

theorem Csr.ofAddr_privilege {csr : CsrAddr} {named : Csr} (found : Csr.ofAddr csr = some named) :
    csr.extractLsb' 8 2 = named.privilege := by
  unfold Csr.ofAddr at found
  split at found
  case h_47 =>
    split at found
    · rename_i range
      cases found
      exact privilege_of_range (BitVec.le_trans (by decide) range.1)
        (BitVec.le_trans range.2.1 (by decide))
    · split at found
      · rename_i range
        cases found
        exact privilege_of_range (BitVec.le_trans (by decide) range.1)
          (BitVec.le_trans range.2 (by decide))
      · cases found
  all_goals
    cases found
    decide

/-- The machine-level bits a mode below machine mode reaches through its own CSRs. -/
structure Reach where
  mstatus : Word
  mie : Word
  mip : Word

/-- What an instruction of the mode may change in `mstatus`: user mode has no view of it, but marks
FS and VS dirty. -/
def Mode.statusReach : Mode → Word
  | .user => MSTATUS_FS ||| MSTATUS_VS
  | _ => SSTATUS_MASK

def SysCsrs.reach (sys : SysCsrs) : Reach where
  mstatus := sys.mode.statusReach
  mie := if sys.mode = .user then 0#64 else sys.mideleg
  mip := if sys.mode = .user then 0#64 else IRQ_SSIP &&& sys.mideleg

/-- The mode and every machine-level CSR, outside the reach given. -/
structure SysCsrs.SameMachine (reach : Reach) (sys sys' : SysCsrs) : Prop where
  mode : sys'.mode = sys.mode
  mstatus : sys'.mstatus &&& ~~~reach.mstatus = sys.mstatus &&& ~~~reach.mstatus
  medeleg : sys'.medeleg = sys.medeleg
  mideleg : sys'.mideleg = sys.mideleg
  mie : sys'.mie &&& ~~~reach.mie = sys.mie &&& ~~~reach.mie
  mip : sys'.mip &&& ~~~reach.mip = sys.mip &&& ~~~reach.mip
  mtvec : sys'.mtvec = sys.mtvec
  mcounteren : sys'.mcounteren = sys.mcounteren
  mscratch : sys'.mscratch = sys.mscratch
  mepc : sys'.mepc = sys.mepc
  mcause : sys'.mcause = sys.mcause
  mtval : sys'.mtval = sys.mtval
  mhartid : sys'.mhartid = sys.mhartid
  pmpcfg : sys'.pmpcfg = sys.pmpcfg
  pmpaddr : sys'.pmpaddr = sys.pmpaddr
  minstretOff : sys'.minstretOff = sys.minstretOff

namespace SysCsrs.SameMachine

variable {reach : Reach} {a b c : SysCsrs}

theorem refl (reach : Reach) (sys : SysCsrs) : SameMachine reach sys sys := by
  constructor <;> rfl

theorem trans (first : SameMachine reach a b) (second : SameMachine reach b c) :
    SameMachine reach a c where
  mode := second.mode.trans first.mode
  mstatus := second.mstatus.trans first.mstatus
  medeleg := second.medeleg.trans first.medeleg
  mideleg := second.mideleg.trans first.mideleg
  mie := second.mie.trans first.mie
  mip := second.mip.trans first.mip
  mtvec := second.mtvec.trans first.mtvec
  mcounteren := second.mcounteren.trans first.mcounteren
  mscratch := second.mscratch.trans first.mscratch
  mepc := second.mepc.trans first.mepc
  mcause := second.mcause.trans first.mcause
  mtval := second.mtval.trans first.mtval
  mhartid := second.mhartid.trans first.mhartid
  pmpcfg := second.pmpcfg.trans first.pmpcfg
  pmpaddr := second.pmpaddr.trans first.pmpaddr
  minstretOff := second.minstretOff.trans first.minstretOff

theorem reach_eq (same : SameMachine reach a b) : b.reach = a.reach := by
  unfold SysCsrs.reach
  rw [same.mode, same.mideleg]

end SysCsrs.SameMachine

theorem replaceBits_outside {mask reach : Word} (inside : mask &&& ~~~reach = 0#64)
    (old new : Word) : replaceBits mask old new &&& ~~~reach = old &&& ~~~reach := by
  unfold replaceBits
  apply eq_of_getLsbD_eq
  intro i h
  have bit := congrArg (fun w : Word => w.getLsbD i) inside
  simp only [getLsbD_and, getLsbD_or, getLsbD_not, h, decide_true,
    Bool.true_and, getLsbD_zero] at bit ⊢
  revert bit
  cases mask.getLsbD i <;> cases reach.getLsbD i <;> simp

theorem or_outside {bits reach : Word} (inside : bits &&& ~~~reach = 0#64) (old : Word) :
    (old ||| bits) &&& ~~~reach = old &&& ~~~reach := by
  rw [BitVec.and_comm, BitVec.and_or_distrib_left, BitVec.and_comm _ bits, inside, BitVec.or_zero,
    BitVec.and_comm]

/-- A hart below machine mode keeps the machine-level CSRs outside its reach. -/
def Hart.KeepsMachine (hart hart' : Hart) : Prop :=
  ∀ sys, hart.sys = some sys → sys.mode ≠ .machine →
    ∃ sys', hart'.sys = some sys' ∧ sys.SameMachine sys.reach sys'

namespace Hart.KeepsMachine

theorem refl (hart : Hart) : hart.KeepsMachine hart := fun sys system _ =>
  ⟨sys, system, .refl _ sys⟩

theorem of_sys {hart hart' : Hart} (same : hart'.sys = hart.sys) : hart.KeepsMachine hart' :=
  fun sys system _ => ⟨sys, same.trans system, .refl _ sys⟩

theorem trans {a b c : Hart} (first : a.KeepsMachine b) (second : b.KeepsMachine c) :
    a.KeepsMachine c := by
  intro sys system below
  obtain ⟨sys', system', same⟩ := first sys system below
  obtain ⟨sys'', system'', same'⟩ := second sys' system' (by rwa [same.mode])
  rw [same.reach_eq] at same'
  exact ⟨sys'', system'', same.trans same'⟩

end Hart.KeepsMachine

theorem dirty_keepsMachine (hart : Hart) {bits : Word}
    (inside : ∀ mode : Mode, bits &&& ~~~mode.statusReach = 0#64) :
    hart.KeepsMachine (hart.modifySys fun sys => { sys with mstatus := sys.mstatus ||| bits }) := by
  intro sys system below
  refine ⟨{ sys with mstatus := sys.mstatus ||| bits }, ?_, ?_⟩
  · rw [Hart.modifySys, system]
    rfl
  · exact { SameMachine.refl sys.reach sys with mstatus := or_outside (inside sys.mode) _ }

theorem fpDirty_keepsMachine (hart : Hart) : hart.KeepsMachine hart.fpDirty :=
  dirty_keepsMachine hart fun mode => by cases mode <;> decide

theorem vectorDirty_keepsMachine (hart : Hart) : hart.KeepsMachine hart.vectorDirty :=
  dirty_keepsMachine hart fun mode => by cases mode <;> decide

theorem writeVector_keepsMachine (hart : Hart) (update : VectorState → VectorState) :
    hart.KeepsMachine (hart.writeVector update).hart := by
  unfold Hart.writeVector
  split
  · have sameSys : hart.KeepsMachine { hart with vector := update hart.vector } := .of_sys rfl
    exact sameSys.trans (vectorDirty_keepsMachine _)
  · exact .refl hart

theorem writeSys_keepsMachine {update : SysCsrs → SysCsrs}
    (same : ∀ sys, hart.sys = some sys → sys.mode ≠ .machine →
      sys.SameMachine sys.reach (update sys)) : hart.KeepsMachine (hart.writeSys update).hart := by
  intro sys system below
  unfold Hart.writeSys
  rw [system]
  exact ⟨_, rfl, same sys system below⟩

theorem writeSatp_keepsMachine (hart : Hart) (v : Word) :
    hart.KeepsMachine (hart.writeSatp v).hart := by
  intro sys system below
  unfold Hart.writeSatp
  simp only [system]
  split
  · exact ⟨sys, system, .refl _ sys⟩
  · split
    · split
      · exact ⟨_, rfl, by constructor <;> rfl⟩
      · exact ⟨_, rfl, by constructor <;> rfl⟩
    · exact ⟨sys, system, .refl _ sys⟩

theorem writeStatus_keepsMachine {mask : Word}
    (inside : ∀ sys, hart.sys = some sys → mask &&& ~~~sys.reach.mstatus = 0#64) (v : Word) :
    hart.KeepsMachine (hart.writeStatus mask v).hart := by
  intro sys system below
  unfold Hart.writeStatus
  simp only [system]
  rw [privilegeChanged_sys]
  exact ⟨_, rfl, { SameMachine.refl sys.reach sys with
    mstatus := replaceBits_outside (inside sys system) _ _ }⟩

/-- Below machine mode a CSR that may be touched is a user CSR or, in supervisor mode, a
supervisor CSR. -/
theorem privilege_le_mode {level : BitVec 2} {mode : Mode} (below : mode ≠ .machine)
    (may : level.setWidth 64 ≤ mode.bits) : level = 0#2 ∨ (level = 1#2 ∧ mode = .supervisor) := by
  cases mode with
  | machine => exact absurd rfl below
  | user => revert level; decide
  | supervisor => revert level; decide

theorem writeCsr_keepsMachine (system : hart.sys = some sys) (insnCount v : Word) {named : Csr}
    (user : named.privilege = 0#2 ∨ (named.privilege = 1#2 ∧ sys.mode = .supervisor)) :
    hart.KeepsMachine (hart.writeCsr insnCount named v).hart := by
  have supervisor : named.privilege = 1#2 → ∀ sys', hart.sys = some sys' →
      sys'.mode = .supervisor := by
    rintro level sys' system'
    rw [system] at system'
    cases system'
    rcases user with zero | ⟨_, mode⟩
    · rw [zero] at level
      exact absurd level (by decide)
    · exact mode
  cases named
  case vstart | vxsat | vxrm | vcsr => exact writeVector_keepsMachine hart _
  case fflags | frm | fcsr | cycle | time | instret | vl | vtype | vlenb => exact .of_sys rfl
  case satp => exact writeSatp_keepsMachine hart v
  case stvec | scounteren | sscratch | sepc | scause | stval =>
    exact writeSys_keepsMachine fun sys _ _ => by constructor <;> rfl
  case sstatus =>
    refine writeStatus_keepsMachine (fun sys' system' => ?_) v
    change SSTATUS_WRITE &&& ~~~sys'.mode.statusReach = 0#64
    rw [supervisor rfl sys' system']
    decide
  case sie =>
    refine writeSys_keepsMachine fun sys' system' _ => ?_
    refine { SameMachine.refl sys'.reach sys' with mie := replaceBits_outside ?_ _ _ }
    change sys'.mideleg &&& ~~~(if sys'.mode = .user then 0#64 else sys'.mideleg) = 0#64
    rw [supervisor rfl sys' system', if_neg (by decide)]
    simp
  case sip =>
    refine writeSys_keepsMachine fun sys' system' _ => ?_
    refine { SameMachine.refl sys'.reach sys' with mip := replaceBits_outside ?_ _ _ }
    change (IRQ_SSIP &&& sys'.mideleg) &&&
      ~~~(if sys'.mode = .user then 0#64 else IRQ_SSIP &&& sys'.mideleg) = 0#64
    rw [supervisor rfl sys' system', if_neg (by decide)]
    simp
  all_goals exact absurd user (by simp [Csr.privilege])

theorem csrWrite_keepsMachine (hart : Hart) (insnCount : Word) (csr : CsrAddr) (v : Word) :
    hart.KeepsMachine (hart.csrWrite insnCount csr v).hart := by
  intro sys system below
  have polled : ({ hart with irqPollCd := 0#32 } : Hart).sys = some sys := system
  unfold Hart.csrWrite
  simp only
  split
  · exact ⟨sys, system, .refl _ sys⟩
  split
  · exact ⟨sys, system, .refl _ sys⟩
  · rename_i _ may
    cases found : Csr.ofAddr csr with
    | none => exact ⟨sys, system, .refl _ sys⟩
    | some named =>
      have level : named.privilege.setWidth 64 ≤ sys.mode.bits := by
        rw [← Csr.ofAddr_privilege found]
        simpa [system, mayAccess] using may
      exact writeCsr_keepsMachine polled insnCount v (privilege_le_mode below level) sys polled
        below

def IsCsrInsn (insn : Insn) : Prop := opcode insn = 0x73#7 ∧ (funct3 insn).extractLsb' 0 2 ≠ 0#2

theorem execute_csr {insn : Insn} (isCsr : IsCsrInsn insn) (units : Units β) (pc insnCount : Word) :
    execute units insn pc insnCount = stepCsr insn (pc + 4) insnCount := by
  obtain ⟨system, form⟩ := isCsr
  have other : ∀ word : Insn, (funct3 word).extractLsb' 0 2 = 0#2 → insn ≠ word := by
    rintro word zero rfl
    exact form zero
  have fence : ¬ (funct7 insn = 0x09#7 ∧ funct3 insn = 0#3) := by
    rintro ⟨-, zero⟩
    rw [zero] at form
    exact form rfl
  unfold execute executeNext
  simp only [system]
  unfold stepSystem
  rw [if_neg (other _ (by decide)), if_neg (other _ (by decide)), if_neg (other _ (by decide)),
    if_neg (other _ (by decide)), if_neg (other _ (by decide)), if_neg fence, if_pos form]

theorem keepsMachine_reads : Reads fun m m' : Machine β => m.hart.KeepsMachine m'.hart where
  refl m := .refl m.hart
  trans _ _ _ := .trans
  fpDirty m := fpDirty_keepsMachine m.hart
  ld width va m := .of_sys (sys_of_registers (Accesses.stores.ld width va m).2)

/-! ## The privilege discipline -/

theorem takeTrap_restores (system : hart.sys = some sys) (pc insnCount cause tval : Word)
    (isInterrupt : Bool) :
    ∃ saved, (takeTrap hart pc insnCount cause tval isInterrupt).hart.sys = some saved ∧
      saved.mode ≠ .user ∧ Restores sys pc saved.mode saved ∧ (saved.mode = .supervisor →
        saved.mstatus &&& MSTATUS_TSR = sys.mstatus &&& MSTATUS_TSR) := by
  obtain ⟨causeVal, trapped⟩ := takeTrap_sys system pc insnCount cause tval isInterrupt
  by_cases delegated : sys.delegates cause isInterrupt
  · rw [if_pos delegated] at trapped
    have below : sys.mode ≠ .machine := by
      simp only [delegates, decide_eq_true_iff] at delegated
      exact delegated.1
    exact ⟨_, trapped, Mode.noConfusion, trapToS_restores below pc causeVal tval,
      fun _ => trapToS_tsr sys pc causeVal tval⟩
  · rw [if_neg delegated] at trapped
    exact ⟨_, trapped, Mode.noConfusion, trapToM_restores sys pc causeVal tval, Mode.noConfusion⟩

/-- Trap entry against xRET, the mode along runs, and the reach of CSR instructions. -/
theorem privilege_discipline (units : Units β) :
    -- a trap to a mode T, then the xRET of T with xepc and mstatus untouched
    (∀ (hart : Hart) (sys : SysCsrs) (pc insnCount cause tval : Word) (isInterrupt : Bool),
      hart.sys = some sys →
      ∃ saved, (takeTrap hart pc insnCount cause tval isInterrupt).hart.sys = some saved ∧
        ∀ (m : Machine β) (later : SysCsrs) (at_pc count : Word), m.hart.sys = some later →
          later.mode = saved.mode → saved.mode.epc later = saved.mode.epc saved →
          later.mstatus = saved.mstatus →
          if saved.mode = .supervisor ∧ sys.mstatus &&& MSTATUS_TSR ≠ 0#64 then
            execute units saved.mode.ret at_pc count m = .error (.illegalInstruction saved.mode.ret)
                { m with hart := { m.hart with irqPollCd := 0#32 } } else
            ∃ fetch m' sys', execute units saved.mode.ret at_pc count m =
                .ok { next := { pc := pc, stop := none }, fetch := fetch } m' ∧
              m'.hart.sys = some sys' ∧ sys'.mode = sys.mode ∧
              sys'.mstatus.getLsbD saved.mode.enable = sys.mstatus.getLsbD saved.mode.enable) ∧
    -- runs
    (∀ (s : System β) (budget : Nat),
      Relation.ReflTransGen (Transition units) s (s.run units budget).2) ∧
    (∀ s s' : System β, Transition units s s' → s.cpu.hart.level < s'.cpu.hart.level →
      TookTrap s s') ∧
    (∀ (mode : Mode) (pc insnCount : Word) (m : Machine β),
      (finalState (execute units mode.ret pc insnCount m)).hart.level ≤ m.hart.level) ∧
    -- CSR instructions below machine mode
    ∀ (insn : Insn) (pc insnCount : Word) (m : Machine β) (sys : SysCsrs), IsCsrInsn insn →
      m.hart.sys = some sys → sys.mode ≠ .machine →
      ∃ sys', (finalState (execute units insn pc insnCount m)).hart.sys = some sys' ∧
        sys.SameMachine sys.reach sys' := by
  refine ⟨?_, fun s budget => run_transitions units budget s, ?_, ?_, ?_⟩
  · intro hart sys pc insnCount cause tval isInterrupt system
    obtain ⟨saved, trapped, notUser, restores, tsr⟩ :=
      takeTrap_restores system pc insnCount cause tval isInterrupt
    refine ⟨saved, trapped, fun m later at_pc count system' mode epc status => ?_⟩
    split
    · rename_i refused
      have trapped' : later.mstatus &&& MSTATUS_TSR ≠ 0#64 := by
        rw [status, tsr refused.1]
        exact refused.2
      rw [refused.1]
      have below : sretAllowed later = false := by
        simp [sretAllowed, mode.trans refused.1, trapped']
      exact stepXret_refused system' below _ _ _
    · rename_i allowed
      refine ret_restores restores units system' mode epc status notUser (fun toS => ?_) at_pc count
      rw [tsr toS]
      by_contra set
      exact allowed ⟨toS, set⟩
  · intro s s' moved raised
    rcases moved.level with lower | trap
    · exact absurd lower (Nat.not_le.mpr raised)
    · exact trap
  · intro mode pc insnCount m
    exact (permits_level units).executeNext _ (fun _ =>
      (permits_level units).stepSystem _ fun call => absurd call (by cases mode <;> decide)) m
  · intro insn pc insnCount m sys isCsr system below
    rw [execute_csr isCsr]
    exact keepsMachine_reads.stepCsr (fun _ _ _ => .of_sys rfl)
      (fun m => csrWrite_keepsMachine m.hart) insn (pc + 4) insnCount m sys system below

/-! ## SRET under TSR -/

namespace TrapSret

open Rv64Js.Board Rv64Js.Board.TwoPages

/-- User mode, with ECALL delegated to supervisor mode and `mstatus.TSR` as given. -/
def userHart (tsr : Word) : Hart :=
  { Hart.new with
    sys := some { SysCsrs.new with
      mode := .user
      medeleg := 0x100#64
      mstatus := SysCsrs.new.mstatus ||| tsr } }

def trapped (tsr : Word) : Redirect := takeTrap (userHart tsr) 0x1000#64 0#64 8#64 0#64 false

theorem sret_refused : (trapped MSTATUS_TSR).hart.mode? = some .supervisor ∧
      (execute Units.scalar 0x10200073#32 0#64 0#64
        { hart := (trapped MSTATUS_TSR).hart, bus := boot.bus } =
        .error (.illegalInstruction 0x10200073#32)
          { hart := { (trapped MSTATUS_TSR).hart with irqPollCd := 0#32 }, bus := boot.bus }) :=
  ⟨by decide, rfl⟩

theorem sret_returns : ∃ fetch m' sys', execute Units.scalar 0x10200073#32 0#64 0#64
        { hart := (trapped 0#64).hart, bus := boot.bus } =
      .ok { next := { pc := 0x1000#64, stop := none }, fetch := fetch } m' ∧
      m'.hart.sys = some sys' ∧ sys'.mode = .user := by
  obtain ⟨saved, system, returns⟩ := (privilege_discipline
    (Units.scalar : Units (SystemBus twoPages NoDevices))).1 (userHart 0#64) _
    0x1000#64 0#64 8#64 0#64 false rfl
  have mode : saved.mode = .supervisor := by
    cases system
    rfl
  have back := returns { hart := (trapped 0#64).hart, bus := boot.bus } saved 0#64 0#64 system rfl
    rfl rfl
  rw [if_neg fun both => both.2 (by decide), mode] at back
  obtain ⟨fetch, m', sys', run, after, user, -⟩ := back
  exact ⟨fetch, m', sys', run, after, user⟩

end TrapSret

/-! ## Interrupts -/

/-- An interrupt goes to no less privileged mode than it finds, and to the same mode only if that
mode has interrupts enabled. -/
theorem interrupt_taken_upward {hart : Hart} {sys : SysCsrs} (system : hart.sys = some sys)
    {pc n : Word} {bus : β} {r : Redirect} (taken : (checkInterrupts hart pc n bus).1 = some r) :
    ∃ mode, r.hart.mode? = some mode ∧
      sys.mode.bits ≤ mode.bits ∧ (mode = sys.mode → sys.mstatus.getLsbD mode.enable = true) := by
  unfold checkInterrupts at taken
  simp only [system] at taken
  split at taken
  · cases taken
  · split at taken
    · cases taken
    · rename_i irq found
      cases taken
      have may := List.find?_some found
      have index : ∀ irq ∈ irqPriority, (irq &&& 63#64).toNat = irq.toNat := by simp [irqPriority]
      obtain ⟨causeVal, after⟩ := @takeTrap_sys { hart with sys := some _ } _ rfl pc n irq 0#64 true
      refine ⟨_, congrArg (Option.map SysCsrs.mode) after, ?_⟩
      rw [SysCsrs.delegates, index irq (List.mem_of_find?_eq_some found)]
      simp only [SysCsrs.deliverable, show MSTATUS_MIE = twoPow 64 3 from rfl,
        show MSTATUS_SIE = twoPow 64 1 from rfl, and_twoPow] at may ⊢
      cases mode : sys.mode <;>
        simp [mode, SysCsrs.trapToM, SysCsrs.trapToS, Mode.bits, Mode.enable] at may ⊢ <;> grind

/-- User mode, with the supervisor's software interrupt pending and not delegated. -/
def interrupted : Hart :=
  { Hart.new with sys := some { SysCsrs.new with mode := .user, mie := 2#64, mip := 2#64 } }

theorem interrupted_upward :
    ∃ r mode, (checkInterrupts interrupted 0#64 0#64 Board.TwoPages.boot.bus).1 = some r ∧
    r.hart.mode? = some mode ∧ Mode.user.bits ≤ mode.bits := by
  have taken : (checkInterrupts interrupted 0#64 0#64 Board.TwoPages.boot.bus).1 = some _ := rfl
  obtain ⟨mode, entered, up, -⟩ := interrupt_taken_upward rfl taken
  exact ⟨_, mode, taken, entered, up⟩

end Rv64Js.Core
