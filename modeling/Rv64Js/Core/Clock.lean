import Rv64Js.Core.Privilege

/-! # Instructions leave the time base alone

No instruction, trap or interrupt writes what TIME is read from, and a round of `run` retires at
most one instruction. -/

set_option autoImplicit false

namespace Rv64Js.Core

open Fallible

variable {β : Type} [Bus β]

def TimeBase.read (base : TimeBase) (insnCount : Word) : Word :=
  if base.timeScale = 0#64 then base.mtime else insnCount / base.timeScale + base.timeOffset

theorem TimeBase.read_mono {base : TimeBase} {n n' : Word} (count : n ≤ n')
    (fits : (n' / base.timeScale).toNat + base.timeOffset.toNat < 2 ^ 64) :
    base.read n ≤ base.read n' := by
  unfold read
  split
  · exact BitVec.le_refl _
  · have ticks : (n / base.timeScale).toNat ≤ (n' / base.timeScale).toNat := by
      rw [BitVec.toNat_udiv, BitVec.toNat_udiv]
      exact Nat.div_le_div_right count
    rw [BitVec.le_def, BitVec.toNat_add, BitVec.toNat_add, Nat.mod_eq_of_lt fits,
      Nat.mod_eq_of_lt (by omega)]
    omega

theorem Hart.csrRead_time {hart : Hart} {base : TimeBase} (system : hart.timeBase? = some base)
    {insnCount t : Word} (read : hart.csrRead insnCount 0xc01#12 = some t) :
    t = base.read insnCount := by
  unfold csrRead at read
  split at read
  · cases read
  · obtain ⟨sys, some_sys, rfl⟩ := Option.map_eq_some_iff.mp system
    have value : hart.readCsr insnCount .time = some t := read
    rw [readCsr, some_sys] at value
    exact (Option.some.inj value).symm

/-! ## The changes an instruction is made of -/

namespace Hart

variable (hart : Hart)

theorem timeBase?_xret (allowed : SysCsrs → Bool) (ret : SysCsrs → SysCsrs) (epc : SysCsrs → Word)
    (same : ∀ sys, (ret sys).timeBase = sys.timeBase) (hart : Hart) :
    (hart.xret allowed ret epc).2.timeBase? = hart.timeBase? := by
  unfold xret
  cases system : hart.sys with
  | none => rfl
  | some sys =>
    by_cases may : allowed sys
    · simp only [if_pos may]
      rw [timeBase?, privilegeChanged_sys, timeBase?, system]
      exact congrArg some (same sys)
    · simp only [if_neg may]

theorem timeBase?_takeTrap (pc insnCount cause tval : Word) (isInterrupt : Bool) :
    (takeTrap hart pc insnCount cause tval isInterrupt).hart.timeBase? = hart.timeBase? := by
  unfold takeTrap
  cases system : hart.sys with
  | none => rfl
  | some sys =>
    rw [timeBase?, privilegeChanged_sys, timeBase?, system]
    exact congrArg some (by split <;> split <;> rfl)

theorem timeBase?_stepEcall (pc nextPc insnCount : Word) :
    (stepEcall hart pc nextPc insnCount).1.timeBase? = hart.timeBase? := by
  rcases stepEcall_cases hart pc nextPc insnCount with same | ⟨cause, taken, -⟩
  · rw [same]
  · rw [taken]
    exact timeBase?_takeTrap _ _ _ _ _ _

end Hart

/-! ## Instructions -/

def Machine.Ticks (m m' : Machine β) : Prop :=
  Bus.Evolves m.bus m'.bus ∧ m'.hart.timeBase? = m.hart.timeBase?

theorem Machine.Ticks.of_hart {m : Machine β} {hart : Hart}
    (same : hart.timeBase? = m.hart.timeBase?) : Machine.Ticks m { m with hart := hart } :=
  ⟨.refl _, same⟩

theorem Machine.Ticks.of_accesses {m m' : Machine β} (accesses : m.Accesses m') : m.Ticks m' :=
  ⟨accesses.1, congrArg (Option.map SysCsrs.timeBase) (Hart.sys_of_registers accesses.2)⟩

theorem vectorMemory_ticks (unit : VectorUnit β) (insn : Insn) (load : Bool) :
    Along Machine.Ticks (unit.memory insn load) :=
  .ite (fun m => ⟨(unit.unitStride_evolves insn load m).1, unit.unitStride_time insn load m⟩)
    fun m => ⟨(unit.memory_evolves insn load m).1, unit.memory_time insn load m⟩

theorem liftHart_ticks {α : Type} {op : EStateM Exception Hart α}
    (inner : Along (fun hart hart' => hart'.timeBase? = hart.timeBase?) op) :
    Along (Machine.Ticks (β := β)) (liftHart op) :=
  .zoom (fun _ _ same => .of_hart same) inner

theorem vectorArithmetic_ticks (unit : VectorUnit β) (insn : Insn) :
    Along Machine.Ticks (unit.arithmetic insn) :=
  .ite (liftHart_ticks (unit.config_time insn)) (liftHart_ticks (unit.op_time insn))

theorem permits_ticks (units : Units β) : Permits units Machine.Ticks where
  refl m := ⟨.refl m.bus, rfl⟩
  trans _ _ _ first second := ⟨first.1.trans second.1, second.2.trans first.2⟩
  setX _ _ _ _ := .of_hart rfl
  setF _ _ _ := .of_hart rfl
  fpDirty m := .of_hart (Hart.Stands.timeBase? (.modifySys m.hart fun _ => rfl))
  raise _ _ := .of_hart rfl
  reserve _ _ := .of_hart rfl
  pollNow _ := .of_hart rfl
  csrWrite m n csr v := .of_hart (Hart.Stands.csrWrite m.hart n csr v).timeBase?
  mret m := .of_hart (Hart.timeBase?_xret mretAllowed SysCsrs.mret _ (fun _ => rfl) m.hart)
  sret m := .of_hart (Hart.timeBase?_xret sretAllowed SysCsrs.sret _ (fun _ => rfl) m.hart)
  fence m _ _ := .of_hart (Hart.Stands.sfenceVma m.hart _ _).timeBase?
  ld width va m := .of_accesses (Accesses.stores.ld width va m)
  st width va val m := .of_accesses (Accesses.stores.st width va val m)
  vectorMemory := vectorMemory_ticks units.vector
  vectorArithmetic := vectorArithmetic_ticks units.vector

theorem body_ticks (units : Units β) (pc insnCount : Word) (fetched : Fetched) :
    Along Machine.Ticks (body units pc insnCount fetched) :=
  (permits_ticks units).body fun _ m => .of_hart (m.hart.timeBase?_stepEcall pc (pc + 4) insnCount)

/-! ## Steps and rounds -/

/-- Bus and hart move as an instruction moves them, and at most one instruction
has retired. -/
structure System.Ticks (s s' : System β) : Prop where
  bus : Bus.Evolves s.bus s'.bus
  timeBase : s'.cpu.hart.timeBase? = s.cpu.hart.timeBase?
  count : s'.cpu.insnCount = s.cpu.insnCount ∨ s'.cpu.insnCount = s.cpu.insnCount + 1

structure System.Waits (s s' : System β) : Prop where
  bus : Bus.Evolves s.bus s'.bus
  timeBase : s'.cpu.hart.timeBase? = s.cpu.hart.timeBase?
  count : s'.cpu.insnCount = s.cpu.insnCount

namespace System

variable {a b c : System β} (s : System β)

theorem Waits.refl : s.Waits s := ⟨.refl _, rfl, rfl⟩

theorem Waits.ticks (waits : a.Waits b) : a.Ticks b :=
  ⟨waits.bus, waits.timeBase, .inl waits.count⟩

theorem Waits.then (first : a.Waits b) (second : b.Ticks c) : a.Ticks c :=
  ⟨first.bus.trans second.bus, second.timeBase.trans first.timeBase,
    by rw [← first.count]; exact second.count⟩

theorem Ticks.then (first : a.Ticks b) (second : b.Waits c) : a.Ticks c :=
  ⟨first.bus.trans second.bus, second.timeBase.trans first.timeBase,
    by rw [second.count]; exact first.count⟩

theorem fetch_waits : Along Waits (System.fetch : EStateM Exception (System β) Fetched) := fun s =>
  have ⟨hart, _, count, moved⟩ := fetch_along (fun _ => .refl) (fun _ _ _ _ => .trans)
    (fun row hart va => translateIn_moves row hart va .fetch) (fun _ pa bus => .read bus .half pa) s
  ⟨moved, congrArg Hart.timeBase? hart, count⟩

theorem commit_ticks {body : Exec β Outcome} (inner : Along Machine.Ticks body) :
    Along Ticks (System.commit body) := by
  intro s
  have moved := inner { hart := s.cpu.hart, bus := s.bus }
  unfold System.commit
  cases run : body { hart := s.cpu.hart, bus := s.bus } with
  | ok outcome m =>
    rw [run] at moved
    exact ⟨moved.1, moved.2, .inr rfl⟩
  | error e m =>
    rw [run] at moved
    exact ⟨moved.1, moved.2, .inl rfl⟩

theorem step_ticks (units : Units β) : Along Ticks (System.step units) := by
  intro s
  have fetching := fetch_waits s
  unfold System.step
  cases fetched : System.fetch s with
  | error e s' =>
    rw [fetched] at fetching
    rw [bind_error _ fetched]
    exact fetching.ticks
  | ok instruction s' =>
    rw [fetched] at fetching
    rw [bind_ok _ fetched, get_bind]
    exact fetching.then (commit_ticks (body_ticks units _ _ instruction) s')

theorem redirect_waits (target : Redirect) (same : target.hart.timeBase? = s.cpu.hart.timeBase?) :
    s.Waits (s.redirect target) :=
  ⟨.refl _, same, rfl⟩

theorem trap_waits (e : Exception) : s.Waits (s.trap e) :=
  s.redirect_waits _ (Hart.timeBase?_takeTrap _ _ _ _ _ _)

theorem checkInterrupts_waits : s.Waits s.checkInterrupts.2 := by
  have sampled (mip : Word) : s.Waits (s.sampled mip) :=
    ⟨.op s.bus .irqLines, Hart.Stands.timeBase? (.modifySys s.cpu.hart fun _ => rfl), rfl⟩
  refine checkInterrupts_rule (.refl s) sampled fun mip irq => ?_
  exact ⟨(sampled mip).bus, (Hart.timeBase?_takeTrap ..).trans (sampled mip).timeBase, rfl⟩

theorem poll_waits : s.Waits s.poll := by
  unfold System.poll
  simp only
  split
  · have counted := checkInterrupts_waits { s with cpu := { s.cpu with hart :=
      { s.cpu.hart with irqPollCd := IRQ_POLL_INTERVAL } } }
    exact ⟨counted.bus, counted.timeBase, counted.count⟩
  · exact ⟨.refl _, rfl, rfl⟩

/-- The system a round of `run` ends in, whether the run goes on or stops there. -/
def afterRound (units : Units β) (system : Bool) (s : System β) : System β :=
  Sum.elim Prod.snd id (System.runRound units system s)

theorem afterRound_ticks (units : Units β) (system : Bool) (s : System β) :
    s.Ticks (s.afterRound units system) := by
  have polled : s.Waits (if system then s.poll else s) := by
    split
    · exact s.poll_waits
    · exact .refl s
  have after := runRound_rule polled (fun s' waits => waits.then (step_ticks units s'))
    fun s' e ticks => ticks.then (trap_waits s' e)
  unfold afterRound
  cases run : System.runRound units system s <;> rw [run] at after <;> exact after

end System

end Rv64Js.Core
