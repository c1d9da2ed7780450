import Rv64Js.Core.Permits
import Rv64Js.Core.Stable

/-! # Every instruction keeps a stable assertion

One lemma for each part of the interpreter, up to whole runs of `run` and of the
integrated driver. -/

set_option autoImplicit false

namespace Rv64Js.Core

open Loop Driver
open Fallible

variable {β : Type} [Bus β] {I : Machine β → Prop}

section Instructions

variable (stable : Stable I)

include stable

/-! ## Loads and stores -/

omit stable [Bus β] in
theorem keeps_liftBus {α : Type} {op : EStateM Exception β α} (inner : KeepsBus I op) :
    Keeps I (liftBus op) := by
  intro m kept
  have after := inner m.hart m.bus kept
  unfold liftBus zoom
  cases run : op m.bus <;> rw [run] at after <;> exact after

theorem stores_keeping : Stores fun m m' : Machine β => I m → I m' where
  refl _ := id
  trans _ _ _ first second := second ∘ first
  read _ pa := keeps_liftBus (keepsBus_read stable _ pa)
  write _ pa _ := keeps_liftBus (keepsBus_write stable _ pa _)
  walk va store m kept := (translate_spec stable va store m kept).1
  fill {m m' va pa store} run kept := by
    obtain ⟨translated, offset⟩ := translate_spec stable va store m kept
    rw [run] at translated
    exact stable.fused m' va pa store (offset pa m' run) translated
  poke m width va _ address splits pointer := stable.poke m width va _ address splits pointer

/-! ## Instructions -/

theorem keeps_vectorMemory (unit : VectorUnit β) (insn : Insn) (load : Bool) :
    Keeps I (unit.memory insn load) :=
  .ite (unit.unitStride_keeps insn load I stable) (unit.memory_keeps insn load I stable)

theorem keeps_liftHart {α : Type} {op : EStateM Exception Hart α}
    (settles : Along Hart.Settles op) : Keeps I (liftHart op) :=
  .zoom (fun m _ settled kept => stable.settle m _ settled kept) settles

theorem keeps_vectorArithmetic (unit : VectorUnit β) (insn : Insn) :
    Keeps I (unit.arithmetic insn) :=
  .ite (keeps_liftHart stable (unit.config_settles insn))
    (keeps_liftHart stable (unit.op_settles insn))

variable (units : Units β)

theorem permits_keeping : Permits units fun m m' => I m → I m' where
  refl _ kept := kept
  trans _ _ _ first second kept := second (first kept)
  setX m _ _ _ := stable.settle m _ (.same rfl rfl rfl rfl rfl)
  setF m _ _ := stable.settle m _ (.same rfl rfl rfl rfl rfl)
  fpDirty m := stable.settle m _ (.modifySys m.hart _)
  raise m _ := stable.settle m _ (.same rfl rfl rfl rfl rfl)
  reserve m _ := stable.settle m _ (.same rfl rfl rfl rfl rfl)
  pollNow m := stable.settle m _ (.same rfl rfl rfl rfl rfl)
  csrWrite m _ _ _ := stable.settle m _ (Hart.Restatus.csrWrite m.hart _ _ _).settles
  mret m := stable.settle m _ (Hart.Restatus.settles (.xret fun _ => rfl))
  sret m := stable.settle m _ (Hart.Restatus.settles (.xret fun _ => rfl))
  fence m _ _ := stable.settle m _ (.sfenceVma m.hart _ _)
  ld := (stores_keeping stable).ld
  st := (stores_keeping stable).st
  vectorMemory := keeps_vectorMemory stable units.vector
  vectorArithmetic := keeps_vectorArithmetic stable units.vector

omit stable [Bus β] in
theorem stepEcall_settles (hart : Hart) (pc nextPc insnCount : Word) :
    hart.Settles (stepEcall hart pc nextPc insnCount).1 := by
  unfold stepEcall
  cases system : hart.sys with
  | none => exact .refl hart
  | some sys =>
    simp only
    split
    · exact .refl hart
    · exact (Hart.Restatus.takeTrap hart pc insnCount _ _ false).settles

theorem keeps_body (pc insnCount : Word) (fetched : Fetched) :
    Keeps I (body units pc insnCount fetched) :=
  (permits_keeping stable units).body fun _ m =>
    stable.settle m _ (stepEcall_settles m.hart pc (pc + 4) insnCount)

theorem keeps_t0Body (pc : Word) (fetched : Fetched) : Keeps I (t0Body units pc fetched) := by
  rcases t0Body_inlines units pc 0#64 fetched with slow | runs
  · rw [slow]
    exact .pure _
  · exact runs.along (keeps_body stable units pc 0#64 fetched)

end Instructions

/-! ## Steps and runs of the whole system -/

def System.machine (s : System β) : Machine β := { hart := s.cpu.hart, bus := s.bus }

def KeepsSystem {α : Type} (I : Machine β → Prop) (op : EStateM Exception (System β) α) : Prop :=
  Along (fun s s' => I s.machine → I s'.machine) op

omit [Bus β] in
theorem KeepsSystem.bind {α γ : Type} {m : EStateM Exception (System β) α}
    {k : α → EStateM Exception (System β) γ} (first : KeepsSystem I m)
    (rest : ∀ a, KeepsSystem I (k a)) : KeepsSystem I (m >>= k) :=
  Along.bind (fun _ _ _ first second kept => second (first kept)) first rest

section Runs

variable (stable : Stable I)

include stable

namespace System

theorem keeps_fetch : KeepsSystem I (System.fetch : EStateM Exception (System β) Fetched) := by
  intro s kept
  obtain ⟨hart, -, -, moved⟩ :=
    fetch_along (R := fun hart bus bus' => I ⟨hart, bus⟩ → I ⟨hart, bus'⟩)
    (fun _ _ => id) (fun _ _ _ _ first second => second ∘ first)
    (fun row hart va => keepsBus_translateIn stable row hart va .fetch hart)
    (fun hart pa => keepsBus_read stable .half pa hart) s
  unfold System.machine
  rw [hart]
  exact moved kept

omit stable [Bus β] in
theorem keeps_commit {body : Exec β Outcome} (inner : Keeps I body) :
    KeepsSystem I (System.commit body) := by
  intro s kept
  have after := inner s.machine kept
  unfold System.commit
  cases run : body { hart := s.cpu.hart, bus := s.bus } with
  | ok outcome m => rw [System.machine, run] at after; exact after
  | error e m => rw [System.machine, run] at after; exact after

theorem keeps_step (units : Units β) : KeepsSystem I (System.step units) :=
  .bind (keeps_fetch stable) fun fetched => .bind (fun _ kept => kept) fun _ =>
    keeps_commit (keeps_body stable units _ _ fetched)

variable (s : System β)

theorem keeps_trap (e : Exception) (kept : I s.machine) : I (s.trap e).machine :=
  stable.settle s.machine _ (Hart.Restatus.takeTrap ..).settles kept

theorem keeps_checkInterrupts (kept : I s.machine) : I s.checkInterrupts.2.machine := by
  have sampled (mip : Word) : I (s.sampled mip).machine :=
    stable.settle _ _ (.modifySys s.cpu.hart _) (stable.irqLines s.machine kept)
  refine checkInterrupts_rule (P := fun s => I s.machine) kept sampled fun mip irq => ?_
  exact stable.settle _ _ (Hart.Restatus.takeTrap ..).settles (sampled mip)

theorem keeps_poll (kept : I s.machine) : I s.poll.machine := by
  have countdown : ∀ cd, I (.mk { s.cpu.hart with irqPollCd := cd } s.bus) := fun cd =>
    stable.settle s.machine _ (.same rfl rfl rfl rfl rfl) kept
  unfold System.poll
  simp only
  split
  · exact keeps_checkInterrupts stable _ (countdown _)
  · exact countdown _

end System

namespace System

theorem keeps_runRound (units : Units β) (system : Bool) (s : System β) (kept : I s.machine) :
    Sum.elim (fun stopped => I stopped.2.machine) (fun s => I s.machine)
      (System.runRound units system s) := by
  have polled : I (if system then s.poll else s).machine := by
    cases system with
    | true => exact keeps_poll stable s kept
    | false => exact kept
  exact runRound_rule (P := fun s => I s.machine) (Q := fun s => I s.machine) polled
    (keeps_step stable units)
    (keeps_trap stable)

theorem keeps_run (units : Units β) (budget : Nat) (s : System β)
    (kept : I s.machine) : I (s.run units budget).2.machine :=
  run_rule (P := fun s => I s.machine) budget kept (keeps_runRound stable units _)

end System

/-! ## The integrated driver -/

omit stable [Bus β] in
theorem t0_bind {α γ : Type} {m : EStateM Exception (T0 β) α} {k : α → EStateM Exception (T0 β) γ}
    (first : Along (fun t t' => I t.machine → I t'.machine) m)
    (rest : ∀ a, Along (fun t t' => I t.machine → I t'.machine) (k a)) :
    Along (fun t t' => I t.machine → I t'.machine) (m >>= k) :=
  .bind (fun _ _ _ first second kept => second (first kept)) first rest

theorem keeps_scalarFetch16 (va context : Word) :
    Along (fun t t' : T0 β => I t.machine → I t'.machine) (scalarFetch16 va context) := by
  intro t kept
  unfold scalarFetch16
  simp only
  split
  · exact kept
  · have after := keepsBus_translateIn stable t.row t.hart va .fetch t.hart t.bus kept
    unfold scalarFetch16Slow
    cases run : translateIn t.row t.hart va .fetch t.bus with
    | error e bus => rw [run] at after; exact after
    | ok translated bus =>
      rw [run] at after
      have fetched := keepsBus_fetch16 stable translated.1 t.hart bus after
      simp only
      cases Bus.jitFastOff bus va translated.1 false with
      | some off => exact after
      | none =>
        cases read : Bus.fetch16 translated.1 bus <;> rw [read] at fetched <;> exact fetched

theorem keeps_scalarFetch (pc context : Word) :
    Along (fun t t' : T0 β => I t.machine → I t'.machine) (scalarFetch pc context) := by
  have pure : ∀ fetched, Along (fun t t' : T0 β => I t.machine → I t'.machine)
      (.pure fetched : EStateM Exception (T0 β) Fetched) := fun _ _ kept => kept
  refine t0_bind (keeps_scalarFetch16 stable pc context) fun low => ?_
  refine .ite (pure _) (.ite ?_ ?_)
  · exact t0_bind (keeps_scalarFetch16 stable _ context) fun high => pure _
  · cases low.address with
    | some address => exact t0_bind (fun _ kept => kept) fun _ => pure _
    | none =>
      refine t0_bind (fun t kept => ?_) fun _ => pure _
      have fetched := keepsBus_fetch16 stable (low.pa + 2) t.hart t.bus kept
      unfold t0Fetch16 zoom
      cases read : Bus.fetch16 (low.pa + 2) t.bus <;> rw [read] at fetched <;> exact fetched

theorem keeps_scalarT0Step (units : Units β) (pc context : Word) :
    Along (fun t t' : T0 β => I t.machine → I t'.machine) (scalarT0Step units pc context) :=
  t0_bind (keeps_scalarFetch stable pc context) fun fetched =>
    .zoom (fun _ _ step => step) (keeps_t0Body stable units pc fetched)

namespace Driver

theorem keeps_poll (d : Driver β) (kept : I d.sys.machine) : I d.poll.sys.machine := by
  have countdown : ∀ cd, I (.mk { d.sys.cpu.hart with irqPollCd := cd } d.sys.bus) := fun cd =>
    stable.settle d.sys.machine _ (.same rfl rfl rfl rfl rfl) kept
  unfold poll
  simp only
  split
  · exact System.keeps_checkInterrupts stable _ (countdown _)
  · exact countdown _

theorem keeps_raise (system : Bool) (s : System β) (capability : FetchCapability) (e : Exception)
    (kept : I s.machine) : Sum.elim (fun stopped => I stopped.2.machine) (fun d => I d.sys.machine)
      (Driver.raise system s capability e) := by
  cases system with
  | true => exact System.keeps_trap stable s e kept
  | false => exact kept

theorem keeps_round (units : Units β) (system : Bool) (d : Driver β) (kept : I d.sys.machine) :
    Sum.elim (fun stopped => I stopped.2.machine) (fun d => I d.sys.machine)
      (round units system d) := by
  have polled : I (if system then d.poll else d).sys.machine := by
    cases system with
    | true => exact keeps_poll stable d kept
    | false => exact kept
  unfold round
  generalize (if system then d.poll else d) = d at polled ⊢
  have inline := keeps_scalarT0Step stable units d.pc d.context d.view polled
  unfold advance
  cases run : scalarT0Step units d.pc d.context d.view with
  | error e t =>
    rw [run] at inline
    exact keeps_raise stable system _ _ e inline
  | ok result t =>
    rw [run] at inline
    cases result with
    | retired pc => exact inline
    | stop pc reason => exact inline
    | slow =>
      have stepped := System.keeps_step stable units
        (commitState (d.stateAfter t) d.pc d.retired) inline
      simp only
      cases step : System.step units (commitState (d.stateAfter t) d.pc d.retired) with
      | ok stop s =>
        rw [step] at stepped
        cases stop <;> exact stepped
      | error e s =>
        rw [step] at stepped
        exact keeps_raise stable system s _ e stepped

end Driver

theorem System.keeps_runIntegratedScalar (units : Units β) (budget : Nat) (s : System β)
    (kept : I s.machine) : I (s.runIntegratedScalar units budget).2.machine := by
  have whole := iterate_keeps (Driver.keeps_round stable units s.cpu.hart.sys.isSome) budget
    (start s) kept
  unfold System.runIntegratedScalar
  cases run : iterate (round units s.cpu.hart.sys.isSome) budget (start s) <;>
    rw [run] at whole <;> exact whole

end Runs

end Rv64Js.Core
