import Rv64Js.Core.Accesses
import Rv64Js.Core.Permits
import Rv64Js.Core.ScalarT0Inline

/-! # Instructions reach the bus through its operations

Translation, loads, stores and every inline instruction move the bus along `Bus.Evolves`, whether
they complete or raise. -/

set_option autoImplicit false

namespace Rv64Js.Core

open Machine

open Fallible (Along finalState)

variable {β : Type} [Bus β]

/-! ## The bus -/

variable {α : Type}

def Moves (m : EStateM Exception β α) : Prop := Along Bus.Evolves m

theorem moves_read (width : Width) (addr : Word) :
    Moves (Bus.read width addr : EStateM Exception β _) :=
  fun bus => .read bus width addr

theorem moves_write (width : Width) (addr : Word) (val : BitVec width.bits) :
    Moves (Bus.write width addr val : EStateM Exception β _) :=
  fun bus => .write bus width addr val

theorem translateIn_moves (row : Row) (hart : Hart) (va : Word) (access : Access) :
    Moves (translateIn row hart va access : EStateM Exception β (Word × Row)) :=
  Operates.translateIn ⟨.refl, fun _ _ _ => .trans, moves_read, moves_write⟩ va access row hart

/-! ## Loads and stores -/

theorem Machine.Evolves.refl (m : Machine β) : Evolves m m := ⟨.refl m.bus, rfl⟩

theorem Machine.Evolves.trans (a b c : Machine β) (first : Evolves a b)
    (second : Evolves b c) : Evolves a c :=
  ⟨first.1.trans second.1, second.2.trans first.2⟩

/-- All of the hart but its cached translations and counters. -/
def Hart.registers (hart : Hart) : (Reg → Word) × (Reg → Word) × BitVec 32 × VectorState ×
    Option Word × Option SysCsrs :=
  (hart.x, hart.f, hart.fcsr, hart.vector, hart.reservation, hart.sys)

theorem Hart.sys_of_registers {hart hart' : Hart} (same : hart'.registers = hart.registers) :
    hart'.sys = hart.sys :=
  congrArg (·.2.2.2.2.2) same

theorem Hart.registers_setDataTlb (hart : Hart) (store : Bool) (row : Row) :
    (hart.setDataTlb store row).registers = hart.registers := by
  cases store <;> rfl

theorem Hart.registers_fillJtlb (hart : Hart) (bus : β) (va pa : Word) (store : Bool) :
    (hart.fillJtlb bus va pa store).registers = hart.registers := by
  unfold Hart.fillJtlb
  cases Bus.jitFastOff bus va pa store with
  | none => rfl
  | some off => cases store <;> rfl

/-- What a data access does to the machine: the bus moves by its operations, the registers stay. -/
def Machine.Accesses (m m' : Machine β) : Prop :=
  Bus.Evolves m.bus m'.bus ∧ m'.hart.registers = m.hart.registers

namespace Accesses

variable {α : Type}

theorem liftBus {op : EStateM Exception β α} (inner : Moves op) :
    Along Machine.Accesses (liftBus op) :=
  .zoom (fun _ _ moved => ⟨moved, rfl⟩) inner

theorem translate (va : Word) (store : Bool) :
    Along Machine.Accesses (translate va store : Exec β Word) := by
  intro m
  have moved := translateIn_moves (m.hart.dataTlb store) m.hart va (dataAccess store) m.bus
  unfold Core.translate
  cases run : translateIn (m.hart.dataTlb store) m.hart va (dataAccess store) m.bus with
  | ok result bus => rw [run] at moved; exact ⟨moved, Hart.registers_setDataTlb _ _ _⟩
  | error e bus => rw [run] at moved; exact ⟨moved, rfl⟩

theorem stores : Stores (Machine.Accesses (β := β)) where
  refl m := ⟨.refl m.bus, rfl⟩
  trans _ _ _ first second := ⟨first.1.trans second.1, second.2.trans first.2⟩
  read _ _ := liftBus (moves_read _ _)
  write _ _ _ := liftBus (moves_write _ _ _)
  walk := translate
  fill {m _ va _ store} run := by
    have moved := translate va store m
    rw [run] at moved
    exact ⟨moved.1, (Hart.registers_fillJtlb _ _ _ _ _).trans moved.2⟩
  poke m width _ _ address _ _ := ⟨.poke m.bus width address _, rfl⟩

end Accesses

/-- A computation that stays in its mode and uses the bus through its operations. -/
def Drives (m : Exec β α) : Prop := Along Machine.Evolves m

namespace Drives

variable {α : Type}

theorem of_accesses {m : Exec β α} (inner : Along Machine.Accesses m) : Drives m :=
  fun s => ⟨(inner s).1, congrArg (Option.map SysCsrs.mode) (Hart.sys_of_registers (inner s).2)⟩

theorem ld (width : Width) (va : Word) : Drives (ld width va : Exec β Word) :=
  of_accesses (Accesses.stores.ld width va)

theorem st (width : Width) (va val : Word) : Drives (st width va val : Exec β Unit) :=
  of_accesses (Accesses.stores.st width va val)

theorem vectorMemory (unit : VectorUnit β) (insn : Insn) (load : Bool) :
    Drives (unit.memory insn load) :=
  .ite (unit.unitStride_evolves insn load) (unit.memory_evolves insn load)

theorem liftHart {op : EStateM Exception Hart α}
    (inner : Along (fun hart hart' => hart'.mode? = hart.mode?) op) :
    Drives (liftHart op : Exec β α) :=
  .zoom (fun m _ same => ⟨.refl m.bus, same⟩) inner

theorem vectorArithmetic (unit : VectorUnit β) (insn : Insn) : Drives (unit.arithmetic insn) :=
  .ite (liftHart (unit.config_mode insn)) (liftHart (unit.op_mode insn))

end Drives

/-! ## Inline instructions -/

theorem mode?_fpDirty (hart : Hart) : hart.fpDirty.mode? = hart.mode? := by
  unfold Hart.mode?
  cases system : hart.sys <;> simp [Hart.fpDirty, Hart.modifySys, system]

theorem permitsUser_evolves (units : Units β) : PermitsUser units Evolves where
  refl := .refl
  trans := .trans
  setX m _ _ _ := ⟨.refl m.bus, rfl⟩
  setF m _ _ := ⟨.refl m.bus, rfl⟩
  fpDirty m := ⟨.refl m.bus, mode?_fpDirty m.hart⟩
  raise m _ := ⟨.refl m.bus, rfl⟩
  reserve m _ := ⟨.refl m.bus, rfl⟩
  ld := Drives.ld
  st := Drives.st
  vectorMemory := Drives.vectorMemory units.vector
  vectorArithmetic := Drives.vectorArithmetic units.vector

/-- What the decoder runs inline is no SYSTEM instruction. -/
theorem t0Body_drives (units : Units β) (pc : Word) (fetched : Fetched) :
    Drives (t0Body units pc fetched) := by
  have slow {t0 : Exec β ScalarT0Step} (same : t0 = pure .slow) : Drives t0 := same ▸ Evolves.refl
  cases fetched with
  | compressed instruction =>
    rcases scalarT0Compressed_inlines (β := β) instruction pc with same | runs
    · exact slow same
    · exact runs.along ((permitsUser_evolves units).stepCompressed instruction pc)
  | full insn =>
    by_cases system : opcode insn = 0x73#7
    · have same : scalarT0Full units insn pc = pure .slow := by
        unfold scalarT0Full
        rw [system]
        rfl
      exact slow same
    rcases scalarT0Full_inlines units insn pc 0#64 with same | runs
    · exact slow same
    · exact runs.along ((permitsUser_evolves units).executeNext insn fun code => absurd code system)

end Rv64Js.Core
