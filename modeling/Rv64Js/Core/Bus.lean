import Rv64Js.Core.Csr
import Rv64Js.Lib.Fallible

/-! # The bus the hart executes against

`Bus` (`bus.rs`). A failed access may still change the bus, so accesses are computations in `EStateM
Exception`. `peek` and `poke` are the access through a host pointer that fused rows and instruction
fetch make at an offset the bus has handed out. -/

set_option autoImplicit false

namespace Rv64Js.Core

open Fallible (finalState)

inductive Width where
  | byte
  | half
  | word
  | dword
deriving DecidableEq, Repr

namespace Width

def bytes : Width → Nat
  | byte => 1
  | half => 2
  | word => 4
  | dword => 8

abbrev bits (width : Width) : Nat := 8 * width.bytes

end Width

class Bus (β : Type) where
  read (width : Width) (addr : Word) : EStateM Exception β (BitVec width.bits)
  write (width : Width) (addr : Word) (val : BitVec width.bits) : EStateM Exception β Unit
  /-- The linear offset (`linear_index = va + off`) of a directly accessible page. -/
  jitFastOff (bus : β) (va pa : Word) (store : Bool) : Option Word
  irqLines (bus : β) : Word × β
  peek (width : Width) (bus : β) (address : Word) : BitVec width.bits
  poke (width : Width) (address : Word) (val : BitVec width.bits) (bus : β) : β

def pageMask : Word := ~~~0xfff#64

def pageOf (va : Word) : Word := va &&& pageMask

def InPage (width : Width) (va : Word) : Prop :=
  (va &&& 0xfff#64).toNat + width.bytes ≤ 0x1000

instance (width : Width) (va : Word) : Decidable (InPage width va) :=
  inferInstanceAs (Decidable (_ ≤ _))

namespace Bus

variable {β : Type} [Bus β]

/-- Halfword fetch: a failed read is an instruction access fault. -/
def fetch16 (addr : Word) : EStateM Exception β (BitVec 16) := fun bus =>
  match read .half addr bus with
  | .ok half bus => .ok half bus
  | .error _ bus => .error (.instructionAccessFault addr) bus

inductive Op where
  | read (width : Width) (addr : Word)
  | write (width : Width) (addr : Word) (val : BitVec width.bits)
  | irqLines
  | poke (width : Width) (address : Word) (val : BitVec width.bits)

def Op.apply (bus : β) : Op → β
  | .read width addr => finalState (Bus.read width addr bus)
  | .write width addr val => finalState (Bus.write width addr val bus)
  | .irqLines => (Bus.irqLines bus).2
  | .poke width address val => Bus.poke width address val bus

/-- Bus states connected by some operations. -/
def Evolves : β → β → Prop :=
  Relation.ReflTransGen fun bus bus' => ∃ op : Op, bus' = op.apply bus

variable (bus : β)

theorem Evolves.refl : Evolves bus bus := Relation.ReflTransGen.refl

theorem Evolves.trans {a b c : β} (first : Evolves a b) (second : Evolves b c) : Evolves a c :=
  Relation.ReflTransGen.trans first second

theorem Evolves.op (bus : β) (op : Op) : Evolves bus (op.apply bus) :=
  .single ⟨op, rfl⟩

variable (width : Width) (addr : Word)

theorem Evolves.read : Evolves bus (finalState (Bus.read width addr bus)) :=
  Evolves.op bus (.read width addr)

theorem Evolves.write (val : BitVec width.bits) :
    Evolves bus (finalState (Bus.write width addr val bus)) :=
  Evolves.op bus (.write width addr val)

theorem Evolves.poke (address : Word) (val : BitVec width.bits) :
    Evolves bus (Bus.poke width address val bus) :=
  .op bus (.poke width address val)

theorem Evolves.fetch16 : Evolves bus (finalState (Bus.fetch16 addr bus)) := by
  have step := Evolves.read bus .half addr
  unfold Bus.fetch16
  cases h : Bus.read .half addr bus <;> simpa [h, finalState] using step

/-- The `jit_fast_off` contract: while the bus lives on, the linear bytes at `va' + off` are those a
bus access at the translated address reaches, for every access inside the page. -/
def DirectContract (β : Type) [Bus β] : Prop :=
  ∀ (bus : β) (va pa off : Word) (store : Bool), jitFastOff bus va pa store = some off →
    ∀ later, Evolves bus later →
      ∀ (width : Width) (va' : Word), pageOf va' = pageOf va → InPage width va' →
        Bus.read width (va' + (pa - va)) later = .ok (peek width later (va' + off)) later

end Bus

end Rv64Js.Core
