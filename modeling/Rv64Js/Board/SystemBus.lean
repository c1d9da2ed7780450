import Rv64Js.Core.Bus

/-! # The guest-physical bus

RAM and the code-page bookkeeping of `SystemBus` (`lib.rs`) and `VirtBus` (`virt.rs`), the same code
on both boards. Everything else is a `Peripherals` parameter: device registers, low RAM, the HTIF
window, and the DMA a register write may start. -/

set_option autoImplicit false

namespace Rv64Js.Board

open Rv64Js.Core

def RAM_BASE : Word := 0x80000000#64

/-- Where guest RAM lies in linear memory; neither moves during a run. -/
structure Layout where
  ramPtr : Word
  ramLen : Nat
  fits : ramPtr.toNat + ramLen ≤ 2 ^ 32

def Layout.jitCapacity (layout : Layout) : Nat := 64 * ((layout.ramLen / 4096 + 63) / 64)

abbrev Ram := Nat → BitVec 8

namespace Ram

def load (ram : Ram) (off : Nat) : Nat → Nat
  | 0 => 0
  | n + 1 => (ram off).toNat + 256 * load ram (off + 1) n

def store (ram : Ram) (off n : Nat) (val : Nat) : Ram := fun a =>
  if off ≤ a ∧ a < off + n then BitVec.ofNat 8 (val >>> (8 * (a - off))) else ram a

end Ram

/-- The rest of the board. -/
class Peripherals (δ : Type) where
  /-- Addresses that win over RAM (`htif_hit`). -/
  claims : δ → Word → Bool
  read : (width : Width) → Word → δ → Option (BitVec width.bits) × δ
  /-- A register write; a queue notification runs the device against RAM. -/
  write : (width : Width) → Word → BitVec width.bits → δ → Ram → Bool × δ × Ram
  irqLines : δ → Word × δ

structure SystemBus (layout : Layout) (δ : Type) where
  ram : Ram
  jitPages : Nat → Bool
  jitDirtyPages : List Nat
  devices : δ

/-- `as usize` on wasm32. -/
def usize (w : Word) : Nat := w.toNat % 2 ^ 32

def ramPage (pa : Word) : Option Nat :=
  if RAM_BASE ≤ pa then some (usize ((pa - RAM_BASE) >>> 12)) else none

namespace SystemBus

variable {layout : Layout} {δ : Type}

/-! ## Code pages -/

variable (bus : SystemBus layout δ)

def jitPageMarked (page : Nat) : Bool :=
  decide (page < layout.jitCapacity) && bus.jitPages page

def setPage (page : Nat) (marked : Bool) : SystemBus layout δ :=
  if page < layout.jitCapacity then
    { bus with jitPages := fun p => if p = page then marked else bus.jitPages p }
  else bus

def jitMarkPage (pa : Word) : SystemBus layout δ :=
  match ramPage pa with
  | none => bus
  | some page => bus.setPage page true

def jitUnmarkPage (page : Nat) : SystemBus layout δ :=
  bus.setPage page false

def jitTakeDirty : List Nat × SystemBus layout δ :=
  (bus.jitDirtyPages, { bus with jitDirtyPages := [] })

/-- A store to a marked page records the page of its first byte. -/
def jitCheckStore (addr : Word) : SystemBus layout δ :=
  match ramPage addr with
  | none => bus
  | some page =>
    if bus.jitPageMarked page then { bus with jitDirtyPages := bus.jitDirtyPages ++ [page] }
    else bus

variable (bus : SystemBus layout δ)

@[simp] theorem setPage_ram (page : Nat) (marked : Bool) :
    (bus.setPage page marked).ram = bus.ram := by
  unfold setPage
  split <;> rfl

@[simp] theorem setPage_dirty (page : Nat) (marked : Bool) :
    (bus.setPage page marked).jitDirtyPages = bus.jitDirtyPages := by
  unfold setPage
  split <;> rfl

theorem setPage_marked (page p : Nat) (marked : Bool) : (bus.setPage page marked).jitPageMarked p =
      if p = page then decide (page < layout.jitCapacity) && marked else bus.jitPageMarked p := by
  by_cases room : page < layout.jitCapacity
  · by_cases same : p = page
    · subst same
      simp [setPage, jitPageMarked, room]
    · simp [setPage, jitPageMarked, room, same]
  · by_cases same : p = page
    · subst same
      simp [setPage, jitPageMarked, room]
    · simp [setPage, room, same]

@[simp] theorem jitMarkPage_ram (pa : Word) : (bus.jitMarkPage pa).ram = bus.ram := by
  unfold jitMarkPage
  split <;> simp

@[simp] theorem jitMarkPage_dirty (pa : Word) :
    (bus.jitMarkPage pa).jitDirtyPages = bus.jitDirtyPages := by
  unfold jitMarkPage
  split <;> simp

theorem jitUnmarkPage_marked {bus : SystemBus layout δ} {page p : Nat}
    (marked : (bus.jitUnmarkPage page).jitPageMarked p = true) :
    p ≠ page ∧ bus.jitPageMarked p = true := by
  rw [jitUnmarkPage, setPage_marked] at marked
  split at marked
  · simp at marked
  · exact ⟨‹_›, marked⟩

/-! ## Accesses -/

/-- RAM offset of an access in RAM, truncated to the host word; an end that does not fit in it is a
host panic, taken here as no access. -/
def ramSlice (layout : Layout) (addr : Word) (n : Nat) : Option Nat :=
  if RAM_BASE ≤ addr ∧ usize (addr - RAM_BASE) + n ≤ layout.ramLen then
    some (usize (addr - RAM_BASE))
  else none

/-- RAM offset of a linear address, for a host access inside the RAM vector. -/
def linearSlice (layout : Layout) (address : Word) (n : Nat) : Option Nat :=
  if layout.ramPtr ≤ address ∧ (address - layout.ramPtr).toNat + n ≤ layout.ramLen then
    some (address - layout.ramPtr).toNat
  else none

variable [Peripherals δ]

def target (addr : Word) (n : Nat) : Option Nat :=
  if Peripherals.claims bus.devices addr then none else ramSlice layout addr n

def read (width : Width) (addr : Word) :
    EStateM Exception (SystemBus layout δ) (BitVec width.bits) :=
  fun bus =>
    match bus.target addr width.bytes with
    | some off => .ok (BitVec.ofNat _ (bus.ram.load off width.bytes)) bus
    | none =>
      match Peripherals.read width addr bus.devices with
      | (some v, devices) => .ok v { bus with devices := devices }
      | (none, devices) => .error (.loadAccessFault addr) { bus with devices := devices }

def write (width : Width) (addr : Word) (val : BitVec width.bits) :
    EStateM Exception (SystemBus layout δ) Unit := fun bus =>
  let bus := bus.jitCheckStore addr
  match bus.target addr width.bytes with
  | some off => .ok () { bus with ram := bus.ram.store off width.bytes val.toNat }
  | none =>
    match Peripherals.write width addr val bus.devices bus.ram with
    | (true, devices, ram) => .ok () { bus with devices := devices, ram := ram }
    | (false, devices, ram) =>
      .error (.storeAccessFault addr) { bus with devices := devices, ram := ram }

omit [Peripherals δ] in
/-- The whole page must be RAM, and a store must not reach a page that holds code. -/
def jitFastOff (va pa : Word) (store : Bool) : Option Word :=
  if pa < RAM_BASE ∨ RAM_BASE.toNat + layout.ramLen ≤ (pa ||| 0xfff#64).toNat then none
  else if store && bus.jitPageMarked (usize ((pa - RAM_BASE) >>> 12)) then none
  else some (layout.ramPtr + (pa - RAM_BASE) - va)

instance : Bus (SystemBus layout δ) where
  read := read
  write := write
  jitFastOff := jitFastOff
  irqLines bus :=
    ((Peripherals.irqLines bus.devices).1,
      { bus with devices := (Peripherals.irqLines bus.devices).2 })
  peek width bus address :=
    match linearSlice layout address width.bytes with
    | some off => BitVec.ofNat _ (bus.ram.load off width.bytes)
    | none => 0
  poke width address val bus :=
    match linearSlice layout address width.bytes with
    | some off => { bus with ram := bus.ram.store off width.bytes val.toNat }
    | none => bus

end SystemBus

end Rv64Js.Board
