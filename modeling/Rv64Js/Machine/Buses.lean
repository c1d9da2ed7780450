import Rv64Js.Board.SystemBus

/-! # The three buses on a host of either word size

`FlatMemory` of user mode, and the `SystemBus` and `VirtBus` of the two boards. `usize` has `w` bits
and wraps, and a slice whose ends are out of order or out of range is a panic. Device registers are
a parameter. -/

set_option autoImplicit false

namespace Rv64Js.Machine

open Rv64Js.Core Rv64Js.Board

/-- Why an access does not succeed: an exception for the guest, or a panic of the host program. -/
inductive Stop where
  | fault (e : Exception)
  | panic

/-! ## Host arithmetic -/

def asUsize (w : Nat) (x : Word) : Nat := x.toNat % 2 ^ w

def addUsize (w a b : Nat) : Nat := (a + b) % 2 ^ w

/-- Bytes of a buffer: found at an offset, not there, or a panic. -/
inductive Slice where
  | bytes (off : Nat)
  | absent
  | panic
deriving DecidableEq

def slice (len start stop : Nat) :
    Slice := if start ≤ stop ∧ stop ≤ len then .bytes start else .panic

/-! ## User mode -/

structure FlatMemory where
  base : Word
  len : Nat
  mem : Ram

namespace FlatMemory

def offset (w : Nat) (m : FlatMemory) (addr : Word) (n : Nat) : Option Nat :=
  if addr < m.base then none
  else if (addr - m.base + BitVec.ofNat 64 n).toNat ≤ m.len then some (asUsize w (addr - m.base))
  else none

def bytes (w : Nat) (m : FlatMemory) (addr : Word) (n : Nat) : Slice :=
  match m.offset w addr n with
  | none => .absent
  | some off => slice m.len off (addUsize w off n)

def read (w : Nat) (width : Width) (addr : Word) : EStateM Stop FlatMemory (BitVec width.bits) :=
  fun m =>
  match m.bytes w addr width.bytes with
  | .bytes off => .ok (BitVec.ofNat _ (m.mem.load off width.bytes)) m
  | .absent => .error (.fault (.loadAccessFault addr)) m
  | .panic => .error .panic m

def write (w : Nat) (width : Width) (addr : Word) (val : BitVec width.bits) :
    EStateM Stop FlatMemory Unit := fun m =>
  match m.bytes w addr width.bytes with
  | .bytes off => .ok () { m with mem := m.mem.store off width.bytes val.toNat }
  | .absent => .error (.fault (.storeAccessFault addr)) m
  | .panic => .error .panic m

end FlatMemory

/-! ## What the boards share -/

def ramSlice (w len : Nat) (addr : Word) (n : Nat) : Slice :=
  if RAM_BASE ≤ addr then
    if addUsize w (asUsize w (addr - RAM_BASE)) n ≤ len then
      slice len (asUsize w (addr - RAM_BASE)) (addUsize w (asUsize w (addr - RAM_BASE)) n)
    else .absent
  else .absent

def pageBit (jitPages : List (BitVec 64)) (page : Nat) : Bool :=
  (jitPages[page / 64]?).elim false fun word => word.getLsbD (page % 64)

/-- A store to a marked page records the page of its first byte. -/
def jitCheckStore (w : Nat) (jitPages : List (BitVec 64)) (addr : Word) (dirty : List Nat) :
    List Nat :=
  if RAM_BASE ≤ addr ∧ pageBit jitPages (asUsize w ((addr - RAM_BASE) >>> 12)) then
    dirty ++ [asUsize w ((addr - RAM_BASE) >>> 12)]
  else dirty

/-- Offset of a page that compiled code may access directly; `ramPtr` is the host address of RAM. -/
def jitFastOff (w len : Nat) (ramPtr : Word) (jitPages : List (BitVec 64)) (va pa : Word)
    (store : Bool) : Option Word :=
  if pa < RAM_BASE ∨ RAM_BASE.toNat + len ≤ (pa ||| 0xfff#64).toNat then none
  else if store && pageBit jitPages (asUsize w ((pa - RAM_BASE) >>> 12)) then none
  else some (ramPtr + (pa - RAM_BASE) - va)

def inWindow (base size addr : Word) : Option Word :=
  if base ≤ addr ∧ addr < base + size then some (addr - base) else none

/-! ## The TinyEMU-compatible board -/

def LOW_RAM_SIZE : Nat := 0x10000

inductive SystemWindow where
  | clint
  | plic
  | rtc
  | htif
  | virtio (slot : Nat)
deriving DecidableEq

/-- The registers of the board's devices.  A write may start DMA. -/
class SystemDevices (δ : Type) where
  read : SystemWindow → Word → δ → Option (BitVec 32) × δ
  /-- configuration space of a virtio device -/
  readSized : Nat → Word → Width → δ → Option (BitVec 32) × δ
  write : SystemWindow → Word → BitVec 32 → δ → Ram → δ × Ram
  irqLines : δ → Word × δ

structure SystemBus (δ : Type) where
  ramPtr : Word
  ramLen : Nat
  ram : Ram
  lowRam : Ram
  htifBase : Word
  jitPages : List (BitVec 64)
  jitDirtyPages : List Nat
  devices : δ

namespace SystemBus

variable {δ : Type}

def VIRTIO_BASE : Word := 0x40010000#64

def virtioSlot (addr : Word) : Option (Nat × Word) :=
  (inWindow VIRTIO_BASE 0x8000 addr).map fun off => ((off / 0x1000).toNat, off % 0x1000)

/-- The device window of an address, in the order of the source. -/
def window (htifBase addr : Word) : Option (SystemWindow × Word) :=
  ((inWindow 0x02000000 0xc0000 addr).map (SystemWindow.clint, ·)) <|>
  ((inWindow 0x40100000 0x400000 addr).map (SystemWindow.plic, ·)) <|>
  ((inWindow 0x00101000 0x1000 addr).map (SystemWindow.rtc, ·)) <|>
  ((inWindow htifBase 16 addr).map (SystemWindow.htif, ·)) <|>
  ((virtioSlot addr).map fun slot => (SystemWindow.virtio slot.1, slot.2))

def htifHit (bus : SystemBus δ) (addr : Word) : Bool := addr - bus.htifBase < 16

def lowSlice (w : Nat) (addr : Word) (n : Nat) : Slice :=
  if addr < RAM_BASE ∧ 0x1000 ≤ addr ∧ addUsize w (asUsize w addr) n ≤ LOW_RAM_SIZE then
    slice LOW_RAM_SIZE (asUsize w addr) (addUsize w (asUsize w addr) n)
  else .absent

variable [SystemDevices δ]

def mmioRead32 (addr : Word) (bus : SystemBus δ) : Option (BitVec 32) × SystemBus δ :=
  match window bus.htifBase addr with
  | none => (none, bus)
  | some (win, off) =>
    ((SystemDevices.read win off bus.devices).1,
      { bus with devices := (SystemDevices.read win off bus.devices).2 })

def mmioReadNarrow (width : Width) (addr : Word) (bus : SystemBus δ) :
    Option (BitVec 32) × SystemBus δ :=
  match virtioSlot addr with
  | none => (none, bus)
  | some (slot, off) =>
    ((SystemDevices.readSized slot off width bus.devices).1,
      { bus with devices := (SystemDevices.readSized slot off width bus.devices).2 })

def mmioWrite32 (addr : Word) (val : BitVec 32) (bus : SystemBus δ) : Bool × SystemBus δ :=
  match window bus.htifBase addr with
  | none => (false, bus)
  | some (win, off) =>
    let done := SystemDevices.write win off val bus.devices bus.ram
    (true, { bus with devices := done.1, ram := done.2 })

def answered (width : Width) (addr : Word) :
    Option (BitVec 32) × SystemBus δ → EStateM.Result Stop (SystemBus δ) (BitVec width.bits)
  | (some v, bus) => .ok (v.setWidth _) bus
  | (none, bus) => .error (.fault (.loadAccessFault addr)) bus

/-- Registers: narrow accesses of virtio configuration space, words, and two words for a
doubleword. -/
def mmioRead (width : Width) (addr : Word) : EStateM Stop (SystemBus δ) (BitVec width.bits) :=
  fun bus =>
  match width with
  | .byte => answered .byte addr (mmioReadNarrow .byte addr bus)
  | .half => answered .half addr (mmioReadNarrow .half addr bus)
  | .word => answered .word addr (mmioRead32 addr bus)
  | .dword =>
    let lo := mmioRead32 addr bus
    let hi := mmioRead32 (addr + 4) lo.2
    match lo.1, hi.1 with
    | some l, some h => .ok ((h.setWidth 64 <<< 32) ||| l.setWidth 64) hi.2
    | _, _ => .error (.fault (.loadAccessFault addr)) hi.2

def taken (addr : Word) : Bool × SystemBus δ → EStateM.Result Stop (SystemBus δ) Unit
  | (true, bus) => .ok () bus
  | (false, bus) => .error (.fault (.storeAccessFault addr)) bus

/-- The second word of a doubleword is written when the first one was taken. -/
def mmioWrite (width : Width) (addr : Word) (val : BitVec width.bits) :
    EStateM Stop (SystemBus δ) Unit := fun bus =>
  match width with
  | .byte | .half => .error (.fault (.storeAccessFault addr)) bus
  | .word => taken addr (mmioWrite32 addr (val.setWidth 32) bus)
  | .dword =>
    let lo := mmioWrite32 addr (val.setWidth 32) bus
    if lo.1 then taken addr (mmioWrite32 (addr + 4) ((val >>> 32).setWidth 32) lo.2)
    else .error (.fault (.storeAccessFault addr)) lo.2

/-- riscv-tests link `tohost` inside RAM: the HTIF window wins over memory. -/
def read (w : Nat) (width : Width) (addr : Word) : EStateM Stop (SystemBus δ) (BitVec width.bits) :=
  fun bus =>
  if bus.htifHit addr then mmioRead width addr bus
  else
    match ramSlice w bus.ramLen addr width.bytes, lowSlice w addr width.bytes with
    | .bytes off, _ => .ok (BitVec.ofNat _ (bus.ram.load off width.bytes)) bus
    | .panic, _ => .error .panic bus
    | .absent, .bytes off => .ok (BitVec.ofNat _ (bus.lowRam.load off width.bytes)) bus
    | .absent, .panic => .error .panic bus
    | .absent, .absent => mmioRead width addr bus

def checkStore (w : Nat) (addr : Word) (bus : SystemBus δ) : SystemBus δ :=
  { bus with jitDirtyPages := jitCheckStore w bus.jitPages addr bus.jitDirtyPages }

def write (w : Nat) (width : Width) (addr : Word) (val : BitVec width.bits) :
    EStateM Stop (SystemBus δ) Unit := fun bus =>
  let bus := bus.checkStore w addr
  if bus.htifHit addr then mmioWrite width addr val bus
  else
    match ramSlice w bus.ramLen addr width.bytes, lowSlice w addr width.bytes with
    | .bytes off, _ => .ok () { bus with ram := bus.ram.store off width.bytes val.toNat }
    | .panic, _ => .error .panic bus
    | .absent, .bytes off =>
      .ok () { bus with lowRam := bus.lowRam.store off width.bytes val.toNat }
    | .absent, .panic => .error .panic bus
    | .absent, .absent => mmioWrite width addr val bus

end SystemBus

/-! ## The virt board -/

inductive VirtWindow where
  | test
  | clint
  | plic
  | uart
  | rtc
  | virtio (slot : Nat)
deriving DecidableEq

class VirtDevices (δ : Type) where
  read : VirtWindow → Word → Width → δ → Option Word × δ
  write : VirtWindow → Word → Word → δ → Ram → δ × Ram
  irqLines : δ → Word × δ

structure VirtBus (δ : Type) where
  ramPtr : Word
  ramLen : Nat
  ram : Ram
  jitPages : List (BitVec 64)
  jitDirtyPages : List Nat
  devices : δ

namespace VirtBus

variable {δ : Type}

def window (addr : Word) : Option (VirtWindow × Word) :=
  ((inWindow 0x00100000 0x1000 addr).map (VirtWindow.test, ·)) <|>
  ((inWindow 0x02000000 0x10000 addr).map (VirtWindow.clint, ·)) <|>
  ((inWindow 0x0c000000 0x04000000 addr).map (VirtWindow.plic, ·)) <|>
  ((inWindow 0x10000000 0x100 addr).map (VirtWindow.uart, ·)) <|>
  ((inWindow 0x00101000 0x1000 addr).map (VirtWindow.rtc, ·)) <|>
  ((inWindow 0x10001000 0x8000 addr).map fun off =>
    (VirtWindow.virtio (off / 0x1000).toNat, off % 0x1000))

variable [VirtDevices δ]

def mmioRead (width : Width) (addr : Word) : EStateM Stop (VirtBus δ) (BitVec width.bits) :=
  fun bus =>
  match window addr with
  | none => .error (.fault (.loadAccessFault addr)) bus
  | some (win, off) =>
    match VirtDevices.read win off width bus.devices with
    | (some v, devices) => .ok (v.setWidth _) { bus with devices := devices }
    | (none, devices) => .error (.fault (.loadAccessFault addr)) { bus with devices := devices }

def mmioWrite (width : Width) (addr : Word) (val : BitVec width.bits) :
    EStateM Stop (VirtBus δ) Unit := fun bus =>
  match window addr with
  | none => .error (.fault (.storeAccessFault addr)) bus
  | some (win, off) =>
    let done := VirtDevices.write win off (val.setWidth 64) bus.devices bus.ram
    .ok () { bus with devices := done.1, ram := done.2 }

def read (w : Nat) (width : Width) (addr : Word) : EStateM Stop (VirtBus δ) (BitVec width.bits) :=
  fun bus =>
  match ramSlice w bus.ramLen addr width.bytes with
  | .bytes off => .ok (BitVec.ofNat _ (bus.ram.load off width.bytes)) bus
  | .panic => .error .panic bus
  | .absent => mmioRead width addr bus

def checkStore (w : Nat) (addr : Word) (bus : VirtBus δ) : VirtBus δ :=
  { bus with jitDirtyPages := jitCheckStore w bus.jitPages addr bus.jitDirtyPages }

def write (w : Nat) (width : Width) (addr : Word) (val : BitVec width.bits) :
    EStateM Stop (VirtBus δ) Unit := fun bus =>
  let bus := bus.checkStore w addr
  match ramSlice w bus.ramLen addr width.bytes with
  | .bytes off => .ok () { bus with ram := bus.ram.store off width.bytes val.toNat }
  | .panic => .error .panic bus
  | .absent => mmioWrite width addr val bus

end VirtBus

end Rv64Js.Machine
