import Rv64Js.Machine.Buses

/-! # Which bytes an access reaches

An access is served by RAM exactly when its bytes lie in RAM as integers, if the host can compute
the end of the range; otherwise it goes to a device window or is an access fault. The HTIF window of
the first board comes before its RAM. -/

set_option autoImplicit false

namespace Rv64Js.Machine

open Rv64Js.Core Rv64Js.Board Fallible

/-- The `n` bytes at `addr` lie in the `len` bytes at `base`, as integers. -/
def InRange (base len : Nat) (addr : Word) (n : Nat) :
    Prop := base ≤ addr.toNat ∧ addr.toNat + n ≤ base + len

instance (base len : Nat) (addr : Word) (n : Nat) : Decidable (InRange base len addr n) :=
  inferInstanceAs (Decidable (_ ∧ _))

/-- The offset of the end of the range from the start of RAM is a `usize`. -/
def Reckons (w : Nat) (addr : Word) (n : Nat) : Prop :=
  RAM_BASE.toNat ≤ addr.toNat → addr.toNat - RAM_BASE.toNat + n < 2 ^ w

theorem bytes_pos (width : Width) : 0 < width.bytes := by cases width <;> decide

theorem bytes_le (width : Width) : width.bytes ≤ 8 := by cases width <;> decide

/-! ## Slices -/

theorem slice_exact {w len off n : Nat} (fits : off + n < 2 ^ w) (short : off + n ≤ len) :
    slice len off (addUsize w off n) = .bytes off := by
  rw [addUsize, Nat.mod_eq_of_lt fits, slice, if_pos ⟨Nat.le_add_right .., short⟩]

theorem ramSlice_exact {w len n : Nat} {addr : Word} (reckons : Reckons w addr n) :
    ramSlice w len addr n =
      if InRange RAM_BASE.toNat len addr n then .bytes (addr.toNat - RAM_BASE.toNat)
        else .absent := by
  unfold ramSlice
  by_cases above : RAM_BASE ≤ addr
  · have above' : RAM_BASE.toNat ≤ addr.toNat := above
    have fits := reckons above'
    have off : asUsize w (addr - RAM_BASE) = addr.toNat - RAM_BASE.toNat := by
      rw [asUsize, BitVec.toNat_sub_of_le above, Nat.mod_eq_of_lt (by omega)]
    rw [if_pos above, off]
    by_cases range : InRange RAM_BASE.toNat len addr n
    · have inside : addr.toNat - RAM_BASE.toNat + n ≤ len := by
        have := range.2
        omega
      rw [slice_exact fits inside, if_pos range, addUsize, Nat.mod_eq_of_lt fits, if_pos inside]
    · have outside : ¬addr.toNat - RAM_BASE.toNat + n ≤ len :=
        fun inside => range ⟨above', by omega⟩
      rw [if_neg range, addUsize, Nat.mod_eq_of_lt fits, if_neg outside]
  · have below : ¬InRange RAM_BASE.toNat len addr n := fun range => above range.1
    rw [if_neg above, if_neg below]

theorem lowSlice_exact {w : Nat} (host : 32 ≤ w) (addr : Word) (width : Width) :
    SystemBus.lowSlice w addr width.bytes =
      if InRange 0x1000 0xf000 addr width.bytes then .bytes addr.toNat else .absent := by
  have room : 2 ^ 32 ≤ 2 ^ w := Nat.pow_le_pow_right (by decide) host
  have short := bytes_le width
  have base : RAM_BASE.toNat = 0x80000000 := rfl
  unfold SystemBus.lowSlice
  by_cases below : addr < RAM_BASE
  · have below' : addr.toNat < RAM_BASE.toNat := below
    have off : asUsize w addr = addr.toNat := Nat.mod_eq_of_lt (by omega)
    have fits : addr.toNat + width.bytes < 2 ^ w := by omega
    rw [off]
    by_cases range : InRange 0x1000 0xf000 addr width.bytes
    · have inside : addr.toNat + width.bytes ≤ LOW_RAM_SIZE := range.2
      rw [slice_exact fits inside, if_pos range, if_pos]
      rw [addUsize, Nat.mod_eq_of_lt fits]
      exact ⟨below, range.1, inside⟩
    · rw [if_neg range, if_neg]
      rintro ⟨-, start, stop⟩
      rw [addUsize, Nat.mod_eq_of_lt fits] at stop
      exact range ⟨start, stop⟩
  · have above : RAM_BASE.toNat ≤ addr.toNat := Nat.le_of_not_lt below
    have outside : ¬InRange 0x1000 0xf000 addr width.bytes := fun range => by
      have := range.2
      omega
    rw [if_neg fun low => below low.1, if_neg outside]

/-! ## User mode -/

namespace FlatMemory

variable {w : Nat} {width : Width} {addr : Word} {m : FlatMemory}

/-- Accesses in the buffer, and nothing else, are served. -/
structure Exact (w : Nat) (width : Width) (addr : Word) (m : FlatMemory) : Prop where
  read : read w width addr m =
    if InRange m.base.toNat m.len addr width.bytes then
      .ok (BitVec.ofNat _ (m.mem.load (addr.toNat - m.base.toNat) width.bytes)) m
    else .error (.fault (.loadAccessFault addr)) m
  write : ∀ val, write w width addr val m =
    if InRange m.base.toNat m.len addr width.bytes then
      .ok () { m with mem := m.mem.store (addr.toNat - m.base.toNat) width.bytes val.toNat }
    else .error (.fault (.storeAccessFault addr)) m

theorem bytes_exact {n : Nat} (room : m.len < 2 ^ w)
    (reckons : m.base.toNat ≤ addr.toNat → addr.toNat - m.base.toNat + n < 2 ^ 64) :
    m.bytes w addr n =
      if InRange m.base.toNat m.len addr n then .bytes (addr.toNat - m.base.toNat)
        else .absent := by
  unfold bytes offset
  by_cases below : addr < m.base
  · have below' : ¬InRange m.base.toNat m.len addr n := fun range => Nat.not_le.mpr below range.1
    rw [if_pos below, if_neg below']
  · have above : m.base.toNat ≤ addr.toNat := Nat.le_of_not_lt below
    have fits := reckons above
    have off : (addr - m.base).toNat = addr.toNat - m.base.toNat := BitVec.toNat_sub_of_le above
    have stop : (addr - m.base + BitVec.ofNat 64 n).toNat = addr.toNat - m.base.toNat + n := by
      rw [BitVec.toNat_add, off, BitVec.toNat_ofNat, Nat.add_mod_mod, Nat.mod_eq_of_lt fits]
    rw [if_neg below, stop]
    by_cases range : InRange m.base.toNat m.len addr n
    · have inside : addr.toNat - m.base.toNat + n ≤ m.len := by
        have := range.2
        omega
      have small : asUsize w (addr - m.base) = addr.toNat - m.base.toNat := by
        rw [asUsize, off, Nat.mod_eq_of_lt (by omega)]
      rw [if_pos inside, if_pos range, small]
      exact slice_exact (by omega) inside
    · have outside : ¬addr.toNat - m.base.toNat + n ≤ m.len := fun inside => range ⟨above, by omega⟩
      rw [if_neg outside, if_neg range]

theorem exact_of_reckons (room : m.len < 2 ^ w)
    (reckons : m.base.toNat ≤ addr.toNat → addr.toNat - m.base.toNat + width.bytes < 2 ^ 64) :
    Exact w width addr m := by
  have bytes := bytes_exact room reckons
  constructor
  · unfold FlatMemory.read
    rw [bytes]
    split_ifs <;> rfl
  · intro val
    unfold FlatMemory.write
    rw [bytes]
    split_ifs <;> rfl

end FlatMemory

/-! ## The TinyEMU-compatible board -/

namespace SystemBus

variable {δ : Type} [SystemDevices δ] {w : Nat} {width : Width} {addr : Word} {bus : SystemBus δ}

/-- RAM and low RAM serve what lies in them outside the HTIF window; everything else goes to
the device windows. -/
structure Exact (w : Nat) (width : Width) (addr : Word) (bus : SystemBus δ) : Prop where
  read : read w width addr bus =
    if bus.htifHit addr = false ∧ InRange RAM_BASE.toNat bus.ramLen addr width.bytes then
      .ok (BitVec.ofNat _ (bus.ram.load (addr.toNat - RAM_BASE.toNat) width.bytes)) bus
    else if bus.htifHit addr = false ∧ InRange 0x1000 0xf000 addr width.bytes then
      .ok (BitVec.ofNat _ (bus.lowRam.load addr.toNat width.bytes)) bus
    else mmioRead width addr bus
  write : ∀ val, write w width addr val bus =
    if bus.htifHit addr = false ∧ InRange RAM_BASE.toNat bus.ramLen addr width.bytes then
      .ok () { bus.checkStore w addr with
        ram := bus.ram.store (addr.toNat - RAM_BASE.toNat) width.bytes val.toNat }
    else if bus.htifHit addr = false ∧ InRange 0x1000 0xf000 addr width.bytes then
      .ok ()
        { bus.checkStore w addr with lowRam := bus.lowRam.store addr.toNat width.bytes val.toNat }
    else mmioWrite width addr val (bus.checkStore w addr)

/-- A read that is answered by a window of `addr`, or an access fault; memory is as it was. -/
def ReadLands {α : Type} (addr : Word) (bus : SystemBus δ) :
    EStateM.Result Stop (SystemBus δ) α → Prop
  | .ok _ bus' => (window bus.htifBase addr).isSome ∧ bus'.ram = bus.ram ∧ bus'.lowRam = bus.lowRam
  | .error e bus' =>
    e = .fault (.loadAccessFault addr) ∧ bus'.ram = bus.ram ∧ bus'.lowRam = bus.lowRam

/-- A write that is taken by a window of `addr`, or an access fault; without a window nothing
changes. -/
def WriteLands (addr : Word) (bus : SystemBus δ) : EStateM.Result Stop (SystemBus δ) Unit → Prop
  | .ok _ _ => (window bus.htifBase addr).isSome
  | .error e bus' =>
    e = .fault (.storeAccessFault addr) ∧ (window bus.htifBase addr = none → bus' = bus)

theorem exact_of_reckons (host : 32 ≤ w) (reckons : Reckons w addr width.bytes) :
    Exact w width addr bus := by
  have ram : ramSlice w bus.ramLen addr width.bytes = _ := ramSlice_exact reckons
  have low := lowSlice_exact host addr width
  constructor
  · unfold SystemBus.read
    rw [ram, low]
    by_cases hit : bus.htifHit addr = true
    · simp [hit]
    · by_cases range : InRange RAM_BASE.toNat bus.ramLen addr width.bytes
      · simp [hit, range]
      · by_cases range' : InRange 0x1000 0xf000 addr width.bytes <;> simp [hit, range, range']
  · intro val
    have hit' : (bus.checkStore w addr).htifHit addr = bus.htifHit addr := rfl
    have len : (bus.checkStore w addr).ramLen = bus.ramLen := rfl
    unfold SystemBus.write
    dsimp only
    rw [hit', len, ram, low]
    by_cases hit : bus.htifHit addr = true
    · simp [hit]
    · by_cases range : InRange RAM_BASE.toNat bus.ramLen addr width.bytes
      · simp [hit, range, checkStore]
      · by_cases range' :
          InRange 0x1000 0xf000 addr width.bytes <;> simp [hit, range, range', checkStore]

theorem window_of_virtioSlot {htifBase : Word} {slot : Nat × Word}
    (found : virtioSlot addr = some slot) : (window htifBase addr).isSome := by
  simp [window, found]

structure Answers (addr : Word) (bus : SystemBus δ) (answer : Option (BitVec 32) × SystemBus δ) :
    Prop where
  window : answer.1.isSome → (window bus.htifBase addr).isSome
  ram : answer.2.ram = bus.ram
  lowRam : answer.2.lowRam = bus.lowRam

theorem mmioRead32_answers (addr : Word) (bus : SystemBus δ) :
    Answers addr bus (mmioRead32 addr bus) := by
  unfold mmioRead32
  cases found : SystemBus.window bus.htifBase addr with
  | none => exact ⟨nofun, rfl, rfl⟩
  | some win => exact ⟨fun _ => by rw [found]; rfl, rfl, rfl⟩

variable (width : Width)

theorem mmioReadNarrow_answers (addr : Word) (bus : SystemBus δ) :
    Answers addr bus (mmioReadNarrow width addr bus) := by
  unfold mmioReadNarrow
  cases found : virtioSlot addr with
  | none => exact ⟨nofun, rfl, rfl⟩
  | some slot => exact ⟨fun _ => window_of_virtioSlot found, rfl, rfl⟩

theorem mmioWrite32_window (addr : Word) (val : BitVec 32) (bus : SystemBus δ) :
    (mmioWrite32 addr val bus).1 = (window bus.htifBase addr).isSome ∧
      (window bus.htifBase addr = none → (mmioWrite32 addr val bus).2 = bus) := by
  unfold mmioWrite32
  cases window bus.htifBase addr with
  | none => exact ⟨rfl, fun _ => rfl⟩
  | some found => exact ⟨rfl, fun none => by cases none⟩

omit [SystemDevices δ] in
theorem Answers.lands {answer : Option (BitVec 32) × SystemBus δ}
    (answers : Answers addr bus answer) (width : Width) :
    ReadLands addr bus (answered width addr answer) := by
  obtain ⟨v, bus'⟩ := answer
  cases v with
  | none => exact ⟨rfl, answers.ram, answers.lowRam⟩
  | some v => exact ⟨answers.window rfl, answers.ram, answers.lowRam⟩

theorem mmioRead_lands (addr : Word) (bus : SystemBus δ) :
    ReadLands addr bus (mmioRead width addr bus) := by
  have word := mmioRead32_answers addr bus
  cases width with
  | byte => exact (mmioReadNarrow_answers .byte addr bus).lands .byte
  | half => exact (mmioReadNarrow_answers .half addr bus).lands .half
  | word => exact word.lands .word
  | dword =>
    have next := mmioRead32_answers (addr + 4) (mmioRead32 addr bus).2
    unfold mmioRead
    dsimp only
    cases lo : (mmioRead32 addr bus).1 with
    | none => exact ⟨rfl, next.ram.trans word.ram, next.lowRam.trans word.lowRam⟩
    | some l =>
      cases (mmioRead32 (addr + 4) (mmioRead32 addr bus).2).1 with
      | none => exact ⟨rfl, next.ram.trans word.ram, next.lowRam.trans word.lowRam⟩
      | some h =>
        exact ⟨word.window (by rw [lo]; rfl), next.ram.trans word.ram,
          next.lowRam.trans word.lowRam⟩

theorem mmioWrite_lands (addr : Word) (val : BitVec width.bits) (bus : SystemBus δ) :
    WriteLands addr bus (mmioWrite width addr val bus) := by
  cases width with
  | byte => exact ⟨rfl, fun _ => rfl⟩
  | half => exact ⟨rfl, fun _ => rfl⟩
  | word =>
    unfold mmioWrite
    obtain ⟨yes, same⟩ := mmioWrite32_window addr (val.setWidth 32) bus
    dsimp only
    cases done : mmioWrite32 addr (val.setWidth 32) bus with
    | mk ok bus' =>
      rw [done] at yes same
      cases ok with
      | false => exact ⟨rfl, same⟩
      | true => exact yes.symm
  | dword =>
    unfold mmioWrite
    obtain ⟨yes, same⟩ := mmioWrite32_window addr (val.setWidth 32) bus
    dsimp only
    by_cases first : (mmioWrite32 addr (val.setWidth 32) bus).1 = true
    · have window := yes.symm.trans first
      rw [if_pos first]
      cases mmioWrite32 (addr + 4) ((val >>> 32).setWidth 32)
        (mmioWrite32 addr (val.setWidth 32) bus).2 with
      | mk ok bus' =>
        cases ok with
        | false => exact ⟨rfl, fun none => by rw [none] at window; cases window⟩
        | true => exact window
    · rw [if_neg first]
      exact ⟨rfl, same⟩

end SystemBus

/-! ## The virt board -/

namespace VirtBus

variable {δ : Type} [VirtDevices δ] {w : Nat} {width : Width} {addr : Word} {bus : VirtBus δ}

/-- RAM serves what lies in it; everything else goes to the device windows. -/
structure Exact (w : Nat) (width : Width) (addr : Word) (bus : VirtBus δ) : Prop where
  read : read w width addr bus =
    if InRange RAM_BASE.toNat bus.ramLen addr width.bytes then
      .ok (BitVec.ofNat _ (bus.ram.load (addr.toNat - RAM_BASE.toNat) width.bytes)) bus
    else mmioRead width addr bus
  write : ∀ val, write w width addr val bus =
    if InRange RAM_BASE.toNat bus.ramLen addr width.bytes then
      .ok () { bus.checkStore w addr with
        ram := bus.ram.store (addr.toNat - RAM_BASE.toNat) width.bytes val.toNat }
    else mmioWrite width addr val (bus.checkStore w addr)

def ReadLands {α : Type} (addr : Word) (bus : VirtBus δ) : EStateM.Result Stop (VirtBus δ) α → Prop
  | .ok _ bus' => (window addr).isSome ∧ bus'.ram = bus.ram
  | .error e bus' => e = .fault (.loadAccessFault addr) ∧ bus'.ram = bus.ram

def WriteLands (addr : Word) (bus : VirtBus δ) : EStateM.Result Stop (VirtBus δ) Unit → Prop
  | .ok _ _ => (window addr).isSome
  | .error e bus' => e = .fault (.storeAccessFault addr) ∧ bus' = bus

theorem exact_of_reckons (reckons : Reckons w addr width.bytes) : Exact w width addr bus := by
  have ram : ramSlice w bus.ramLen addr width.bytes = _ := ramSlice_exact reckons
  constructor
  · unfold VirtBus.read
    rw [ram]
    split_ifs <;> rfl
  · intro val
    have len : (bus.checkStore w addr).ramLen = bus.ramLen := rfl
    unfold VirtBus.write
    dsimp only
    rw [len, ram]
    split_ifs <;> rfl

theorem mmioRead_lands (width : Width) (addr : Word) (bus : VirtBus δ) :
    ReadLands addr bus (mmioRead width addr bus) := by
  unfold mmioRead
  cases found : window addr with
  | none => exact ⟨rfl, rfl⟩
  | some win =>
    obtain ⟨win, off⟩ := win
    dsimp only
    cases VirtDevices.read win off width bus.devices with
    | mk v devices =>
      cases v with
      | none => exact ⟨rfl, rfl⟩
      | some v => exact ⟨by rw [found]; rfl, rfl⟩

theorem mmioWrite_lands (width : Width) (addr : Word) (val : BitVec width.bits) (bus : VirtBus δ) :
    WriteLands addr bus (mmioWrite width addr val bus) := by
  unfold mmioWrite
  cases found : window addr with
  | none => exact ⟨rfl, rfl⟩
  | some win => exact congrArg Option.isSome found

end VirtBus

/-- On a host of 32 or 64 bits an access is served by RAM exactly when its bytes lie in RAM (on the
first board, outside the HTIF window), and touches those bytes only; otherwise it goes to a device
window or is an access fault, and nothing panics. The host must be able to compute the end of the
range. -/
theorem accesses_exact {δ ε : Type} [SystemDevices δ] [VirtDevices ε] (w : Nat)
    (host : w = 32 ∨ w = 64) (width : Width) (addr : Word) : (∀ m : FlatMemory, m.len < 2 ^ w →
      (m.base.toNat ≤ addr.toNat → addr.toNat - m.base.toNat + width.bytes < 2 ^ 64) →
      FlatMemory.Exact w width addr m) ∧ (Reckons w addr width.bytes →
      (∀ bus : SystemBus δ, SystemBus.Exact w width addr bus ∧
        SystemBus.ReadLands addr bus (SystemBus.mmioRead width addr bus) ∧
        ∀ val, SystemBus.WriteLands addr bus (SystemBus.mmioWrite width addr val bus)) ∧
      ∀ bus : VirtBus ε, VirtBus.Exact w width addr bus ∧
        VirtBus.ReadLands addr bus (VirtBus.mmioRead width addr bus) ∧
        ∀ val, VirtBus.WriteLands addr bus (VirtBus.mmioWrite width addr val bus)) := by
  refine ⟨fun m room reckons => FlatMemory.exact_of_reckons room reckons,
    fun reckons => ⟨fun bus => ?_, fun bus => ?_⟩⟩
  · exact ⟨SystemBus.exact_of_reckons (by omega) reckons, SystemBus.mmioRead_lands width addr bus,
      fun val => SystemBus.mmioWrite_lands width addr val bus⟩
  · exact ⟨VirtBus.exact_of_reckons reckons, VirtBus.mmioRead_lands width addr bus,
      fun val => VirtBus.mmioWrite_lands width addr val bus⟩

/-! ## Corners -/

namespace Corner

inductive Bare where
  | bare

instance : SystemDevices Bare where
  read _ _ d := (none, d)
  readSized _ _ _ d := (none, d)
  write _ _ _ d ram := (d, ram)
  irqLines d := (0, d)

instance : VirtDevices Bare where
  read _ _ _ d := (none, d)
  write _ _ _ d ram := (d, ram)
  irqLines d := (0, d)

def ram : Ram := fun _ => 7

def system : SystemBus Bare :=
  { ramPtr := 0x10000, ramLen := 0x1000, ram := ram, lowRam := ram, htifBase := RAM_BASE,
    jitPages := [0],
    jitDirtyPages := [], devices := .bare }

def virt : VirtBus Bare :=
  { ramPtr := 0x10000, ramLen := 0x1000, ram := ram, jitPages := [0], jitDirtyPages := [],
    devices := .bare }

def flat : FlatMemory := { base := 0, len := 0x1000, mem := ram }

/-- The first byte of RAM is the HTIF's; on a 32-bit host the address 4 GiB above is taken for it,
the byte before that is a panic, and so is the last address in user mode. -/
theorem corners : (InRange RAM_BASE.toNat system.ramLen RAM_BASE 1 ∧
      SystemBus.read 64 .byte RAM_BASE system =
        .error (.fault (.loadAccessFault RAM_BASE)) system) ∧
    (¬InRange RAM_BASE.toNat virt.ramLen (RAM_BASE + 0x100000000) 1 ∧
      VirtBus.read 32 .byte (RAM_BASE + 0x100000000) virt = .ok 7 virt) ∧
    VirtBus.read 32 .byte (RAM_BASE + 0xffffffff) virt = .error .panic virt ∧
    FlatMemory.read 64 .byte 0xffffffffffffffff flat = .error .panic flat :=
  ⟨⟨by decide, rfl⟩, ⟨by decide, rfl⟩, rfl, rfl⟩

theorem after_htif : SystemBus.read 32 .word (RAM_BASE + 16) system = .ok 0x07070707 system ∧
      VirtBus.read 32 .word (RAM_BASE + 16) virt = .ok 0x07070707 virt ∧
      FlatMemory.read 32 .word 16 flat = .ok 0x07070707 flat := by
  have served :=
    (accesses_exact (δ := Bare) (ε := Bare) 32 (Or.inl rfl) .word (RAM_BASE + 16)).2 (by
    intro _
    decide)
  have flatServed :=
    (accesses_exact (δ := Bare) (ε := Bare) 32 (Or.inl rfl) .word 16).1 flat (by decide) (by
    intro _
    decide)
  exact ⟨(served.1 system).1.read, (served.2 virt).1.read, flatServed.read⟩

end Corner

end Rv64Js.Machine
