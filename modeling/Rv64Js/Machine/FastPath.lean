import Rv64Js.Core.Tags
import Rv64Js.Machine.BusesExact

/-! # Direct access to a page

Compiled code and fused rows access RAM at a host address once the bus has handed out an offset for
the page. On the virt board that is what the bus would do; the other board hands out pages without a
look at the HTIF window. -/

set_option autoImplicit false

namespace Rv64Js.Machine

open Rv64Js.Core Rv64Js.Board

/-- RAM lies in the address space of the host, not at the null pointer. -/
structure Placed (w : Nat) (ramPtr : Word) (len : Nat) : Prop where
  notNull : 0 < ramPtr.toNat
  fits : ramPtr.toNat + len ≤ 2 ^ w

def direct (ramPtr : Word) (len : Nat) (address : Word) (n : Nat) : Option Nat :=
  if ramPtr ≤ address ∧ (address - ramPtr).toNat + n ≤ len then some (address - ramPtr).toNat
    else none

/-! ## Pages that are handed out -/

section Pages

variable {w len : Nat} {ramPtr va pa pa' off : Word} {jitPages : List (BitVec 64)} {store : Bool}
    {width : Width}

theorem handed_off (handed : jitFastOff w len ramPtr jitPages va pa store = some off) :
    off = ramPtr + (pa - RAM_BASE) - va ∧
      (store = true → pageBit jitPages (asUsize w ((pa - RAM_BASE) >>> 12)) = false) := by
  unfold jitFastOff at handed
  split_ifs at handed with out marked
  cases handed
  refine ⟨rfl, fun yes => ?_⟩
  simpa [yes] using marked

theorem ramPage_same (above : RAM_BASE.toNat ≤ pa'.toNat) (same : pageOf pa' = pageOf pa) :
    (pa' - RAM_BASE) >>> 12 = (pa - RAM_BASE) >>> 12 := by
  have base : RAM_BASE.toNat = 0x80000000 := rfl
  have page := congrArg BitVec.toNat same
  rw [toNat_pageOf, toNat_pageOf] at page
  have above' : RAM_BASE.toNat ≤ pa.toNat := by omega
  refine BitVec.eq_of_toNat_eq ?_
  rw [BitVec.toNat_ushiftRight, BitVec.toNat_ushiftRight, BitVec.toNat_sub_of_le above,
    BitVec.toNat_sub_of_le above', Nat.shiftRight_eq_div_pow, Nat.shiftRight_eq_div_pow]
  omega

section Handed

variable (handed : jitFastOff w len ramPtr jitPages va pa store = some off)
  (same : pageOf pa' = pageOf pa) (within : InPage width pa')
include handed same within

theorem handed_range : InRange RAM_BASE.toNat len pa' width.bytes := by
  have base : RAM_BASE.toNat = 0x80000000 := rfl
  have page := congrArg BitVec.toNat same
  rw [toNat_pageOf, toNat_pageOf] at page
  rw [InPage, toNat_pageOffset] at within
  unfold jitFastOff at handed
  by_cases out : pa < RAM_BASE ∨ RAM_BASE.toNat + len ≤ (pa ||| 0xfff#64).toNat
  · rw [if_pos out] at handed
    cases handed
  · rw [not_or, BitVec.lt_def, toNat_or_pageMask] at out
    refine ⟨?_, ?_⟩ <;> omega

theorem direct_handed (placed : Placed w ramPtr len) (host : w ≤ 64) :
    direct ramPtr len (pa' + (va - pa) + off) width.bytes = some (pa'.toNat - RAM_BASE.toNat) := by
  have range := handed_range handed same within
  have address : pa' + (va - pa) + off = ramPtr + (pa' - RAM_BASE) := by
    rw [(handed_off handed).1]
    grind
  have offset : (pa' - RAM_BASE).toNat = pa'.toNat - RAM_BASE.toNat :=
    BitVec.toNat_sub_of_le range.1
  have inside : pa'.toNat - RAM_BASE.toNat + width.bytes ≤ len := by
    have := range.1
    have := range.2
    omega
  have room : 2 ^ w ≤ 2 ^ 64 := Nat.pow_le_pow_right (by decide) host
  have fits := placed.fits
  have some := bytes_pos width
  have whole : (ramPtr + (pa' - RAM_BASE)).toNat = ramPtr.toNat + (pa'.toNat - RAM_BASE.toNat) := by
    rw [BitVec.toNat_add, offset, Nat.mod_eq_of_lt (by omega)]
  have back : (ramPtr + (pa' - RAM_BASE) - ramPtr).toNat = pa'.toNat - RAM_BASE.toNat := by
    rw [BitVec.add_comm, BitVec.add_sub_cancel, offset]
  rw [address, direct, back, if_pos]
  exact ⟨by rw [BitVec.le_def, whole]; omega, inside⟩

theorem reckons_handed (placed : Placed w ramPtr len) : Reckons w pa' width.bytes := by
  intro _
  have range := handed_range handed same within
  have := range.1
  have := range.2
  have := placed.fits
  have := placed.notNull
  omega

theorem jitCheckStore_handed (yes : store = true) (dirty : List Nat) :
    jitCheckStore w jitPages pa' dirty = dirty := by
  have range := handed_range handed same within
  have clear := (handed_off handed).2 yes
  rw [jitCheckStore, ramPage_same range.1 same, clear, if_neg (by simp)]

end Handed

end Pages

/-! ## The boards -/

namespace SystemBus

variable {δ : Type} [SystemDevices δ]

def peek (width : Width) (bus : SystemBus δ) (address : Word) : Option (BitVec width.bits) :=
  (direct bus.ramPtr bus.ramLen address width.bytes).map fun off =>
    BitVec.ofNat _ (bus.ram.load off width.bytes)

def poke (width : Width) (address : Word) (val : BitVec width.bits) (bus : SystemBus δ) :
    Option (SystemBus δ) :=
  (direct bus.ramPtr bus.ramLen address width.bytes).map fun off =>
    { bus with ram := bus.ram.store off width.bytes val.toNat }

/-- Direct accesses in the page of `pa` do what the bus does. -/
def Agrees (w : Nat) (bus : SystemBus δ) (va pa off : Word) (store : Bool) : Prop :=
  ∀ width pa', pageOf pa' = pageOf pa → InPage width pa' →
    (∃ v, bus.peek width (pa' + (va - pa) + off) = some v ∧ read w width pa' bus = .ok v bus) ∧
    (store = true → ∀ val, ∃ bus', bus.poke width (pa' + (va - pa) + off) val = some bus' ∧
      write w width pa' val bus = .ok () bus')

variable {w : Nat} {bus : SystemBus δ} {va pa off : Word} {store : Bool}

theorem read_htif {addr : Word} (above : RAM_BASE.toNat ≤ addr.toNat)
    (hit : bus.htifHit addr = true) :
    read w .byte addr bus = .error (.fault (.loadAccessFault addr)) bus := by
  have base : RAM_BASE.toNat = 0x80000000 := rfl
  have none : virtioSlot addr = none := by
    rw [virtioSlot, inWindow, if_neg, Option.map_none]
    rintro ⟨-, below⟩
    have below' : addr.toNat < 0x40018000 := below
    omega
  rw [read, if_pos hit]
  change answered .byte addr (mmioReadNarrow .byte addr bus) = _
  rw [mmioReadNarrow, none]
  rfl

section Handed

variable (host : w = 32 ∨ w = 64) (placed : Placed w bus.ramPtr bus.ramLen)
  (handed : jitFastOff w bus.ramLen bus.ramPtr bus.jitPages va pa store = some off)
include host placed handed

theorem agrees_of_noHtif (free : ∀ addr, pageOf addr = pageOf pa → bus.htifHit addr = false) :
    Agrees w bus va pa off store := by
  intro width pa' same within
  have range := handed_range handed same within
  have reached := direct_handed handed same within placed (by omega)
  have served : Exact w width pa' bus :=
    exact_of_reckons (by omega) (reckons_handed handed same within placed)
  refine ⟨⟨_, by rw [peek, reached, Option.map_some], ?_⟩,
    fun yes val => ⟨_, by rw [poke, reached, Option.map_some], ?_⟩⟩
  · rw [served.read, if_pos ⟨free pa' same, range⟩]
  · have clear : bus.checkStore w pa' = bus := by
      rw [checkStore, jitCheckStore_handed handed same within yes]
    rw [served.write, if_pos ⟨free pa' same, range⟩, clear]

theorem agrees_iff :
    Agrees w bus va pa off store ↔ ∀ addr, pageOf addr = pageOf pa → bus.htifHit addr = false := by
  refine ⟨fun agrees addr same => ?_, agrees_of_noHtif host placed handed⟩
  by_contra hit
  rw [Bool.not_eq_false] at hit
  have within : InPage .byte addr := by
    rw [InPage, toNat_pageOffset]
    change addr.toNat % 4096 + 1 ≤ 4096
    omega
  obtain ⟨⟨v, -, served⟩, -⟩ := agrees .byte addr same within
  rw [read_htif (handed_range handed same within).1 hit] at served
  cases served

end Handed

end SystemBus

namespace VirtBus

variable {δ : Type} [VirtDevices δ]

def peek (width : Width) (bus : VirtBus δ) (address : Word) : Option (BitVec width.bits) :=
  (direct bus.ramPtr bus.ramLen address width.bytes).map fun off =>
    BitVec.ofNat _ (bus.ram.load off width.bytes)

def poke (width : Width) (address : Word) (val : BitVec width.bits) (bus : VirtBus δ) :
    Option (VirtBus δ) :=
  (direct bus.ramPtr bus.ramLen address width.bytes).map fun off =>
    { bus with ram := bus.ram.store off width.bytes val.toNat }

def Agrees (w : Nat) (bus : VirtBus δ) (va pa off : Word) (store : Bool) : Prop :=
  ∀ width pa', pageOf pa' = pageOf pa → InPage width pa' →
    (∃ v, bus.peek width (pa' + (va - pa) + off) = some v ∧ read w width pa' bus = .ok v bus) ∧
    (store = true → ∀ val, ∃ bus', bus.poke width (pa' + (va - pa) + off) val = some bus' ∧
      write w width pa' val bus = .ok () bus')

variable {w : Nat} {bus : VirtBus δ} {va pa off : Word} {store : Bool}

theorem agrees (host : w = 32 ∨ w = 64) (placed : Placed w bus.ramPtr bus.ramLen)
    (handed : jitFastOff w bus.ramLen bus.ramPtr bus.jitPages va pa store = some off) :
    Agrees w bus va pa off store := by
  intro width pa' same within
  have range := handed_range handed same within
  have reached := direct_handed handed same within placed (by omega)
  have served : Exact w width pa' bus := exact_of_reckons (reckons_handed handed same within placed)
  refine ⟨⟨_, by rw [peek, reached, Option.map_some], ?_⟩,
    fun yes val => ⟨_, by rw [poke, reached, Option.map_some], ?_⟩⟩
  · rw [served.read, if_pos range]
  · have clear : bus.checkStore w pa' = bus := by
      rw [checkStore, jitCheckStore_handed handed same within yes]
    rw [served.write, if_pos range, clear]

end VirtBus

/-- An offset that the virt board hands out stands for its bus; one of the other board does exactly
when no address of the page is in the HTIF window. -/
theorem fast_path_agrees {δ ε : Type} [SystemDevices δ] [VirtDevices ε] (w : Nat)
    (host : w = 32 ∨ w = 64) (va pa off : Word) (store : Bool) :
    (∀ bus : SystemBus δ, Placed w bus.ramPtr bus.ramLen →
      jitFastOff w bus.ramLen bus.ramPtr bus.jitPages va pa store = some off →
      (SystemBus.Agrees w bus va pa off store ↔ ∀ addr, pageOf addr = pageOf pa →
        bus.htifHit addr = false)) ∧
    ∀ bus : VirtBus ε, Placed w bus.ramPtr bus.ramLen →
      jitFastOff w bus.ramLen bus.ramPtr bus.jitPages va pa store = some off →
      VirtBus.Agrees w bus va pa off store :=
  ⟨fun _ placed handed => SystemBus.agrees_iff host placed handed,
    fun _ placed handed => VirtBus.agrees host placed handed⟩

namespace Corner

/-- The HTIF window elsewhere, as on a machine that does not run the tests. -/
def plain : SystemBus Bare := { system with htifBase := 0x40008000 }

/-- The page with the HTIF window in it is handed out, also for stores; a direct load of `tohost`
gives a byte of RAM where the bus does not. -/
theorem tohost_skipped :
    jitFastOff 64 system.ramLen system.ramPtr system.jitPages RAM_BASE RAM_BASE true =
      some (0x10000 - RAM_BASE) ∧
      system.peek .byte (RAM_BASE + (0x10000 - RAM_BASE)) = some 7 ∧
      SystemBus.read 64 .byte RAM_BASE system = .error (.fault (.loadAccessFault RAM_BASE)) system ∧
      ¬SystemBus.Agrees 64 system RAM_BASE RAM_BASE (0x10000 - RAM_BASE) true := by
  refine ⟨rfl, rfl, rfl, fun agrees => ?_⟩
  obtain ⟨⟨v, -, served⟩, -⟩ := agrees .byte RAM_BASE rfl (by decide)
  cases served

theorem plain_agrees : SystemBus.Agrees 64 plain RAM_BASE RAM_BASE (0x10000 - RAM_BASE) true ∧
      VirtBus.Agrees 32 virt RAM_BASE RAM_BASE (0x10000 - RAM_BASE) true := by
  constructor
  · refine ((fast_path_agrees (δ := Bare) (ε := Bare) 64 (Or.inr rfl) RAM_BASE RAM_BASE
      (0x10000 - RAM_BASE)
      true).1 plain ⟨by decide, by decide⟩ rfl).mpr fun addr same => ?_
    have page := congrArg BitVec.toNat same
    rw [toNat_pageOf] at page
    have start : (pageOf RAM_BASE).toNat = 0x80000000 := by decide
    rw [start] at page
    rw [SystemBus.htifHit, decide_eq_false_iff_not, BitVec.lt_def]
    have above : (0x40008000#64 : Word) ≤ addr := by
      rw [BitVec.le_def]
      change 0x40008000 ≤ addr.toNat
      omega
    change ¬(addr - 0x40008000#64).toNat < 16
    rw [BitVec.toNat_sub_of_le above]
    change ¬addr.toNat - 0x40008000 < 16
    omega
  · exact (fast_path_agrees (δ := Bare) (ε := Bare) 32 (Or.inl rfl) RAM_BASE RAM_BASE
      (0x10000 - RAM_BASE)
      true).2 virt ⟨by decide, by decide⟩ rfl

end Corner

end Rv64Js.Machine
