import Rv64Js.Core.ScalarT0Refines

/-! # The two interpreter drivers agree

`run` and `run_integrated_scalar` both refine the uncached hart, so in a disciplined run they end
alike. A bus whose reads have a side effect tells them apart: the integrated driver fetches an
instruction it hands back a second time. -/

set_option autoImplicit false

namespace Rv64Js.Core

open Loop
open Uncached
open Fallible

variable {β : Type} [Bus β]

def FetchCache.holds (cache : FetchCache) : History := fun tag diff =>
  (∃ i, cache.row.tag i = tag ∧ cache.row.val i = diff) ∨
    (cache.capability.tag = tag ∧ cache.capability.paDiff = diff)

namespace System

def uncached (s : System β) : Uncached β where
  hart := s.cpu.hart
  pc := s.cpu.pc
  insnCount := s.cpu.insnCount
  bus := s.bus
  seen := s.cpu.fetch.holds

/-- A stored capability of the current mapping generation was handed out by this bus. -/
def StoredGranted (s : System β) : Prop :=
  s.cpu.fetch.capabilityMapGen = s.cpu.hart.mapGen →
    s.cpu.fetch.capability.tag = TLB_INVALID ∨
      Granted s.bus (pageOf s.cpu.fetch.capability.tag) s.cpu.fetch.capability.paDiff
        s.cpu.fetch.capability.linearOff

omit [Bus β] in
theorem cachedBy_uncached (s : System β) : CachedBy s s.uncached :=
  ⟨rfl, rfl, rfl, rfl, fun i _ => .inr (.inl ⟨i, rfl, rfl⟩)⟩

theorem drivenBy_uncached {s : System β} (stored : s.StoredGranted) :
    DrivenBy (.start s) s.uncached := by
  refine ⟨rfl, rfl, by simp [Driver.start, uncached], rfl, s.cachedBy_uncached.row, rfl, ?_⟩
  by_cases current : s.cpu.fetch.capabilityMapGen = s.cpu.hart.mapGen
  · simp only [Driver.start, if_pos current]
    exact (stored current).imp id fun granted => ⟨.inr ⟨rfl, rfl⟩, granted⟩
  · simp only [Driver.start, if_neg current]
    exact .inl rfl

structure Agree (a b : System β) : Prop where
  hart : a.cpu.hart = b.cpu.hart
  pc : a.cpu.pc = b.cpu.pc
  insnCount : a.cpu.insnCount = b.cpu.insnCount
  bus : a.bus = b.bus

omit [Bus β] in
theorem agree_of_cachedBy {a b : System β} {u : Uncached β} (first : CachedBy a u)
    (second : CachedBy b u) : Agree a b :=
  ⟨first.hart.trans second.hart.symm, first.pc.trans second.pc.symm,
    first.insnCount.trans second.insnCount.symm, first.bus.trans second.bus.symm⟩

/-- On a bus that honours the `jit_fast_off` contract, in a disciplined run, the integrated driver
and `run` stop for the same reason in the same state. -/
theorem runIntegratedScalar_agrees_run (contract : Bus.DirectContract β) (units : Units β)
    (budget : Nat) (s : System β) (stored : s.StoredGranted)
    (disciplined : Disciplined units s.cpu.hart.sys.isSome budget s.uncached) :
    (s.runIntegratedScalar units budget).1 = (s.run units budget).1 ∧
      Agree (s.runIntegratedScalar units budget).2 (s.run units budget).2 := by
  have driven := (drivenBy_uncached stored).iterate contract units _ budget disciplined
  have interpreted := s.cachedBy_uncached.iterate units _ budget disciplined
  have both := liftRel_common driven interpreted
  unfold runIntegratedScalar run
  generalize iterate (Driver.round units s.cpu.hart.sys.isSome) budget (Driver.start s) = a
    at both ⊢
  generalize iterate (runRound units s.cpu.hart.sys.isSome) budget s = b at both ⊢
  cases both with
  | inl common =>
    obtain ⟨stopped, ⟨sameReason, first⟩, ⟨sameReason', second⟩⟩ := common
    exact ⟨sameReason.trans sameReason'.symm, agree_of_cachedBy first second⟩
  | inr common =>
    obtain ⟨u, first, second⟩ := common
    exact ⟨rfl, agree_of_cachedBy (first.committed.publish _) second⟩

end System

/-! ## A run of the theorem, and a bus that tells the drivers apart -/

def Units.scalar : Units β where
  soft := default
  vector :=
    { unitStrideMemoryEncoding := fun _ => false
      execUnitStrideMemoryInsn := fun insn _ => illegal insn
      execVectorMemory := fun insn _ => illegal insn
      execVectorConfig := fun insn => throw (.illegalInstruction insn)
      execVectorOp := fun insn => throw (.illegalInstruction insn)
      unitStride_evolves := fun _ _ => Along.throw Machine.Evolves.refl _
      memory_evolves := fun _ _ => Along.throw Machine.Evolves.refl _
      unitStride_keeps := fun _ _ _ _ _ kept => kept
      memory_keeps := fun _ _ _ _ _ kept => kept
      config_settles := fun _ => Along.throw Hart.Settles.refl _
      op_settles := fun _ => Along.throw Hart.Settles.refl _
      config_mode := fun _ _ => rfl
      op_mode := fun _ _ => rfl
      unitStride_time := fun _ _ _ => rfl
      memory_time := fun _ _ _ => rfl
      config_time := fun _ _ => rfl
      op_time := fun _ _ => rfl }

/-- A read-only memory, reachable at linear offset zero, in which every word is a FENCE. -/
structure FenceRom where

namespace FenceRom

instance : Bus FenceRom where
  read _ _ := pure ((0x000f#16).setWidth _)
  write _ addr _ := throw (.storeAccessFault addr)
  jitFastOff _ va pa _ := if va = pa then some 0 else none
  irqLines bus := (0, bus)
  peek _ _ _ := (0x000f#16).setWidth _
  poke _ _ _ bus := bus

theorem directContract : Bus.DirectContract FenceRom := by
  intro bus va pa off store handed later _ width va' _ _
  change (if va = pa then some 0 else none) = some off at handed
  split at handed <;> cases handed
  rfl

def boot : System FenceRom := { cpu := Cpu.new, bus := {} }

/-- User mode at a multiple of four, where every translation used is the identity. -/
structure Plain (u : Uncached FenceRom) : Prop where
  user : u.hart.sys = none
  aligned : u.pc.toNat % 4 = 0
  seen : ∀ tag diff, u.seen tag diff → tag = TLB_INVALID ∨ diff = 0#64

def fetched (u : Uncached FenceRom) : Uncached FenceRom :=
  { u with seen := u.seen.learn (u.hart.translationTag u.pc .fetch) 0#64 }

namespace Plain

variable {u : Uncached FenceRom} (plain : Plain u)
include plain

theorem fetched : Plain (fetched u) :=
  ⟨plain.user, plain.aligned, fun t d seen => seen.elim (plain.seen t d) fun new => .inr new.2⟩

theorem inPage : (u.pc + 2) &&& 0xfff#64 ≠ 0#64 := by
  intro crosses
  have aligned := plain.aligned
  have low := congrArg BitVec.toNat crosses
  have mask : (0xfff#64).toNat = 2 ^ 12 - 1 := rfl
  have high : (u.pc + 2).toNat = u.pc.toNat + 2 := by bv_omega
  rw [BitVec.toNat_and, mask, Nat.and_two_pow_sub_one_eq_mod, high, BitVec.toNat_ofNat] at low
  omega

theorem freshFetch : u.FreshFetch := by
  refine ⟨fun diff seen => ?_, fun _ _ _ _ crosses => absurd crosses plain.inPage⟩
  rcases plain.seen _ _ seen with invalid | rfl
  · exact absurd invalid (tag_ne_invalid (isContext_translation _ _) _)
  · rw [fetchWalk, plain.user, BitVec.add_zero]

theorem fetch : u.fetch = .ok (.full (0x000f#16 ++ 0x000f#16)) (FenceRom.fetched u) := by
  have translated : u.translateFetch u.pc = .ok u.pc (FenceRom.fetched u) := by
    unfold Uncached.translateFetch fetchWalk FenceRom.fetched
    rw [plain.user]
    dsimp only
    rw [BitVec.sub_self]
  have low : u.fetchLow = .ok (u.pc, 0x000f#16) (FenceRom.fetched u) :=
    (bind_ok _ translated).trans rfl
  have address : Uncached.highAddress u.pc (FenceRom.fetched u) =
      .ok (u.pc + 2) (FenceRom.fetched u) :=
    congrFun (if_neg plain.inPage) _
  have high : Uncached.fetchHigh u.pc (FenceRom.fetched u) = .ok 0x000f#16 (FenceRom.fetched u) :=
    (bind_ok _ address).trans rfl
  have wide : isCompressed (0x000f#16) ≠ true := by decide
  exact (bind_ok _ low).trans ((congrFun (if_neg wide) _).trans (bind_ok _ high))

theorem disciplined (n : Nat) : Disciplined Units.scalar false n u := by
  induction n generalizing u with
  | zero => trivial
  | succ n ih =>
    have aligned := plain.aligned
    refine ⟨⟨?_, plain.freshFetch, fun insn u₁ run => ?_⟩, fun next run => ih ?_⟩
    · change u.pc.getLsbD 0 = false
      rw [← BitVec.testBit_toNat, Nat.testBit_zero, decide_eq_false_iff_not]
      omega
    · cases plain.fetch.symm.trans run
      have again : FenceRom.fetched (FenceRom.fetched u) = FenceRom.fetched u := by
        refine congrArg (fun seen => { u with seen := seen }) ?_
        funext tag diff
        exact propext ⟨fun seen => seen.elim id .inr, .inl⟩
      exact ⟨plain.fetched.freshFetch, plain.fetched.fetch.trans (congrArg _ again)⟩
    · have stepped : u.step Units.scalar = .ok none
          { FenceRom.fetched u with pc := u.pc + 4, insnCount := u.insnCount + 1 } :=
        (bind_ok _ plain.fetch).trans rfl
      change advance Units.scalar false u = .inr next at run
      rw [advance, stepped] at run
      cases run
      exact ⟨plain.user, by bv_omega, plain.fetched.seen⟩

end Plain

theorem boot_plain : Plain boot.uncached := by
  refine ⟨rfl, rfl, fun tag diff seen => .inl ?_⟩
  rcases seen with ⟨i, same, -⟩ | ⟨same, -⟩ <;> exact same.symm

theorem boot_agrees :
    (boot.runIntegratedScalar Units.scalar 2000).1 = (boot.run Units.scalar 2000).1 ∧
      System.Agree (boot.runIntegratedScalar Units.scalar 2000).2 (boot.run Units.scalar 2000).2 :=
  System.runIntegratedScalar_agrees_run directContract Units.scalar 2000 boot (fun _ => Or.inl rfl)
    (Plain.disciplined boot_plain 2000)

end FenceRom

/-- A receive register: a halfword read takes the next halfword of the queue. -/
structure Fifo where
  queue : List (BitVec 16)

namespace Fifo

instance : Bus Fifo where
  read _ _ := fun bus => .ok ((bus.queue.headD 0).setWidth _) { queue := bus.queue.tail }
  write _ addr _ := throw (.storeAccessFault addr)
  jitFastOff _ _ _ _ := none
  irqLines bus := (0, bus)
  peek _ _ _ := 0
  poke _ _ _ bus := bus

/-- A FENCE, then two halfwords that are a `c.nop` each. -/
def boot : System Fifo :=
  { cpu := Cpu.new, bus := { queue := [0x000f#16, 0x0000#16, 0x0001#16, 0x0001#16] } }

/-- Without an offset and without a page table, the integrated driver still runs another instruction
than `run`: the FENCE it hands back is gone when `step` fetches it. -/
theorem drivers_differ : Bus.DirectContract Fifo ∧ boot.cpu.hart.sys = none ∧
      (boot.run Units.scalar 1).2.cpu.pc = 4#64 ∧
      (boot.runIntegratedScalar Units.scalar 1).2.cpu.pc = 2#64 := by
  refine ⟨?_, rfl, rfl, rfl⟩
  intro bus va pa off store handed
  cases handed

end Fifo

end Rv64Js.Core
