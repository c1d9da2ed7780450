import Rv64Js.Virtio.Totality

/-! # The used ring of a queue

Where the used ring lies in RAM, and what publishing does to it: the entry at the old index names
the head, the index goes up by one, and no byte outside the ring changes. -/

set_option autoImplicit false

namespace Rv64Js.Board.Ram

theorem bytes_overwrite_self (ram : Ram) (off : Nat) (bytes : List (BitVec 8)) :
    (ram.overwrite off bytes).bytes off bytes.length = bytes := by
  refine List.ext_getElem (by simp [Ram.bytes]) fun i _ bound => ?_
  simp [Ram.bytes, Ram.overwrite, bound]

theorem bytes_overwrite_apart (ram : Ram) {off off' n : Nat} {bytes : List (BitVec 8)}
    (apart : off + n ≤ off' ∨ off' + bytes.length ≤ off) :
    (ram.overwrite off' bytes).bytes off n = ram.bytes off n := by
  unfold Ram.bytes
  refine List.map_congr_left fun i member => ?_
  rw [List.mem_range] at member
  rw [Ram.overwrite, if_neg (by omega)]

end Rv64Js.Board.Ram

namespace Rv64Js.Virtio

open Rv64Js.Core (Word)
open Rv64Js.Board (Ram)

theorem leBytes_succ (n : Nat) {w : Nat} (v : BitVec w) :
    leBytes (n + 1) v = v.setWidth 8 :: leBytes n (v >>> 8) := by
  simp only [leBytes, List.range_succ_eq_map, List.map_cons, List.map_map, Nat.mul_zero,
    BitVec.ushiftRight_zero, List.cons.injEq, true_and]
  refine List.map_congr_left fun i _ => ?_
  rw [Function.comp_apply, ← BitVec.shiftRight_add, Nat.mul_succ, Nat.add_comm]

theorem leValue_leBytes (n : Nat) :
    ∀ {w : Nat} (v : BitVec w), leValue (leBytes n v) = v.toNat % 256 ^ n := by
  induction n with
  | zero => exact fun v => (Nat.mod_one _).symm
  | succ n ih =>
    intro w v
    have digits := Nat.mod_mul (x := v.toNat) (a := 2 ^ 8) (b := 256 ^ n)
    rw [leBytes_succ, leValue, ih, BitVec.toNat_setWidth, BitVec.toNat_ushiftRight,
      Nat.shiftRight_eq_div_pow]
    exact digits.symm.trans (congrArg _ (Nat.pow_succ' (n := n)).symm)

theorem read_overwrite {w n : Nat} (all : 256 ^ n = 2 ^ w) (ram : Ram) (off : Nat) (v : BitVec w) :
    BitVec.ofNat w (leValue ((ram.overwrite off (leBytes n v)).bytes off n)) = v := by
  have read := ram.bytes_overwrite_self off (leBytes n v)
  rw [leBytes_length] at read
  rw [read, leValue_leBytes, all, Nat.mod_eq_of_lt v.isLt, BitVec.ofNat_toNat, BitVec.setWidth_eq]

section Placement

variable (window : Window)

def usedSize (q : Queue) : Nat := 4 + 8 * q.num.toNat

/-- Two ranges have no byte in common. -/
def Apart (off n off' n' : Nat) : Prop := n = 0 ∨ off + n ≤ off' ∨ off' + n' ≤ off

instance (off n off' n' : Nat) : Decidable (Apart off n off' n') :=
  inferInstanceAs (Decidable (n = 0 ∨ off + n ≤ off' ∨ off' + n' ≤ off))

/-- The queue has a size, and its used ring lies in RAM. -/
structure Queue.Placed (q : Queue) : Prop where
  sized : q.num ≠ 0
  used : (q.used - window.base).toNat + usedSize q ≤ window.len

instance (q : Queue) : Decidable (q.Placed window) :=
  decidable_of_iff (q.num ≠ 0 ∧ (q.used - window.base).toNat + usedSize q ≤ window.len)
    ⟨fun ⟨sized, used⟩ => ⟨sized, used⟩, fun ⟨sized, used⟩ => ⟨sized, used⟩⟩

def usedIndex (q : Queue) (ram : Ram) : BitVec 16 := half window ram (q.used + 2)

def usedEntry (q : Queue) (i : BitVec 16) (ram : Ram) : BitVec 32 :=
  BitVec.ofNat 32 (leValue (ram.bytes (offset window (q.used + 4 + availSlot q i * 8)) 4))

def UsedByte (q : Queue) (a : Nat) :
    Prop := offset window q.used ≤ a ∧ a < offset window q.used + usedSize q

/-- From `ram` to `ram'` a chain has been published. -/
structure Published (q : Queue) (head : BitVec 16) (ram ram' : Ram) : Prop where
  within : Within (UsedByte window q) ram ram'
  index : usedIndex window q ram' = usedIndex window q ram + 1
  entry : usedEntry window q (usedIndex window q ram) ram' = head.setWidth 32

variable {window}

theorem Apart.not_used {off n a : Nat} {q : Queue}
    (apart : Apart off n (offset window q.used) (usedSize q)) (low : off ≤ a)
    (high : a < off + n) : ¬ UsedByte window q a := by
  unfold Apart at apart
  unfold UsedByte
  omega

theorem offset_of_lt {addr : Word} (inside : (addr - window.base).toNat < window.len) :
    offset window addr = (addr - window.base).toNat :=
  Nat.mod_eq_of_lt (Nat.lt_of_lt_of_le inside window.fits)

theorem offset_add {addr : Word} {n k : Nat} {step : Word}
    (inside : (addr - window.base).toNat + n ≤ window.len) (step_eq : step.toNat = k)
    (short : k < n) : offset window (addr + step) = offset window addr + k := by
  have fits : window.len ≤ 2 ^ 64 :=
    window.fits.trans (Nat.pow_le_pow_right Nat.two_pos window.bits.2)
  have sum : (addr + step - window.base).toNat = (addr - window.base).toNat + k := by
    have split : addr + step - window.base = (addr - window.base) + step := by
      rw [BitVec.sub_eq_add_neg, BitVec.sub_eq_add_neg, BitVec.add_assoc, BitVec.add_assoc,
        BitVec.add_comm step]
    rw [split, BitVec.toNat_add, step_eq]
    exact Nat.mod_eq_of_lt (by omega)
  rw [offset_of_lt (by omega), offset_of_lt (by omega), sum]

theorem availSlot_lt {q : Queue} (sized : q.num ≠ 0) (i : BitVec 16) :
    (availSlot q i).toNat < q.num.toNat :=
  slot_lt sized i

theorem toNat_slot {slot : Word} (small : slot.toNat < 2 ^ 32) {a b : Nat} (first : a < 64)
    (second : b < 16) :
    (BitVec.ofNat 64 a + slot * BitVec.ofNat 64 b).toNat = a + b * slot.toNat := by
  have bound : slot.toNat * b ≤ slot.toNat * 16 := Nat.mul_le_mul_left _ (by omega)
  rw [BitVec.toNat_add, BitVec.toNat_mul, BitVec.toNat_ofNat, BitVec.toNat_ofNat,
    Nat.mod_eq_of_lt (show a < 2 ^ 64 by omega), Nat.mod_eq_of_lt (show b < 2 ^ 64 by omega),
    Nat.mod_eq_of_lt (show slot.toNat * b < 2 ^ 64 by omega), Nat.mod_eq_of_lt (by omega),
    Nat.mul_comm b]

namespace Queue.Placed

variable {q : Queue}

section

variable (placed : q.Placed window)
include placed

theorem usedIndex_offset : offset window (q.used + 2) = offset window q.used + 2 :=
  offset_add placed.used rfl (by unfold usedSize; omega)

theorem usedSlot_offset (i : BitVec 16) :
    offset window (q.used + 4 + availSlot q i * 8) =
      offset window q.used + (4 + 8 * (availSlot q i).toNat) := by
  have small := availSlot_lt placed.sized i
  rw [BitVec.add_assoc]
  exact offset_add placed.used (toNat_slot (by omega) (a := 4) (b := 8) (by decide) (by decide))
    (by unfold usedSize; omega)

theorem usedLength_offset (i : BitVec 16) :
    offset window (q.used + 4 + availSlot q i * 8 + 4) =
      offset window q.used + (8 + 8 * (availSlot q i).toNat) := by
  have small := availSlot_lt placed.sized i
  have address : q.used + 4 + availSlot q i * 8 + 4 = q.used + (8 + availSlot q i * 8) := by
    bv_omega
  rw [address]
  exact offset_add placed.used (toNat_slot (by omega) (a := 8) (b := 8) (by decide) (by decide))
    (by unfold usedSize; omega)

theorem used_le : offset window q.used + usedSize q ≤ window.len := by
  have inside := placed.used
  rw [offset_of_lt]
  · exact inside
  · unfold usedSize at inside
    omega

theorem usedIndex_within {W : Nat → Prop} {ram ram' : Ram} (within : Within W ram ram')
    (outside : ∀ a, UsedByte window q a → ¬ W a) :
    usedIndex window q ram' = usedIndex window q ram := by
  rw [usedIndex, usedIndex, half, half, within.bytes]
  intro a low high
  rw [placed.usedIndex_offset] at low high
  refine outside a ⟨by omega, ?_⟩
  unfold usedSize
  omega

theorem publishUsed (head : BitVec 16) (written : BitVec 32) (ram : Ram) :
    ∃ ram', Virtio.publishUsed window q head written ram = .ok () ram' ∧
    Published window q head ram ram' := by
  have inside := placed.used_le
  have small := availSlot_lt placed.sized (usedIndex window q ram)
  have slotAt := placed.usedSlot_offset (usedIndex window q ram)
  have lengthAt := placed.usedLength_offset (usedIndex window q ram)
  have indexAt := placed.usedIndex_offset
  unfold usedSize at inside
  have divided : remainder (usedIndex window q ram) q.num ram =
      .ok (availSlot q (usedIndex window q ram)) ram := by
    rw [remainder, if_neg placed.sized]
    rfl
  have run : Virtio.publishUsed window q head written ram = _ :=
    (Fallible.bind_ok _ (read16_ok (by omega))).trans <| (Fallible.bind_ok _ divided).trans <|
      (Fallible.bind_ok _ (write32_ok (by omega) _)).trans <|
      (Fallible.bind_ok _ (write32_ok (by omega) _)).trans (write16_ok (by omega) _)
  refine ⟨_, run, ⟨?_, ?_, ?_⟩⟩
  · refine .trans _ _ _ (.trans _ _ _ (.overwrite _ ?_) (.overwrite _ ?_)) (.overwrite _ ?_)
    all_goals
      intro a low high
      rw [leBytes_length] at high
      unfold UsedByte usedSize
      omega
  · exact read_overwrite (by decide) _ _ _
  · -- the length and the index are written beside the entry
    rw [usedEntry, Ram.bytes_overwrite_apart _ (by rw [leBytes_length]; omega),
      Ram.bytes_overwrite_apart _ (by rw [leBytes_length]; omega)]
    exact read_overwrite (by decide) _ _ _

end

end Queue.Placed

end Placement

end Rv64Js.Virtio
