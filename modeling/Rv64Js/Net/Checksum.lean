import Rv64Js.Net.Stack

/-! # Checksums of emitted segments

Folding keeps a sum modulo 65535 and its being zero. With the complement of the folded sum in a
field that was zero the sum becomes a positive multiple of 65535, and folds to all ones. -/

set_option autoImplicit false

namespace Rv64Js.Net

theorem fold_mod (sum : Nat) : fold sum % 65535 = sum % 65535 := by
  induction sum using fold.induct with
  | case1 sum small => rw [fold, if_pos small]
  | case2 sum large ih =>
    rw [fold, if_neg large, ih]
    omega

theorem fold_lt (sum : Nat) : fold sum < 65536 := by
  induction sum using fold.induct with
  | case1 sum small => rwa [fold, if_pos small]
  | case2 sum large ih => rwa [fold, if_neg large]

theorem fold_pos {sum : Nat} (pos : 0 < sum) : 0 < fold sum := by
  induction sum using fold.induct with
  | case1 sum small => rwa [fold, if_pos small]
  | case2 sum large ih =>
    rw [fold, if_neg large]
    exact ih (by omega)

/-- A sum and the complement of what it folds to. -/
theorem fold_add_complement {sum : Nat} (pos : 0 < sum) :
    fold (sum + (~~~BitVec.ofNat 16 (fold sum)).toNat) = 0xffff := by
  have small := fold_lt sum
  have same := fold_mod sum
  have complement : (~~~BitVec.ofNat 16 (fold sum)).toNat = 65535 - fold sum := by
    rw [BitVec.toNat_not, BitVec.toNat_ofNat, Nat.mod_eq_of_lt small]
  rw [complement]
  have folded := fold_mod (sum + (65535 - fold sum))
  have nonzero : 0 < fold (sum + (65535 - fold sum)) := fold_pos (by omega)
  have bound := fold_lt (sum + (65535 - fold sum))
  omega

theorem sum16_append {a : List Byte} (even : a.length % 2 = 0) (b : List Byte) :
    sum16 (a ++ b) = sum16 a + sum16 b := by
  induction a using sum16.induct with
  | case1 => simp [sum16]
  | case2 x => simp at even
  | case3 x y rest ih =>
    have rest_even : rest.length % 2 = 0 := by simpa [Nat.add_assoc] using even
    simp only [List.cons_append, sum16, ih rest_even]
    omega

theorem sum16_bytes16 (v : BitVec 16) : sum16 (bytes16 v) = v.toNat := by
  simp only [bytes16, sum16, BitVec.extractLsb'_toNat]
  have := v.isLt
  simp only [Nat.shiftRight_eq_div_pow]
  omega

/-- A field at an even position adds its value to the sum. -/
theorem sum16_field {a : List Byte} (even : a.length % 2 = 0) (v : BitVec 16) (b : List Byte) :
    sum16 (a ++ bytes16 v ++ b) = sum16 (a ++ bytes16 0 ++ b) + v.toNat := by
  have field (v : BitVec 16) : sum16 (a ++ bytes16 v ++ b) = sum16 a + v.toNat + sum16 b := by
    rw [sum16_append (by simpa [bytes16] using even), sum16_append even, sum16_bytes16]
  rw [field, field]
  simp only [BitVec.ofNat_eq_ofNat, BitVec.toNat_ofNat]
  omega

theorem sum16_le (data : List Byte) : sum16 data ≤ 65535 * data.length := by
  induction data using sum16.induct with
  | case1 => simp [sum16]
  | case2 a =>
    have := a.isLt
    simp only [sum16, List.length_singleton]
    omega
  | case3 a b rest ih =>
    have := a.isLt
    have := b.isLt
    simp only [sum16, List.length_cons]
    omega

/-! ## The 32-bit accumulator -/

/-- One round of the loop of `fold`. -/
def carry (sum : Nat) : Nat := sum % 65536 + sum / 65536

/-- No value the accumulator takes over `data`, from `start` on, or in the loop of `fold` needs
more than 32 bits. -/
def NoOverflow (start : Nat) (data : List Byte) : Prop :=
  (∀ part, part <+: data → start + sum16 part < 2 ^ 32) ∧
    ∀ n, carry^[n] (start + sum16 data) < 2 ^ 32

theorem noOverflow {start : Nat} {data : List Byte} (small : start + 65535 * data.length < 2 ^ 32) :
    NoOverflow start data := by
  have bounded (part : List Byte) (isPart : part <+: data) : start + sum16 part < 2 ^ 32 := by
    have := sum16_le part
    have := isPart.length_le
    omega
  refine ⟨bounded, fun n => ?_⟩
  induction n with
  | zero => exact bounded data List.prefix_rfl
  | succ n ih =>
    rw [Function.iterate_succ_apply', carry]
    omega

/-! ## Emitted frames -/

def pseudoHeader (src dst : Ip) (len : Nat) : List Byte :=
  bytes32 src ++ bytes32 dst ++ [0, IP_PROTO_TCP] ++ bytes16 (BitVec.ofNat 16 len)

theorem sum16_pseudoHeader (src dst : Ip) {seg : List Byte} (fits : seg.length < 2 ^ 16) :
    sum16 (pseudoHeader src dst seg.length ++ seg) =
      sum16 (bytes32 src) + sum16 (bytes32 dst) + IP_PROTO_TCP.toNat + seg.length + sum16 seg := by
  have length : (BitVec.ofNat 16 seg.length).toNat = seg.length := Nat.mod_eq_of_lt fits
  rw [pseudoHeader, sum16_append (by simp [bytes16, bytes32]),
    sum16_append (by simp [bytes32, bytes16]),
    sum16_append (by simp [bytes32, bytes16]), sum16_append (by simp [bytes32, bytes16]),
    sum16_bytes16, length]
  rfl

theorem header_verifies (total : Nat) (src dst : Ip) :
    fold
      (sum16
        (ipHeader total IP_PROTO_TCP src dst (checksum (ipHeader total IP_PROTO_TCP src dst 0)))) =
          0xffff := by
  let front := [0x45, 0] ++ bytes16 (.ofNat 16 total) ++ [0, 0, 0x40, 0, 64, IP_PROTO_TCP]
  have split (v : BitVec 16) :
      ipHeader total IP_PROTO_TCP src dst v = front ++ bytes16 v ++ (bytes32 src ++ bytes32 dst) :=
    List.append_assoc ..
  have pos : 0 < sum16 (ipHeader total IP_PROTO_TCP src dst 0) := by
    simp only [ipHeader, List.cons_append, sum16]
    exact Nat.add_pos_left (by decide) _
  rw [checksum, split, sum16_field (by simp [front, bytes16]), ← split]
  exact fold_add_complement pos

/-- A TCP segment with its checksum left out. -/
def unsummed (segment : List Byte) : List Byte := segment.take 16 ++ [0, 0] ++ segment.drop 18

/-- The header and the segment of a frame verify, and the accumulators of the sums they were made
from never overflow. -/
structure Verifies (src dst : Ip) (frame : List Byte) : Prop where
  header : fold (sum16 (sub frame 14 34)) = 0xffff
  segment : fold (sum16 (pseudoHeader src dst (frame.drop 34).length ++ frame.drop 34)) = 0xffff
  headerSum : NoOverflow 0 (ipHeader (20 + (frame.drop 34).length) IP_PROTO_TCP src dst 0)
  segmentSum : NoOverflow
    (sum16 (bytes32 src) + sum16 (bytes32 dst) + IP_PROTO_TCP.toNat + (frame.drop 34).length)
    (unsummed (frame.drop 34))

/-- The fields before the checksum are `front`. -/
theorem frame_verifies (cfg : NetConfig) (mac : Mac) (src dst : Ip) {front : List Byte}
    (back : List Byte)
    (at' : front.length = 16) (fits : 20 + (front ++ bytes16 0 ++ back).length < 2 ^ 16) :
    Verifies src dst (buildIpFrom cfg mac IP_PROTO_TCP src dst
      (front ++ bytes16 (tcpChecksum src dst (front ++ bytes16 0 ++ back)) ++ back)) := by
  have length (v : BitVec 16) :
      (front ++ bytes16 v ++ back).length = (front ++ bytes16 0 ++ back).length := by
    simp [bytes16]
  have blank (v : BitVec 16) :
      unsummed (front ++ bytes16 v ++ back) = front ++ bytes16 0 ++ back := by
    rw [unsummed, List.drop_left' (by simp [at', bytes16]), List.append_assoc front,
      List.take_left' at']
    rfl
  have isSegment (seg : List Byte) :
      (buildIpFrom cfg mac IP_PROTO_TCP src dst seg).drop 34 = seg := rfl
  refine ⟨header_verifies .., ?_, ?_, ?_⟩ <;> rw [isSegment, length]
  · rw [← length, sum16_pseudoHeader src dst (by rw [length]; omega), length,
      sum16_field (by simp [at']), ← Nat.add_assoc]
    exact fold_add_complement
      (Nat.add_pos_left (Nat.add_pos_left (Nat.add_pos_right _ (by decide)) _) _)
  · exact noOverflow (by simp [ipHeader, bytes16, bytes32])
  · have fromSrc := sum16_le (bytes32 src)
    have fromDst := sum16_le (bytes32 dst)
    have four (v : BitVec 32) : (bytes32 v).length = 4 := rfl
    have proto : IP_PROTO_TCP.toNat = 6 := rfl
    rw [four] at fromSrc fromDst
    rw [blank]
    exact noOverflow (by omega)

end Rv64Js.Net
