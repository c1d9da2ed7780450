import Mathlib.Data.Nat.Bitwise
import Rv64Js.Softfp.RoundPack

/-! # Addition, subtraction and multiplication -/

set_option autoImplicit false

namespace Rv64Js.Softfp

open FloatFormat

attribute [local instance] atLeastTwo_two
namespace Layout

variable (L : Layout)

def signMask : ℕ := 1 <<< (L.size - 1)

def absOf (a : BitVec L.size) : ℕ := a.toNat &&& (2 ^ L.size - 1 - L.signMask)

def flipSign (a : BitVec L.size) : BitVec L.size := a ^^^ BitVec.ofNat L.size L.signMask

def wrapSub (x y : ℕ) : ℕ := (x + (2 ^ L.size - y)) % 2 ^ L.size

def addAligned (a b : BitVec L.size) (rm : BitVec 3) : BitVec L.size × BitVec 32 :=
  let aMant := L.shl (L.mantOf a) 3
  let bMant := L.shl (L.mantOf b) 3
  let aExp := if L.expOf a = 0 then 1 else L.expOf a
  let aMant := if L.expOf a = 0 then aMant else aMant ||| 1 <<< (L.mantSize + 3)
  let bExp := if L.expOf b = 0 then 1 else L.expOf b
  let bMant := if L.expOf b = 0 then bMant else bMant ||| 1 <<< (L.mantSize + 3)
  let bMant := rshiftRnd L.size bMant (aExp - bExp)
  if L.signOf a = L.signOf b then
    L.normalize (L.signOf a) (aExp + (L.rndSize - 3)) ((aMant + bMant) % 2 ^ L.size) rm
  else
    let mant := L.wrapSub aMant bMant
    let sign := if mant = 0 then decide (rm = RM_RDN) else L.signOf a
    L.normalize sign (aExp + (L.rndSize - 3)) mant rm

def addOrdered (a b : BitVec L.size) (rm : BitVec 3) : BitVec L.size × BitVec 32 :=
  let aMant := L.shl (L.mantOf a) 3
  if L.expOf a = L.expMask then
    if aMant ≠ 0 then
      (L.qnan, if aMant &&& L.qnanMask <<< 3 = 0 ∨ L.isSignan b then FFLAG_INVALID_OP else 0#32)
    else if L.expOf b = L.expMask ∧ L.signOf a ≠ L.signOf b then (L.qnan, FFLAG_INVALID_OP)
    else (a, 0#32)
  else L.addAligned a b rm

def add (a b : BitVec L.size) (rm : BitVec 3) : BitVec L.size × BitVec 32 :=
  if L.absOf a < L.absOf b then L.addOrdered b a rm else L.addOrdered a b rm

def sub (a b : BitVec L.size) (rm : BitVec 3) : BitVec L.size × BitVec 32 :=
  L.add a (L.flipSign b) rm

def mulU (x y : ℕ) : ℕ × ℕ := ((x * y) >>> L.size % 2 ^ L.size, x * y % 2 ^ L.size)

/-- Exponent and mantissa of a finite number other than zero, with the leading one at the
hidden bit also for a subnormal. -/
def hidden (a : BitVec L.size) : ℤ × ℕ :=
  if L.expOf a = 0 then L.normalizeSubnormal (L.mantOf a)
  else (L.expOf a, L.mantOf a ||| 1 <<< L.mantSize)

def isZero (a : BitVec L.size) : Bool := L.expOf a = 0 ∧ L.mantOf a = 0

def mulFinite (a b : BitVec L.size) (rm : BitVec 3) : BitVec L.size × BitVec 32 :=
  let (aExp, aMant) := L.hidden a
  let (bExp, bMant) := L.hidden b
  let rExp := aExp + bExp - (1 <<< (L.expSize - 1) : ℕ) + 2
  let (rMant, rLow) := L.mulU (L.shl aMant L.rndSize) (L.shl bMant (L.rndSize + 1))
  L.normalize (L.signOf a ^^ L.signOf b) rExp (rMant ||| (decide (rLow ≠ 0)).toNat) rm

def mul (a b : BitVec L.size) (rm : BitVec 3) : BitVec L.size × BitVec 32 :=
  let rSign := L.signOf a ^^ L.signOf b
  if L.expOf a = L.expMask ∨ L.expOf b = L.expMask then
    if L.isNan a ∨ L.isNan b then
      (L.qnan, if L.isSignan a ∨ L.isSignan b then FFLAG_INVALID_OP else 0#32)
    else if L.expOf a = L.expMask ∧ L.isZero b ∨ L.expOf b = L.expMask ∧ L.isZero a then
      (L.qnan, FFLAG_INVALID_OP)
    else (L.pack rSign L.expMask 0, 0#32)
  else if L.isZero a then (L.pack rSign 0 0, 0#32)
  else if L.isZero b then (L.pack rSign 0 0, 0#32)
  else L.mulFinite a b rm

variable (a : BitVec L.size)

theorem absOf_eq : L.absOf a = L.expOf a * 2 ^ L.mantSize + L.mantOf a := by
  have value := L.toNat_eq_fields a
  have lower := low_lt_top (L.expOf_le a) (L.mantOf_lt a)
  have mask : 2 ^ L.size - 1 - L.signMask = 2 ^ (L.size - 1) - 1 := by
    rw [signMask, Nat.one_shiftLeft, two_pow_size]
    omega
  rw [absOf, mask, Nat.and_two_pow_sub_one_eq_mod, value, Nat.mul_add_mod', Nat.mod_eq_of_lt lower]

theorem absOf_le {a b : BitVec L.size} (le : L.absOf b ≤ L.absOf a) :
    L.expOf b < L.expOf a ∨ L.expOf b = L.expOf a ∧ L.mantOf b ≤ L.mantOf a := by
  have := L.mantOf_lt a
  have := L.mantOf_lt b
  rw [absOf_eq, absOf_eq] at le
  rcases lt_trichotomy (L.expOf b) (L.expOf a) with lt | eq | gt
  · exact .inl lt
  · rw [eq] at le
    exact .inr ⟨eq, by omega⟩
  · have : (L.expOf a + 1) * 2 ^ L.mantSize ≤ L.expOf b * 2 ^ L.mantSize :=
      Nat.mul_le_mul_right _ gt
    rw [Nat.add_mul] at this
    omega

theorem fields_flipSign :
    L.signOf (L.flipSign a) = !L.signOf a ∧ L.expOf (L.flipSign a) = L.expOf a ∧
      L.mantOf (L.flipSign a) = L.mantOf a := by
  have value := L.toNat_eq_fields a
  have lower := low_lt_top (L.expOf_le a) (L.mantOf_lt a)
  have pos : 0 < 2 ^ (L.size - 1) := by positivity
  have inWord : 2 ^ (L.size - 1) < 2 ^ L.size := by
    rw [two_pow_size]
    omega
  apply fields_of_toNat _ (L.expOf_le a) (L.mantOf_lt a)
  generalize L.expOf a * 2 ^ L.mantSize + L.mantOf a = low at value lower
  have high : (L.flipSign a).toNat / 2 ^ (L.size - 1) = (!L.signOf a).toNat := by
    rw [flipSign, BitVec.toNat_xor, BitVec.toNat_ofNat, signMask, Nat.one_shiftLeft,
      Nat.mod_eq_of_lt inWord, Nat.xor_div_two_pow, Nat.div_self pos, value,
      Nat.add_comm, Nat.add_mul_div_right _ _ pos, Nat.div_eq_of_lt lower]
    cases L.signOf a <;> rfl
  have rest : (L.flipSign a).toNat % 2 ^ (L.size - 1) = low := by
    rw [flipSign, BitVec.toNat_xor, BitVec.toNat_ofNat, signMask, Nat.one_shiftLeft,
      Nat.mod_eq_of_lt inWord, Nat.xor_mod_two_pow, Nat.mod_self, Nat.xor_zero, value,
      Nat.mul_add_mod', Nat.mod_eq_of_lt lower]
  rw [← Nat.div_add_mod' (L.flipSign a).toNat (2 ^ (L.size - 1)), high, rest]

theorem isSignan_flipSign : L.isSignan (L.flipSign a) = L.isSignan a := by
  obtain ⟨-, exp, mant⟩ := L.fields_flipSign a
  rw [Bool.eq_iff_iff, isSignan_iff, isSignan_iff, exp, mant]

theorem decode_flipSign {K : Type*} [Field K] :
    L.decode K (L.flipSign a) = (L.decode K a).negate := by
  obtain ⟨sign, exp, mant⟩ := L.fields_flipSign a
  simp only [decode, magnitude, significand, exp, mant, sign, isSignan_flipSign]
  split_ifs <;> rfl

theorem wrapSub_eq {x y : ℕ} (le : y ≤ x) (inWord : x < 2 ^ L.size) : L.wrapSub x y = x - y := by
  rw [wrapSub, show x + (2 ^ L.size - y) = 2 ^ L.size + (x - y) by omega, Nat.add_mod_left,
    Nat.mod_eq_of_lt (by omega)]

theorem rmOf_eq_rdn (mode : Rounding) : decide (rmOf mode = RM_RDN) = decide (mode = .down) := by
  cases mode <;> rfl

section Aligned

variable {L} {a b : BitVec L.size} {K : Type*} [Field K] [LinearOrder K] [IsStrictOrderedRing K]
  [FloorSemiring K] (mode : Rounding)

theorem exp_eq_max (a : BitVec L.size) :
    (if L.expOf a = 0 then 1 else L.expOf a) = max 1 (L.expOf a) := by
  split_ifs <;> omega

theorem mant_eq_significand (a : BitVec L.size) : (if L.expOf a = 0 then L.shl (L.mantOf a) 3
      else L.shl (L.mantOf a) 3 ||| 1 <<< (L.mantSize + 3)) = 8 * L.significand a := by
  have := L.mantOf_lt a
  have fits : L.mantOf a * 2 ^ 3 < 2 ^ (L.mantSize + 3) := by
    rw [pow_add]
    omega
  have shl : L.shl (L.mantOf a) 3 = L.mantOf a * 2 ^ 3 := by
    rw [Layout.shl, Nat.shiftLeft_eq, Nat.mod_eq_of_lt]
    apply fits.trans
    have := L.expWide
    exact Nat.pow_lt_pow_right (by decide) (by simp only [size]; omega)
  rw [shl, Nat.or_comm, ← Nat.shiftLeft_add_eq_or_of_lt fits, Nat.shiftLeft_eq, significand,
    pow_add]
  split_ifs <;> omega

/-- The smaller operand in units of the larger one's extended mantissa: the exact value. -/
def alignedTo (K : Type*) [Field K] (a b : BitVec L.size) : K :=
  8 * L.significand b / 2 ^ (max 1 (L.expOf a) - max 1 (L.expOf b))

def alignedMant (a b : BitVec L.size) : ℕ :=
  rshiftRnd L.size (8 * L.significand b) (max 1 (L.expOf a) - max 1 (L.expOf b))

theorem eight_significand_lt (b : BitVec L.size) : 8 * L.significand b < 2 ^ (L.mantSize + 4) := by
  have := significand_lt b
  rw [pow_succ] at this
  rw [pow_add]
  omega

theorem alignedMant_eq_jam (a b : BitVec L.size) : alignedMant a b =
    jam (((8 * L.significand b : ℕ) : K) / (2 ^ (max 1 (L.expOf a) - max 1 (L.expOf b)) : ℕ)) := by
  have := L.expWide
  exact rshiftRnd_eq_jam ((eight_significand_lt b).trans_le
    (Nat.pow_le_pow_right (by decide) (by simp only [size]; omega))) _

omit [LinearOrder K] [IsStrictOrderedRing K] [FloorSemiring K] in
theorem alignedTo_eq (a b : BitVec L.size) : alignedTo K a b =
    ((8 * L.significand b : ℕ) : K) / (2 ^ (max 1 (L.expOf a) - max 1 (L.expOf b)) : ℕ) := by
  unfold alignedTo
  push_cast
  rfl

theorem alignedMant_agree (a b : BitVec L.size) :
    Agree 2 (alignedMant a b : K) (alignedTo K a b) := by
  rw [alignedMant_eq_jam (K := K), alignedTo_eq]
  exact jam_agree (by positivity)

theorem alignedMant_exact (near : max 1 (L.expOf a) - max 1 (L.expOf b) ≤ 3) :
    alignedTo K a b = alignedMant a b := by
  rw [alignedMant_eq_jam (K := K), alignedTo_eq]
  exact (jam_div_multiple (e := 3) ⟨_, rfl⟩ near).symm

theorem alignedMant_lt {k : ℕ} (pos : 1 ≤ k)
    (shift : L.mantSize + 4 ≤ k + (max 1 (L.expOf a) - max 1 (L.expOf b))) :
    alignedMant a b < 2 ^ k := by
  rw [alignedMant_eq_jam (K := ℚ)]
  exact jam_lt (by positivity) pos (div_lt_two_pow shift (eight_significand_lt b))

variable (ordered : L.absOf b ≤ L.absOf a)
include ordered

theorem max_exp_le : max 1 (L.expOf b) ≤ max 1 (L.expOf a) := by
  rcases L.absOf_le ordered with lt | ⟨eq, -⟩ <;> omega

theorem significand_le (same : max 1 (L.expOf b) = max 1 (L.expOf a)) :
    L.significand b ≤ L.significand a := by
  have := L.mantOf_lt b
  unfold significand
  rcases L.absOf_le ordered with lt | ⟨eq, le⟩ <;> split_ifs <;> omega

theorem alignedMant_le : alignedMant a b ≤ 8 * L.significand a := by
  have := max_exp_le ordered
  rcases Nat.eq_or_lt_of_le this with same | lt
  · have : alignedMant a b = 8 * L.significand b := by
      unfold alignedMant
      rw [same, Nat.sub_self]
      rfl
    have := significand_le ordered same
    omega
  · have small := alignedMant_lt (L := L) (a := a) (b := b) (k := L.mantSize + 3) (by omega)
      (by omega)
    have large : 2 ^ L.mantSize ≤ L.significand a := le_significand (by omega)
    rw [pow_add] at small
    omega

theorem alignedTo_scaled :
    alignedTo K a b * 2 ^ L.unit ((max 1 (L.expOf a) : ℕ) + (L.rndSize - 3)) =
      L.magnitude K b := by
  have := L.imantSize_eq
  have le := max_exp_le ordered
  obtain ⟨d, hd⟩ : ∃ d, max 1 (L.expOf a) = max 1 (L.expOf b) + d :=
    ⟨max 1 (L.expOf a) - max 1 (L.expOf b), by omega⟩
  unfold alignedTo magnitude
  rw [hd, Nat.add_sub_cancel_left,
    show L.unit (((max 1 (L.expOf b) + d : ℕ) : ℤ) + (L.rndSize - 3)) =
      ((max 1 (L.expOf b) : ℕ) - L.bias - L.mantSize : ℤ) + (d : ℤ) - 3 by
        unfold unit
        push_cast
        omega,
    zpow_sub₀ two_ne_zero, zpow_add₀ two_ne_zero, zpow_natCast]
  field_simp
  norm_num [mul_comm]

omit ordered in
theorem larger_scaled (a : BitVec L.size) :
    (8 * L.significand a : K) * 2 ^ L.unit ((max 1 (L.expOf a) : ℕ) + (L.rndSize - 3)) =
      L.magnitude K a := by
  have := alignedTo_scaled (K := K) (le_refl (L.absOf a))
  simpa [alignedTo] using this

omit ordered in
/-- Where the shift loses bits the larger operand outweighs what is left of the smaller. -/
theorem carries_add : L.Carries (8 * L.significand a + alignedMant a b)
    ((8 * L.significand a : K) + alignedTo K a b) := by
  by_cases near : max 1 (L.expOf a) - max 1 (L.expOf b) ≤ 3
  · left
    rw [alignedMant_exact near]
    push_cast
    rfl
  · right
    have large : 2 ^ L.mantSize ≤ L.significand a := le_significand (by omega)
    constructor
    · have := (alignedMant_agree (K := K) a b).add_multiple (4 * L.significand a)
      push_cast at this ⊢
      convert this using 2 <;> ring
    · rw [pow_add]
      omega

theorem carries_sub : L.Carries (8 * L.significand a - alignedMant a b)
    ((8 * L.significand a : K) - alignedTo K a b) := by
  have le := alignedMant_le ordered
  by_cases near : max 1 (L.expOf a) - max 1 (L.expOf b) ≤ 3
  · left
    rw [alignedMant_exact near]
    push_cast [le]
    rfl
  · right
    have large : 2 ^ L.mantSize ≤ L.significand a := le_significand (by omega)
    constructor
    · have := (alignedMant_agree (K := K) a b).multiple_sub (4 * L.significand a)
      push_cast [le] at this ⊢
      convert this using 2 <;> ring
    · have small := alignedMant_lt (L := L) (a := a) (b := b) (k := L.mantSize)
        (by have := L.mantWide; omega) (by omega)
      rw [pow_add]
      omega

theorem alignedTo_le : alignedTo K a b ≤ 8 * L.significand a := by
  -- the mantissa computed from it is no larger, and agrees with it on the even numbers
  have le : (alignedMant a b : K) ≤ 8 * L.significand a := by
    exact_mod_cast alignedMant_le ordered
  exact ((alignedMant_agree a b).le_multiple_iff (4 * L.significand a)
    (by push_cast; ring)).mp le

theorem aligned_sum_lt : 8 * L.significand a + alignedMant a b < 2 ^ (L.size - 1) := by
  have := L.expWide
  have := alignedMant_le ordered
  have small := eight_significand_lt a
  calc 8 * L.significand a + alignedMant a b
      < 2 ^ (L.mantSize + 5) := by
        rw [pow_succ] at small ⊢
        rw [pow_succ]
        omega
    _ ≤ 2 ^ (L.size - 1) := Nat.pow_le_pow_right (by decide) (by simp only [size]; omega)

theorem addAligned_returns : L.Returns (L.addAligned a b (rmOf mode))
      (L.format.addFinite mode (.num (L.signOf a) (L.magnitude K a))
        (.num (L.signOf b) (L.magnitude K b))) := by
  have le := alignedMant_le ordered
  have sumLt := aligned_sum_lt ordered
  have whole := L.two_pow_size
  have nonneg : 0 ≤ alignedTo K a b := by
    unfold alignedTo
    positivity
  simp only [addAligned, exp_eq_max, mant_eq_significand]
  change L.Returns (if _ then L.normalize _ _ ((8 * L.significand a + alignedMant a b) % _) _ else
    L.normalize (if L.wrapSub (8 * L.significand a) (alignedMant a b) = 0 then _ else _) _
      (L.wrapSub (8 * L.significand a) (alignedMant a b)) _) _
  rw [L.wrapSub_eq le (by omega), Nat.mod_eq_of_lt (by omega), addFinite]
  rw [← larger_scaled, ← alignedTo_scaled ordered]
  by_cases same : L.signOf a = L.signOf b
  · have sums := normalize_signed mode (L.signOf a)
      ((max 1 (L.expOf a) : ℕ) + (L.rndSize - 3)) (L.signOf a) (by positivity) sumLt
      (carries_add (K := K) (a := a) (b := b))
    rw [ite_self] at sums
    rw [if_pos same, ← same, Datum.signed_add_signed, ← add_mul, zeroSign, if_pos rfl]
    exact sums
  · have sums := normalize_signed mode (L.signOf a)
      ((max 1 (L.expOf a) : ℕ) + (L.rndSize - 3)) (decide (mode = .down))
      (sub_nonneg.mpr (alignedTo_le (K := K) ordered)) (by omega) (carries_sub ordered)
    rw [if_neg same, Datum.signed_add_of_ne same, ← sub_mul, zeroSign, if_neg same, rmOf_eq_rdn]
    exact sums

end Aligned

section Add

variable {L} {K : Type*} [Field K] [LinearOrder K] [IsStrictOrderedRing K] [FloorSemiring K]
  (mode : Rounding)

theorem shl_three (a : BitVec L.size) : L.shl (L.mantOf a) 3 = L.mantOf a * 2 ^ 3 := by
  have := L.mantOf_lt a
  have := L.expWide
  have wide : 2 ^ (L.mantSize + 3) ≤ 2 ^ L.size :=
    Nat.pow_le_pow_right (by decide) (by simp only [size]; omega)
  rw [pow_add] at wide
  rw [shl, Nat.shiftLeft_eq, Nat.mod_eq_of_lt (by omega)]

theorem quiet_clear_iff {a : BitVec L.size} (exp : L.expOf a = L.expMask) (some : L.mantOf a ≠ 0) :
    L.shl (L.mantOf a) 3 &&& L.qnanMask <<< 3 = 0 ↔ L.isSignan a := by
  have lt := L.mantOf_lt a
  have := L.mantWide
  obtain ⟨m, hm⟩ : ∃ m, L.mantSize = m + 1 := ⟨L.mantSize - 1, by omega⟩
  have quotient : L.mantOf a / 2 ^ m < 2 := by
    rw [Nat.div_lt_iff_lt_mul (by positivity), ← pow_succ', ← hm]
    exact lt
  rw [shl_three, isSignan_iff, qnanMask, ← Nat.shiftLeft_eq, ← Nat.shiftLeft_and_distrib,
    Nat.shiftLeft_eq, hm, Nat.add_sub_cancel, Nat.one_shiftLeft, Nat.and_two_pow]
  have bit : (L.mantOf a).testBit m = false ↔ L.mantOf a < 2 ^ m := by
    rw [Nat.testBit_eq_decide_div_mod_eq, decide_eq_false_iff_not, ← Nat.div_eq_zero_iff_lt
      (by positivity)]
    generalize L.mantOf a / 2 ^ m = q at quotient
    omega
  rw [← bit]
  cases (L.mantOf a).testBit m <;> simp [exp, some]

theorem addOrdered_returns {a b : BitVec L.size} (ordered : L.absOf b ≤ L.absOf a) :
    L.Returns (L.addOrdered a b (rmOf mode)) (L.format.add mode (L.decode K a) (L.decode K b)) := by
  have le := L.absOf_le ordered
  have leA := L.expOf_le a
  have someIff : L.shl (L.mantOf a) 3 ≠ 0 ↔ L.mantOf a ≠ 0 := by
    rw [shl_three]
    omega
  simp only [addOrdered, someIff]
  by_cases exp : L.expOf a = L.expMask
  · rw [if_pos exp]
    by_cases some : L.mantOf a ≠ 0
    · have nan : L.isNan a = true := by simp [isNan, exp, some]
      rw [if_pos some, add_of_nan (by simp [isNan_decode, nan])]
      apply returns_nan
      simp only [quiet_clear_iff exp some, isSignaling_decode, Bool.or_eq_true]
    · have zero := not_not.mp some
      rw [if_neg some, decode_inf exp zero]
      by_cases infB : L.expOf b = L.expMask
      · rw [decode_inf infB (by omega), add_of_not_nan rfl rfl, addFinite]
        by_cases same : L.signOf a = L.signOf b
        · rw [if_neg (by simp [same]), if_pos same]
          exact returns_word (decode_inf exp zero) rfl
        · rw [if_pos ⟨infB, same⟩, if_neg same]
          exact returns_invalid
      · rw [if_neg (by simp [infB]), decode_num infB, add_of_not_nan rfl rfl]
        exact returns_word (decode_inf exp zero) rfl
  · rw [if_neg exp, decode_num exp, decode_num (by omega), add_of_not_nan rfl rfl]
    exact addAligned_returns mode ordered

theorem add_returns (a b : BitVec L.size) :
    L.Returns (L.add a b (rmOf mode)) (L.format.add mode (L.decode K a) (L.decode K b)) := by
  unfold add
  split_ifs with lt
  · rw [add_swap]
    exact addOrdered_returns mode lt.le
  · exact addOrdered_returns mode (not_lt.mp lt)

theorem sub_returns (a b : BitVec L.size) :
    L.Returns (L.sub a b (rmOf mode)) (L.format.sub mode (L.decode K a) (L.decode K b)) := by
  rw [sub, FloatFormat.sub, ← decode_flipSign]
  exact add_returns mode a (L.flipSign b)

end Add

section Mul

variable {L} {K : Type*} [Field K] [LinearOrder K] [IsStrictOrderedRing K]

theorem normalizeSubnormal_eq {mant : ℕ} (nonzero : mant ≠ 0) (lt : mant < 2 ^ L.mantSize) :
    L.normalizeSubnormal mant =
      (1 - ((L.mantSize - mant.log2 : ℕ) : ℤ), mant * 2 ^ (L.mantSize - mant.log2)) := by
  have log := (Nat.log2_lt nonzero).mpr lt
  have shift : L.mantSize - (L.size - 1 - leadingZeros L.size mant) = L.mantSize - mant.log2 := by
    rw [leadingZeros, if_neg nonzero]
    simp only [size]
    omega
  simp only [normalizeSubnormal, shift]
  rw [(shl_of_lt (L.mantSize - mant.log2) Nat.lt_log2_self (by simp only [size]; omega)).1]

theorem hidden_spec (a : BitVec L.size) (nonzero : L.isZero a = false) :
    2 ^ L.mantSize ≤ (L.hidden a).2 ∧ (L.hidden a).2 < 2 ^ (L.mantSize + 1) ∧
      L.magnitude K a = (L.hidden a).2 * 2 ^ ((L.hidden a).1 - L.bias - L.mantSize) := by
  have lt := L.mantOf_lt a
  by_cases exp : L.expOf a = 0
  · have some : L.mantOf a ≠ 0 := by simpa [isZero, exp] using nonzero
    have log := (Nat.log2_lt some).mpr lt
    obtain ⟨s, hs⟩ : ∃ s, (L.mantOf a).log2 + s = L.mantSize :=
      ⟨L.mantSize - (L.mantOf a).log2, by omega⟩
    rw [hidden, if_pos exp, normalizeSubnormal_eq some lt,
      show L.mantSize - (L.mantOf a).log2 = s by omega]
    obtain ⟨low, high⟩ := log2_shift some hs
    refine ⟨low, high, ?_⟩
    simp only [magnitude, significand, exp, if_true]
    push_cast
    rw [mul_assoc, ← zpow_natCast, ← zpow_add₀ two_ne_zero]
    congr 2
    omega
  · have sig : L.mantOf a ||| 1 <<< L.mantSize = L.significand a := by
      rw [Nat.or_comm, ← Nat.shiftLeft_add_eq_or_of_lt lt, Nat.one_shiftLeft, significand,
        if_neg exp]
    rw [hidden, if_neg exp]
    simp only [sig]
    refine ⟨le_significand exp, significand_lt a, ?_⟩
    simp only [magnitude]
    congr 3
    omega

variable [FloorSemiring K] (mode : Rounding)

theorem half_exp : (1 <<< (L.expSize - 1) : ℕ) = L.bias + 1 := by
  have wide := L.expWide
  have double := L.two_pow_expSize
  rw [show L.expSize = L.expSize - 1 + 1 by omega, pow_succ] at double
  rw [Nat.one_shiftLeft]
  omega

/-- The product of two mantissas, the second shifted by `j` places more. -/
theorem product_spec {a b : BitVec L.size} {j : ℕ} {e : ℤ} (few : j ≤ 1) (sum : e + j = 3)
    (nonzeroA : L.isZero a = false) (nonzeroB : L.isZero b = false) : ∃ p :
    ℕ, (L.mulU (L.shl (L.hidden a).2 L.rndSize)
        (L.shl (L.hidden b).2 (L.rndSize + j)) = (p / 2 ^ L.size, p % 2 ^ L.size)) ∧
      2 ^ (2 * L.size - 4 + j) ≤ p ∧ p < 2 ^ (2 * L.size - 2 + j) ∧ 2 ^ 2 ∣ p ∧
      (p : K) / (2 ^ L.size : ℕ) * (2 : K) ^ L.unit ((L.hidden a).1 + (L.hidden b).1 -
        (1 <<< (L.expSize - 1) : ℕ) + e) = L.magnitude K a * L.magnitude K b := by
  obtain ⟨lowA, highA, magA⟩ := hidden_spec (K := K) a nonzeroA
  obtain ⟨lowB, highB, magB⟩ := hidden_spec (K := K) b nonzeroB
  obtain ⟨sizeEq, imantEq, rndLarge⟩ := L.sizes
  obtain ⟨shlA, inA⟩ := shl_of_lt (L := L) L.rndSize highA (by omega)
  obtain ⟨shlB, inB⟩ := shl_of_lt (L := L) (L.rndSize + j) highB (by omega)
  rw [shlA, shlB]
  generalize (L.hidden a).2 = x at *
  generalize (L.hidden b).2 = y at *
  refine ⟨x * 2 ^ L.rndSize * (y * 2 ^ (L.rndSize + j)), ?_, ?_, ?_, ?_, ?_⟩
  · have fits := Nat.div_lt_of_lt_mul (Nat.mul_lt_mul'' inA inB)
    rw [mulU, Nat.shiftRight_eq_div_pow, Nat.mod_eq_of_lt fits]
  · calc 2 ^ (2 * L.size - 4 + j) =
      2 ^ L.mantSize * 2 ^ L.rndSize * (2 ^ L.mantSize * 2 ^ (L.rndSize + j)) := by
          rw [← pow_add, ← pow_add, ← pow_add]; congr 1; omega
      _ ≤ x * 2 ^ L.rndSize * (y * 2 ^ (L.rndSize + j)) := by gcongr
  · calc x * 2 ^ L.rndSize * (y * 2 ^ (L.rndSize + j))
        < 2 ^ (L.mantSize + 1) * 2 ^ L.rndSize * (2 ^ (L.mantSize + 1) * 2 ^ (L.rndSize + j)) := by
          gcongr
      _ = 2 ^ (2 * L.size - 2 + j) := by rw [← pow_add, ← pow_add, ← pow_add]; congr 1; omega
  · exact ((pow_dvd_pow 2 (by omega)).mul_left x).mul_right _
  · have exps : L.unit ((L.hidden a).1 + (L.hidden b).1 - (1 <<< (L.expSize - 1) : ℕ) + e) =
        ((L.hidden a).1 - L.bias - L.mantSize) + ((L.hidden b).1 - L.bias - L.mantSize) +
          L.size - (L.rndSize : ℕ) - (L.rndSize + j : ℕ) := by
      rw [half_exp, unit]
      push_cast
      omega
    generalize (L.hidden a).1 - L.bias - L.mantSize = p at exps magA
    generalize (L.hidden b).1 - L.bias - L.mantSize = q at exps magB
    rw [magA, magB, exps, zpow_sub₀ two_ne_zero, zpow_sub₀ two_ne_zero, zpow_add₀ two_ne_zero,
      zpow_add₀ two_ne_zero, zpow_natCast, zpow_natCast, zpow_natCast]
    push_cast
    field_simp

theorem mulFinite_returns {a b : BitVec L.size} (nonzeroA : L.isZero a = false)
    (nonzeroB : L.isZero b = false) :
    L.Returns (L.mulFinite a b (rmOf mode)) (L.format.round mode (L.signOf a ^^ L.signOf b)
      (L.magnitude K a * L.magnitude K b)) := by
  obtain ⟨p, product, low, high, -, value⟩ := product_spec (K := K) (j := 1) (e := 2) (by decide)
    (by decide) nonzeroA nonzeroB
  obtain ⟨sizeEq, imantEq, rndLarge⟩ := L.sizes
  have word : p / 2 ^ L.size ||| (decide (p % 2 ^ L.size ≠ 0)).toNat =
      jam ((p : K) / (2 ^ L.size : ℕ)) := by
    rw [jam_div _ _ (by positivity)]
    by_cases low : p % 2 ^ L.size = 0 <;> simp [low]
  simp only [mulFinite, product, word, ← value]
  exact normalize_jam mode _ _ (two_pow_le_div (by omega) low) (div_lt_two_pow (by omega) high)

theorem magnitude_eq_zero_iff (a : BitVec L.size) : L.magnitude K a = 0 ↔ L.isZero a := by
  have unit : (2 : K) ^ ((max 1 (L.expOf a) : ℕ) - L.bias - L.mantSize : ℤ) ≠ 0 := by positivity
  have pos : 0 < 2 ^ L.mantSize := by positivity
  rw [magnitude, mul_eq_zero_iff_right unit, Nat.cast_eq_zero, significand, isZero,
    decide_eq_true_eq]
  split_ifs with exp
  · simp [exp]
  · simp only [exp, false_and, iff_false]
    omega

theorem inf_or_num {a : BitVec L.size} (notNan : L.isNan a = false) :
    (L.expOf a = L.expMask ∧ L.mantOf a = 0) ∨ L.expOf a ≠ L.expMask := by
  simp only [isNan, decide_eq_false_iff_not] at notNan
  omega

theorem isZero_of_inf {a : BitVec L.size} (inf : L.expOf a = L.expMask) : L.isZero a = false := by
  have mask := L.expMask_eq_bias
  simp only [isZero, decide_eq_false_iff_not]
  omega

theorem mul_returns (a b : BitVec L.size) :
    L.Returns (L.mul a b (rmOf mode)) (L.format.mul mode (L.decode K a) (L.decode K b)) := by
  unfold mul
  by_cases nan : L.isNan a ∨ L.isNan b
  · have special : L.expOf a = L.expMask ∨ L.expOf b = L.expMask := by
      simp only [isNan, decide_eq_true_eq] at nan
      omega
    rw [if_pos special, if_pos nan, mul_of_nan (by simpa [isNan_decode] using nan)]
    apply returns_nan
    simp only [isSignaling_decode, Bool.or_eq_true]
  obtain ⟨notA, notB⟩ : L.isNan a = false ∧ L.isNan b = false := by simpa using nan
  rw [mul_of_not_nan (by rw [isNan_decode, notA]) (by rw [isNan_decode, notB])]
  rcases inf_or_num notA with ⟨expA, mantA⟩ | numA <;> rcases inf_or_num notB with
    ⟨expB, mantB⟩ | numB
  · rw [decode_inf expA mantA, decode_inf expB mantB, if_pos (.inl expA), if_neg nan,
      if_neg (by simp [isZero_of_inf expA, isZero_of_inf expB])]
    exact returns_inf _
  · rw [decode_inf expA mantA, decode_num numB, if_pos (.inl expA), if_neg nan]
    simp only [Datum.noProduct, Datum.times, magnitude_eq_zero_iff, expA, numB, true_and,
      false_and, or_false, Bool.decide_eq_true]
    cases L.isZero b
    · exact returns_inf _
    · exact returns_invalid
  · rw [decode_num numA, decode_inf expB mantB, if_pos (.inr expB), if_neg nan]
    simp only [Datum.noProduct, Datum.times, magnitude_eq_zero_iff, expB, numA, true_and,
      false_and, false_or, Bool.decide_eq_true]
    cases L.isZero a
    · exact returns_inf _
    · exact returns_invalid
  · rw [decode_num numA, decode_num numB, if_neg (by simp [numA, numB])]
    simp only [Datum.noProduct, Datum.times, Bool.false_eq_true, if_false, roundDatum]
    by_cases zeroA : L.isZero a = true
    · rw [if_pos zeroA, (magnitude_eq_zero_iff a).mpr zeroA, zero_mul, FloatFormat.round_zero]
      exact returns_zero _
    by_cases zeroB : L.isZero b = true
    · rw [if_neg zeroA, if_pos zeroB, (magnitude_eq_zero_iff b).mpr zeroB, mul_zero,
        FloatFormat.round_zero]
      exact returns_zero _
    rw [if_neg zeroA, if_neg zeroB]
    exact mulFinite_returns mode (by simpa using zeroA) (by simpa using zeroB)

end Mul

/-- Sum, difference and product of any two words, `sf32` and `sf64` among the layouts: the exact
rational result rounded once, with exactly its flags. -/
theorem add_sub_mul_rounded_once (mode : Rounding) (a b : BitVec L.size) :
    L.Returns (L.add a b (rmOf mode)) (L.format.add mode (L.decode ℚ a) (L.decode ℚ b)) ∧
      L.Returns (L.sub a b (rmOf mode)) (L.format.sub mode (L.decode ℚ a) (L.decode ℚ b)) ∧
      L.Returns (L.mul a b (rmOf mode)) (L.format.mul mode (L.decode ℚ a) (L.decode ℚ b)) :=
  ⟨add_returns mode a b, sub_returns mode a b, mul_returns mode a b⟩

end Layout
end Rv64Js.Softfp
