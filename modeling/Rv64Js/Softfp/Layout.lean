import Rv64Js.Lib.FloatArith
import Rv64Js.Core.Alu

/-! # Words of a soft-float format

`softfp.rs` instantiates one macro for `f32` and `f64`; a `Layout` is its argument list. Words are
bit vectors, mantissas naturals kept below `2 ^ F_SIZE`, flags the bits a call adds to `fflags`. -/

set_option autoImplicit false

namespace Rv64Js.Softfp

open FloatFormat

attribute [local instance] atLeastTwo_two

def FFLAG_INEXACT : BitVec 32 := 1#32
def FFLAG_UNDERFLOW : BitVec 32 := 2#32
def FFLAG_OVERFLOW : BitVec 32 := 4#32
def FFLAG_DIVIDE_ZERO : BitVec 32 := 8#32
def FFLAG_INVALID_OP : BitVec 32 := 16#32

def RM_RNE : BitVec 3 := 0#3
def RM_RTZ : BitVec 3 := 1#3
def RM_RDN : BitVec 3 := 2#3
def RM_RUP : BitVec 3 := 3#3
def RM_RMM : BitVec 3 := 4#3

/-- The `frm` encoding of a rounding direction. -/
def rmOf : Rounding → BitVec 3
  | .nearestEven => RM_RNE
  | .towardZero => RM_RTZ
  | .down => RM_RDN
  | .up => RM_RUP
  | .nearestAway => RM_RMM

def flagBits (f : Flags) : BitVec 32 :=
  (if f.inexact then FFLAG_INEXACT else 0#32) ||| (if f.underflow then FFLAG_UNDERFLOW else 0#32)
    ||| (if f.overflow then FFLAG_OVERFLOW else 0#32)
    ||| (if f.divideZero then FFLAG_DIVIDE_ZERO else 0#32)
    ||| (if f.invalid then FFLAG_INVALID_OP else 0#32)

/-- The sizes the macro is instantiated with. -/
structure Layout where
  mantSize : ℕ
  expSize : ℕ
  mantWide : 4 ≤ mantSize
  expWide : 5 ≤ expSize

def sf32 : Layout := ⟨23, 8, by decide, by decide⟩
def sf64 : Layout := ⟨52, 11, by decide, by decide⟩

namespace Layout

variable (L : Layout)

def size : ℕ := L.mantSize + L.expSize + 1

def expMask : ℕ := (1 <<< L.expSize) - 1
def mantMask : ℕ := (1 <<< L.mantSize) - 1
def imantSize : ℕ := L.size - 2
def rndSize : ℕ := L.imantSize - L.mantSize
def qnanMask : ℕ := 1 <<< (L.mantSize - 1)

def bias : ℕ := L.expMask / 2

def signOf (a : BitVec L.size) : Bool := a.toNat >>> (L.size - 1) ≠ 0
def expOf (a : BitVec L.size) : ℕ := a.toNat >>> L.mantSize &&& L.expMask
def mantOf (a : BitVec L.size) : ℕ := a.toNat &&& L.mantMask

def pack (sign : Bool) (exp mant : ℕ) : BitVec L.size :=
  BitVec.ofNat L.size (sign.toNat <<< (L.size - 1) ||| exp <<< L.mantSize ||| mant &&& L.mantMask)

def qnan : BitVec L.size := BitVec.ofNat L.size (L.expMask <<< L.mantSize ||| L.qnanMask)

def isNan (a : BitVec L.size) : Bool := L.expOf a = L.expMask ∧ L.mantOf a ≠ 0

/-- Exponent field all ones, quiet bit clear, some other mantissa bit set. -/
def isSignan (a : BitVec L.size) : Bool :=
  a.toNat >>> (L.mantSize - 1) &&& ((1 <<< (L.expSize + 1)) - 1) = 2 * L.expMask ∧ L.mantOf a ≠ 0

def leadingZeros (w mant : ℕ) : ℕ := if mant = 0 then w else w - 1 - mant.log2

def shl (mant shift : ℕ) : ℕ := mant <<< shift % 2 ^ L.size

/-- The leading one of a subnormal moved to the place of the hidden bit. -/
def normalizeSubnormal (mant : ℕ) : ℤ × ℕ :=
  let shift := L.mantSize - (L.size - 1 - leadingZeros L.size mant)
  (1 - shift, L.shl mant shift)

def format : FloatFormat := ⟨L.mantSize + 1, 1 - L.bias, L.bias⟩

def significand (a : BitVec L.size) : ℕ :=
  if L.expOf a = 0 then L.mantOf a else 2 ^ L.mantSize + L.mantOf a

section Decode

variable (K : Type*) [Field K]

def magnitude (a : BitVec L.size) : K :=
  L.significand a * 2 ^ ((max 1 (L.expOf a) : ℕ) - L.bias - L.mantSize : ℤ)

def decode (a : BitVec L.size) : Datum K :=
  if L.expOf a = L.expMask then
    if L.mantOf a = 0 then .inf (L.signOf a) else .nan (L.isSignan a)
  else .num (L.signOf a) (L.magnitude K a)

variable {K}

/-- The one word for a datum that a routine may return: the canonical NaN, or the word that
decodes to it. -/
def Represents (a : BitVec L.size) (d : Datum K) : Prop :=
  if d.isNan then a = L.qnan else L.decode K a = d

def Returns (r : BitVec L.size × BitVec 32) (spec : Datum K × Flags) : Prop :=
  L.Represents r.1 spec.1 ∧ r.2 = flagBits spec.2

end Decode

theorem expMask_eq : L.expMask = 2 ^ L.expSize - 1 := by rw [expMask, Nat.one_shiftLeft]

theorem mantMask_eq : L.mantMask = 2 ^ L.mantSize - 1 := by rw [mantMask, Nat.one_shiftLeft]

theorem rndSize_eq : L.rndSize = L.expSize - 1 := by
  have := L.expWide
  simp only [rndSize, imantSize, size]
  omega

theorem two_pow_expSize : 2 ^ L.expSize = 2 * L.bias + 2 := by
  have := L.expWide
  obtain ⟨e, he⟩ : ∃ e, L.expSize = e + 1 := ⟨L.expSize - 1, by omega⟩
  rw [bias, expMask_eq, he, pow_succ]
  have : 0 < 2 ^ e := by positivity
  omega

theorem expMask_eq_bias : L.expMask = 2 * L.bias + 1 := by
  have := L.two_pow_expSize
  rw [expMask_eq]
  omega

theorem bias_large : 15 ≤ L.bias := by
  have := L.two_pow_expSize
  have : 2 ^ 5 ≤ 2 ^ L.expSize := Nat.pow_le_pow_right (by decide) L.expWide
  omega

variable (a : BitVec L.size)

theorem signOf_eq : L.signOf a = decide (2 ^ (L.size - 1) ≤ a.toNat) := by
  have : a.toNat / 2 ^ (L.size - 1) ≠ 0 ↔ 2 ^ (L.size - 1) ≤ a.toNat := by
    rw [← Nat.pos_iff_ne_zero, Nat.div_pos_iff]
    have : 0 < 2 ^ (L.size - 1) := by positivity
    omega
  rw [signOf, Nat.shiftRight_eq_div_pow]
  simp only [this]

theorem expOf_eq : L.expOf a = a.toNat / 2 ^ L.mantSize % 2 ^ L.expSize := by
  rw [expOf, expMask_eq, Nat.and_two_pow_sub_one_eq_mod, Nat.shiftRight_eq_div_pow]

theorem mantOf_eq : L.mantOf a = a.toNat % 2 ^ L.mantSize := by
  rw [mantOf, mantMask_eq, Nat.and_two_pow_sub_one_eq_mod]

theorem mantOf_lt : L.mantOf a < 2 ^ L.mantSize := by
  rw [mantOf_eq]
  exact Nat.mod_lt _ (by positivity)

theorem expOf_le : L.expOf a ≤ L.expMask := by
  rw [expOf_eq, expMask_eq]
  have := Nat.mod_lt (a.toNat / 2 ^ L.mantSize) (show 0 < 2 ^ L.expSize by positivity)
  omega

theorem two_pow_top : 2 ^ (L.size - 1) = 2 ^ L.expSize * 2 ^ L.mantSize := by
  rw [← pow_add]
  congr 1
  simp only [size]
  omega

theorem two_pow_size : 2 ^ L.size = 2 * 2 ^ (L.size - 1) := by
  rw [← pow_succ']
  rfl

theorem toNat_eq_fields : a.toNat = (L.signOf a).toNat * 2 ^ (L.size - 1) +
      (L.expOf a * 2 ^ L.mantSize + L.mantOf a) := by
  have bound := a.isLt
  have whole := L.two_pow_size
  have high : a.toNat / 2 ^ L.mantSize / 2 ^ L.expSize = (L.signOf a).toNat := by
    rw [Nat.div_div_eq_div_mul, mul_comm, ← two_pow_top, signOf_eq]
    by_cases neg : 2 ^ (L.size - 1) ≤ a.toNat
    · simp only [neg, decide_true, Bool.toNat_true]
      rw [Nat.div_eq_iff (by positivity)]
      omega
    · simp only [neg, decide_false, Bool.toNat_false]
      exact Nat.div_eq_of_lt (by omega)
  have outer := Nat.div_add_mod' a.toNat (2 ^ L.mantSize)
  have inner := Nat.div_add_mod' (a.toNat / 2 ^ L.mantSize) (2 ^ L.expSize)
  rw [high, ← expOf_eq] at inner
  rw [← inner, ← mantOf_eq] at outer
  rw [two_pow_top, ← outer]
  ring

theorem eq_of_fields {a b : BitVec L.size} (sign : L.signOf a = L.signOf b)
    (exp : L.expOf a = L.expOf b) (mant : L.mantOf a = L.mantOf b) : a = b := by
  apply BitVec.eq_of_toNat_eq
  rw [toNat_eq_fields, L.toNat_eq_fields b, sign, exp, mant]

section Pack

variable {L} (sign : Bool) {exp : ℕ} (mant : ℕ)

section

variable (bound : exp ≤ L.expMask)
include bound

theorem low_lt_top {low : ℕ} (small : low < 2 ^ L.mantSize) :
    exp * 2 ^ L.mantSize + low < 2 ^ (L.size - 1) := by
  have : exp + 1 ≤ 2 ^ L.expSize := by
    rw [expMask_eq] at bound
    have : 0 < 2 ^ L.expSize := by positivity
    omega
  calc exp * 2 ^ L.mantSize + low
      < (exp + 1) * 2 ^ L.mantSize := by rw [Nat.add_mul, Nat.one_mul]; omega
    _ ≤ 2 ^ L.expSize * 2 ^ L.mantSize := Nat.mul_le_mul_right _ this
    _ = 2 ^ (L.size - 1) := L.two_pow_top.symm

theorem fields_of_toNat {a : BitVec L.size} {low : ℕ} (small : low < 2 ^ L.mantSize)
    (value : a.toNat = sign.toNat * 2 ^ (L.size - 1) + (exp * 2 ^ L.mantSize + low)) :
    L.signOf a = sign ∧ L.expOf a = exp ∧ L.mantOf a = low := by
  have lower := low_lt_top bound small
  refine ⟨?_, ?_, ?_⟩
  · rw [signOf_eq, value]
    cases sign
    · simp only [Bool.toNat_false, Nat.zero_mul, Nat.zero_add, decide_eq_false_iff_not]
      omega
    · simp
  · have lt : exp < 2 ^ L.expSize := by
      rw [expMask_eq] at bound
      have : 0 < 2 ^ L.expSize := by positivity
      omega
    have split : a.toNat = low + (sign.toNat * 2 ^ L.expSize + exp) * 2 ^ L.mantSize := by
      rw [value, two_pow_top]
      ring
    rw [expOf_eq, split, Nat.add_mul_div_right _ _ (by positivity), Nat.div_eq_of_lt small,
      Nat.zero_add, Nat.mul_add_mod', Nat.mod_eq_of_lt lt]
  · have split : a.toNat = (sign.toNat * 2 ^ L.expSize + exp) * 2 ^ L.mantSize + low := by
      rw [value, two_pow_top]
      ring
    rw [mantOf_eq, split, Nat.mul_add_mod', Nat.mod_eq_of_lt small]

theorem toNat_pack : (L.pack sign exp mant).toNat =
      sign.toNat * 2 ^ (L.size - 1) + (exp * 2 ^ L.mantSize + mant % 2 ^ L.mantSize) := by
  have low : mant % 2 ^ L.mantSize < 2 ^ L.mantSize := Nat.mod_lt _ (by positivity)
  have mid := low_lt_top bound low
  have whole := L.two_pow_size
  rw [pack, BitVec.toNat_ofNat, mantMask_eq, Nat.and_two_pow_sub_one_eq_mod, Nat.or_assoc,
    ← Nat.shiftLeft_add_eq_or_of_lt low, Nat.shiftLeft_eq exp,
    ← Nat.shiftLeft_add_eq_or_of_lt mid, Nat.shiftLeft_eq]
  apply Nat.mod_eq_of_lt
  cases sign
  · simp only [Bool.toNat_false]
    omega
  · simp only [Bool.toNat_true]
    omega

theorem fields_pack :
    L.signOf (L.pack sign exp mant) = sign ∧ L.expOf (L.pack sign exp mant) = exp ∧
      L.mantOf (L.pack sign exp mant) = mant % 2 ^ L.mantSize :=
  fields_of_toNat sign bound (Nat.mod_lt _ (by positivity)) (toNat_pack sign mant bound)

end

end Pack

theorem isSignan_iff : L.isSignan a ↔
      L.expOf a = L.expMask ∧ L.mantOf a < 2 ^ (L.mantSize - 1) ∧ L.mantOf a ≠ 0 := by
  have := L.mantWide
  obtain ⟨m, hm⟩ : ∃ m, L.mantSize = m + 1 := ⟨L.mantSize - 1, by omega⟩
  have ones : L.expMask + 1 = 2 ^ L.expSize := by
    have : 0 < 2 ^ L.expSize := by positivity
    rw [expMask_eq]
    omega
  have less := L.expOf_le a
  -- the field read is the exponent followed by the quiet bit
  have field : a.toNat / 2 ^ m % 2 ^ (L.expSize + 1) =
      2 * L.expOf a + L.mantOf a / 2 ^ m := by
    have quiet : L.mantOf a / 2 ^ m = a.toNat / 2 ^ m % 2 := by
      rw [mantOf_eq, hm, pow_succ, Nat.mod_mul_right_div_self]
    rw [pow_succ', Nat.mod_mul, expOf_eq, hm, pow_succ, ← Nat.div_div_eq_div_mul, quiet]
    ring
  have small : L.mantOf a / 2 ^ m = 0 ↔ L.mantOf a < 2 ^ m := by
    rw [Nat.div_eq_zero_iff]
    simp
  simp only [isSignan, hm, Nat.add_sub_cancel, Nat.shiftRight_eq_div_pow, Nat.one_shiftLeft,
    Nat.and_two_pow_sub_one_eq_mod, field, decide_eq_true_eq, ← small]
  have quotient : L.mantOf a / 2 ^ m < 2 := by
    rw [Nat.div_lt_iff_lt_mul (by positivity), ← pow_succ', ← hm]
    exact L.mantOf_lt a
  omega

section Decode

variable {K : Type*} [Field K] {L} {a b : BitVec L.size}

theorem decode_nan (nan : L.isNan a) : L.decode K a = .nan (L.isSignan a) := by
  simp only [isNan, decide_eq_true_eq] at nan
  simp [decode, nan.1, nan.2]

theorem decode_inf (exp : L.expOf a = L.expMask) (mant : L.mantOf a = 0) :
    L.decode K a = .inf (L.signOf a) := by
  simp [decode, exp, mant]

theorem decode_num (exp : L.expOf a ≠ L.expMask) :
    L.decode K a = .num (L.signOf a) (L.magnitude K a) := by
  simp [decode, exp]

theorem isNan_decode (a : BitVec L.size) : (L.decode K a).isNan = L.isNan a := by
  by_cases exp : L.expOf a = L.expMask <;> by_cases mant : L.mantOf a = 0 <;>
    simp [decode, isNan, exp, mant, Datum.isNan]

theorem isSignaling_decode (a : BitVec L.size) : (L.decode K a).isSignaling = L.isSignan a := by
  by_cases exp : L.expOf a = L.expMask <;> by_cases mant : L.mantOf a = 0
  · have := (L.isSignan_iff a).not.mpr (by simp [mant])
    simp [decode, exp, mant, Datum.isSignaling, this]
  · simp [decode, exp, mant, Datum.isSignaling]
  all_goals
    have := (L.isSignan_iff a).not.mpr (by simp [exp])
    simp [decode, exp, Datum.isSignaling, this]

theorem significand_lt (a : BitVec L.size) : L.significand a < 2 ^ (L.mantSize + 1) := by
  have := L.mantOf_lt a
  unfold significand
  rw [pow_succ]
  split_ifs <;> omega

theorem le_significand (normal : L.expOf a ≠ 0) : 2 ^ L.mantSize ≤ L.significand a := by
  simp [significand, normal]

variable (sign : Bool)

theorem decode_pack {exp : ℕ} (mant : ℕ) (finite : exp < L.expMask) :
    L.decode K (L.pack sign exp mant) =
      .num sign ((if exp = 0 then mant % 2 ^ L.mantSize else 2 ^ L.mantSize + mant % 2 ^ L.mantSize
        : ℕ) * 2 ^ ((max 1 exp : ℕ) - L.bias - L.mantSize : ℤ)) := by
  obtain ⟨signEq, expEq, mantEq⟩ := fields_pack (L := L) sign mant finite.le
  rw [decode_num (by omega), signEq, magnitude, significand, expEq, mantEq]

theorem decode_pack_inf : L.decode K (L.pack sign L.expMask 0) = .inf sign := by
  obtain ⟨signEq, expEq, mantEq⟩ := fields_pack (L := L) sign 0 le_rfl
  rw [decode_inf expEq (by simpa using mantEq), signEq]

theorem decode_pack_largest :
    L.decode K (L.pack sign (L.expMask - 1) L.mantMask) = .num sign L.format.largest := by
  have mask := L.expMask_eq_bias
  have wide := L.bias_large
  have pos : 0 < 2 ^ L.mantSize := by positivity
  have exp : max 1 (L.expMask - 1) = 2 * L.bias := by omega
  have ones : L.mantMask % 2 ^ L.mantSize = 2 ^ L.mantSize - 1 := by
    rw [mantMask_eq, Nat.mod_eq_of_lt (by omega)]
  rw [decode_pack _ _ (by omega), if_neg (by omega), ones, exp, largest, format]
  congr 2
  · push_cast [Nat.one_le_two_pow]
    ring
  · push_cast
    ring_nf

variable [LinearOrder K] [IsStrictOrderedRing K]

theorem holds_magnitude (finite : L.expOf a ≠ L.expMask) : L.format.Holds (L.magnitude K a) := by
  have sig := significand_lt a
  have le := L.expOf_le a
  have mask := L.expMask_eq_bias
  have wide := L.bias_large
  refine ⟨_, _, rfl, sig, ?_, ?_⟩
  · simp only [format]
    push_cast
    omega
  · apply (natCast_mul_lt sig _).trans_le
    apply zpow_le_zpow_right₀ one_le_two
    simp only [format]
    omega

theorem magnitude_lt_of_exp (finer : max 1 (L.expOf a) < max 1 (L.expOf b)) :
    L.magnitude K a < L.magnitude K b := by
  apply (natCast_mul_lt (significand_lt a) _).trans_le
  refine le_trans ?_ (le_natCast_mul (le_significand (a := b) (by omega)) _)
  apply zpow_le_zpow_right₀ one_le_two
  omega

theorem fields_of_magnitude (same : L.magnitude K a = L.magnitude K b) :
    L.expOf a = L.expOf b ∧ L.mantOf a = L.mantOf b := by
  rcases lt_trichotomy (max 1 (L.expOf a)) (max 1 (L.expOf b)) with lt | eq | gt
  · exact absurd same (magnitude_lt_of_exp lt).ne
  · have sig : L.significand a = L.significand b := by
      unfold magnitude at same
      rw [eq] at same
      have := mul_right_cancel₀ (by positivity) same
      exact_mod_cast this
    have := L.mantOf_lt a
    have := L.mantOf_lt b
    unfold significand at sig
    split_ifs at sig <;> omega
  · exact absurd same (magnitude_lt_of_exp gt).ne'

theorem Represents.unique {d : Datum K} (ha : L.Represents a d) (hb : L.Represents b d) :
    a = b := by
  unfold Represents at ha hb
  split_ifs at ha hb with nan
  · rw [ha, hb]
  rw [← ha] at hb nan
  rw [isNan_decode] at nan
  have nanB : L.isNan b = false := by
    rw [← isNan_decode (K := K) b, hb, isNan_decode]
    simpa using nan
  simp only [isNan, decide_eq_true_eq, decide_eq_false_iff_not, not_and, ne_eq, not_not]
    at nan nanB
  by_cases expA : L.expOf a = L.expMask <;> by_cases expB : L.expOf b = L.expMask
  · rw [decode_inf expA (nan expA), decode_inf expB (nanB expB)] at hb
    injection hb with sign
    exact L.eq_of_fields sign.symm (expA.trans expB.symm) ((nan expA).trans (nanB expB).symm)
  · rw [decode_inf expA (nan expA), decode_num expB] at hb
    cases hb
  · rw [decode_num expA, decode_inf expB (nanB expB)] at hb
    cases hb
  · rw [decode_num expA, decode_num expB] at hb
    injection hb with sign mag
    obtain ⟨exp, mant⟩ := fields_of_magnitude mag
    exact L.eq_of_fields sign.symm exp.symm mant.symm

end Decode

end Layout
end Rv64Js.Softfp
