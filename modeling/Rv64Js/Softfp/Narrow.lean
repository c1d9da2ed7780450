import Rv64Js.Lib.RoundToOdd
import Rv64Js.Softfp.AddMul

/-! # Conversions between the two precisions

`f32` to `f64` is exact. The way back has its own copies of `rshift_rnd`, `normalize` and
`round_pack`, which shift in a 64-bit word; they compute the same, also for exponents at the ends of
`i32`, where the arithmetic wraps and shift counts are cut to the word. -/

set_option autoImplicit false

namespace Rv64Js.Softfp

open FloatFormat Layout

attribute [local instance] atLeastTwo_two

def word64 (sign : Bool) (e mant : ℕ) : BitVec sf64.size :=
  BitVec.ofNat sf64.size (sign.toNat <<< 63 ||| e <<< 52 ||| mant <<< (52 - 23))

def cvtSf32Sf64 (a : BitVec sf32.size) : BitVec sf64.size × BitVec 32 :=
  let sign := sf32.signOf a
  let exp := sf32.expOf a
  let mant := sf32.mantOf a
  if exp = 0xff then
    if mant ≠ 0 then (sf64.qnan, if sf32.isSignan a then FFLAG_INVALID_OP else 0#32)
    else (word64 sign 0x7ff 0, 0#32)
  else if exp = 0 then
    if mant = 0 then (word64 sign 0 0, 0#32)
    else
      let shift := 23 - (31 - Layout.leadingZeros 32 mant)
      let mant := (mant <<< shift % 2 ^ 32) &&& 0x7fffff
      (word64 sign (1 - (shift : ℤ) - 0x7f + 0x3ff).toNat mant, 0#32)
  else (word64 sign (exp - 0x7f + 0x3ff : ℤ).toNat mant, 0#32)

/-- `rshift_rnd` with its `i32` count; a negative one is cut to the width of the word. -/
def rshiftRndI32 (size a : ℕ) (d : BitVec 32) : ℕ :=
  if d = 0#32 then a
  else if (BitVec.ofNat 32 size).sle d then (decide (a ≠ 0)).toNat
  else
    let d := d.toNat % size
    a >>> d ||| (decide (a &&& ((1 <<< d) - 1) ≠ 0)).toNat

namespace Layout

variable (L : Layout)

/-- The end of `round_pack` with its `i32` exponent. -/
def assembleI32 (sign : Bool) (exp : BitVec 32) (mant addend : ℕ) (fl : BitVec 32) :
    BitVec L.size × BitVec 32 :=
  let exp := exp + BitVec.ofNat 32 (mant >>> (L.mantSize + 1))
  if mant ≤ L.mantMask then (L.pack sign 0 mant, fl)
  else if (BitVec.ofNat 32 L.expMask).sle exp then
    if addend = 0 then
      (L.pack sign (L.expMask - 1) L.mantMask, fl ||| (FFLAG_OVERFLOW ||| FFLAG_INEXACT))
    else (L.pack sign L.expMask 0, fl ||| (FFLAG_OVERFLOW ||| FFLAG_INEXACT))
  else (L.pack sign exp.toNat mant, fl)

def roundPackI32 (sign : Bool) (exp : BitVec 32) (mant : ℕ) (rm : BitVec 3) :
    BitVec L.size × BitVec 32 :=
  let addend := L.addend sign rm
  if exp.sle 0#32 then
    let isSubnormal := exp.slt 0#32 ∨ (mant + addend) % 2 ^ L.size < 1 <<< (L.size - 1)
    let mant := rshiftRndI32 L.size mant (1#32 - exp)
    let fl := if isSubnormal ∧ L.rndBits mant ≠ 0 then FFLAG_UNDERFLOW else 0#32
    let fl := if L.rndBits mant ≠ 0 then fl ||| FFLAG_INEXACT else fl
    L.assembleI32 sign 1#32 (L.cut sign rm mant) addend fl
  else
    let fl := if L.rndBits mant ≠ 0 then FFLAG_INEXACT else 0#32
    L.assembleI32 sign exp (L.cut sign rm mant) addend fl

def normalizeI32 (sign : Bool) (exp : BitVec 32) (mant : ℕ) (rm : BitVec 3) :
    BitVec L.size × BitVec 32 :=
  let shift := leadingZeros L.size mant - (L.size - 1 - L.imantSize)
  L.roundPackI32 sign (exp - BitVec.ofNat 32 shift) (L.shl mant shift) rm

end Layout

def rshiftRndU64 (a : ℕ) (d : BitVec 32) : ℕ := rshiftRndI32 64 a d

def roundPackSf32 (sign : Bool) (exp : BitVec 32) (mant : ℕ) (rm : BitVec 3) :
    BitVec sf32.size × BitVec 32 :=
  let addend :=
    if rm = RM_RNE ∨ rm = RM_RMM then 1 <<< (7 - 1)
    else if rm = RM_RTZ then 0
    else if sign ^^ rm.getLsbD 0 then (1 <<< 7) - 1 else 0
  let small := exp.sle 0#32
  let isSubnormal := exp.slt 0#32 ∨ (mant + addend) % 2 ^ 32 < 1 <<< 31
  let mant := if small then rshiftRndU64 mant (1#32 - exp) % 2 ^ 32 else mant
  let rndBits := mant &&& ((1 <<< 7) - 1)
  let fl := if small ∧ isSubnormal ∧ rndBits ≠ 0 then FFLAG_UNDERFLOW else 0#32
  let exp := if small then 1#32 else exp
  let fl := if rndBits ≠ 0 then fl ||| FFLAG_INEXACT else fl
  let mant := ((mant + addend) % 2 ^ 32) >>> 7
  let mant := if rm = RM_RNE ∧ rndBits = 1 <<< (7 - 1) then mant - mant % 2 else mant
  let exp := exp + BitVec.ofNat 32 (mant >>> (23 + 1))
  if mant ≤ (1 <<< 23) - 1 then (sf32.pack sign 0 mant, fl)
  else if (0xff#32).sle exp then
    let fl := fl ||| (FFLAG_OVERFLOW ||| FFLAG_INEXACT)
    if addend = 0 then (sf32.pack sign (0xff - 1) ((1 <<< 23) - 1), fl)
      else (sf32.pack sign 0xff 0, fl)
  else (sf32.pack sign exp.toNat mant, fl)

def normalizeSf32From (sign : Bool) (exp : BitVec 32) (mant : ℕ) (rm : BitVec 3) :
    BitVec sf32.size × BitVec 32 :=
  let shift := Layout.leadingZeros 32 mant - 1
  roundPackSf32 sign (exp - BitVec.ofNat 32 shift) (mant <<< shift % 2 ^ 32) rm

def cvtSf64Sf32 (a : BitVec sf64.size) (rm : BitVec 3) : BitVec sf32.size × BitVec 32 :=
  let sign := sf64.signOf a
  if sf64.expOf a = 0x7ff then
    if sf64.mantOf a ≠ 0 then (sf32.qnan, if sf64.isSignan a then FFLAG_INVALID_OP else 0#32)
    else (sf32.pack sign 0xff 0, 0#32)
  else if sf64.isZero a then (sf32.pack sign 0 0, 0#32)
  else
    let (exp, mant) := sf64.hidden a
    normalizeSf32From sign (BitVec.ofInt 32 (exp - 0x3ff + 0x7f))
      (rshiftRndU64 mant 22#32 % 2 ^ 32) rm

/-- Rounding to odd: the last bit of an inexact result is forced to one. -/
def cvtSf64Sf32Rod (a : BitVec sf64.size) : BitVec sf32.size × BitVec 32 :=
  let (result, fl) := cvtSf64Sf32 a RM_RTZ
  if fl &&& FFLAG_INEXACT ≠ 0#32 ∧ sf32.isNan result = false then
    (result ||| BitVec.ofNat sf32.size 1, fl)
  else (result, fl)

theorem rshiftRndI32_eq (size a : ℕ) {d : BitVec 32} (count : d.toNat < 2 ^ 31)
    (narrow : size < 2 ^ 31) : rshiftRndI32 size a d = rshiftRnd size a d.toNat := by
  have sle : (BitVec.ofNat 32 size).sle d = decide (size ≤ d.toNat) := by
    rw [BitVec.sle_eq_decide, BitVec.toInt_eq_toNat_of_lt (x := d) (by omega),
      BitVec.toInt_eq_toNat_of_lt (by rw [BitVec.toNat_ofNat]; omega), BitVec.toNat_ofNat,
      Nat.mod_eq_of_lt (by omega)]
    simp
  have zero : d = 0#32 ↔ d.toNat = 0 := BitVec.toNat_inj.symm
  simp only [rshiftRndI32, rshiftRnd, sle, zero, decide_eq_true_eq]
  split_ifs with none all
  · rfl
  · rfl
  · rw [Nat.mod_eq_of_lt (by omega)]

/-- The word is shifted as 64 bits or as 32: a count that wraps is 0 or 1. -/
theorem rshiftRndU64_eq {exp : BitVec 32} (small : exp.sle 0#32) {mant : ℕ} (bits : mant < 2 ^ 31) :
    rshiftRndU64 mant (1#32 - exp) % 2 ^ 32 = rshiftRndI32 32 mant (1#32 - exp) := by
  have range : (1#32 - exp).toNat < 2 ^ 31 ∨ 1#32 - exp = 0x80000000#32 ∨
      1#32 - exp = 0x80000001#32 := by
    rw [BitVec.sle_eq_decide, decide_eq_true_eq, BitVec.toInt_eq_toNat_cond] at small
    simp only [← BitVec.toNat_inj, BitVec.toNat_sub, BitVec.toNat_ofNat] at *
    have := exp.isLt
    split at small <;> simp at small <;> omega
  generalize 1#32 - exp = d at range
  rcases range with count | rfl | rfl
  · have fits : rshiftRnd sf32.size mant d.toNat < 2 ^ 32 := by
      rcases Nat.eq_zero_or_pos d.toNat with none | some
      · rw [none]
        exact bits.trans (by decide)
      · exact (sf32.rshiftRnd_lt bits some).trans (by decide)
    rw [rshiftRndU64, rshiftRndI32_eq _ mant count (by decide),
      rshiftRndI32_eq _ mant count (by decide),
      rshiftRnd_eq_jam (K := ℚ) (show mant < 2 ^ 64 by omega),
      ← rshiftRnd_eq_jam (K := ℚ) (show mant < 2 ^ sf32.size from bits.trans (by decide)),
      Nat.mod_eq_of_lt fits]
    rfl
  · have same : rshiftRndU64 mant 0x80000000#32 = mant := by
      simp [rshiftRndU64, rshiftRndI32, BitVec.sle]
    rw [same, Nat.mod_eq_of_lt (by omega)]
    simp [rshiftRndI32, BitVec.sle]
  · have same : rshiftRndU64 mant 0x80000001#32 = rshiftRndI32 32 mant 0x80000001#32 := rfl
    have fits : rshiftRndI32 32 mant 0x80000001#32 < 2 ^ 32 :=
      Nat.or_lt_two_pow ((Nat.shiftRight_le _ _).trans_lt (by omega))
        ((Bool.toNat_le _).trans_lt (by decide))
    rw [same, Nat.mod_eq_of_lt fits]

theorem roundPackSf32_eq (sign : Bool) (exp : BitVec 32) {mant : ℕ} (bits : mant < 2 ^ 31)
    (rm : BitVec 3) : roundPackSf32 sign exp mant rm = sf32.roundPackI32 sign exp mant rm := by
  rw [roundPackSf32, roundPackI32]
  by_cases small : exp.sle 0#32
  · simp only [small, if_true, true_and, rshiftRndU64_eq small bits]
    rfl
  · simp only [small, Bool.false_eq_true, if_false, false_and, BitVec.zero_or]
    rfl

theorem normalizeSf32From_eq (sign : Bool) (exp : BitVec 32) {mant : ℕ} (bits : mant < 2 ^ 31)
    (rm : BitVec 3) : normalizeSf32From sign exp mant rm = sf32.normalizeI32 sign exp mant rm := by
  have shifted : mant <<< (leadingZeros 32 mant - 1) % 2 ^ 32 < 2 ^ 31 := by
    rcases eq_or_ne mant 0 with rfl | nonzero
    · decide
    · have log := (Nat.log2_lt nonzero).mpr bits
      rw [leadingZeros, if_neg nonzero, Nat.shiftLeft_eq]
      exact (Nat.mod_le _ _).trans_lt (log2_shift nonzero (k := 30) (by omega)).2
  exact roundPackSf32_eq sign _ shifted rm

/-- The copies for single precision return what the generic functions return, for every `i32`
exponent. -/
theorem single_copies (sign : Bool) (exp : BitVec 32) (mant : BitVec 31) (rm : BitVec 3) :
    roundPackSf32 sign exp mant.toNat rm = sf32.roundPackI32 sign exp mant.toNat rm ∧
      normalizeSf32From sign exp mant.toNat rm = sf32.normalizeI32 sign exp mant.toNat rm :=
  ⟨roundPackSf32_eq sign exp mant.isLt rm, normalizeSf32From_eq sign exp mant.isLt rm⟩

theorem assembleI32_eq (sign : Bool) (exp : BitVec 32) (pos : 0 < exp.toInt)
    (high : exp.toInt ≤ 2 ^ 30) {mant : ℕ} (bits : mant < 2 ^ 25) (addend : ℕ) (fl : BitVec 32) :
    sf32.assembleI32 sign exp mant addend fl = sf32.assemble sign exp.toInt mant addend fl := by
  have carry : mant >>> (sf32.mantSize + 1) ≤ 1 := by
    rw [Nat.shiftRight_eq_div_pow]
    exact Nat.le_of_lt_succ (Nat.div_lt_of_lt_mul bits)
  have nat : exp.toInt = exp.toNat := by
    rw [BitVec.toInt_eq_toNat_cond] at pos ⊢
    split <;> omega
  rw [assembleI32, assemble]
  generalize mant >>> (sf32.mantSize + 1) = c at carry
  have next : (exp + BitVec.ofNat 32 c).toNat = exp.toNat + c := by
    rw [BitVec.toNat_add, BitVec.toNat_ofNat]
    omega
  have sle : (BitVec.ofNat 32 sf32.expMask).sle (exp + BitVec.ofNat 32 c) =
      decide (sf32.expMask ≤ exp.toNat + c) := by
    rw [BitVec.sle_eq_decide, BitVec.toInt_eq_toNat_of_lt (x := exp + _) (by omega), next]
    exact decide_eq_decide.mpr Int.ofNat_le
  simp only [sle, next, nat, decide_eq_true_eq, ge_iff_le, ← Int.natCast_add, Int.ofNat_le,
    Int.toNat_natCast]

/-- Away from the ends of `i32` exponents are integers. -/
theorem roundPackI32_eq (sign : Bool) {exp : BitVec 32} (low : -2 ^ 30 ≤ exp.toInt)
    (high : exp.toInt ≤ 2 ^ 30) (mant : ℕ) (rm : BitVec 3) :
    sf32.roundPackI32 sign exp mant rm = sf32.roundPack sign exp.toInt mant rm := by
  have bits (mant : ℕ) : sf32.cut sign rm mant < 2 ^ 25 := by
    have whole : ((mant + sf32.addend sign rm) % 2 ^ 32) >>> 7 < 2 ^ 25 := by
      rw [Nat.shiftRight_eq_div_pow]
      omega
    unfold Layout.cut
    split
    · exact (Nat.sub_le _ _).trans_lt whole
    · exact whole
  have zero : (0#32).toInt = 0 := rfl
  rw [roundPackI32, roundPack, BitVec.sle_eq_decide, BitVec.slt_eq_decide, zero]
  by_cases small : exp.toInt ≤ 0
  · have count : (1#32 - exp).toNat = (1 - exp.toInt).toNat := by
      rw [BitVec.toInt_eq_toNat_cond] at low small ⊢
      have := exp.isLt
      rw [BitVec.toNat_sub, BitVec.toNat_ofNat]
      split at small <;> simp only [*, if_true, if_false] at * <;> omega
    have shifted :=
      rshiftRndI32_eq sf32.size mant (d := 1#32 - exp) (by omega) (by decide)
    simp only [small, decide_true, if_true, shifted, count, decide_eq_true_eq]
    exact assembleI32_eq sign 1#32 (by decide) (by decide) (bits _) _ _
  · simp only [small, decide_false, if_false]
    exact assembleI32_eq sign _ (by omega) high (bits _) _ _

theorem normalizeI32_eq (sign : Bool) {exp : ℤ} (low : -2 ^ 29 ≤ exp) (high : exp ≤ 2 ^ 29)
    (mant : ℕ) (rm : BitVec 3) :
    sf32.normalizeI32 sign (BitVec.ofInt 32 exp) mant rm = sf32.normalize sign exp mant rm := by
  rw [normalizeI32, Layout.normalize]
  generalize shift : leadingZeros sf32.size mant - (sf32.size - 1 - sf32.imantSize) = n
  have short : n ≤ 32 := by
    rw [← shift, leadingZeros]
    split <;> simp only [show sf32.size = 32 from rfl] <;> omega
  have exact : (BitVec.ofInt 32 exp - BitVec.ofNat 32 n).toInt = exp - n := by
    rw [BitVec.toInt_sub, BitVec.toInt_ofInt, BitVec.toInt_eq_toNat_of_lt (by simp; omega),
      BitVec.toNat_ofNat]
    simp only [Int.bmod_def]
    omega
  rw [roundPackI32_eq sign (by omega) (by omega), exact]

section Widening

variable {K : Type*} [Field K] [LinearOrder K] [IsStrictOrderedRing K]

theorem word64_eq (sign : Bool) (e : ℕ) {mant : ℕ} (bits : mant < 2 ^ 23) :
    word64 sign e mant = sf64.pack sign e (mant <<< 29) := by
  have small : mant <<< 29 < 2 ^ 52 := by
    rw [Nat.shiftLeft_eq]
    omega
  rw [word64, pack, sf64.mantMask_eq, Nat.and_two_pow_sub_one_eq_mod,
    Nat.mod_eq_of_lt (show mant <<< 29 < 2 ^ sf64.mantSize from small)]
  rfl

theorem decode_word64 (sign : Bool) {e mant : ℕ} (bits : mant < 2 ^ 23) (normal : 1 ≤ e)
    (finite : e < 0x7ff) :
    sf64.decode K (word64 sign e mant) =
      .num sign ((2 ^ 23 + mant : ℕ) * 2 ^ (e - 1023 - 23 : ℤ)) := by
  have small : mant <<< 29 < 2 ^ 52 := by
    rw [Nat.shiftLeft_eq]
    omega
  rw [word64_eq sign e bits, decode_pack sign _ (show e < sf64.expMask from finite),
    if_neg (by omega), Nat.mod_eq_of_lt (show mant <<< 29 < 2 ^ sf64.mantSize from small),
    show sf64.bias = 1023 by decide, show sf64.mantSize = 52 from rfl, max_eq_right normal,
    Nat.shiftLeft_eq]
  congr 1
  rw [show (e - 1023 - 23 : ℤ) = e - (1023 : ℕ) - (52 : ℕ) + 29 by push_cast; ring,
    zpow_add₀ two_ne_zero]
  push_cast
  ring

theorem hidden_exp_range {L : Layout} (a : BitVec L.size) :
    1 - (L.mantSize : ℤ) ≤ (L.hidden a).1 ∧ (L.hidden a).1 ≤ max 1 (L.expOf a) := by
  rw [Layout.hidden]
  split_ifs with subnormal
  · simp only [normalizeSubnormal]
    omega
  · simp only
    omega

theorem decode_word64_hidden {a : BitVec sf32.size} (nonzero : sf32.isZero a = false)
    (finite : sf32.expOf a ≠ sf32.expMask) :
    sf64.decode K (word64 (sf32.signOf a) ((sf32.hidden a).1 - 0x7f + 0x3ff).toNat
      ((sf32.hidden a).2 % 2 ^ 23)) = sf32.decode K a := by
  obtain ⟨low, high, value⟩ := hidden_spec (K := K) a nonzero
  obtain ⟨lowExp, highExp⟩ := hidden_exp_range a
  have le : sf32.expOf a ≤ 0xff := sf32.expOf_le a
  have ne : sf32.expOf a ≠ 0xff := finite
  simp only [show sf32.mantSize = 23 from rfl] at lowExp
  have low23 : 2 ^ 23 ≤ (sf32.hidden a).2 := low
  have high24 : (sf32.hidden a).2 < 2 ^ 24 := high
  rw [decode_word64 _ (Nat.mod_lt _ (by positivity)) (by omega) (by omega),
    Layout.decode_num finite, value, show sf32.bias = 127 by decide,
    show sf32.mantSize = 23 from rfl,
    show 2 ^ 23 + (sf32.hidden a).2 % 2 ^ 23 = (sf32.hidden a).2 by omega]
  congr 3
  rw [Int.toNat_of_nonneg (by omega)]
  push_cast
  ring

theorem cvtSf32Sf64_returns [FloorSemiring K] (a : BitVec sf32.size) :
    sf64.Returns (cvtSf32Sf64 a) (carried (sf32.decode K a)) := by
  have mantLt : sf32.mantOf a < 2 ^ 23 := sf32.mantOf_lt a
  rw [carried, isNan_decode, isSignaling_decode]
  simp only [cvtSf32Sf64]
  by_cases special : sf32.expOf a = sf32.expMask
  · rw [if_pos (show sf32.expOf a = 0xff from special)]
    by_cases mant : sf32.mantOf a = 0
    · have notNan : ¬ sf32.isNan a = true := by simp [isNan, mant]
      rw [if_neg (not_not.mpr mant), if_neg notNan, decode_inf special mant,
        word64_eq _ _ (by decide)]
      exact returns_inf _
    · have nan : sf32.isNan a = true := by simp [isNan, special, mant]
      rw [if_pos mant, if_pos nan]
      exact returns_nan _ rfl
  have notNan : sf32.isNan a = false := by simp [isNan, special]
  rw [if_neg (show ¬ sf32.expOf a = 0xff from special), notNan, if_neg Bool.false_ne_true]
  by_cases subnormal : sf32.expOf a = 0
  · rw [if_pos subnormal]
    by_cases zero : sf32.mantOf a = 0
    · have isZero : sf32.isZero a := by simp [Layout.isZero, subnormal, zero]
      rw [if_pos zero, Layout.decode_num special, (Layout.magnitude_eq_zero_iff a).mpr isZero,
        word64_eq _ _ (by decide)]
      exact returns_zero _
    · rw [if_neg zero]
      have nonzero : sf32.isZero a = false := by simp [Layout.isZero, zero]
      have hidden : sf32.hidden a =
          (1 - ((23 - (31 - leadingZeros 32 (sf32.mantOf a)) : ℕ) : ℤ),
            sf32.mantOf a <<< (23 - (31 - leadingZeros 32 (sf32.mantOf a))) % 2 ^ 32) := by
        rw [Layout.hidden, if_pos subnormal]
        rfl
      have value := decode_word64_hidden (K := K) nonzero special
      rw [hidden] at value
      apply returns_word _ (by rw [isNan_decode, notNan])
      rw [show 0x7fffff = 2 ^ 23 - 1 from rfl, Nat.and_two_pow_sub_one_eq_mod]
      exact value
  · rw [if_neg subnormal]
    have nonzero : sf32.isZero a = false := by simp [Layout.isZero, subnormal]
    have hidden : sf32.hidden a = ((sf32.expOf a : ℤ), 2 ^ 23 + sf32.mantOf a) := by
      rw [Layout.hidden, if_neg subnormal, Nat.or_comm,
        ← Nat.shiftLeft_add_eq_or_of_lt (sf32.mantOf_lt a)]
      rfl
    have value := decode_word64_hidden (K := K) nonzero special
    rw [hidden] at value
    apply returns_word _ (by rw [isNan_decode, notNan])
    simp only [Nat.add_mod_left, Nat.mod_eq_of_lt mantLt] at value
    exact value

end Widening

section Rounding

variable {K : Type*} [Field K] [LinearOrder K] [IsStrictOrderedRing K] [FloorSemiring K]
  (mode : Rounding)

theorem cvtSf64Sf32_finite {a : BitVec sf64.size} (nonzero : sf64.isZero a = false) :
    sf32.Returns (normalizeSf32From (sf64.signOf a)
        (BitVec.ofInt 32 ((sf64.hidden a).1 - 0x3ff + 0x7f))
        (rshiftRndU64 (sf64.hidden a).2 22#32 % 2 ^ 32) (rmOf mode))
      (sf32.format.round mode (sf64.signOf a) (sf64.magnitude K a)) := by
  obtain ⟨low, high, value⟩ := hidden_spec (K := K) a nonzero
  obtain ⟨lowExp, highExp⟩ := hidden_exp_range a
  have le : sf64.expOf a ≤ 0x7ff := sf64.expOf_le a
  generalize sf64.hidden a = hidden at low high value lowExp highExp
  obtain ⟨exp, mant⟩ := hidden
  have high53 : mant < 2 ^ 53 := high
  have highQ : (mant : K) / (2 ^ 22 : ℕ) < 2 ^ 31 := div_lt_two_pow (by decide) high53
  have jammed : rshiftRndU64 mant 22#32 = jam ((mant : K) / (2 ^ 22 : ℕ)) :=
    (rshiftRndI32_eq _ mant (by decide) (by decide)).trans
      (rshiftRnd_eq_jam (show mant < 2 ^ 64 by omega) 22)
  have jamHigh : jam ((mant : K) / (2 ^ 22 : ℕ)) < 2 ^ 31 :=
    jam_lt (by positivity) (by decide) highQ
  have rounds := normalize_jam (L := sf32) mode (sf64.signOf a) (exp - 0x3ff + 0x7f)
    (two_pow_le_div (by decide) low) highQ
  have scaled : (mant : K) / (2 ^ 22 : ℕ) * 2 ^ sf32.unit (exp - 0x3ff + 0x7f) =
      sf64.magnitude K a := by
    rw [value, Layout.unit, show sf64.bias = 1023 by decide, show sf32.bias = 127 by decide,
      show sf32.imantSize = 30 by decide, show sf64.mantSize = 52 from rfl, div_mul_eq_mul_div,
      mul_div_assoc]
    congr 1
    push_cast
    rw [show exp - 1023 + 127 - 127 - 30 = exp - 1023 - 52 + 22 by ring, zpow_add₀ two_ne_zero]
    norm_num
  show sf32.Returns (normalizeSf32From _ _ (rshiftRndU64 mant _ % _) _) _
  simp only [show sf64.mantSize = 52 from rfl] at lowExp highExp
  rw [jammed, Nat.mod_eq_of_lt (by omega), normalizeSf32From_eq _ _ jamHigh,
    normalizeI32_eq _ (by omega) (by omega)]
  rwa [scaled] at rounds

theorem cvtSf64Sf32_returns (a : BitVec sf64.size) :
    sf32.Returns (cvtSf64Sf32 a (rmOf mode)) (sf32.format.convert mode (sf64.decode K a)) := by
  rw [FloatFormat.convert, isNan_decode, isSignaling_decode]
  simp only [cvtSf64Sf32]
  by_cases special : sf64.expOf a = sf64.expMask
  · rw [if_pos (show sf64.expOf a = 0x7ff from special)]
    by_cases mant : sf64.mantOf a = 0
    · have notNan : ¬ sf64.isNan a = true := by simp [isNan, mant]
      rw [if_neg (not_not.mpr mant), if_neg notNan, decode_inf special mant]
      exact returns_inf _
    · have nan : sf64.isNan a = true := by simp [isNan, special, mant]
      rw [if_pos mant, if_pos nan]
      exact returns_nan _ rfl
  · have notNan : ¬ sf64.isNan a = true := by simp [isNan, special]
    rw [if_neg (show ¬ sf64.expOf a = 0x7ff from special), if_neg notNan,
      Layout.decode_num special, roundDatum]
    by_cases zero : sf64.isZero a
    · rw [if_pos zero, (Layout.magnitude_eq_zero_iff a).mpr zero, FloatFormat.round_zero]
      exact returns_zero _
    · rw [if_neg zero]
      exact cvtSf64Sf32_finite mode (by simpa using zero)

/-- Widening and narrowing again gives the word back. -/
theorem narrow_widened {a : BitVec sf32.size} (notNan : sf32.isNan a = false) :
    (cvtSf32Sf64 a).2 = 0#32 ∧
      cvtSf64Sf32 (cvtSf32Sf64 a).1 (rmOf mode) = (a, 0#32) := by
  have widens := cvtSf32Sf64_returns (K := ℚ) a
  have real : (sf32.decode ℚ a).isNan = false := by rw [isNan_decode, notNan]
  rw [carried, real, if_neg Bool.false_ne_true] at widens
  obtain ⟨word, flags⟩ := widens
  have same : sf64.decode ℚ (cvtSf32Sf64 a).1 = sf32.decode ℚ a := by
    simpa [Layout.Represents, real] using word
  have narrows := cvtSf64Sf32_returns (K := ℚ) mode (cvtSf32Sf64 a).1
  have exact : sf32.format.convert mode (sf32.decode ℚ a) = (sf32.decode ℚ a, {}) := by
    rw [FloatFormat.convert, real, if_neg Bool.false_ne_true]
    rcases inf_or_num notNan with ⟨exp, mant⟩ | finite
    · rw [decode_inf exp mant]
      rfl
    · rw [Layout.decode_num finite]
      exact round_of_holds mode _ (holds_magnitude finite)
  rw [same, exact] at narrows
  obtain ⟨back, none⟩ := narrows
  refine ⟨by rw [flags]; simp [flagBits], Prod.ext ?_ (by rw [none]; simp [flagBits])⟩
  exact back.unique (by simp [Layout.Represents, real])

end Rounding

namespace Layout

variable {L : Layout}

theorem fields_or_one (w : BitVec L.size) :
    L.signOf (w ||| 1#L.size) = L.signOf w ∧ L.expOf (w ||| 1#L.size) = L.expOf w ∧
      L.mantOf (w ||| 1#L.size) = L.mantOf w ||| 1 := by
  have wide := L.mantWide
  have one : (1#L.size).toNat = 1 := by
    rw [BitVec.toNat_ofNat]
    apply Nat.mod_eq_of_lt
    apply Nat.one_lt_two_pow
    simp only [size]
    omega
  have shifted (k : ℕ) (pos : 0 < k) : (w.toNat ||| 1) >>> k = w.toNat >>> k := by
    rw [Nat.shiftRight_or_distrib, Nat.shiftRight_eq_div_pow 1, Nat.div_eq_of_lt, Nat.or_zero]
    exact Nat.one_lt_two_pow (by omega)
  refine ⟨?_, ?_, ?_⟩
  · simp only [signOf, BitVec.toNat_or, one]
    rw [shifted _ (by simp only [size]; omega)]
  · simp only [expOf, BitVec.toNat_or, one]
    rw [shifted _ (by omega)]
  · simp only [mantOf, BitVec.toNat_or, one]
    rw [Nat.and_or_distrib_right, mantMask_eq, Nat.and_two_pow_sub_one_eq_mod 1,
      Nat.mod_eq_of_lt (Nat.one_lt_two_pow (by omega))]

theorem significand_or_one (w : BitVec L.size) :
    L.significand (w ||| 1#L.size) = L.significand w ||| 1 := by
  obtain ⟨-, exp, mant⟩ := fields_or_one w
  rw [significand, significand, exp, mant]
  split_ifs
  · rfl
  · have even : 2 ^ L.mantSize % 2 = 0 := by
      have := L.mantWide
      rw [← Nat.dvd_iff_mod_eq_zero]
      exact dvd_pow_self 2 (by omega)
    rw [or_one_eq, or_one_eq]
    omega

variable {K : Type*} [Field K]

variable {w : BitVec L.size}

theorem finite_of_num {sign : Bool} {y : K} (num : L.decode K w = .num sign y) :
    L.expOf w ≠ L.expMask ∧ L.signOf w = sign ∧ L.magnitude K w = y := by
  by_cases exp : L.expOf w = L.expMask
  · by_cases mant : L.mantOf w = 0 <;> simp [decode, exp, mant] at num
  · rw [decode_num exp] at num
    injection num with signEq value
    exact ⟨exp, signEq, value⟩

variable [LinearOrder K] [IsStrictOrderedRing K] [FloorSemiring K]

/-- The last place of a word is the last place of the format around its magnitude. -/
theorem place_magnitude (nonzero : 0 < L.magnitude K w) :
    L.format.place (L.magnitude K w) = (max 1 (L.expOf w) : ℕ) - L.bias - L.mantSize := by
  have sig := significand_lt w
  unfold FloatFormat.place
  by_cases exp : L.expOf w = 0
  · have mant : L.significand w < 2 ^ L.mantSize := by
      rw [significand, if_pos exp]
      exact L.mantOf_lt w
    have below := natCast_mul_lt (K := K) mant
      ((max 1 (L.expOf w) : ℕ) - L.bias - L.mantSize : ℤ)
    have log := log_lt nonzero below
    simp only [exp] at log ⊢
    simp only [format]
    push_cast at log ⊢
    omega
  · have log : Int.log 2 (L.magnitude K w) = L.expOf w - L.bias := by
      apply log_eq
      · have := le_natCast_mul (K := K) (le_significand exp)
          ((max 1 (L.expOf w) : ℕ) - L.bias - L.mantSize : ℤ)
        rw [max_eq_right (by omega)] at this
        rw [magnitude, max_eq_right (by omega)]
        convert this using 2
        ring
      · have := natCast_mul_lt (K := K) sig
          ((max 1 (L.expOf w) : ℕ) - L.bias - L.mantSize : ℤ)
        rw [max_eq_right (by omega)] at this
        rw [magnitude, max_eq_right (by omega)]
        convert this using 2
        push_cast
        ring
    rw [log]
    simp only [format]
    push_cast
    omega

theorem place_of_truncated {x : K} (pos : 0 < x)
    (value : L.magnitude K w = (⌊x / 2 ^ L.format.place x⌋₊ : K) * 2 ^ L.format.place x) :
    ((max 1 (L.expOf w) : ℕ) - L.bias - L.mantSize : ℤ) = L.format.place x := by
  rcases Nat.eq_zero_or_pos ⌊x / 2 ^ L.format.place x⌋₊ with none | some
  · -- nothing is left: `x` is below the smallest place, and the word is a zero
    rw [none, Nat.cast_zero, zero_mul, magnitude_eq_zero_iff] at value
    have exp : L.expOf w = 0 := by
      simp only [isZero, decide_eq_true_eq] at value
      exact value.1
    have small : x < 2 ^ L.format.place x := by
      have := Nat.lt_floor_add_one (x / 2 ^ L.format.place x)
      rw [none, Nat.cast_zero, zero_add, div_lt_one (by positivity)] at this
      exact this
    have log := log_lt pos small
    unfold FloatFormat.place at log ⊢
    rw [exp]
    simp only [format] at log ⊢
    push_cast at log ⊢
    omega
  · have nonzero : 0 < L.magnitude K w := by
      rw [value]
      positivity
    rw [← place_magnitude nonzero, value]
    exact place_truncated (by simp [format]) pos some

theorem largest_or_one (sign : Bool) :
    L.pack sign (L.expMask - 1) L.mantMask ||| 1#L.size =
      L.pack sign (L.expMask - 1) L.mantMask := by
  obtain ⟨signOr, expOr, mantOr⟩ := fields_or_one (L.pack sign (L.expMask - 1) L.mantMask)
  apply L.eq_of_fields signOr expOr
  have wide := L.mantWide
  have even : 2 ^ L.mantSize % 2 = 0 := by
    rw [← Nat.dvd_iff_mod_eq_zero]
    exact dvd_pow_self 2 (by omega)
  have pos : 0 < 2 ^ L.mantSize := by positivity
  obtain ⟨-, -, mant⟩ := fields_pack (L := L) sign L.mantMask (Nat.sub_le L.expMask 1)
  rw [mantOr, mant, or_one_eq, mantMask_eq, Nat.mod_eq_of_lt (by omega)]
  omega

/-- The truncation of `x` with its last bit set is `x` rounded to odd. -/
theorem decode_or_one {sign : Bool} {x : K} (pos : 0 < x)
    (truncated : L.decode K w = .num sign (L.format.truncated x))
    (lost : L.format.truncated x ≠ x) :
    L.decode K (w ||| 1#L.size) = .num sign (L.format.odd x) := by
  rw [FloatFormat.truncated] at truncated lost
  rw [odd]
  split_ifs at truncated lost ⊢ with beyond
  · have word : w = L.pack sign (L.expMask - 1) L.mantMask := by
      apply Represents.unique (K := K) (d := .num sign L.format.largest)
      · simpa [Represents, Datum.isNan] using truncated
      · simpa [Represents, Datum.isNan] using decode_pack_largest sign
    rw [word, largest_or_one, decode_pack_largest]
  · obtain ⟨finite, signEq, value⟩ := finite_of_num truncated
    obtain ⟨signOr, expOr, -⟩ := fields_or_one w
    have place := place_of_truncated pos value
    have unit : (2 : K) ^ L.format.place x ≠ 0 := by positivity
    have sig : L.significand w = ⌊x / 2 ^ L.format.place x⌋₊ := by
      rw [magnitude, place] at value
      exact_mod_cast mul_right_cancel₀ unit value
    have notWhole : x / 2 ^ L.format.place x ≠ ⌊x / 2 ^ L.format.place x⌋₊ := by
      intro whole
      apply lost
      rw [← whole, div_mul_cancel₀ _ unit]
    rw [decode_num (by rwa [expOr]), signOr, signEq, magnitude, significand_or_one, expOr, place,
      sig, jam, if_neg notWhole]

end Layout

theorem flagBits_inexact (f : Flags) : flagBits f &&& FFLAG_INEXACT ≠ 0#32 ↔ f.inexact = true := by
  obtain ⟨inexact, underflow, overflow, divideZero, invalid⟩ := f
  cases inexact <;> cases underflow <;> cases overflow <;> cases divideZero <;> cases invalid <;>
    decide

section Odd

variable {K : Type*} [Field K] [LinearOrder K] [IsStrictOrderedRing K] [FloorSemiring K]

variable (K) in
/-- The single-precision number next to `a` on the side of zero. -/
def NextTowardZero (a : BitVec sf64.size) (t : BitVec sf32.size) : Prop :=
  sf32.expOf t ≠ sf32.expMask ∧ sf32.signOf t = sf64.signOf a ∧
    sf32.magnitude K t ≤ sf64.magnitude K a ∧
    ∀ b, sf32.expOf b ≠ sf32.expMask → sf32.magnitude K b ≤ sf64.magnitude K a →
      sf32.magnitude K b ≤ sf32.magnitude K t

variable {a : BitVec sf64.size}

theorem towardZero_returns (finite : sf64.expOf a ≠ sf64.expMask) :
    sf32.decode K (cvtSf64Sf32 a RM_RTZ).1 =
        .num (sf64.signOf a) (sf32.format.truncated (sf64.magnitude K a)) ∧
      ((cvtSf64Sf32 a RM_RTZ).2 &&& FFLAG_INEXACT ≠ 0#32 ↔
        sf32.format.truncated (sf64.magnitude K a) ≠ sf64.magnitude K a) := by
  have notNan : sf64.isNan a = false := by simp [isNan, finite]
  have nonneg : 0 ≤ sf64.magnitude K a := by
    rw [Layout.magnitude]
    positivity
  obtain ⟨word, flags⟩ := cvtSf64Sf32_returns (K := K) .towardZero a
  obtain ⟨datum, inexact⟩ := round_towardZero (F := sf32.format) (sf64.signOf a)
    (by decide) (by decide) nonneg
  rw [FloatFormat.convert, isNan_decode, notNan, if_neg Bool.false_ne_true,
    Layout.decode_num finite, roundDatum] at word flags
  rw [datum] at word
  rw [Layout.Represents, if_neg (by simp [Datum.isNan])] at word
  constructor
  · exact word
  · rw [← inexact, ← flagBits_inexact, ← flags]
    rfl

theorem towardZero_next (finite : sf64.expOf a ≠ sf64.expMask) :
    NextTowardZero K a (cvtSf64Sf32 a RM_RTZ).1 := by
  have nonneg : 0 ≤ sf64.magnitude K a := by
    rw [Layout.magnitude]
    positivity
  obtain ⟨real, sign, value⟩ := Layout.finite_of_num (towardZero_returns (K := K) finite).1
  refine ⟨real, sign, value ▸ truncated_le nonneg, ?_⟩
  intro b finiteB le
  rcases nonneg.eq_or_lt with zero | pos
  · refine le.trans ?_
    rw [← zero, Layout.magnitude]
    positivity
  · rw [value]
    exact (holds_magnitude finiteB).le_truncated (by decide) pos le

/-- The truncation when nothing is lost, and otherwise the truncation with its last bit set. -/
theorem rod_cases (finite : sf64.expOf a ≠ sf64.expMask) : (cvtSf64Sf32Rod a).1 =
      if sf32.magnitude K (cvtSf64Sf32 a RM_RTZ).1 = sf64.magnitude K a then
        (cvtSf64Sf32 a RM_RTZ).1 else (cvtSf64Sf32 a RM_RTZ).1 ||| BitVec.ofNat sf32.size 1 := by
  obtain ⟨decoded, lost⟩ := towardZero_returns (K := K) finite
  obtain ⟨real, -, value⟩ := Layout.finite_of_num decoded
  have notNan : sf32.isNan (cvtSf64Sf32 a RM_RTZ).1 = false := by simp [isNan, real]
  simp only [cvtSf64Sf32Rod, notNan, and_true, lost, value]
  by_cases exact : sf32.format.truncated (sf64.magnitude K a) = sf64.magnitude K a
  · rw [if_neg (not_not.mpr exact), if_pos exact]
  · rw [if_pos exact, if_neg exact]

/-- The value of a double itself when it is a single-precision number, and otherwise the
number next to it on the side of zero with its last bit set. -/
def RoundedToOdd (a : BitVec sf64.size) (r : BitVec sf32.size) : Prop :=
  (∀ b, sf32.decode ℚ b = sf64.decode ℚ a → r = b) ∧
    ((∀ b, sf32.decode ℚ b ≠ sf64.decode ℚ a) → ∃ t, NextTowardZero ℚ a t ∧
      r = t ||| BitVec.ofNat sf32.size 1)

theorem rod_roundedToOdd (finite : sf64.expOf a ≠ sf64.expMask) :
    RoundedToOdd a (cvtSf64Sf32Rod a).1 := by
  have next := towardZero_next (K := ℚ) finite
  obtain ⟨real, sign, le, closest⟩ := id next
  have cases := rod_cases (K := ℚ) finite
  constructor
  · intro b same
    rw [Layout.decode_num finite] at same
    obtain ⟨finiteB, signB, valueB⟩ := Layout.finite_of_num same
    have exact : sf32.magnitude ℚ (cvtSf64Sf32 a RM_RTZ).1 = sf64.magnitude ℚ a :=
      le_antisymm le (valueB ▸ closest b finiteB valueB.le)
    rw [cases, if_pos exact]
    obtain ⟨exps, mants⟩ := fields_of_magnitude (exact.trans valueB.symm)
    exact sf32.eq_of_fields (sign.trans signB.symm) exps mants
  · intro none
    refine ⟨_, next, ?_⟩
    rw [cases, if_neg]
    intro exact
    apply none (cvtSf64Sf32 a RM_RTZ).1
    rw [Layout.decode_num real, Layout.decode_num finite, sign, exact]

theorem rod_decode (finite : sf64.expOf a ≠ sf64.expMask) : sf32.decode K (cvtSf64Sf32Rod a).1 =
      .num (sf64.signOf a) (sf32.format.odd (sf64.magnitude K a)) := by
  obtain ⟨decoded, -⟩ := towardZero_returns (K := K) finite
  obtain ⟨real, -, value⟩ := Layout.finite_of_num decoded
  rw [rod_cases (K := K) finite, value]
  split_ifs with exact
  · have holds := holds_magnitude (K := K) real
    rw [value, exact] at holds
    rw [decoded, exact, odd_of_holds holds]
  · have pos : 0 < sf64.magnitude K a := by
      have nonneg : 0 ≤ sf64.magnitude K a := by
        rw [Layout.magnitude]
        positivity
      refine lt_of_le_of_ne nonneg ?_
      intro zero
      apply exact
      rw [← zero]
      exact le_antisymm (truncated_le le_rfl) (by
        rw [FloatFormat.truncated, if_neg (by rw [not_le]; positivity)]
        positivity)
    exact Layout.decode_or_one pos decoded exact

end Odd

/-- A format with the exponents of single precision and `p` significand bits. -/
def singleRange (p : ℕ) : FloatFormat := ⟨p, sf32.format.emin, sf32.format.emax⟩

/-- Widening is exact; narrowing rounds once; the two together are the identity; and rounding
to odd loses nothing a later rounding to 22 bits or fewer would see. -/
theorem precision_conversions :
    (∀ a, sf64.Returns (cvtSf32Sf64 a) (FloatFormat.carried (sf32.decode ℚ a))) ∧
      (∀ mode a,
        sf32.Returns (cvtSf64Sf32 a (rmOf mode)) (sf32.format.convert mode (sf64.decode ℚ a))) ∧
      (∀ mode a, sf32.isNan a = false → (cvtSf32Sf64 a).2 = 0#32 ∧
        cvtSf64Sf32 (cvtSf32Sf64 a).1 (rmOf mode) = (a, 0#32)) ∧
      ∀ a, sf64.expOf a ≠ sf64.expMask → RoundedToOdd a (cvtSf64Sf32Rod a).1 ∧ ∀ p mode, 0 < p →
      p ≤ 22 →
          ((singleRange p).convert mode (sf32.decode ℚ (cvtSf64Sf32Rod a).1)).1 =
            ((singleRange p).convert mode (sf64.decode ℚ a)).1 := by
  refine ⟨cvtSf32Sf64_returns, cvtSf64Sf32_returns, ?_, ?_⟩
  · intro mode a notNan
    exact narrow_widened mode notNan
  · intro a finite
    refine ⟨rod_roundedToOdd finite, ?_⟩
    intro p mode pos le
    have nonneg : 0 ≤ sf64.magnitude ℚ a := by
      rw [Layout.magnitude]
      positivity
    rw [rod_decode finite, Layout.decode_num finite]
    exact FloatFormat.round_odd_fst mode _ rfl rfl pos (show p + 2 ≤ 22 + 2 by omega) (by decide)
      nonneg

/-- The double after `1`, to odd and on to 11 bits; and the single-precision number it becomes,
there and back. -/
theorem after_one_converted : (cvtSf64Sf32Rod 0x3ff0000000000001#64).1.toNat = 0x3f800001 ∧
      ((cvtSf32Sf64 0x3f800001#32).2 = 0#32 ∧
        cvtSf64Sf32 (cvtSf32Sf64 0x3f800001#32).1 (rmOf .nearestEven) = (0x3f800001#32, 0#32)) ∧
      RoundedToOdd 0x3ff0000000000001#64 (cvtSf64Sf32Rod 0x3ff0000000000001#64).1 ∧
      ((singleRange 11).convert .nearestEven
        (sf32.decode ℚ (cvtSf64Sf32Rod 0x3ff0000000000001#64).1)).1 =
        ((singleRange 11).convert .nearestEven (sf64.decode ℚ 0x3ff0000000000001#64)).1 :=
  ⟨by decide +kernel, precision_conversions.2.2.1 .nearestEven 0x3f800001#32 (by decide),
    (precision_conversions.2.2.2 0x3ff0000000000001#64 (by decide)).1,
    (precision_conversions.2.2.2 0x3ff0000000000001#64 (by decide)).2 11 .nearestEven (by decide)
      (by decide)⟩

end Rv64Js.Softfp
