import Rv64Js.Softfp.AddMul

/-! # Conversions between floats and integers

`cvt_f_to_i` and `cvt_i_to_f` are instantiated for 32 and 64 bits in both precisions; the
integer type here has `isz` bits.  The vector unit narrows further by clamping what
`cvt_to_i64` returns. -/

set_option autoImplicit false

namespace Rv64Js.Vector

open Rv64Js.Core (Word)

def elementMask (bits : Nat) : Word := if bits = 64 then ~~~0#64 else (1#64 <<< bits) - 1#64

def wrap64 (value : Int) : Word := BitVec.ofInt 64 value

def signedMinimum (sew : Nat) : Int := -(2 ^ (sew - 1))
def signedMaximum (sew : Nat) : Int := 2 ^ (sew - 1) - 1

end Rv64Js.Vector

namespace Rv64Js.Softfp

open Rv64Js.Vector (elementMask signedMinimum signedMaximum wrap64)

attribute [local instance] atLeastTwo_two

def rMax (isz : ℕ) (unsigned sign : Bool) : ℕ :=
  if unsigned then (sign.toNat + (2 ^ isz - 1)) % 2 ^ isz
  else (1 <<< (isz - 1)) - (!sign).toNat

namespace Layout

variable (L : Layout)

def cvtToI (isz : ℕ) (a : BitVec L.size) (rm : BitVec 3) (unsigned : Bool) :
    BitVec isz × BitVec 32 :=
  -- a NaN behaves like positive infinity
  let sign := if L.expOf a = L.expMask ∧ L.mantOf a ≠ 0 then false else L.signOf a
  let mant := L.shl
    (if L.expOf a = 0 then L.mantOf a else L.mantOf a ||| 1 <<< L.mantSize) L.rndSize
  let exp : ℤ := (if L.expOf a = 0 then 1 else L.expOf a : ℕ) - L.bias - L.mantSize
  let invalid := (BitVec.ofNat isz (rMax isz unsigned sign), FFLAG_INVALID_OP)
  let withSign (r : ℕ) := if sign then -BitVec.ofNat isz r else BitVec.ofNat isz r
  if 0 ≤ exp then
    if exp ≤ (isz : ℤ) - 1 - L.mantSize then
      let r := (((mant >>> L.rndSize) % 2 ^ isz) <<< exp.toNat) % 2 ^ isz
      if r > rMax isz unsigned sign then invalid else (withSign r, 0#32)
    else invalid
  else
    let mant := rshiftRnd L.size mant (-exp).toNat
    let r := L.cut sign rm mant
    if r > rMax isz unsigned sign then invalid
    else (withSign r, if L.rndBits mant ≠ 0 then FFLAG_INEXACT else 0#32)

def cvtToI32 (a : BitVec L.size) (rm : BitVec 3) (unsigned : Bool) : BitVec 32 × BitVec 32 :=
  L.cvtToI 32 a rm unsigned

def cvtToI64 (a : BitVec L.size) (rm : BitVec 3) (unsigned : Bool) : BitVec 64 × BitVec 32 :=
  L.cvtToI 64 a rm unsigned

/-- The range of a magnitude of `isz` bits reduced before the generic normalization. -/
def normalizeInt (isz : ℕ) (sign : Bool) (r : ℕ) (rm : BitVec 3) : BitVec L.size × BitVec 32 :=
  let exp : ℤ := (L.bias : ℤ) + L.size - 2
  let l : ℤ := (isz : ℤ) - leadingZeros isz r - (L.size - 1)
  if 0 < l then
    let r := r >>> l.toNat ||| (decide (r &&& ((1 <<< l.toNat) - 1) ≠ 0)).toNat
    L.normalize sign (exp + l) (r % 2 ^ L.size) rm
  else L.normalize sign exp (r % 2 ^ L.size) rm

def cvtFromI (isz : ℕ) (a : BitVec isz) (rm : BitVec 3) (unsigned : Bool) :
    BitVec L.size × BitVec 32 :=
  if !unsigned && a.msb then L.normalizeInt isz true (-a).toNat rm
  else L.normalizeInt isz false a.toNat rm

def cvtFromI32 (a : BitVec 32) (rm : BitVec 3) (unsigned : Bool) : BitVec L.size × BitVec 32 :=
  L.cvtFromI 32 a rm unsigned

def cvtFromI64 (a : BitVec 64) (rm : BitVec 3) (unsigned : Bool) : BitVec L.size × BitVec 32 :=
  L.cvtFromI 64 a rm unsigned

end Layout

/-- `cvt_to_i64` followed by a clamp to the elements of a vector. -/
def fp32ToIntegerWidth (value : BitVec sf32.size) (width : ℕ) (unsigned : Bool) (rm : BitVec 3) :
    BitVec 64 × BitVec 32 :=
  let (converted, fl) := sf32.cvtToI64 value rm unsigned
  let invalid := (fl &&& ~~~FFLAG_INEXACT) ||| FFLAG_INVALID_OP
  if unsigned then
    let maximum := elementMask width
    if fl &&& FFLAG_INVALID_OP ≠ 0#32 ∨ maximum < converted then
      (if converted ≤ maximum then converted else maximum, invalid)
    else (converted, fl)
  else
    let converted := converted.toInt
    let minimum := signedMinimum width
    let maximum := signedMaximum width
    if fl &&& FFLAG_INVALID_OP ≠ 0#32 ∨ converted < minimum ∨ maximum < converted then
      (wrap64 (max minimum (min maximum converted)) &&& elementMask width, invalid)
    else (wrap64 converted &&& elementMask width, fl)

def least (isz : ℕ) (unsigned : Bool) : ℤ := if unsigned then 0 else -2 ^ (isz - 1)
def greatest (isz : ℕ) (unsigned : Bool) : ℤ := if unsigned then 2 ^ isz - 1 else 2 ^ (isz - 1) - 1

def intOf {isz : ℕ} (unsigned : Bool) (a : BitVec isz) : ℤ := if unsigned then a.toNat else a.toInt

theorem least_le_greatest (isz : ℕ) (unsigned : Bool) :
    least isz unsigned ≤ 0 ∧ 0 ≤ greatest isz unsigned := by
  have pos : (0 : ℤ) < 2 ^ isz := by positivity
  have halfPos : (0 : ℤ) < 2 ^ (isz - 1) := by positivity
  cases unsigned <;> simp only [least, greatest, Bool.false_eq_true, if_true, if_false] <;> omega

def intResult {K : Type*} [Field K] [LinearOrder K] [FloorSemiring K] (isz : ℕ) (mode : Rounding)
    (unsigned : Bool) (d : Datum K) : BitVec isz × BitVec 32 :=
  let n := d.toInt mode (least isz unsigned) (greatest isz unsigned)
  (BitVec.ofInt isz n.1, flagBits n.2)

section Bounds

variable {isz : ℕ} (wide : 0 < isz) (unsigned sign : Bool)
include wide

theorem two_pow_isz : 2 ^ isz = 2 * 2 ^ (isz - 1) := by
  rw [← pow_succ']
  congr 1
  omega

theorem rMax_eq : (rMax isz unsigned sign : ℤ) =
    if sign then -least isz unsigned else greatest isz unsigned := by
  have half := two_pow_isz wide
  rw [rMax, Nat.one_shiftLeft]
  cases unsigned <;> cases sign <;> simp [least, greatest]

theorem rMax_lt : rMax isz unsigned sign < 2 ^ isz := by
  have half := two_pow_isz wide
  have halfPos : 0 < 2 ^ (isz - 1) := by positivity
  rw [rMax, Nat.one_shiftLeft]
  split_ifs
  · exact Nat.mod_lt _ (by positivity)
  · omega

theorem ofNat_rMax : BitVec.ofNat isz (rMax isz unsigned sign) =
    BitVec.ofInt isz (if sign then least isz unsigned else greatest isz unsigned) := by
  rw [← BitVec.ofInt_natCast, rMax_eq wide]
  cases sign
  · rfl
  · -- `2 ^ (isz - 1)` and its negation are the same word
    apply BitVec.eq_of_toNat_eq
    rw [if_pos rfl, if_pos rfl, BitVec.toNat_ofInt, BitVec.toNat_ofInt]
    have half : (2 : ℤ) ^ isz = 2 * 2 ^ (isz - 1) := by exact_mod_cast two_pow_isz wide
    cases unsigned
    · congr 1
      simp only [least, Bool.false_eq_true, if_false, Nat.cast_pow, Nat.cast_ofNat, half]
      rw [show - -(2 : ℤ) ^ (isz - 1) = -2 ^ (isz - 1) + 2 * 2 ^ (isz - 1) by ring,
        Int.add_emod_right]
    · simp [least]

/-- The comparison with `r_max` saturates, and the negation gives the word of the integer. -/
theorem saturate_word (r : ℕ) (inexact : Bool) :
    (if r > rMax isz unsigned sign then
        (.ofNat isz (rMax isz unsigned sign), FFLAG_INVALID_OP)
      else (if sign then -BitVec.ofNat isz r else BitVec.ofNat isz r,
        if inexact then FFLAG_INEXACT else 0#32)) =
      let saturated := Datum.saturate (least isz unsigned) (greatest isz unsigned)
        (if sign then -r else r) inexact
      (BitVec.ofInt isz saturated.1, flagBits saturated.2) := by
  obtain ⟨low, high⟩ := least_le_greatest isz unsigned
  have bound := rMax_eq wide unsigned sign
  have word := ofNat_rMax wide unsigned sign
  have flag : flagBits { invalid := true } = FFLAG_INVALID_OP := by simp [flagBits]
  by_cases fits : r > rMax isz unsigned sign
  · rw [if_pos fits, word]
    cases sign <;> simp only [Bool.false_eq_true, if_true, if_false] at bound ⊢
    · rw [Datum.saturate_above (by omega) (by omega), flag]
    · rw [Datum.saturate_below (by omega), flag]
  · have flags : flagBits { inexact := inexact } = if inexact then FFLAG_INEXACT else 0#32 := by
      simp [flagBits]
    rw [if_neg fits]
    cases sign <;> simp only [Bool.false_eq_true, if_true, if_false] at bound ⊢
    · rw [Datum.saturate_within (by omega) (by omega), flags, BitVec.ofInt_natCast]
    · rw [Datum.saturate_within (by omega) (by omega), flags, BitVec.ofInt_neg,
        BitVec.ofInt_natCast]

end Bounds

namespace Layout

variable {L : Layout} {K : Type*} [Field K] (a : BitVec L.size)

theorem hidden_bit :
    (if L.expOf a = 0 then L.mantOf a else L.mantOf a ||| 1 <<< L.mantSize) = L.significand a := by
  rw [significand]
  split_ifs
  · rfl
  · rw [Nat.or_comm, ← Nat.shiftLeft_add_eq_or_of_lt (L.mantOf_lt a), Nat.one_shiftLeft]

theorem magnitude_natCast {a : BitVec L.size} {e : ℕ}
    (exp : ((max 1 (L.expOf a) : ℕ) : ℤ) - L.bias - L.mantSize = e) :
    L.magnitude K a = (L.significand a * 2 ^ e : ℕ) := by
  rw [magnitude, exp]
  push_cast
  rw [zpow_natCast]

variable [LinearOrder K] [IsStrictOrderedRing K] [FloorSemiring K]

theorem significand_shifted_lt : L.significand a * 2 ^ L.rndSize < 2 ^ (L.size - 1) := by
  have := L.size_eq
  have := L.imantSize_eq
  rw [show L.size - 1 = L.mantSize + 1 + L.rndSize by omega, pow_add]
  exact Nat.mul_lt_mul_of_pos_right (significand_lt a) (by positivity)

theorem cut_fraction (mode : Rounding) (sign : Bool) {a : BitVec L.size} {d : ℕ}
    (exp : ((max 1 (L.expOf a) : ℕ) : ℤ) - L.bias - L.mantSize = -d) (below : 1 ≤ d) :
    L.cut sign (rmOf mode) (rshiftRnd L.size (L.significand a * 2 ^ L.rndSize) d) =
        mode.toNat sign (L.magnitude K a) ∧
      (L.rndBits (rshiftRnd L.size (L.significand a * 2 ^ L.rndSize) d) = 0 ↔
        ∃ n : ℕ, L.magnitude K a = n) := by
  have high := significand_shifted_lt a
  have shiftedHigh : rshiftRnd L.size (L.significand a * 2 ^ L.rndSize) d < 2 ^ (L.size - 1) :=
    (L.rshiftRnd_lt high below).trans
      (Nat.pow_lt_pow_right (by decide) (by have := L.size_eq; omega))
  have halves := L.rshiftRnd_halves (K := K) high d
  have exact : ((L.significand a * 2 ^ L.rndSize : ℕ) : K) / 2 ^ d / 2 ^ L.rndSize =
      L.magnitude K a := by
    rw [magnitude, exp, zpow_neg, zpow_natCast]
    push_cast
    field_simp
  rw [exact] at halves
  have nonneg : 0 ≤ L.magnitude K a := by
    rw [← exact]
    positivity
  constructor
  · rw [L.cut_eq (K := K) mode sign shiftedHigh, halves.toNat_eq (by positivity) nonneg]
  · rw [L.rndBits_eq_zero_iff (K := K), halves.isNat_iff]

section ToInteger

variable {isz : ℕ} (wide : 0 < isz) (mode : Rounding) (unsigned : Bool)
include wide

omit [IsStrictOrderedRing K] in
/-- An exponent field of all ones is beyond every integer type of at most `bias + 1` bits. -/
theorem cvtToI_special {a : BitVec L.size} (range : isz ≤ L.bias + 1)
    (room : L.mantSize ≤ L.bias + 1) (special : L.expOf a = L.expMask) :
    L.cvtToI isz a (rmOf mode) unsigned = intResult isz mode unsigned (L.decode K a) := by
  have mask := L.expMask_eq_bias
  have flag : flagBits { invalid := true } = FFLAG_INVALID_OP := by simp [flagBits]
  simp only [cvtToI]
  rw [if_neg (show ¬ L.expOf a = 0 by omega), if_neg (show ¬ L.expOf a = 0 by omega), special,
    if_pos (by omega), if_neg (by omega), ofNat_rMax wide]
  by_cases mant : L.mantOf a = 0
  · rw [decode_inf special mant]
    simp [mant, intResult, Datum.toInt, flag]
  · rw [decode_nan (by simp [isNan, special, mant])]
    simp [mant, intResult, Datum.toInt, flag]

theorem cvtToI_finite {a : BitVec L.size} (finite : L.expOf a ≠ L.expMask) :
    L.cvtToI isz a (rmOf mode) unsigned = intResult isz mode unsigned (L.decode K a) := by
  have sizeEq := L.size_eq
  have imantEq := L.imantSize_eq
  have sigLt := significand_lt a
  obtain ⟨shl, -⟩ := shl_of_lt (L := L) L.rndSize sigLt (by omega)
  rw [decode_num finite]
  simp only [cvtToI, hidden_bit, exp_eq_max, shl, finite, false_and, if_false, intResult,
    Datum.toInt, ne_eq, Datum.intCast_eq_signed_iff]
  by_cases whole : 0 ≤ ((max 1 (L.expOf a) : ℕ) : ℤ) - L.bias - L.mantSize
  · obtain ⟨e, he⟩ := Int.eq_ofNat_of_zero_le whole
    have integer : L.magnitude K a = (L.significand a * 2 ^ e : ℕ) := magnitude_natCast he
    have normal : L.expOf a ≠ 0 := by
      have := L.bias_large
      omega
    rw [he, if_pos (by omega), integer, Rounding.toNat_natCast]
    have settle := saturate_word wide unsigned (L.signOf a) (L.significand a * 2 ^ e) false
    simp only [Bool.false_eq_true, if_false] at settle
    simp only [not_true_eq_false, decide_false]
    rw [← settle]
    by_cases short : (e : ℤ) ≤ isz - 1 - L.mantSize
    · have fits : L.significand a * 2 ^ e < 2 ^ isz :=
        calc L.significand a * 2 ^ e < 2 ^ (L.mantSize + 1) * 2 ^ e :=
              Nat.mul_lt_mul_of_pos_right sigLt (by positivity)
          _ = 2 ^ (L.mantSize + 1 + e) := (pow_add 2 _ e).symm
          _ ≤ 2 ^ isz := Nat.pow_le_pow_right (by decide) (by omega)
      have sigFits : L.significand a < 2 ^ isz :=
        sigLt.trans_le (Nat.pow_le_pow_right (by decide) (by omega))
      rw [if_pos short, Nat.shiftRight_eq_div_pow, Nat.mul_div_cancel _ (by positivity),
        Nat.mod_eq_of_lt sigFits, Int.toNat_natCast, Nat.shiftLeft_eq, Nat.mod_eq_of_lt fits]
    · have beyond : 2 ^ isz ≤ L.significand a * 2 ^ e :=
        calc 2 ^ isz ≤ 2 ^ (L.mantSize + e) := Nat.pow_le_pow_right (by decide) (by omega)
          _ = 2 ^ L.mantSize * 2 ^ e := pow_add 2 _ e
          _ ≤ L.significand a * 2 ^ e := Nat.mul_le_mul_right _ (le_significand normal)
      have := rMax_lt wide unsigned (L.signOf a)
      rw [if_neg short, if_pos (by omega)]
  · obtain ⟨d, hd⟩ : ∃ d : ℕ, ((max 1 (L.expOf a) : ℕ) : ℤ) - L.bias - L.mantSize = -d :=
      ⟨(-(((max 1 (L.expOf a) : ℕ) : ℤ) - L.bias - L.mantSize)).toNat, by omega⟩
    obtain ⟨cuts, lost⟩ := cut_fraction (K := K) mode (L.signOf a) hd (by omega)
    rw [hd, if_neg (by omega), show (- -(d : ℤ)).toNat = d by omega, cuts]
    have exact := mode.toNat_eq_self_iff (L.signOf a) (L.magnitude K a)
    simp only [lost, ← exact]
    have settle := saturate_word wide unsigned (L.signOf a)
      (mode.toNat (L.signOf a) (L.magnitude K a))
      (decide ¬ (mode.toNat (L.signOf a) (L.magnitude K a) : K) = L.magnitude K a)
    simp only [decide_eq_true_eq] at settle
    exact settle

theorem cvtToI_rounds (range : isz ≤ L.bias + 1) (room : L.mantSize ≤ L.bias + 1)
    (a : BitVec L.size) :
    L.cvtToI isz a (rmOf mode) unsigned = intResult isz mode unsigned (L.decode K a) := by
  by_cases special : L.expOf a = L.expMask
  · exact cvtToI_special wide mode unsigned range room special
  · exact cvtToI_finite wide mode unsigned special

end ToInteger

section FromInteger

variable (mode : Rounding) (sign : Bool) {isz r : ℕ} (nonzero : r ≠ 0) (lt : r < 2 ^ isz)
include nonzero lt

/-- More bits than the word has: the lowest are jammed into the last. -/
theorem normalizeInt_long (long : 0 < (isz : ℤ) - leadingZeros isz r - (L.size - 1)) :
    L.Returns (L.normalizeInt isz sign r (rmOf mode)) (L.format.round mode sign (r : K)) := by
  obtain ⟨sizeEq, imantEq, rndLarge⟩ := L.sizes
  have logLt : r.log2 < isz := (Nat.log2_lt nonzero).mpr lt
  obtain ⟨l, hl⟩ : ∃ l : ℕ, r.log2 + 1 = L.size - 1 + l := by
    rw [leadingZeros, if_neg nonzero] at long
    exact ⟨r.log2 + 1 - (L.size - 1), by omega⟩
  have excess : (isz : ℤ) - leadingZeros isz r - (L.size - 1) = l := by
    rw [leadingZeros, if_neg nonzero]
    omega
  rw [excess] at long
  have jammed : r >>> l ||| (decide (r &&& ((1 <<< l) - 1) ≠ 0)).toNat =
      jam ((r : K) / (2 ^ l : ℕ)) := by
    rw [← rshiftRnd_eq_jam lt, rshiftRnd, if_neg (by omega), if_neg (by omega)]
  have kept : (2 : K) ^ (L.mantSize + 2) ≤ (r : K) / (2 ^ l : ℕ) :=
    two_pow_le_div (by omega) (Nat.log2_self_le nonzero)
  have bits : (r : K) / (2 ^ l : ℕ) < 2 ^ (L.size - 1) := div_lt_two_pow hl.le Nat.lt_log2_self
  have inWord : jam ((r : K) / (2 ^ l : ℕ)) < 2 ^ L.size := by
    have := jam_lt (by positivity) (by omega) bits
    rw [two_pow_size]
    omega
  have scaled : (r : K) / (2 ^ l : ℕ) * 2 ^ L.unit (L.bias + L.size - 2 + l) = r := by
    rw [show L.unit (L.bias + L.size - 2 + l) = l by unfold unit; omega, zpow_natCast]
    push_cast
    field_simp
  have rounds := normalize_jam (L := L) mode sign (L.bias + L.size - 2 + l) kept bits
  simp only [normalizeInt, excess]
  rw [if_pos long, Int.toNat_natCast, jammed, Nat.mod_eq_of_lt inWord]
  rwa [scaled] at rounds

theorem normalizeInt_returns :
    L.Returns (L.normalizeInt isz sign r (rmOf mode)) (L.format.round mode sign (r : K)) := by
  by_cases long : 0 < (isz : ℤ) - leadingZeros isz r - (L.size - 1)
  · exact normalizeInt_long mode sign nonzero lt long
  · have sizeEq := L.size_eq
    have bits : r < 2 ^ (L.size - 1) := by
      rw [leadingZeros, if_neg nonzero] at long
      have logLt : r.log2 < isz := (Nat.log2_lt nonzero).mpr lt
      exact (Nat.log2_lt nonzero).mp (by omega)
    have inWord : r < 2 ^ L.size := by
      rw [two_pow_size]
      omega
    have unit : L.unit (L.bias + L.size - 2) = 0 := by
      unfold unit
      omega
    have rounds : L.Returns (L.normalize sign (L.bias + L.size - 2) r (rmOf mode))
        (L.format.round mode sign ((r : K) * 2 ^ L.unit (L.bias + L.size - 2))) :=
      normalize_returns _ nonzero bits (Or.inl rfl)
    rw [unit, zpow_zero, mul_one] at rounds
    simp only [normalizeInt]
    rwa [if_neg long, Nat.mod_eq_of_lt inWord]

omit nonzero lt in
theorem normalizeInt_zero : L.normalizeInt isz sign 0 (rmOf mode) = (L.pack sign 0 0, 0#32) := by
  have sizeEq := L.size_eq
  simp only [normalizeInt, leadingZeros, if_true]
  rw [if_neg (by omega), Nat.zero_mod, normalize_zero]

end FromInteger

section Signed

variable {isz : ℕ} (unsigned : Bool) (a : BitVec isz)

theorem intOf_eq : intOf unsigned a =
    if !unsigned && a.msb then -((-a).toNat : ℤ) else a.toNat := by
  have lt := a.isLt
  cases unsigned
  · rw [intOf, if_neg (by decide), BitVec.toInt_eq_msb_cond]
    cases msb : a.msb
    · simp
    · have pos : 0 < a.toNat := by
        by_contra zero
        have : a = BitVec.ofNat isz 0 := BitVec.eq_of_toNat_eq (by simp; omega)
        simp [this] at msb
      simp only [Bool.not_false, Bool.and_self, if_true, BitVec.toNat_neg]
      rw [Nat.mod_eq_of_lt (by omega)]
      omega
  · simp [intOf]

theorem cvtFromI_returns (mode : Rounding) :
    L.Returns (L.cvtFromI isz a (rmOf mode) unsigned)
      (L.format.roundSigned mode false ((intOf unsigned a : ℤ) : K)) := by
  rw [intOf_eq, cvtFromI]
  split_ifs with negative
  · have nonzero : (-a).toNat ≠ 0 := by
      intro zero
      have : a = BitVec.ofNat isz 0 := by
        rw [← BitVec.neg_eq_zero_iff]
        exact BitVec.eq_of_toNat_eq (by simpa using zero)
      simp [this] at negative
    have value : (((-((-a).toNat : ℤ) : ℤ)) : K) = Datum.signed true ((-a).toNat : K) := by
      rw [Int.cast_neg, Int.cast_natCast]
      rfl
    rw [value, FloatFormat.roundSigned_signed _ _ (by positivity)]
    exact normalizeInt_returns mode true nonzero (-a).isLt
  · by_cases zero : a.toNat = 0
    · rw [zero, normalizeInt_zero]
      simpa [FloatFormat.roundSigned] using returns_zero false
    · have value : (((a.toNat : ℤ)) : K) = Datum.signed false (a.toNat : K) := by
        rw [Int.cast_natCast]
        rfl
      rw [value, FloatFormat.roundSigned_signed _ _ (by positivity)]
      exact normalizeInt_returns mode false zero a.isLt

end Signed

end Layout
variable {width : ℕ}

theorem elementMask_eq (le : width ≤ 64) : elementMask width = BitVec.ofNat 64 (2 ^ width - 1) := by
  rw [elementMask]
  split_ifs with whole
  · rw [whole]
    decide
  · have small : 2 ^ width < 2 ^ 64 := Nat.pow_lt_pow_right (by decide) (by omega)
    have pos : 0 < 2 ^ width := by positivity
    apply BitVec.eq_of_toNat_eq
    simp only [BitVec.toNat_sub, BitVec.toNat_shiftLeft, BitVec.toNat_ofNat, Nat.one_shiftLeft,
      show 1 % 2 ^ 64 = 1 by decide]
    omega

theorem wrap64_and_elementMask (le : width ≤ 64) (n : ℤ) :
    wrap64 n &&& elementMask width = (BitVec.ofInt width n).setWidth 64 := by
  have small : 2 ^ width ≤ 2 ^ 64 := Nat.pow_le_pow_right (by decide) le
  have pos : 0 < 2 ^ width := by positivity
  apply BitVec.eq_of_toNat_eq
  rw [elementMask_eq le, BitVec.toNat_and, BitVec.toNat_ofNat, Nat.mod_eq_of_lt (by omega),
    Nat.and_two_pow_sub_one_eq_mod, wrap64, BitVec.toNat_setWidth, BitVec.toNat_ofInt,
    BitVec.toNat_ofInt]
  have divides : (2 ^ width : ℤ) ∣ 2 ^ 64 := pow_dvd_pow 2 le
  have residue : (n % ((2 ^ width : ℕ) : ℤ)).toNat < 2 ^ width := by
    have := Int.emod_lt_of_pos n (show (0 : ℤ) < (2 ^ width : ℕ) by positivity)
    omega
  rw [Nat.mod_eq_of_lt (show _ < 2 ^ 64 by omega)]
  apply Int.natCast_inj.mp
  push_cast
  rw [Int.toNat_of_nonneg (Int.emod_nonneg _ (by positivity)),
    Int.toNat_of_nonneg (Int.emod_nonneg _ (by positivity))]
  exact Int.emod_emod_of_dvd n divides

theorem setWidth_ofInt (le : width ≤ 64) {n : ℤ} (low : 0 ≤ n) (high : n ≤ 2 ^ width - 1) :
    (BitVec.ofInt width n).setWidth 64 = BitVec.ofInt 64 n := by
  have small : (2 : ℤ) ^ width ≤ 2 ^ 64 := pow_le_pow_right₀ (by decide) le
  apply BitVec.eq_of_toNat_eq
  rw [BitVec.toNat_setWidth, BitVec.toNat_ofInt, BitVec.toNat_ofInt, Int.emod_eq_of_lt low,
    Int.emod_eq_of_lt low, Nat.mod_eq_of_lt]
  · zify
    omega
  · push_cast
    omega
  · push_cast
    omega

section Narrow

variable {width : ℕ} (le : width ≤ 64)
include le

theorem range_mono (unsigned : Bool) :
    least 64 unsigned ≤ least width unsigned ∧ greatest width unsigned ≤ greatest 64 unsigned := by
  have small : (2 : ℤ) ^ width ≤ 2 ^ 64 := pow_le_pow_right₀ (by decide) le
  have half : (2 : ℤ) ^ (width - 1) ≤ 2 ^ (64 - 1) := pow_le_pow_right₀ (by decide) (by omega)
  cases unsigned <;> simp only [least, greatest, Bool.false_eq_true, if_true, if_false] <;> omega

theorem clamp_unsigned {n : ℤ} (low : 0 ≤ n) (high : n ≤ 2 ^ 64 - 1) :
    (elementMask width < BitVec.ofInt 64 n ↔ 2 ^ width - 1 < n) ∧
      (if BitVec.ofInt 64 n ≤ elementMask width then BitVec.ofInt 64 n else elementMask width) =
        (BitVec.ofInt width (max 0 (min (2 ^ width - 1) n))).setWidth 64 := by
  have small : 2 ^ width ≤ 2 ^ 64 := Nat.pow_le_pow_right (by decide) le
  have pos : 0 < 2 ^ width := by positivity
  have toNat : ((BitVec.ofInt 64 n).toNat : ℤ) = n := by
    rw [BitVec.toNat_ofInt, Int.emod_eq_of_lt low (by push_cast; omega), Int.toNat_of_nonneg low]
  have mask : ((elementMask width).toNat : ℤ) = 2 ^ width - 1 := by
    rw [elementMask_eq le, BitVec.toNat_ofNat, Nat.mod_eq_of_lt (by omega)]
    push_cast [pos]
    rfl
  constructor
  · rw [BitVec.lt_def]
    omega
  · by_cases fits : BitVec.ofInt 64 n ≤ elementMask width
    · rw [if_pos fits]
      rw [BitVec.le_def] at fits
      rw [min_eq_right (by omega), max_eq_right low, setWidth_ofInt le low (by omega)]
    · rw [if_neg fits]
      rw [BitVec.le_def] at fits
      rw [min_eq_left (by omega), max_eq_right (by omega), setWidth_ofInt le (by omega) le_rfl,
        ← mask, BitVec.ofInt_natCast, BitVec.ofNat_toNat, BitVec.setWidth_eq]

theorem fp32ToIntegerWidth_rounds {K : Type*} [Field K] [LinearOrder K] [IsStrictOrderedRing K]
    [FloorSemiring K] (mode : Rounding) (unsigned : Bool) (value : BitVec sf32.size) :
    fp32ToIntegerWidth value width unsigned (rmOf mode) =
      let narrow := intResult width mode unsigned (sf32.decode K value)
      (narrow.1.setWidth 64, narrow.2) := by
  obtain ⟨lowWide, highWide⟩ := range_mono le unsigned
  obtain ⟨low, high⟩ := least_le_greatest width unsigned
  obtain ⟨low64, high64⟩ := least_le_greatest 64 unsigned
  have converts := Layout.cvtToI_rounds (K := K) (show 0 < 64 by decide) mode unsigned
    (by decide) (by decide) value
  simp only [fp32ToIntegerWidth, Layout.cvtToI64, converts, intResult]
  rw [Datum.toInt_narrow mode lowWide (low.trans high) highWide]
  have bounds := (sf32.decode K value).toInt_bounds mode (low64.trans high64)
  have flags := (sf32.decode K value).toInt_flags mode (least 64 unsigned) (greatest 64 unsigned)
  generalize (sf32.decode K value).toInt mode (least 64 unsigned) (greatest 64 unsigned) = wide
    at bounds flags
  have flagged : flagBits wide.2 &&& FFLAG_INVALID_OP ≠ 0#32 ↔ wide.2.invalid = true := by
    rcases flags with eq | ⟨inexact, eq⟩
    · rw [eq]
      decide
    · rw [eq]
      cases inexact <;> decide
  have invalid : (flagBits wide.2 &&& ~~~FFLAG_INEXACT) ||| FFLAG_INVALID_OP =
      flagBits { invalid := true } := by
    rcases flags with eq | ⟨inexact, eq⟩
    · rw [eq]
      decide
    · rw [eq]
      cases inexact <;> decide
  rw [invalid]
  simp only [flagged]
  cases unsigned
  · have word : (BitVec.ofInt 64 wide.1).toInt = wide.1 :=
      BitVec.toInt_ofInt_eq_self (by decide) bounds.1 (Int.lt_of_le_sub_one bounds.2)
    rw [if_neg (by decide), word, Datum.clamp, wrap64_and_elementMask le, wrap64_and_elementMask le]
    rw [show signedMinimum width = least width false from rfl,
      show signedMaximum width = greatest width false from rfl]
    by_cases out : wide.2.invalid = true ∨ wide.1 < least width false ∨
    greatest width false < wide.1
    · rw [if_pos out, if_pos out]
    · rw [if_neg out, if_neg out]
  · obtain ⟨beyond, clamped⟩ := clamp_unsigned le bounds.1 bounds.2
    have nonneg : 0 ≤ wide.1 := bounds.1
    have same : wide.2.invalid = true ∨ wide.1 < least width true ∨ greatest width true < wide.1 ↔
        wide.2.invalid = true ∨ 2 ^ width - 1 < wide.1 := by
      simp [least, greatest, nonneg.not_gt]
    rw [if_pos rfl, clamped, Datum.clamp]
    simp only [beyond, same]
    by_cases out : wide.2.invalid = true ∨ 2 ^ width - 1 < wide.1
    · rw [if_pos out, if_pos out]
      rfl
    · rw [if_neg out, if_neg out, setWidth_ofInt le nonneg (by omega)]

end Narrow

/-- Conversion to an integer rounds once, inexact exactly when it differs, or gives the bound with
only the invalid flag; the vector unit's narrower elements are rounded alike; and an integer
converts to the correctly rounded word. -/
theorem int_conversions_rounded_once (mode : Rounding) (unsigned : Bool) :
    (∀ a, sf32.cvtToI32 a (rmOf mode) unsigned =
        intResult 32 mode unsigned (sf32.decode ℚ a)) ∧
      (∀ a, sf32.cvtToI64 a (rmOf mode) unsigned =
        intResult 64 mode unsigned (sf32.decode ℚ a)) ∧
      (∀ a, sf64.cvtToI32 a (rmOf mode) unsigned =
        intResult 32 mode unsigned (sf64.decode ℚ a)) ∧
      (∀ a, sf64.cvtToI64 a (rmOf mode) unsigned =
        intResult 64 mode unsigned (sf64.decode ℚ a)) ∧
      (∀ width a, 0 < width → width ≤ 64 →
        fp32ToIntegerWidth a width unsigned (rmOf mode) =
          let narrow := intResult width mode unsigned (sf32.decode ℚ a)
          (narrow.1.setWidth 64, narrow.2)) ∧
      (∀ (L : Layout) a, L.Returns (L.cvtFromI32 a (rmOf mode) unsigned)
        (L.format.roundSigned mode false (intOf unsigned a : ℚ))) ∧
      ∀ (L : Layout) a, L.Returns (L.cvtFromI64 a (rmOf mode) unsigned)
        (L.format.roundSigned mode false (intOf unsigned a : ℚ)) := by
  refine ⟨?_, ?_, ?_, ?_, ?_, ?_, ?_⟩
  iterate 4 exact Layout.cvtToI_rounds (by decide) mode unsigned (by decide) (by decide)
  · intro width a _ le
    exact fp32ToIntegerWidth_rounds le mode unsigned a
  iterate 2
    intro L a
    exact Layout.cvtFromI_returns unsigned a mode

theorem half_word_rounded :
    fp32ToIntegerWidth 0xc0600000#32 16 false RM_RNE = (0xfffc#64, FFLAG_INEXACT) ∧
      fp32ToIntegerWidth 0xc0600000#32 16 false (rmOf .nearestEven) =
        let narrow := intResult 16 .nearestEven false (sf32.decode ℚ 0xc0600000#32)
        (narrow.1.setWidth 64, narrow.2) :=
  ⟨by decide +kernel,
    (int_conversions_rounded_once .nearestEven false).2.2.2.2.1 16 0xc0600000#32 (by decide)
      (by decide)⟩

/-- Every 32-bit integer converts to a double and back unchanged, without flags, in any two
modes. -/
theorem int32_through_double (mode mode' : Rounding) (unsigned : Bool) (a : BitVec 32) :
    (sf64.cvtFromI32 a (rmOf mode) unsigned).2 = 0#32 ∧
      sf64.cvtToI32 (sf64.cvtFromI32 a (rmOf mode) unsigned).1 (rmOf mode') unsigned =
        (a, 0#32) := by
  obtain ⟨word, flags⟩ : sf64.Returns (sf64.cvtFromI32 a _ unsigned) _ :=
    Layout.cvtFromI_returns (K := ℚ) unsigned a mode
  have bounds : least 32 unsigned ≤ intOf unsigned a ∧ intOf unsigned a ≤ greatest 32 unsigned := by
    have := a.isLt
    have := a.toInt_lt
    have := a.le_toInt
    cases unsigned <;> simp [least, greatest, intOf] at * <;> omega
  have same : BitVec.ofInt 32 (intOf unsigned a) = a := by
    cases unsigned <;> simp [intOf]
  generalize intOf unsigned a = v at *
  have signs : (if v < 0 then -(v.natAbs : ℤ) else v.natAbs) = v := by split_ifs <;> omega
  have holds : sf64.format.Holds (v.natAbs : ℚ) := by
    have bits : v.natAbs < 2 ^ 53 := by
      cases unsigned <;> simp [least, greatest] at bounds <;> omega
    refine ⟨v.natAbs, 0, by simp, bits, by decide, ?_⟩
    calc (v.natAbs : ℚ) < 2 ^ (53 : ℤ) := by exact_mod_cast bits
      _ ≤ 2 ^ (sf64.format.emax + 1) := zpow_le_zpow_right₀ one_le_two (by decide)
  have exact : sf64.format.roundSigned mode false (v : ℚ) = (.num (v < 0) v.natAbs, {}) := by
    have rounds := FloatFormat.round_of_holds mode (v < 0) holds
    rw [FloatFormat.roundSigned]
    split_ifs with zero
    · simp_all
    · simpa using rounds
  rw [exact] at word flags
  have decoded : sf64.decode ℚ _ = _ := word
  refine ⟨by rw [flags]; simp [flagBits], ?_⟩
  rw [Layout.cvtToI32,
    Layout.cvtToI_rounds (K := ℚ) (by decide) mode' unsigned (by decide) (by decide), decoded]
  simp only [intResult, Datum.toInt, Rounding.toNat_natCast, decide_eq_true_eq, signs]
  have whole := (Datum.intCast_eq_signed_iff (v < 0) v.natAbs (v.natAbs : ℚ)).mpr rfl
  simp only [decide_eq_true_eq, signs] at whole
  rw [Datum.saturate_within bounds.1 bounds.2, same, decide_eq_false (not_not.mpr whole)]
  simp [flagBits]

end Rv64Js.Softfp
