import Rv64Js.Softfp.Layout

/-! # The rounding step

`round_pack` rounds a mantissa whose leading one is at bit `F_SIZE - 2`, with `RND_SIZE` bits below
the last place; one that agrees with an exact value down to half the last place rounds as that
value. -/

set_option autoImplicit false

namespace Rv64Js.Softfp

open FloatFormat Nat

attribute [local instance] atLeastTwo_two

/-- `a` shifted right with what is lost kept in the last bit. -/
def rshiftRnd (size a d : ℕ) : ℕ :=
  if d = 0 then a
  else if size ≤ d then (decide (a ≠ 0)).toNat
  else a >>> d ||| (decide (a &&& ((1 <<< d) - 1) ≠ 0)).toNat

namespace Layout

variable (L : Layout)

def addend (sign : Bool) (rm : BitVec 3) : ℕ :=
  if rm = RM_RNE ∨ rm = RM_RMM then 1 <<< (L.rndSize - 1)
  else if rm = RM_RTZ then 0
  else if sign ^^ rm.getLsbD 0 then (1 <<< L.rndSize) - 1 else 0

def rndBits (mant : ℕ) : ℕ := mant &&& ((1 <<< L.rndSize) - 1)

/-- Cut the low bits off, rounding; a tie goes to the even neighbour in `RM_RNE`. -/
def cut (sign : Bool) (rm : BitVec 3) (mant : ℕ) : ℕ :=
  let cut := ((mant + L.addend sign rm) % 2 ^ L.size) >>> L.rndSize
  if rm = RM_RNE ∧ L.rndBits mant = 1 <<< (L.rndSize - 1) then cut - cut % 2 else cut

/-- The end of `round_pack`: a rounded mantissa and its exponent put into a word. -/
def assemble (sign : Bool) (exp : ℤ) (mant addend : ℕ) (fl : BitVec 32) :
    BitVec L.size × BitVec 32 :=
  let exp := exp + (mant >>> (L.mantSize + 1) : ℕ)
  if mant ≤ L.mantMask then (L.pack sign 0 mant, fl)
  else if exp ≥ L.expMask then
    if addend = 0 then
      (L.pack sign (L.expMask - 1) L.mantMask, fl ||| (FFLAG_OVERFLOW ||| FFLAG_INEXACT))
    else (L.pack sign L.expMask 0, fl ||| (FFLAG_OVERFLOW ||| FFLAG_INEXACT))
  else (L.pack sign exp.toNat mant, fl)

def roundPack (sign : Bool) (exp : ℤ) (mant : ℕ) (rm : BitVec 3) : BitVec L.size × BitVec 32 :=
  let addend := L.addend sign rm
  if exp ≤ 0 then
    let isSubnormal := exp < 0 ∨ (mant + addend) % 2 ^ L.size < 1 <<< (L.size - 1)
    let mant := rshiftRnd L.size mant (1 - exp).toNat
    let fl := if isSubnormal ∧ L.rndBits mant ≠ 0 then FFLAG_UNDERFLOW else 0#32
    let fl := if L.rndBits mant ≠ 0 then fl ||| FFLAG_INEXACT else fl
    L.assemble sign 1 (L.cut sign rm mant) addend fl
  else
    let fl := if L.rndBits mant ≠ 0 then FFLAG_INEXACT else 0#32
    L.assemble sign exp (L.cut sign rm mant) addend fl

/-- `mant` has at most `F_SIZE - 1` bits. -/
def normalize (sign : Bool) (exp : ℤ) (mant : ℕ) (rm : BitVec 3) : BitVec L.size × BitVec 32 :=
  let shift := leadingZeros L.size mant - (L.size - 1 - L.imantSize)
  L.roundPack sign (exp - shift) (L.shl mant shift) rm

end Layout

section Bits

variable {K : Type*} [Field K] [LinearOrder K] [IsStrictOrderedRing K] [FloorSemiring K]

theorem rshiftRnd_eq_jam {size a : ℕ} (bound : a < 2 ^ size) (d : ℕ) :
    rshiftRnd size a d = jam ((a : K) / (2 ^ d : ℕ)) := by
  rw [jam_div _ _ (by positivity)]
  unfold rshiftRnd
  by_cases none : d = 0
  · simp [none, mod_one]
  rw [if_neg none]
  by_cases all : size ≤ d
  · have small : a < 2 ^ d := bound.trans_le (Nat.pow_le_pow_right (by decide) all)
    rw [if_pos all, Nat.div_eq_of_lt small, Nat.mod_eq_of_lt small, Nat.zero_or]
    by_cases zero : a = 0 <;> simp [zero]
  · rw [if_neg all, shiftRight_eq_div_pow, one_shiftLeft, and_two_pow_sub_one_eq_mod]
    by_cases exact : a % 2 ^ d = 0 <;> simp [exact]

theorem rshiftRnd_agree {size a : ℕ} (bound : a < 2 ^ size) (d : ℕ) :
    Agree 2 (rshiftRnd size a d : K) (a / 2 ^ d) := by
  rw [rshiftRnd_eq_jam (K := K) bound, cast_pow, cast_ofNat]
  exact jam_agree (by positivity)

theorem log2_shift {n s k : ℕ} (nonzero : n ≠ 0) (place : n.log2 + s = k) :
    2 ^ k ≤ n * 2 ^ s ∧ n * 2 ^ s < 2 ^ (k + 1) := by
  subst place
  rw [pow_add, show n.log2 + s + 1 = n.log2 + 1 + s by omega, pow_add 2 (n.log2 + 1)]
  exact ⟨mul_le_mul_right _ (log2_self_le nonzero),
    mul_lt_mul_of_pos_right lt_log2_self (by positivity)⟩

theorem two_pow_le_div {n k s t : ℕ} (room : k + s ≤ t) (le : 2 ^ t ≤ n) :
    (2 : K) ^ k ≤ (n : K) / (2 ^ s : ℕ) := by
  rw [le_div_iff₀ (by positivity)]
  have : 2 ^ k * 2 ^ s ≤ n := by
    rw [← pow_add]
    exact (Nat.pow_le_pow_right (by decide) room).trans le
  exact_mod_cast this

theorem div_lt_two_pow {n k s t : ℕ} (room : t ≤ k + s) (lt : n < 2 ^ t) :
    (n : K) / (2 ^ s : ℕ) < 2 ^ k := by
  rw [div_lt_iff₀ (by positivity)]
  have : n < 2 ^ k * 2 ^ s := by
    rw [← pow_add]
    exact lt.trans_le (Nat.pow_le_pow_right (by decide) room)
  exact_mod_cast this

theorem two_pow_le_jam {y : K} {k : ℕ} (even : 1 ≤ k) (nonneg : 0 ≤ y) :
    2 ^ k ≤ jam y ↔ 2 ^ k ≤ y := by
  have := Agree.jam_le_iff (k := k) nonneg (by omega)
  rw [zpow_natCast] at this
  rw [← this]
  norm_cast

theorem jam_lt {y : K} {k : ℕ} (nonneg : 0 ≤ y) (even : 1 ≤ k) (lt : y < 2 ^ k) : jam y < 2 ^ k :=
  not_le.mp ((two_pow_le_jam even nonneg).not.mpr (not_le.mpr lt))

/-- Where only zeros are shifted out nothing is jammed. -/
theorem jam_div_multiple {n d e : ℕ} (multiple : 2 ^ e ∣ n) (le : d ≤ e) :
    (jam ((n : K) / (2 ^ d : ℕ)) : K) = n / (2 ^ d : ℕ) := by
  obtain ⟨m, rfl⟩ := (pow_dvd_pow 2 le).trans multiple
  rw [cast_mul, mul_div_cancel_left₀ _ (by positivity), jam_natCast]

theorem two_pow_mul {a b c : ℕ} (sum : a + b = c) : 2 ^ a * 2 ^ b = 2 ^ c := by rw [← pow_add, sum]

end Bits

namespace Layout

section Special

variable {K : Type*} [Field K] {L : Layout}

theorem returns_nan {fl : BitVec 32} (signaling : Bool)
    (flags : fl = if signaling then FFLAG_INVALID_OP else 0#32) :
    L.Returns (L.qnan, fl) (nanResult (K := K) signaling) := by
  refine ⟨by simp [Represents, nanResult, Datum.isNan], ?_⟩
  rw [flags]
  cases signaling <;> simp [flagBits, nanResult]

theorem returns_invalid : L.Returns (L.qnan, FFLAG_INVALID_OP) (invalidResult (K := K)) :=
  returns_nan true rfl

theorem returns_word {a : BitVec L.size} {d : Datum K} (decoded : L.decode K a = d)
    (notNan : d.isNan = false) : L.Returns (a, 0#32) (d, {}) := by
  refine ⟨?_, by simp [flagBits]⟩
  simp [Represents, notNan, decoded]

theorem returns_inf (sign : Bool) :
    L.Returns (L.pack sign L.expMask 0, 0#32) ((.inf sign : Datum K), {}) :=
  returns_word (decode_pack_inf sign) rfl

theorem returns_zero (sign : Bool) :
    L.Returns (L.pack sign 0 0, 0#32) ((.num sign 0 : Datum K), {}) := by
  have mask := L.expMask_eq_bias
  apply returns_word _ rfl
  simp [decode_pack (K := K) (L := L) sign 0 (show 0 < L.expMask by omega)]

end Special

variable {K : Type*} [Field K] [LinearOrder K] [IsStrictOrderedRing K] [FloorSemiring K]
variable (L : Layout) (mode : Rounding) (sign : Bool)

theorem rndSize_large : 4 ≤ L.rndSize := by
  have := L.expWide
  rw [rndSize_eq]
  omega

theorem two_pow_rndSize : 2 ^ L.rndSize = 2 * 2 ^ (L.rndSize - 1) := by
  have := L.rndSize_large
  rw [← pow_succ']
  congr 1
  omega

variable (mant : ℕ)

theorem rndBits_eq : L.rndBits mant = mant % 2 ^ L.rndSize := by
  rw [rndBits, one_shiftLeft, and_two_pow_sub_one_eq_mod]

theorem addend_rmOf : L.addend sign (rmOf mode) =
    match mode with
    | .nearestEven | .nearestAway => 2 ^ (L.rndSize - 1)
    | .towardZero => 0
    | .down => if sign then 2 ^ L.rndSize - 1 else 0
    | .up => if sign then 0 else 2 ^ L.rndSize - 1 := by
  cases mode <;> cases sign <;> simp [addend, rmOf, RM_RNE, RM_RMM, RM_RTZ, RM_RDN, RM_RUP,
    one_shiftLeft]

theorem addend_lt : L.addend sign (rmOf mode) < 2 ^ L.rndSize := by
  have := L.two_pow_rndSize
  have : 0 < 2 ^ (L.rndSize - 1) := by positivity
  rw [addend_rmOf]
  cases mode <;> cases sign <;> simp only [Bool.false_eq_true, if_true, if_false] <;> omega

theorem addend_eq_zero_iff : L.addend sign (rmOf mode) = 0 ↔ mode.toInfinity sign = false := by
  have := L.two_pow_rndSize
  have : 0 < 2 ^ (L.rndSize - 1) := by positivity
  rw [addend_rmOf]
  cases mode <;> cases sign <;> simp [Rounding.toInfinity] <;> omega

theorem two_pow_rndSize_le : 2 ^ L.rndSize ≤ 2 ^ (L.size - 1) := by
  apply Nat.pow_le_pow_right (by decide)
  rw [rndSize_eq]
  simp only [size]
  omega

variable {mant : ℕ}

theorem add_addend_mod (bound : mant < 2 ^ (L.size - 1)) :
    (mant + L.addend sign (rmOf mode)) % 2 ^ L.size = mant + L.addend sign (rmOf mode) := by
  apply mod_eq_of_lt
  have := L.addend_lt mode sign
  have := L.two_pow_rndSize_le
  have := L.two_pow_size
  omega

theorem cut_eq (bound : mant < 2 ^ (L.size - 1)) :
    L.cut sign (rmOf mode) mant = mode.toNat sign ((mant : K) / 2 ^ L.rndSize) := by
  have half : ((2 : K) ^ L.rndSize) = (2 * 2 ^ (L.rndSize - 1) : ℕ) := by
    rw [← two_pow_rndSize]
    push_cast
    rfl
  rw [half, Rounding.toNat_div (by positivity), ← two_pow_rndSize]
  unfold cut
  rw [L.add_addend_mod mode sign bound, rndBits_eq, addend_rmOf, shiftRight_eq_div_pow,
    one_shiftLeft]
  cases mode <;> cases sign <;> simp [rmOf, RM_RNE, RM_RMM, RM_RTZ, RM_RDN, RM_RUP]

section Assemble

variable {sign} {exp : ℤ} {n : ℕ} {addend : ℕ} {fl : BitVec 32} (top : n ≤ 2 ^ (L.mantSize + 1))
    (low : exp ≠ 1 → 2 ^ L.mantSize ≤ n)
include top low

theorem out_of_range_iff : (2 : K) ^ (L.format.emax + 1) ≤ n * 2 ^ (exp - L.bias - L.mantSize) ↔
    2 ^ L.mantSize ≤ n ∧ L.expMask ≤ exp + (n >>> (L.mantSize + 1) : ℕ) := by
  have mask := L.expMask_eq_bias
  have wide := L.bias_large
  simp only [format]
  rcases lt_or_ge n (2 ^ L.mantSize) with subnormal | normalized
  · have first : exp = 1 := by
      by_contra other
      exact absurd (low other) (by omega)
    have below := natCast_mul_lt (K := K) subnormal (exp - L.bias - L.mantSize)
    constructor
    · intro out
      have := (zpow_lt_zpow_iff_right₀ (one_lt_two (α := K))).mp (out.trans_lt below)
      omega
    · intro out
      omega
  have above := le_natCast_mul (K := K) normalized (exp - L.bias - L.mantSize)
  rcases Nat.lt_or_ge n (2 ^ (L.mantSize + 1)) with within | carry
  · have below := natCast_mul_lt (K := K) within (exp - L.bias - L.mantSize)
    rw [shiftRight_eq_div_pow, div_eq_of_lt within]
    constructor
    · intro out
      have := (zpow_lt_zpow_iff_right₀ (one_lt_two (α := K))).mp (out.trans_lt below)
      omega
    · rintro ⟨-, out⟩
      exact le_trans (zpow_le_zpow_right₀ one_le_two (by omega)) above
  · obtain rfl : n = 2 ^ (L.mantSize + 1) := le_antisymm top carry
    rw [Nat.shiftRight_eq_div_pow, Nat.div_self (by positivity), Nat.cast_pow, Nat.cast_ofNat,
      ← zpow_natCast, ← zpow_add₀ two_ne_zero, zpow_le_zpow_iff_right₀ one_lt_two]
    omega

theorem assemble_overflow
    (out : (2 : K) ^ (L.format.emax + 1) ≤ n * 2 ^ (exp - L.bias - L.mantSize)) :
    L.assemble sign exp n addend fl =
      (if addend = 0 then L.pack sign (L.expMask - 1) L.mantMask else L.pack sign L.expMask 0,
        fl ||| (FFLAG_OVERFLOW ||| FFLAG_INEXACT)) := by
  obtain ⟨normalized, field⟩ := (L.out_of_range_iff top low).mp out
  have pos : 0 < 2 ^ L.mantSize := by positivity
  have large : ¬ n ≤ L.mantMask := by
    rw [mantMask_eq]
    omega
  simp only [assemble, large, if_false, ge_iff_le, field, if_true]
  split_ifs <;> rfl

theorem assemble_fits (normal : 1 ≤ exp)
    (fits : n * 2 ^ (exp - L.bias - L.mantSize) < (2 : K) ^ (L.format.emax + 1)) :
    ∃ r, L.assemble sign exp n addend fl = (r, fl) ∧
      L.decode K r = .num sign (n * 2 ^ (exp - L.bias - L.mantSize)) := by
  have mask := L.expMask_eq_bias
  have wide := L.bias_large
  have pos : 0 < 2 ^ L.mantSize := by positivity
  have inside := (L.out_of_range_iff (K := K) top low).not.mp (not_le.mpr fits)
  have maskM := L.mantMask_eq
  by_cases subnormal : n ≤ L.mantMask
  · have first : exp = 1 := by
      by_contra other
      have := low other
      omega
    refine ⟨L.pack sign 0 n, by simp only [assemble, subnormal, if_true], ?_⟩
    rw [decode_pack _ _ (by omega), if_pos rfl, mod_eq_of_lt (by omega), first]
    rfl
  have normalized : 2 ^ L.mantSize ≤ n := by omega
  have field : exp + (n >>> (L.mantSize + 1) : ℕ) < L.expMask := by
    by_contra outside
    exact inside ⟨normalized, by omega⟩
  refine ⟨L.pack sign (exp + (n >>> (L.mantSize + 1) : ℕ)).toNat n, ?_, ?_⟩
  · simp only [assemble, subnormal, if_false, ge_iff_le, not_le.mpr field]
  obtain ⟨carry, hcarry⟩ : ∃ carry, n >>> (L.mantSize + 1) = carry := ⟨_, rfl⟩
  rw [hcarry] at field ⊢
  rw [decode_pack _ _ (by omega), if_neg (by omega)]
  have exps : ((max 1 (exp + carry).toNat : ℕ) : ℤ) = exp + carry := by omega
  rw [exps]
  rw [shiftRight_eq_div_pow] at hcarry
  rcases Nat.lt_or_ge n (2 ^ (L.mantSize + 1)) with within | outside
  · have sig : 2 ^ L.mantSize + n % 2 ^ L.mantSize = n := by
      have split : n = 2 ^ L.mantSize + (n - 2 ^ L.mantSize) := by omega
      have rest : n - 2 ^ L.mantSize < 2 ^ L.mantSize := by
        rw [pow_succ] at within
        omega
      rw [split, add_mod_left, mod_eq_of_lt rest]
    rw [div_eq_of_lt within] at hcarry
    rw [sig, ← hcarry]
    simp
  · obtain rfl : n = 2 ^ (L.mantSize + 1) := le_antisymm top outside
    have sig : 2 ^ L.mantSize + 2 ^ (L.mantSize + 1) % 2 ^ L.mantSize = 2 ^ L.mantSize := by
      rw [pow_succ, mul_mod_right]
      rfl
    rw [Nat.div_self (by positivity)] at hcarry
    rw [sig, ← hcarry]
    push_cast
    rw [← zpow_natCast, ← zpow_natCast, ← zpow_add₀ two_ne_zero, ← zpow_add₀ two_ne_zero]
    congr 2
    push_cast
    ring

variable {L mode} {x : K}

/-- The end of `round_pack` gives the rounded datum once the mantissa is the rounded one. -/
theorem assemble_returns {y : K} (normal : 1 ≤ exp)
    (value : y = n * 2 ^ (exp - L.bias - L.mantSize))
    (rounded : roundAt mode sign (L.format.place x) x = y) (fits : fl = flagBits
      { inexact := y ≠ x
        underflow := roundAt mode sign (L.format.freePlace x) x < 2 ^ L.format.emin &&
          y ≠ x })
    (out : 2 ^ (L.format.emax + 1) ≤ y → fl ||| FFLAG_INEXACT = FFLAG_INEXACT) :
    L.Returns (L.assemble sign exp n (L.addend sign (rmOf mode)) fl)
      (L.format.round mode sign x) := by
  rcases le_or_gt (2 ^ (L.format.emax + 1)) y with outside | within
  · rw [round_overflow (by rwa [rounded]), L.assemble_overflow top low (by rwa [← value])]
    constructor
    · by_cases saturates : mode.toInfinity sign = false
      · rw [if_pos ((L.addend_eq_zero_iff mode sign).mpr saturates), if_neg (by simp [saturates])]
        simpa [Represents, Datum.isNan] using decode_pack_largest sign
      · rw [if_neg (fun zero => saturates ((L.addend_eq_zero_iff mode sign).mp zero)),
          if_pos (by simpa using saturates)]
        simpa [Represents, Datum.isNan] using decode_pack_inf sign
    · rw [BitVec.or_comm FFLAG_OVERFLOW, ← BitVec.or_assoc, out outside]
      show FFLAG_INEXACT ||| FFLAG_OVERFLOW = flagBits { inexact := true, overflow := true }
      decide
  · obtain ⟨r, eq, decoded⟩ : ∃ r, L.assemble sign exp n (L.addend sign (rmOf mode)) fl = (r, fl) ∧
        L.decode K r = .num sign (n * 2 ^ (exp - L.bias - L.mantSize)) :=
      L.assemble_fits top low normal (by rwa [← value])
    rw [round_fits (by rwa [rounded]), eq, rounded]
    constructor
    · simpa [Represents, Datum.isNan, value] using decoded
    · exact fits

end Assemble

/-- The exponent of the last bit of a mantissa that `round_pack` takes with an exponent. -/
def unit (exp : ℤ) : ℤ := exp - L.bias - L.imantSize

theorem imantSize_eq : L.imantSize = L.mantSize + L.rndSize := by
  have := L.expWide
  rw [rndSize_eq]
  simp only [imantSize, size]
  omega

theorem size_eq : L.size = L.imantSize + 2 := by
  have := L.expWide
  simp only [imantSize, size]
  omega

theorem sizes : L.size = L.imantSize + 2 ∧ L.imantSize = L.mantSize + L.rndSize ∧ 4 ≤ L.rndSize :=
  ⟨L.size_eq, L.imantSize_eq, L.rndSize_large⟩

section Exact

variable {mant : ℕ} {exp : ℤ} (low : 2 ^ L.imantSize ≤ mant) (high : mant < 2 ^ (L.size - 1))
include low high

theorem log_unit : Int.log 2 ((mant : K) * 2 ^ L.unit exp) = exp - L.bias := by
  have := L.size_eq
  apply log_eq
  · have := le_natCast_mul (K := K) low (L.unit exp)
    rwa [unit, add_sub_cancel] at this
  · have := natCast_mul_lt (K := K) high (L.unit exp)
    rwa [show ((L.size - 1 : ℕ) : ℤ) + L.unit exp = exp - L.bias + 1 by unfold unit; omega] at this

theorem place_unit :
    L.format.place ((mant : K) * 2 ^ L.unit exp) = max exp 1 - L.bias - L.mantSize := by
  rw [place, L.log_unit low high]
  simp only [format]
  omega

variable (exp) in
theorem freePlace_unit :
    L.format.freePlace ((mant : K) * 2 ^ L.unit exp) = exp - L.bias - L.mantSize := by
  rw [freePlace, L.log_unit low high]
  simp only [format]
  omega

end Exact

omit [IsStrictOrderedRing K] in
theorem unit_div (exp : ℤ) :
    (mant : K) * 2 ^ L.unit exp / 2 ^ (exp - L.bias - L.mantSize) = mant / 2 ^ L.rndSize := by
  have := L.imantSize_eq
  rw [mul_div_assoc, ← zpow_sub₀ two_ne_zero,
    show L.unit exp - (exp - L.bias - L.mantSize) = -(L.rndSize : ℤ) by unfold unit; omega,
    zpow_neg, zpow_natCast, div_eq_mul_inv]

theorem rndBits_eq_zero_iff : L.rndBits mant = 0 ↔ ∃ n : ℕ, (mant : K) / 2 ^ L.rndSize = n := by
  have unit : (2 : K) ^ L.rndSize ≠ 0 := by positivity
  rw [rndBits_eq, ← dvd_iff_mod_eq_zero]
  constructor
  · rintro ⟨n, rfl⟩
    refine ⟨n, ?_⟩
    push_cast
    field_simp
  · rintro ⟨n, eq⟩
    rw [div_eq_iff unit] at eq
    exact ⟨n, by rw [mul_comm]; exact_mod_cast eq⟩

variable {k : ℕ}

theorem cut_le (bound : mant < 2 ^ (L.size - 1)) (le : mant ≤ 2 ^ (k + L.rndSize)) :
    L.cut sign (rmOf mode) mant ≤ 2 ^ k := by
  rw [L.cut_eq (K := ℚ) mode sign bound]
  apply Rounding.toNat_le _ _ (by positivity)
  rw [pow_add] at le
  rw [div_le_iff₀ (by positivity)]
  exact_mod_cast le

theorem le_cut (bound : mant < 2 ^ (L.size - 1)) (le : 2 ^ (k + L.rndSize) ≤ mant) :
    2 ^ k ≤ L.cut sign (rmOf mode) mant := by
  rw [L.cut_eq (K := ℚ) mode sign bound]
  apply Rounding.le_toNat
  rw [pow_add] at le
  rw [le_div_iff₀ (by positivity)]
  exact_mod_cast le

theorem cut_lt_iff (bound : mant < 2 ^ (L.size - 1)) :
    L.cut sign (rmOf mode) mant < 2 ^ (L.mantSize + 1) ↔
      mant + L.addend sign (rmOf mode) < 2 ^ (L.size - 1) := by
  have top : 2 ^ (L.size - 1) = 2 ^ (L.mantSize + 1) * 2 ^ L.rndSize := by
    have := L.size_eq
    have := L.imantSize_eq
    rw [← pow_add]
    congr 1
    omega
  have quotient := div_lt_iff_lt_mul (x := mant + L.addend sign (rmOf mode))
    (y := 2 ^ (L.mantSize + 1)) (show 0 < 2 ^ L.rndSize by positivity)
  simp only [cut, L.add_addend_mod mode sign bound, shiftRight_eq_div_pow]
  rw [top, ← quotient]
  generalize (mant + L.addend sign (rmOf mode)) / 2 ^ L.rndSize = c
  split_ifs
  · omega
  · rfl

section Shifted

variable {mant : ℕ} (high : mant < 2 ^ (L.size - 1)) {d : ℕ}
include high

theorem rshiftRnd_agree_last :
    Agree (2 ^ (L.rndSize - 1 : ℤ)) (rshiftRnd L.size mant d : K) (mant / 2 ^ d) := by
  have inWord : mant < 2 ^ L.size := by
    rw [two_pow_size]
    omega
  have two : Agree (2 ^ (1 : ℤ)) (rshiftRnd L.size mant d : K) (mant / 2 ^ d) := by
    rw [zpow_one]
    exact rshiftRnd_agree inWord d
  have := L.rndSize_large
  exact two.two_pow_mono (by omega)

variable (d) in
theorem rshiftRnd_halves :
    Agree (1 / 2) ((rshiftRnd L.size mant d : K) / 2 ^ L.rndSize)
      (mant / 2 ^ d / 2 ^ L.rndSize) := by
  have := (L.rshiftRnd_agree_last (K := K) high (d := d)).div_two_pow L.rndSize
  rwa [show (L.rndSize : ℤ) - 1 - L.rndSize = -1 by ring, zpow_neg_one, ← one_div,
    zpow_natCast] at this

theorem rshiftRnd_lt (some : 1 ≤ d) : rshiftRnd L.size mant d < 2 ^ L.imantSize := by
  obtain ⟨sizeEq, imantEq, rndLarge⟩ := L.sizes
  rw [rshiftRnd_eq_jam (K := ℚ) (high.trans_le (Nat.pow_le_pow_right (by decide) (Nat.sub_le _ _)))]
  exact jam_lt (by positivity) (by omega) (div_lt_two_pow (by omega) high)

end Shifted

section Exact

variable {mant : ℕ} {exp : ℤ} (low : 2 ^ L.imantSize ≤ mant) (high : mant < 2 ^ (L.size - 1))
include high

variable (exp) in
theorem roundAt_freePlace :
    roundAt mode sign (exp - L.bias - L.mantSize) ((mant : K) * 2 ^ L.unit exp) =
      L.cut sign (rmOf mode) mant * 2 ^ (exp - L.bias - L.mantSize) := by
  rw [roundAt, unit_div, L.cut_eq (K := K) mode sign high]

theorem cut_top : L.cut sign (rmOf mode) mant ≤ 2 ^ (L.mantSize + 1) := by
  have := L.size_eq
  have := L.imantSize_eq
  apply L.cut_le mode sign high
  rw [show L.mantSize + 1 + L.rndSize = L.size - 1 by omega]
  exact high.le

/-- Below the normal range the value rounded with a free exponent is tiny exactly when the
code says so. -/
theorem tiny_iff (small : exp ≤ 0) :
    roundAt mode sign (exp - L.bias - L.mantSize) ((mant : K) * 2 ^ L.unit exp) <
        2 ^ L.format.emin ↔
      exp < 0 ∨ (mant + L.addend sign (rmOf mode)) % 2 ^ L.size < 1 <<< (L.size - 1) := by
  have top := L.cut_top mode sign high
  rw [L.roundAt_freePlace mode sign exp high, L.add_addend_mod mode sign high, one_shiftLeft,
    ← L.cut_lt_iff mode sign high]
  simp only [format]
  rcases lt_or_eq_of_le small with below | rfl
  · have lt : L.cut sign (rmOf mode) mant < 2 ^ (L.mantSize + 2) := by
      rw [pow_succ]
      have : 0 < 2 ^ (L.mantSize + 1) := by positivity
      omega
    constructor
    · intro _
      exact .inl below
    · intro _
      calc (L.cut sign (rmOf mode) mant : K) * 2 ^ (exp - L.bias - L.mantSize)
          ≤ (2 ^ (L.mantSize + 1) : ℕ) * 2 ^ (exp - L.bias - L.mantSize) := by gcongr
        _ = 2 ^ (exp - L.bias + 1) := by
            rw [cast_pow, cast_ofNat, ← zpow_natCast, ← zpow_add₀ two_ne_zero]
            congr 1
            push_cast
            ring
        _ < 2 ^ (1 - L.bias : ℤ) := zpow_lt_zpow_right₀ one_lt_two (by omega)
  · have place : ((L.mantSize + 1 : ℕ) : ℤ) + (0 - L.bias - L.mantSize) = 1 - L.bias := by
      push_cast
      ring
    constructor
    · intro tiny
      right
      by_contra carry
      have := le_natCast_mul (K := K) (not_lt.mp carry) (0 - L.bias - L.mantSize)
      rw [place] at this
      exact absurd tiny (not_lt.mpr this)
    · rintro (absurd | lt)
      · omega
      · have := natCast_mul_lt (K := K) lt (0 - L.bias - L.mantSize)
        rwa [place] at this

include low

theorem roundPack_normal (normal : 1 ≤ exp) :
    L.Returns (L.roundPack sign exp mant (rmOf mode))
      (L.format.round mode sign ((mant : K) * 2 ^ L.unit exp)) := by
  have atFree := L.roundAt_freePlace (K := K) mode sign exp high
  have bottom : 2 ^ L.mantSize ≤ L.cut sign (rmOf mode) mant :=
    L.le_cut mode sign high (by rwa [← imantSize_eq])
  have large : ¬ roundAt mode sign (exp - L.bias - L.mantSize)
      ((mant : K) * 2 ^ L.unit exp) < 2 ^ L.format.emin := by
    rw [atFree, not_lt]
    refine le_trans ?_ (le_natCast_mul bottom _)
    apply zpow_le_zpow_right₀ one_le_two
    simp only [format]
    omega
  have exact : L.rndBits mant = 0 ↔
      (L.cut sign (rmOf mode) mant : K) * 2 ^ (exp - L.bias - L.mantSize) =
        mant * 2 ^ L.unit exp := by
    rw [← atFree, roundAt_eq_self, unit_div, ← rndBits_eq_zero_iff]
  rw [roundPack, if_neg (by omega)]
  apply assemble_returns (K := K) (L.cut_top mode sign high) (fun _ => bottom) normal rfl
  · rw [L.place_unit low high, max_eq_left normal, atFree]
  · rw [L.freePlace_unit exp low high]
    simp only [large, decide_false, Bool.false_and, ne_eq, ← exact]
    by_cases lost : L.rndBits mant = 0 <;> simp [lost, flagBits]
  · intro _
    split_ifs <;> decide

theorem roundPack_subnormal (small : exp ≤ 0) :
    L.Returns (L.roundPack sign exp mant (rmOf mode))
      (L.format.round mode sign ((mant : K) * 2 ^ L.unit exp)) := by
  have := L.size_eq
  have := L.imantSize_eq
  have wide := L.bias_large
  obtain ⟨d, hd⟩ : ∃ d : ℕ, (d : ℤ) = 1 - exp := ⟨(1 - exp).toNat, by omega⟩
  have dpos : 1 ≤ d := by omega
  -- the shifted mantissa agrees with the exact quotient, so it rounds alike
  set shifted := rshiftRnd L.size mant d with shiftedDef
  have halves : Agree (1 / 2) ((shifted : K) / 2 ^ L.rndSize) (mant / 2 ^ d / 2 ^ L.rndSize) :=
    L.rshiftRnd_halves high d
  have shiftedLt : shifted < 2 ^ L.imantSize := L.rshiftRnd_lt high dpos
  have shiftedHigh : shifted < 2 ^ (L.size - 1) :=
    shiftedLt.trans (Nat.pow_lt_pow_right (by decide) (by omega))
  have top : L.cut sign (rmOf mode) shifted ≤ 2 ^ L.mantSize :=
    L.cut_le mode sign shiftedHigh (by rw [← imantSize_eq]; exact shiftedLt.le)
  have quotient : (mant : K) * 2 ^ L.unit exp / 2 ^ (1 - L.bias - L.mantSize : ℤ) =
      mant / 2 ^ d / 2 ^ L.rndSize := by
    rw [mul_div_assoc, ← zpow_sub₀ two_ne_zero,
      show L.unit exp - (1 - L.bias - L.mantSize) = -((d + L.rndSize : ℕ) : ℤ) by
        unfold unit
        push_cast
        omega,
      zpow_neg, zpow_natCast, pow_add, div_div, div_eq_mul_inv]
  have rounded : roundAt mode sign (1 - L.bias - L.mantSize)
      ((mant : K) * 2 ^ L.unit exp) =
      L.cut sign (rmOf mode) shifted * 2 ^ (1 - L.bias - L.mantSize : ℤ) := by
    rw [roundAt, quotient, L.cut_eq (K := K) mode sign shiftedHigh,
      halves.toNat_eq (by positivity) (by positivity)]
  have exact : L.rndBits shifted = 0 ↔
      (L.cut sign (rmOf mode) shifted : K) * 2 ^ (1 - L.bias - L.mantSize : ℤ) =
        mant * 2 ^ L.unit exp := by
    rw [← rounded, roundAt_eq_self, quotient, L.rndBits_eq_zero_iff (K := K),
      halves.isNat_iff]
  have tiny := L.tiny_iff (K := K) mode sign high small
  rw [roundPack, if_pos small, show (1 - exp).toNat = d by omega]
  simp only [← shiftedDef, ← tiny]
  apply assemble_returns (K := K) (by rw [pow_succ]; omega)
    (fun normal : (1 : ℤ) ≠ 1 => absurd rfl normal) le_rfl rfl
  · rw [L.place_unit low high, max_eq_right (by omega), rounded]
  · rw [L.freePlace_unit exp low high]
    simp only [ne_eq, ← exact]
    by_cases lost : L.rndBits shifted = 0
    · simp [lost, flagBits]
    · by_cases is : roundAt mode sign (exp - L.bias - L.mantSize)
        ((mant : K) * 2 ^ L.unit exp) < 2 ^ L.format.emin
      · simp [lost, is, flagBits, BitVec.or_comm]
      · simp [lost, is, flagBits]
  · intro out
    have lt : L.cut sign (rmOf mode) shifted < 2 ^ (L.mantSize + 1) := by
      rw [pow_succ]
      have : 0 < 2 ^ L.mantSize := by positivity
      omega
    have below := natCast_mul_lt (K := K) lt (1 - L.bias - L.mantSize)
    have := (zpow_lt_zpow_iff_right₀ (one_lt_two (α := K))).mp (out.trans_lt below)
    simp only [format] at this
    omega

variable (exp) in
theorem roundPack_exact :
    L.Returns (L.roundPack sign exp mant (rmOf mode))
      (L.format.round mode sign ((mant : K) * 2 ^ L.unit exp)) := by
  rcases le_or_gt exp 0 with small | normal
  · exact L.roundPack_subnormal mode sign low high small
  · exact L.roundPack_normal mode sign low high normal

/-- A mantissa that agrees with an exact value down to half the last place rounds as that value. -/
theorem roundPack_agree {y : K} (exp : ℤ) (agree : Agree (2 ^ (L.rndSize - 1 : ℤ)) (mant : K) y) :
    L.Returns (L.roundPack sign exp mant (rmOf mode))
      (L.format.round mode sign (y * 2 ^ L.unit exp)) := by
  have := L.imantSize_eq
  have pos : 0 < mant := lt_of_lt_of_le (by positivity) low
  have place := L.freePlace_unit (K := K) exp low high
  have scaled := agree.scale (k := (2 : K) ^ L.unit exp) (by positivity)
  rw [← zpow_add₀ two_ne_zero] at scaled
  rw [← (scaled.two_pow_mono (l := L.format.freePlace ((mant : K) * 2 ^ L.unit exp) - 1)
    (by rw [place]; unfold unit; omega)).round_eq (by positivity) (by simp [format])]
  exact L.roundPack_exact mode sign exp low high

end Exact

variable {L} in
theorem shl_of_lt {mant bits : ℕ} (shift : ℕ) (lt : mant < 2 ^ bits) (le : bits + shift ≤ L.size) :
    L.shl mant shift = mant * 2 ^ shift ∧ mant * 2 ^ shift < 2 ^ L.size := by
  have fits : mant * 2 ^ shift < 2 ^ L.size := by
    calc mant * 2 ^ shift < 2 ^ bits * 2 ^ shift := mul_lt_mul_of_pos_right lt (by positivity)
      _ = 2 ^ (bits + shift) := two_pow_mul rfl
      _ ≤ 2 ^ L.size := Nat.pow_le_pow_right (by decide) le
  refine ⟨?_, fits⟩
  rw [shl, shiftLeft_eq, mod_eq_of_lt fits]

theorem leadingZeros_sub (nonzero : mant ≠ 0) :
    leadingZeros L.size mant - (L.size - 1 - L.imantSize) = L.imantSize - mant.log2 := by
  have := L.size_eq
  rw [leadingZeros, if_neg nonzero]
  omega

/-- The exact value behind a mantissa to be normalised: the mantissa, or one it agrees with on the
even numbers when it keeps two bits more than the format. -/
def Carries (mant : ℕ) (y : K) : Prop :=
  y = mant ∨ Agree 2 (mant : K) y ∧ 2 ^ (L.mantSize + 2) ≤ mant

variable {y : K}

variable {L sign mode} in
theorem normalize_returns (exp : ℤ) (nonzero : mant ≠ 0) (bits : mant < 2 ^ (L.size - 1))
    (carries : L.Carries mant y) :
    L.Returns (L.normalize sign exp mant (rmOf mode))
      (L.format.round mode sign (y * 2 ^ L.unit exp)) := by
  have := L.size_eq
  have := L.imantSize_eq
  have log := (log2_lt nonzero).mpr bits
  obtain ⟨s, hs⟩ : ∃ s, mant.log2 + s = L.imantSize := ⟨L.imantSize - mant.log2, by omega⟩
  obtain ⟨low, high⟩ := log2_shift nonzero hs
  rw [show L.imantSize + 1 = L.size - 1 by omega] at high
  have value : y * 2 ^ s * 2 ^ L.unit (exp - s) = y * 2 ^ L.unit exp := by
    rw [mul_assoc, ← zpow_natCast, ← zpow_add₀ two_ne_zero]
    congr 2
    unfold unit
    ring
  have agrees : Agree (2 ^ (L.rndSize - 1 : ℤ)) ((mant * 2 ^ s : ℕ) : K) (y * 2 ^ s) := by
    push_cast
    rcases carries with rfl | ⟨agree, kept⟩
    · exact .refl _ _
    · have wide : L.mantSize + 2 ≤ mant.log2 := (le_log2 nonzero).mpr kept
      have scaled : Agree (2 ^ (1 + s : ℤ)) ((mant : K) * 2 ^ s) (y * 2 ^ s) := by
        rw [zpow_add₀ two_ne_zero, zpow_one, zpow_natCast]
        exact agree.scale (by positivity)
      exact scaled.two_pow_mono (by omega)
  have rounds := L.roundPack_agree mode sign low high (exp - s) agrees
  rw [normalize, L.leadingZeros_sub nonzero, show L.imantSize - mant.log2 = s by omega,
    (shl_of_lt s lt_log2_self (by omega)).1, ← value]
  exact rounds

theorem cut_zero : L.cut sign (rmOf mode) 0 = 0 := by
  rw [L.cut_eq (K := ℚ) mode sign (by positivity)]
  have := mode.toNat_natCast (K := ℚ) sign 0
  simpa using this

theorem roundPack_zero (exp : ℤ) :
    L.roundPack sign exp 0 (rmOf mode) = (L.pack sign 0 0, 0#32) := by
  have shifted (d : ℕ) : rshiftRnd L.size 0 d = 0 := by
    unfold rshiftRnd
    split_ifs <;> simp
  simp [roundPack, shifted, cut_zero, rndBits_eq, assemble]

theorem normalize_zero (exp : ℤ) :
    L.normalize sign exp 0 (rmOf mode) = (L.pack sign 0 0, 0#32) := by
  rw [normalize, shl, zero_shiftLeft, zero_mod, roundPack_zero]

theorem carries_jam (kept : 2 ^ (L.mantSize + 2) ≤ y) : L.Carries (jam y) y := by
  have nonneg : 0 ≤ y := le_trans (by positivity) kept
  exact .inr ⟨jam_agree nonneg, (two_pow_le_jam (by omega) nonneg).mpr kept⟩

theorem eq_zero_iff_of_agree {unit : K} {least : ℕ} (some : 0 < least)
    (carries : y = mant ∨ Agree unit (mant : K) y ∧ least ≤ mant) : mant = 0 ↔ y = 0 := by
  rcases carries with rfl | ⟨agree, kept⟩
  · exact cast_eq_zero.symm
  · have pos : 0 < mant := some.trans_le kept
    exact iff_of_false pos.ne' (agree.pos_iff.mp (cast_pos.mpr pos)).ne'

variable {L} in
theorem Carries.eq_zero_iff (carries : L.Carries mant y) : mant = 0 ↔ y = 0 :=
  eq_zero_iff_of_agree (by positivity) carries

variable {L} in
/-- An exact value with more bits than the format, jammed into a word and normalised. -/
theorem normalize_jam (exp : ℤ) (kept : 2 ^ (L.mantSize + 2) ≤ y) (bits : y < 2 ^ (L.size - 1)) :
    L.Returns (L.normalize sign exp (jam y) (rmOf mode))
      (L.format.round mode sign (y * 2 ^ L.unit exp)) := by
  have pos : 0 < y := lt_of_lt_of_le (by positivity) kept
  have := L.expWide
  have carries := L.carries_jam kept
  exact normalize_returns exp (fun none => pos.ne' (carries.eq_zero_iff.mp none))
    (jam_lt pos.le (by simp only [size]; omega) bits) carries

variable {L} in
theorem normalize_signed (exp : ℤ) (zero : Bool) (nonneg : 0 ≤ y) (bits : mant < 2 ^ (L.size - 1))
    (carries : L.Carries mant y) :
    L.Returns (L.normalize (if mant = 0 then zero else sign) exp mant (rmOf mode))
      (L.format.roundSigned mode zero (Datum.signed sign (y * 2 ^ L.unit exp))) := by
  by_cases none : mant = 0
  · have gone := carries.eq_zero_iff.mp none
    rw [if_pos none, none, normalize_zero, gone]
    simpa [roundSigned, Datum.signed] using returns_zero zero
  · have pos : 0 < y := lt_of_le_of_ne nonneg
      (fun zero => none (carries.eq_zero_iff.mpr zero.symm))
    rw [if_neg none, roundSigned_signed _ _ (by positivity)]
    exact normalize_returns exp none bits carries

end Layout
end Rv64Js.Softfp
