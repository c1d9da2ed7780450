import Rv64Js.Softfp.AddMul

/-! # Fused multiply-add

The product is kept in two words, its leading one at bit `F_SIZE - 3` of the high word, and the
addend is brought to the same form. The operand with the smaller exponent is shifted right, and what
it loses is kept in the last bit. -/

set_option autoImplicit false

namespace Rv64Js.Softfp

open FloatFormat Datum

attribute [local instance] atLeastTwo_two
namespace Layout

variable (L : Layout)

/-- `normalize2`: a mantissa of two words, the high one of at most `F_SIZE - 1` bits. -/
def normalize2 (sign : Bool) (exp : ℤ) (hi lo : ℕ) (rm : BitVec 3) : BitVec L.size × BitVec 32 :=
  let l := if hi = 0 then L.size + leadingZeros L.size lo else leadingZeros L.size hi
  let shift := l - (L.size - 1 - L.imantSize)
  let hi :=
    if shift = 0 then hi ||| (decide (lo ≠ 0)).toNat
    else if shift < L.size then
      L.shl hi shift ||| lo >>> (L.size - shift) ||| (decide (L.shl lo shift ≠ 0)).toNat
    else L.shl lo (shift - L.size)
  L.roundPack sign (exp - shift) hi rm

/-- The two words of the smaller operand shifted right by the difference of the exponents. -/
def alignWords (shift c1 c0 : ℕ) : ℕ × ℕ :=
  if 2 * L.size ≤ shift then (0, (decide (c0 ||| c1 ≠ 0)).toNat)
  else if L.size < shift then (0, rshiftRnd L.size c1 (shift - L.size))
  else if shift = L.size then (0, c1 ||| (decide (c0 ≠ 0)).toNat)
  else if shift ≠ 0 then
    (c1 >>> shift,
      L.shl c1
        (L.size - shift) ||| c0 >>> shift ||| (decide (c0 &&& ((1 <<< shift) - 1) ≠ 0)).toNat)
  else (c1, c0)

/-- The end of `fma`: `r` has the larger magnitude. -/
def fmaSum (rSign : Bool) (rExp : ℤ) (r1 r0 : ℕ) (cSign : Bool) (cExp : ℤ) (c1 c0 : ℕ)
    (rm : BitVec 3) : BitVec L.size × BitVec 32 :=
  let (c1, c0) := L.alignWords (rExp - cExp).toNat c1 c0
  if rSign = cSign then
    let s0 := (r0 + c0) % 2 ^ L.size
    let s1 := (r1 + c1 + (decide (s0 < c0)).toNat) % 2 ^ L.size
    L.normalize2 rSign rExp s1 s0 rm
  else
    let s0 := L.wrapSub r0 c0
    let s1 := L.wrapSub (L.wrapSub r1 c1) (decide (s0 > r0)).toNat
    L.normalize2 (if s0 ||| s1 = 0 then decide (rm = RM_RDN) else rSign) rExp s1 s0 rm

/-- Exponent and words of the product of two numbers other than zero. -/
def fmaProduct (a b : BitVec L.size) : ℤ × ℕ × ℕ :=
  let (aExp, aMant) := L.hidden a
  let (bExp, bMant) := L.hidden b
  let rExp := aExp + bExp - (1 <<< (L.expSize - 1) : ℕ) + 3
  let (r1, r0) := L.mulU (L.shl aMant L.rndSize) (L.shl bMant L.rndSize)
  if r1 < 1 <<< (L.size - 3) then
    (rExp - 1, L.shl r1 1 ||| r0 >>> (L.size - 1), L.shl r0 1)
  else (rExp, r1, r0)

def fmaFinite (a b c : BitVec L.size) (rm : BitVec 3) : BitVec L.size × BitVec 32 :=
  let rSign := L.signOf a ^^ L.signOf b
  let (rExp, r1, r0) := L.fmaProduct a b
  if L.isZero c then L.normalize rSign rExp (r1 ||| (decide (r0 ≠ 0)).toNat) rm
  else
    let (cExp, cMant) := L.hidden c
    let cExp := cExp + 1
    let c1 := L.shl cMant (L.rndSize - 1)
    if rExp > cExp ∨ rExp = cExp ∧ r1 ≥ c1 then
      L.fmaSum rSign rExp r1 r0 (L.signOf c) cExp c1 0 rm
    else L.fmaSum (L.signOf c) cExp c1 0 rSign rExp r1 r0 rm

def fma (a b c : BitVec L.size) (rm : BitVec 3) : BitVec L.size × BitVec 32 :=
  let rSign := L.signOf a ^^ L.signOf b
  if L.expOf a = L.expMask ∨ L.expOf b = L.expMask ∨ L.expOf c = L.expMask then
    if L.isNan a ∨ L.isNan b ∨ L.isNan c then
      (L.qnan, if L.isSignan a ∨ L.isSignan b ∨ L.isSignan c then FFLAG_INVALID_OP else 0#32)
    else if (L.expOf a = L.expMask ∧ L.isZero b) ∨ (L.expOf b = L.expMask ∧ L.isZero a) ∨
        ((L.expOf a = L.expMask ∨ L.expOf b = L.expMask) ∧ L.expOf c = L.expMask ∧
          rSign ≠ L.signOf c) then
      (L.qnan, FFLAG_INVALID_OP)
    else if L.expOf c = L.expMask then (L.pack (L.signOf c) L.expMask 0, 0#32)
    else (L.pack rSign L.expMask 0, 0#32)
  else if L.isZero a ∨ L.isZero b then
    if L.isZero c then
      (L.pack (if L.signOf c ≠ rSign then decide (rm = RM_RDN) else rSign) 0 0, 0#32)
    else (c, 0#32)
  else L.fmaFinite a b c rm

section Words

variable {L} {K : Type*} [Field K] [LinearOrder K] [IsStrictOrderedRing K] [FloorSemiring K]

variable {hi lo : ℕ}

theorem jam_words (lt : lo < 2 ^ L.size) :
    hi ||| (decide (lo ≠ 0)).toNat = jam (((hi * 2 ^ L.size + lo : ℕ) : K) / (2 ^ L.size : ℕ)) := by
  rw [jam_div _ _ (by positivity), Nat.mul_add_mod', Nat.mod_eq_of_lt lt, Nat.mul_comm,
    Nat.mul_add_div (by positivity), Nat.div_eq_of_lt lt, Nat.add_zero]
  by_cases zero : lo = 0 <;> simp [zero]

/-- The shift `normalize2` makes puts the leading one of both words at bit `F_SIZE - 2`. -/
theorem normalize2_shift (high : hi < 2 ^ (L.size - 1)) (low : lo < 2 ^ L.size)
    (nonzero : hi * 2 ^ L.size + lo ≠ 0) :
    ∃ s, (if hi = 0 then L.size + leadingZeros L.size lo else leadingZeros L.size hi) -
        (L.size - 1 - L.imantSize) = s ∧ 2 ^ (2 * L.size - 2) ≤ (hi * 2 ^ L.size + lo) * 2 ^ s ∧
      (hi * 2 ^ L.size + lo) * 2 ^ s < 2 ^ (2 * L.size - 1) ∧ (L.size ≤ s → hi = 0) := by
  have sizeEq := L.size_eq
  have imantEq := L.imantSize_eq
  have pos : 0 < 2 ^ L.size := by positivity
  have top : hi * 2 ^ L.size + lo < 2 ^ (2 * L.size - 1) := by
    rw [← two_pow_mul (show L.size - 1 + L.size = 2 * L.size - 1 by omega)]
    calc hi * 2 ^ L.size + lo < (hi + 1) * 2 ^ L.size := by rw [Nat.succ_mul]; omega
      _ ≤ 2 ^ (L.size - 1) * 2 ^ L.size := Nat.mul_le_mul_right _ high
  have log := (Nat.log2_lt nonzero).mpr top
  have large (some : hi ≠ 0) : L.size ≤ (hi * 2 ^ L.size + lo).log2 := (Nat.le_log2 nonzero).mpr
    (le_trans (Nat.le_mul_of_pos_left _ (Nat.pos_of_ne_zero some)) (Nat.le_add_right _ _))
  obtain ⟨s, hs⟩ : ∃ s, (hi * 2 ^ L.size + lo).log2 + s = 2 * L.size - 2 :=
    ⟨2 * L.size - 2 - (hi * 2 ^ L.size + lo).log2, by omega⟩
  obtain ⟨least, most⟩ := log2_shift nonzero hs
  rw [show 2 * L.size - 2 + 1 = 2 * L.size - 1 by omega] at most
  refine ⟨s, ?_, least, most, ?_⟩ <;> by_cases zero : hi = 0
  · rw [zero, Nat.zero_mul, Nat.zero_add] at nonzero hs
    rw [if_pos zero, leadingZeros, if_neg nonzero]
    have := (Nat.log2_lt nonzero).mpr low
    omega
  · have quotient : (hi * 2 ^ L.size + lo) / 2 ^ L.size = hi := by
      rw [Nat.mul_comm, Nat.mul_add_div pos, Nat.div_eq_of_lt low, Nat.add_zero]
    have logs : hi.log2 = (hi * 2 ^ L.size + lo).log2 - L.size := by
      rw [Nat.log2_eq_log_two, Nat.log2_eq_log_two, ← Nat.log_div_base_pow, quotient]
    have := large zero
    rw [if_neg zero, leadingZeros, if_neg zero]
    omega
  · exact fun _ => zero
  · intro far
    have := large zero
    omega

variable {s : ℕ}

theorem low_word_split (lo : ℕ) (near : s < L.size) :
    lo * 2 ^ s = lo / 2 ^ (L.size - s) * 2 ^ L.size + lo * 2 ^ s % 2 ^ L.size := by
  have quotient : lo * 2 ^ s / 2 ^ L.size = lo / 2 ^ (L.size - s) := by
    rw [← two_pow_mul (show L.size - s + s = L.size by omega),
      Nat.mul_div_mul_right _ _ (by positivity)]
  rw [← quotient, Nat.div_add_mod']

theorem shl_words (low : lo < 2 ^ L.size) (near : s < L.size) (fits : hi * 2 ^ s < 2 ^ L.size) :
    (L.shl hi s ||| lo >>> (L.size - s)) * 2 ^ L.size + L.shl lo s =
      (hi * 2 ^ L.size + lo) * 2 ^ s := by
  have carry : lo / 2 ^ (L.size - s) < 2 ^ s := by
    rwa
      [Nat.div_lt_iff_lt_mul (by positivity), two_pow_mul (show s + (L.size - s) = L.size by omega)]
  rw [shl, shl, Nat.shiftLeft_eq, Nat.mod_eq_of_lt fits, ← Nat.shiftLeft_eq hi,
    Nat.shiftRight_eq_div_pow, ← Nat.shiftLeft_add_eq_or_of_lt carry, Nat.shiftLeft_eq,
    Nat.shiftLeft_eq]
  have split := low_word_split lo near
  generalize lo * 2 ^ s % 2 ^ L.size = rest at split
  calc (hi * 2 ^ s + lo / 2 ^ (L.size - s)) * 2 ^ L.size + rest
      = hi * 2 ^ L.size * 2 ^ s + (lo / 2 ^ (L.size - s) * 2 ^ L.size + rest) := by ring
    _ = (hi * 2 ^ L.size + lo) * 2 ^ s := by rw [← split, Nat.add_mul]

/-- The word `normalize2` rounds is the shifted pair, jammed. -/
theorem normalize2_word (low : lo < 2 ^ L.size)
    (top : (hi * 2 ^ L.size + lo) * 2 ^ s < 2 ^ (2 * L.size - 1)) (far : L.size ≤ s → hi = 0) :
    (if s = 0 then hi ||| (decide (lo ≠ 0)).toNat else if s < L.size then
        L.shl hi s ||| lo >>> (L.size - s) ||| (decide (L.shl lo s ≠ 0)).toNat
          else L.shl lo (s - L.size)) =
      jam ((((hi * 2 ^ L.size + lo) * 2 ^ s : ℕ) : K) / (2 ^ L.size : ℕ)) := by
  have sizeEq := L.size_eq
  have square : 2 ^ (L.size - 1) * 2 ^ L.size = 2 ^ (2 * L.size - 1) := two_pow_mul (by omega)
  have half : 2 ^ (L.size - 1) < 2 ^ L.size := Nat.pow_lt_pow_right (by decide) (by omega)
  by_cases none : s = 0
  · rw [if_pos none, jam_words (K := K) low, none, pow_zero, Nat.mul_one]
  rw [if_neg none]
  by_cases near : s < L.size
  · rw [if_pos near]
    have fits : hi * 2 ^ s < 2 ^ L.size := by
      have : hi * 2 ^ s * 2 ^ L.size < 2 ^ (L.size - 1) * 2 ^ L.size := by
        rw [square]
        refine lt_of_le_of_lt ?_ top
        calc hi * 2 ^ s * 2 ^ L.size = hi * 2 ^ L.size * 2 ^ s := by ring
          _ ≤ (hi * 2 ^ L.size + lo) * 2 ^ s := Nat.mul_le_mul_right _ (by omega)
      exact (Nat.lt_of_mul_lt_mul_right this).trans half
    rw [← shl_words low near fits]
    exact jam_words (Nat.mod_lt _ (by positivity))
  · have split : 2 ^ (s - L.size) * 2 ^ L.size = 2 ^ s := two_pow_mul (by omega)
    rw [if_neg near, far (by omega), Nat.zero_mul, Nat.zero_add]
    rw [far (by omega), Nat.zero_mul, Nat.zero_add, ← square, ← split, ← Nat.mul_assoc] at top
    have fits : lo * 2 ^ (s - L.size) < 2 ^ L.size :=
      (Nat.lt_of_mul_lt_mul_right top).trans half
    have whole : ((lo * 2 ^ s : ℕ) : K) / (2 ^ L.size : ℕ) = (lo * 2 ^ (s - L.size) : ℕ) := by
      rw [← split, ← Nat.mul_assoc, Nat.cast_mul _ (2 ^ L.size),
        mul_div_cancel_right₀ _ (by positivity)]
    rw [whole, jam_natCast, shl, Nat.shiftLeft_eq, Nat.mod_eq_of_lt fits]

/-- The exact value behind two words to be normalised: the words, or a value in the same unit of the
high word when at most two leading bits are missing. -/
def CarriesWords (L : Layout) (d : ℕ) (y : K) : Prop :=
  y = d ∨ Agree (2 ^ L.size) (d : K) y ∧ 2 ^ (2 * L.size - 4) ≤ d

variable {y : K}

theorem CarriesWords.eq_zero_iff {d : ℕ} (carries : CarriesWords L d y) : d = 0 ↔ y = 0 :=
  eq_zero_iff_of_agree (by positivity) carries

variable {mode : Rounding} {sign : Bool}

theorem normalize2_returns (exp : ℤ) (high : hi < 2 ^ (L.size - 1)) (low : lo < 2 ^ L.size)
    (nonzero : hi * 2 ^ L.size + lo ≠ 0) (carries : CarriesWords L (hi * 2 ^ L.size + lo) y) :
    L.Returns (L.normalize2 sign exp hi lo (rmOf mode))
      (L.format.round mode sign (y / 2 ^ L.size * 2 ^ L.unit exp)) := by
  obtain ⟨sizeEq, imantEq, rndLarge⟩ := L.sizes
  obtain ⟨s, hs, bottom, top, far⟩ := normalize2_shift high low nonzero
  have word := normalize2_word (K := K) low top far
  set d := hi * 2 ^ L.size + lo with hd
  have nonneg : (0 : K) ≤ ((d * 2 ^ s : ℕ) : K) / (2 ^ L.size : ℕ) := by positivity
  have wordLow :=
    (two_pow_le_jam (k := L.imantSize) (by omega) nonneg).mpr (two_pow_le_div (by omega) bottom)
  have wordHigh : _ < 2 ^ (L.size - 1) := jam_lt nonneg (by omega) (div_lt_two_pow (by omega) top)
  -- the jammed word agrees with the exact value on the multiples of four
  have agree : Agree (2 ^ (2 : ℤ)) (jam (((d * 2 ^ s : ℕ) : K) / (2 ^ L.size : ℕ)) : K)
      (y / 2 ^ L.size * 2 ^ s) := by
    have kept : Agree (2 ^ (1 : ℤ)) (jam (((d * 2 ^ s : ℕ) : K) / (2 ^ L.size : ℕ)) : K)
        (((d * 2 ^ s : ℕ) : K) / (2 ^ L.size : ℕ)) := by
      rw [zpow_one]
      exact jam_agree nonneg
    refine (kept.two_pow_mono (by omega)).trans ?_
    have scaled (z : K) : z * 2 ^ s / 2 ^ L.size = z / 2 ^ L.size * 2 ^ s := by ring
    push_cast
    rw [scaled]
    rcases carries with rfl | ⟨agrees, large⟩
    · exact .refl _ _
    · have few : s ≤ 2 := by
        by_contra more
        have : 2 ^ (2 * L.size - 1) ≤ d * 2 ^ s := by
          calc 2 ^ (2 * L.size - 1) = 2 ^ (2 * L.size - 4) * 2 ^ 3 := (two_pow_mul (by omega)).symm
            _ ≤ d * 2 ^ s := Nat.mul_le_mul large (Nat.pow_le_pow_right (by decide) (by omega))
        omega
      rw [← zpow_natCast] at agrees
      have step := (agrees.div_two_pow L.size).scale (k := (2 : K) ^ s) (by positivity)
      rw [zpow_natCast, sub_self, zpow_zero, one_mul, ← zpow_natCast] at step
      have := step.two_pow_mono (l := 2) (by omega)
      rwa [zpow_natCast] at this
  have value : y / 2 ^ L.size * 2 ^ s * 2 ^ L.unit (exp - s) =
      y / 2 ^ L.size * 2 ^ L.unit exp := by
    rw [mul_assoc, ← zpow_natCast, ← zpow_natCast, ← zpow_add₀ two_ne_zero]
    congr 2
    unfold unit
    ring
  have rounds :=
    L.roundPack_agree mode sign wordLow wordHigh (exp - s) (agree.two_pow_mono (by omega))
  rw [value, ← word] at rounds
  simp only [normalize2, hs]
  exact rounds

theorem normalize2_zero (exp : ℤ) :
    L.normalize2 sign exp 0 0 (rmOf mode) = (L.pack sign 0 0, 0#32) := by
  simp only [normalize2, shl, Nat.zero_shiftLeft, Nat.zero_shiftRight, Nat.zero_mod, Nat.or_self,
    ne_eq, not_true_eq_false, decide_false, Bool.toNat_false, ite_self, roundPack_zero]

variable (mode sign) in
theorem normalize2_signed (exp : ℤ) (zero : Bool) (nonneg : 0 ≤ y) (high : hi < 2 ^ (L.size - 1))
    (low : lo < 2 ^ L.size) (carries : CarriesWords L (hi * 2 ^ L.size + lo) y) :
    L.Returns (L.normalize2 (if lo ||| hi = 0 then zero else sign) exp hi lo (rmOf mode))
      (L.format.roundSigned mode zero (signed sign (y / 2 ^ L.size * 2 ^ L.unit exp))) := by
  have none : lo ||| hi = 0 ↔ hi * 2 ^ L.size + lo = 0 := by
    rw [Nat.or_eq_zero_iff]
    have : 0 < 2 ^ L.size := by positivity
    constructor
    · rintro ⟨rfl, rfl⟩
      simp
    · intro zero
      rw [Nat.add_eq_zero_iff, Nat.mul_eq_zero] at zero
      omega
  by_cases gone : lo ||| hi = 0
  · have zeroY := carries.eq_zero_iff.mp (none.mp gone)
    obtain ⟨rfl, rfl⟩ := Nat.or_eq_zero_iff.mp gone
    rw [if_pos gone, normalize2_zero, zeroY]
    simpa [roundSigned, signed] using returns_zero zero
  · have nonzero := none.not.mp gone
    have pos : 0 < y := lt_of_le_of_ne nonneg
      (fun zero => nonzero (carries.eq_zero_iff.mpr zero.symm))
    rw [if_neg gone, roundSigned_signed _ _ (by positivity)]
    exact normalize2_returns exp high low nonzero carries

theorem or_toNat (n : ℕ) (p : Prop) [Decidable p] :
    n ||| (decide p).toNat = n + if p then 1 - n % 2 else 0 := by
  by_cases h : p <;> simp [h, or_one_eq]

/-- The shifted words are the shifted pair, jammed, unless the low word is dropped. -/
theorem alignWords_jam {d c1 c0 : ℕ} (high : c1 < 2 ^ L.size) (low : c0 < 2 ^ L.size)
    (kept : c0 = 0 ∨ d ≤ L.size ∨ 2 * L.size ≤ d) :
    (L.alignWords d c1 c0).1 * 2 ^ L.size + (L.alignWords d c1 c0).2 =
      jam (((c1 * 2 ^ L.size + c0 : ℕ) : K) / (2 ^ d : ℕ)) := by
  have pos : 0 < 2 ^ L.size := by positivity
  have pair : c1 * 2 ^ L.size + c0 < 2 ^ (2 * L.size) := by
    rw [two_mul, pow_add]
    calc c1 * 2 ^ L.size + c0 < (c1 + 1) * 2 ^ L.size := by rw [Nat.succ_mul]; omega
      _ ≤ 2 ^ L.size * 2 ^ L.size := Nat.mul_le_mul_right _ high
  unfold alignWords
  by_cases all : 2 * L.size ≤ d
  · have small := pair.trans_le (Nat.pow_le_pow_right (by decide) all)
    have none : c0 ||| c1 ≠ 0 ↔ c1 * 2 ^ L.size + c0 ≠ 0 := by
      rw [Ne, Nat.or_eq_zero_iff, Ne, Nat.add_eq_zero_iff, Nat.mul_eq_zero]
      omega
    rw [if_pos all, jam_div _ _ (by positivity), Nat.div_eq_of_lt small, Nat.mod_eq_of_lt small]
    simp only [none, Nat.zero_mul, Nat.zero_add, Nat.zero_or]
    generalize c1 * 2 ^ L.size + c0 = c
    by_cases zero : c = 0 <;> simp [zero]
  rw [if_neg all]
  by_cases far : L.size < d
  · have zero : c0 = 0 := by omega
    have quotient : ((c1 * 2 ^ L.size + c0 : ℕ) : K) / (2 ^ d : ℕ) =
        c1 / (2 ^ (d - L.size) : ℕ) := by
      rw [zero, Nat.add_zero, ← two_pow_mul (show d - L.size + L.size = d by omega)]
      push_cast
      field_simp
    rw [if_pos far, quotient, ← rshiftRnd_eq_jam high]
    simp
  rw [if_neg far]
  by_cases word : d = L.size
  · rw [if_pos word, word, ← jam_words low]
    simp
  rw [if_neg word]
  by_cases some : d = 0
  · rw [if_neg (not_not.mpr some), some, pow_zero, Nat.cast_one, div_one, jam_natCast]
  · rw [if_pos some, jam_div _ _ (by positivity)]
    have split : 2 ^ L.size = 2 ^ d * 2 ^ (L.size - d) := (two_pow_mul (by omega)).symm
    have restLow : c0 / 2 ^ d < 2 ^ (L.size - d) := by
      rwa [Nat.div_lt_iff_lt_mul (by positivity), Nat.mul_comm, ← split]
    have moved : L.shl c1 (L.size - d) = c1 % 2 ^ d * 2 ^ (L.size - d) := by
      rw [shl, Nat.shiftLeft_eq, split, Nat.mul_mod_mul_right]
    have lowWord : L.shl c1 (L.size - d) ||| c0 / 2 ^ d =
        c1 % 2 ^ d * 2 ^ (L.size - d) + c0 / 2 ^ d := by
      rw [moved, ← Nat.shiftLeft_eq, ← Nat.shiftLeft_add_eq_or_of_lt restLow]
    have quotient : (c1 * 2 ^ L.size + c0) / 2 ^ d =
        c1 / 2 ^ d * 2 ^ L.size + (c1 % 2 ^ d * 2 ^ (L.size - d) + c0 / 2 ^ d) := by
      rw [split, show c1 * (2 ^ d * 2 ^ (L.size - d)) = 2 ^ d * (c1 * 2 ^ (L.size - d)) by ring,
        Nat.mul_add_div (by positivity)]
      nth_rewrite 1 [← Nat.div_add_mod' c1 (2 ^ d)]
      ring
    have remainder : (c1 * 2 ^ L.size + c0) % 2 ^ d = c0 % 2 ^ d := by
      rw [split, show c1 * (2 ^ d * 2 ^ (L.size - d)) = 2 ^ d * (c1 * 2 ^ (L.size - d)) by ring,
        Nat.mul_add_mod]
    have even : 2 ∣ c1 / 2 ^ d * 2 ^ L.size := by
      refine Dvd.dvd.mul_left (dvd_pow_self 2 ?_) _
      have := L.size_eq
      omega
    have sticky : (if c0 % 2 ^ d = 0 then 0 else 1) = (decide (c0 % 2 ^ d ≠ 0)).toNat := by
      by_cases zero : c0 % 2 ^ d = 0 <;> simp [zero]
    rw [quotient, remainder, Nat.shiftRight_eq_div_pow, Nat.shiftRight_eq_div_pow, lowWord,
      Nat.one_shiftLeft, Nat.and_two_pow_sub_one_eq_mod, sticky, or_toNat, or_toNat]
    dsimp only
    obtain ⟨k, hk⟩ := even
    rw [hk]
    generalize c1 % 2 ^ d * 2 ^ (L.size - d) + c0 / 2 ^ d = q
    split_ifs <;> omega

theorem alignWords_lt {d c1 c0 : ℕ} (high : c1 < 2 ^ L.size) (low : c0 < 2 ^ L.size) :
    (L.alignWords d c1 c0).1 < 2 ^ L.size ∧ (L.alignWords d c1 c0).2 < 2 ^ L.size := by
  have sizeEq := L.size_eq
  have pos : 0 < 2 ^ L.size := by positivity
  have bit (p : Prop) [Decidable p] : (decide p).toNat < 2 ^ L.size :=
    lt_of_le_of_lt (Bool.toNat_le _) (Nat.one_lt_two_pow (by omega))
  unfold alignWords
  split_ifs
  · exact ⟨pos, bit _⟩
  · refine ⟨pos, ?_⟩
    dsimp only
    rw [rshiftRnd_eq_jam (K := ℚ) high]
    exact jam_lt (by positivity) (by omega) (div_lt_two_pow (Nat.le_add_right _ _) high)
  · exact ⟨pos, Nat.or_lt_two_pow high (bit _)⟩
  · refine ⟨lt_of_le_of_lt (Nat.shiftRight_le _ _) high, ?_⟩
    apply Nat.or_lt_two_pow (Nat.or_lt_two_pow _ _) (bit _)
    · exact Nat.mod_lt _ pos
    · exact lt_of_le_of_lt (Nat.shiftRight_le _ _) low
  · exact ⟨high, low⟩

section Sums

variable {r1 r0 r t1 t0 t : ℕ} (wordsR : r1 * 2 ^ L.size + r0 = r)
    (wordsT : t1 * 2 ^ L.size + t0 = t)
  (lowR : r0 < 2 ^ L.size) (lowT : t0 < 2 ^ L.size)
include wordsR wordsT lowR lowT

theorem add_words (fits : r + t < 2 ^ (2 * L.size - 1)) :
    ∃ s1 s0, (r0 + t0) % 2 ^ L.size = s0 ∧
      (r1 + t1 + (decide (s0 < t0)).toNat) % 2 ^ L.size = s1 ∧ s1 < 2 ^ (L.size - 1) ∧
      s0 < 2 ^ L.size ∧
      s1 * 2 ^ L.size + s0 = r + t := by
  have sizeEq := L.size_eq
  have half := L.two_pow_size
  have square : 2 ^ (L.size - 1) * 2 ^ L.size = 2 ^ (2 * L.size - 1) := two_pow_mul (by omega)
  -- the carry out of the low words is the one the comparison finds
  obtain ⟨carry, s0, hs0, lt, hcarry⟩ : ∃ carry s0, (r0 + t0) % 2 ^ L.size = s0 ∧
      s0 < 2 ^ L.size ∧ (decide (s0 < t0)).toNat = carry ∧ r0 + t0 = carry * 2 ^ L.size + s0 := by
    by_cases noCarry : r0 + t0 < 2 ^ L.size
    · refine ⟨0, r0 + t0, Nat.mod_eq_of_lt noCarry, noCarry, ?_, by omega⟩
      simp
    · refine ⟨1, r0 + t0 - 2 ^ L.size, ?_, by omega, ?_, by omega⟩
      · rw [Nat.mod_eq_sub_mod (by omega), Nat.mod_eq_of_lt (by omega)]
      · have : r0 + t0 - 2 ^ L.size < t0 := by omega
        simp [this]
  obtain ⟨carryEq, sum⟩ := hcarry
  have total : (r1 + t1 + carry) * 2 ^ L.size + s0 = r + t := by
    rw [Nat.add_mul, Nat.add_mul]
    omega
  have top : r1 + t1 + carry < 2 ^ (L.size - 1) := by
    apply Nat.lt_of_mul_lt_mul_right (a := 2 ^ L.size)
    omega
  refine ⟨r1 + t1 + carry, s0, hs0, ?_, top, lt, total⟩
  rw [carryEq, Nat.mod_eq_of_lt (by omega)]

theorem sub_words (highR : r1 < 2 ^ (L.size - 1)) (le : t ≤ r) : ∃ s1 s0, L.wrapSub r0 t0 = s0 ∧
      L.wrapSub (L.wrapSub r1 t1) (decide (s0 > r0)).toNat = s1 ∧ s1 < 2 ^ (L.size - 1) ∧
      s0 < 2 ^ L.size ∧
      s1 * 2 ^ L.size + s0 = r - t := by
  have half := L.two_pow_size
  obtain ⟨borrow, s0, hs0, lt, borrowEq, difference⟩ : ∃ borrow s0, L.wrapSub r0 t0 = s0 ∧
      s0 < 2 ^ L.size ∧ (decide (s0 > r0)).toNat = borrow ∧
      borrow * 2 ^ L.size + r0 = t0 + s0 := by
    by_cases under : t0 ≤ r0
    · refine ⟨0, r0 - t0, L.wrapSub_eq under lowR, by omega, ?_, by omega⟩
      have : ¬ r0 - t0 > r0 := by omega
      simp [this]
    · refine ⟨1, r0 + 2 ^ L.size - t0, ?_, by omega, ?_, by omega⟩
      · rw [wrapSub, ← Nat.add_sub_assoc (by omega), Nat.mod_eq_of_lt (by omega)]
      · have : r0 + 2 ^ L.size - t0 > r0 := by omega
        simp [this]
  have enough : t1 + borrow ≤ r1 := by
    by_contra less
    have : (r1 + 1) * 2 ^ L.size ≤ (t1 + borrow) * 2 ^ L.size :=
      Nat.mul_le_mul_right _ (by omega)
    rw [Nat.add_mul, Nat.add_mul] at this
    omega
  have rest : (r1 - t1 - borrow) * 2 ^ L.size + (t1 + borrow) * 2 ^ L.size = r1 * 2 ^ L.size := by
    rw [← Nat.add_mul]
    congr 1
    omega
  rw [Nat.add_mul t1] at rest
  refine ⟨r1 - t1 - borrow, s0, hs0, ?_, by omega, lt, by omega⟩
  rw [borrowEq, L.wrapSub_eq (show t1 ≤ r1 by omega) (by omega),
    L.wrapSub_eq (by omega) (by omega)]

end Sums

theorem size_large (L : Layout) : 10 ≤ L.size := by
  have := L.mantWide
  have := L.expWide
  simp only [size]
  omega

/-- Two words with the leading one at bit `F_SIZE - 3` of the high word and two clear bits at
the end, as `fma` keeps its product and its addend. -/
structure Placed (L : Layout) (r1 r0 r : ℕ) : Prop where
  words : r1 * 2 ^ L.size + r0 = r
  low : r0 < 2 ^ L.size
  bottom : 2 ^ (2 * L.size - 3) ≤ r
  top : r < 2 ^ (2 * L.size - 2)
  four : 4 ∣ r

theorem Placed.high {r1 r0 r : ℕ} (placed : Placed L r1 r0 r) : r1 < 2 ^ (L.size - 2) := by
  have sizeEq := L.size_eq
  have words := placed.words
  have top := placed.top
  rw [← two_pow_mul (show L.size - 2 + L.size = 2 * L.size - 2 by omega)] at top
  apply Nat.lt_of_mul_lt_mul_right (a := 2 ^ L.size)
  omega

theorem Placed.lt {r1 r0 r : ℕ} (placed : Placed L r1 r0 r) : r1 < 2 ^ L.size :=
  placed.high.trans (Nat.pow_lt_pow_right (by decide) (by have := L.size_large; omega))

/-- The smaller operand in the unit of the larger: the words the code computes. -/
def alignedPair (L : Layout) (d c1 c0 : ℕ) : ℕ :=
  (L.alignWords d c1 c0).1 * 2 ^ L.size + (L.alignWords d c1 c0).2

section Shifted

variable {r1 r0 r c1 c0 c d : ℕ} (placedR : Placed L r1 r0 r) (placedC : Placed L c1 c0 c)
include placedC

theorem alignedPair_eq_jam (kept : c0 = 0 ∨ d ≤ L.size ∨ 2 * L.size ≤ d) :
    alignedPair L d c1 c0 = jam ((c : K) / (2 ^ d : ℕ)) := by
  rw [← placedC.words]
  exact alignWords_jam placedC.lt placedC.low kept

theorem alignedPair_near (near : d ≤ 2) : (c : K) / 2 ^ d = alignedPair L d c1 c0 := by
  have large := L.size_large
  rw [alignedPair_eq_jam (K := K) placedC (by omega), jam_div_multiple (e := 2) placedC.four near]
  push_cast
  rfl

theorem exact_lt {k : ℕ} (room : 2 * L.size - 2 ≤ k + d) : (c : K) / 2 ^ d < 2 ^ k := by
  have := div_lt_two_pow (K := K) room placedC.top
  rwa [Nat.cast_pow, Nat.cast_ofNat] at this

theorem exact_pos : (0 : K) < (c : K) / 2 ^ d := by
  have : 0 < c := lt_of_lt_of_le (by positivity) placedC.bottom
  positivity

/-- Where the low word is dropped both the exact value and the code's are below one unit of the
high word. -/
theorem dropped_between (far : L.size < d) (below : d < 2 * L.size) :
    0 < alignedPair L d c1 c0 ∧ alignedPair L d c1 c0 < 2 ^ L.size ∧
      (c : K) / 2 ^ d < 2 ^ L.size := by
  have large := L.size_large
  have pair : alignedPair L d c1 c0 = rshiftRnd L.size c1 (d - L.size) := by
    simp [alignedPair, alignWords, far, not_le.mpr below]
  have words := alignWords_lt (L := L) (d := d) placedC.lt placedC.low
  refine ⟨?_, ?_, ?_⟩
  · have posC : 0 < c1 := by
      by_contra none
      have := placedC.words
      have := placedC.bottom
      have := placedC.low
      have : 2 ^ L.size ≤ 2 ^ (2 * L.size - 3) := Nat.pow_le_pow_right (by decide) (by omega)
      obtain rfl : c1 = 0 := by omega
      omega
    have := (rshiftRnd_agree (K := ℚ) placedC.lt (d - L.size)).pos_iff.mpr (by positivity)
    rw [pair]
    exact_mod_cast this
  · have high0 : (L.alignWords d c1 c0).1 = 0 := by simp [alignWords, far, not_le.mpr below]
    unfold alignedPair
    rw [high0, Nat.zero_mul, Nat.zero_add]
    exact words.2
  · exact exact_lt placedC (by omega)

/-- What a shift leaves of the smaller operand. -/
theorem alignedPair_lt {k : ℕ} (word : L.size ≤ k) (room : 2 * L.size - 2 ≤ k + d) :
    alignedPair L d c1 c0 < 2 ^ k := by
  have large := L.size_large
  by_cases dropped : L.size < d ∧ d < 2 * L.size
  · exact (dropped_between (K := ℚ) placedC dropped.1 dropped.2).2.1.trans_le
      (Nat.pow_le_pow_right (by decide) word)
  · rw [alignedPair_eq_jam (K := ℚ) placedC (by omega)]
    exact jam_lt (by positivity) (by omega) (div_lt_two_pow room placedC.top)

include placedR

section Agree

variable (single : r0 = 0 ∨ c0 = 0)
include single

/-- The operands can be added or subtracted as words: the results lie in the same unit of the
high word as the exact ones. -/
theorem aligned_agree : Agree (2 ^ L.size) ((r : K) + alignedPair L d c1 c0)
        (r + (c : K) / 2 ^ d) ∧
      Agree (2 ^ L.size) ((r : K) - alignedPair L d c1 c0)
        (r - (c : K) / 2 ^ d) := by
  have large := L.size_large
  by_cases kept : c0 = 0 ∨ d ≤ L.size ∨ 2 * L.size ≤ d
  · have agree : Agree (2 : K) (alignedPair L d c1 c0)
        ((c : K) / 2 ^ d) := by
      rw [alignedPair_eq_jam (K := K) placedC kept, Nat.cast_pow, Nat.cast_ofNat]
      exact jam_agree (by positivity)
    obtain ⟨k, hk⟩ := placedR.four
    have even : (r : K) = ((2 * k : ℕ) : ℤ) * 2 := by
      rw [hk]
      push_cast
      ring
    have coarse {x y : K} (h : Agree (2 : K) x y) : Agree (2 ^ L.size) x y := by
      rw [← zpow_one (2 : K)] at h
      have := h.two_pow_mono (l := L.size) (by omega)
      rwa [zpow_natCast] at this
    rw [even]
    exact ⟨coarse (agree.add_multiple _), coarse (agree.multiple_sub _)⟩
  · -- the low word of the smaller operand is dropped; the larger one has none
    obtain rfl : r0 = 0 := by omega
    obtain ⟨pos, small, exactSmall⟩ := dropped_between (K := K) placedC
      (show L.size < d by omega) (by omega)
    have exactPos := exact_pos (K := K) (d := d) placedC
    have posK : (0 : K) < alignedPair L d c1 c0 := by exact_mod_cast pos
    have smallK : (alignedPair L d c1 c0 : K) < 2 ^ L.size := by exact_mod_cast small
    generalize (c : K) / 2 ^ d = z at exactPos exactSmall
    generalize (alignedPair L d c1 c0 : K) = t at posK smallK
    rw [← placedR.words]
    push_cast
    constructor
    · apply Agree.of_between (c := r1) <;> push_cast <;> linarith
    · apply Agree.of_between (c := (r1 : ℤ) - 1) <;> push_cast <;> linarith

end Agree

variable (ordered : d = 0 → c ≤ r)
include ordered

theorem alignedPair_le : alignedPair L d c1 c0 ≤ r := by
  have large := L.size_large
  rcases Nat.eq_zero_or_pos d with rfl | some
  · have exact := alignedPair_near (K := ℚ) placedC (show 0 ≤ 2 by omega)
    rw [pow_zero, div_one, Nat.cast_inj] at exact
    exact exact ▸ ordered rfl
  · exact (alignedPair_lt placedC (by omega) (by omega)).le.trans placedR.bottom

theorem exact_le : (c : K) / 2 ^ d ≤ r := by
  have large := L.size_large
  rcases Nat.eq_zero_or_pos d with rfl | some
  · rw [pow_zero, div_one]
    exact_mod_cast ordered rfl
  · have bottom : (2 : K) ^ (2 * L.size - 3) ≤ r := by exact_mod_cast placedR.bottom
    exact (exact_lt placedC (by omega)).le.trans bottom

omit ordered in
theorem carriesWords_add (single : r0 = 0 ∨ c0 = 0) : CarriesWords L (r + alignedPair L d c1 c0)
      ((r : K) + (c : K) / 2 ^ d) := by
  rcases Nat.lt_or_ge d 3 with near | far
  · left
    rw [alignedPair_near placedC (by omega)]
    push_cast
    rfl
  · right
    have agree := (aligned_agree (K := K) (d := d) placedR placedC single).1
    rw [← Nat.cast_add] at agree
    refine ⟨agree, ?_⟩
    have := placedR.bottom
    have : 2 ^ (2 * L.size - 4) ≤ 2 ^ (2 * L.size - 3) :=
      Nat.pow_le_pow_right (by decide) (by omega)
    omega

theorem carriesWords_sub (single : r0 = 0 ∨ c0 = 0) : CarriesWords L (r - alignedPair L d c1 c0)
      ((r : K) - (c : K) / 2 ^ d) := by
  have le := alignedPair_le placedR placedC ordered
  rcases Nat.lt_or_ge d 3 with near | far
  · left
    rw [alignedPair_near placedC (by omega), Nat.cast_sub le]
  · right
    have large := L.size_large
    have agree := (aligned_agree (K := K) (d := d) placedR placedC single).2
    rw [← Nat.cast_sub le] at agree
    refine ⟨agree, ?_⟩
    have bottom := placedR.bottom
    have small := alignedPair_lt (d := d) (k := 2 * L.size - 5) placedC (by omega) (by omega)
    have halves : 2 ^ (2 * L.size - 3) = 4 * 2 ^ (2 * L.size - 5) ∧
        2 ^ (2 * L.size - 4) = 2 * 2 ^ (2 * L.size - 5) := by
      constructor
      · rw [show 2 * L.size - 3 = 2 * L.size - 5 + 2 by omega, pow_add]
        omega
      · rw [show 2 * L.size - 4 = 2 * L.size - 5 + 1 by omega, pow_add]
        omega
    omega

end Shifted

theorem fmaSum_returns {r1 r0 r c1 c0 c : ℕ} {rExp cExp : ℤ} (rSign cSign : Bool)
    (placedR : Placed L r1 r0 r) (placedC : Placed L c1 c0 c) (single : r0 = 0 ∨ c0 = 0)
    (exps : cExp ≤ rExp) (ordered : cExp = rExp → c ≤ r) :
    L.Returns (L.fmaSum rSign rExp r1 r0 cSign cExp c1 c0 (rmOf mode))
      (L.format.roundSigned mode (zeroSign mode rSign cSign)
        (signed rSign ((r : K) / 2 ^ L.size * 2 ^ L.unit rExp) +
          signed cSign ((c : K) / 2 ^ L.size * 2 ^ L.unit cExp))) := by
  have large := L.size_large
  obtain ⟨d, hd⟩ : ∃ d : ℕ, rExp - cExp = d := ⟨(rExp - cExp).toNat, by omega⟩
  have order : d = 0 → c ≤ r := fun zero => ordered (by omega)
  have highR : r1 < 2 ^ (L.size - 1) :=
    placedR.high.trans (Nat.pow_lt_pow_right (by decide) (by omega))
  have words := alignWords_lt (L := L) (d := d) placedC.lt placedC.low
  have le := alignedPair_le placedR placedC order
  have aligned : (L.alignWords d c1 c0).1 * 2 ^ L.size + (L.alignWords d c1 c0).2 =
      alignedPair L d c1 c0 := rfl
  -- the shifted addend is the addend in the unit of the larger operand
  have addend : (c : K) / 2 ^ d / 2 ^ L.size * 2 ^ L.unit rExp =
      c / 2 ^ L.size * 2 ^ L.unit cExp := by
    rw [show L.unit rExp = L.unit cExp + d by unfold unit; omega, zpow_add₀ two_ne_zero,
      zpow_natCast]
    field_simp
  unfold fmaSum
  rw [hd, Int.toNat_natCast, ← addend, zeroSign]
  dsimp only
  by_cases same : rSign = cSign
  · have sums := carriesWords_add (K := K) (d := d) placedR placedC single
    have fits : r + alignedPair L d c1 c0 < 2 ^ (2 * L.size - 1) := by
      have := placedR.top
      rw [show 2 * L.size - 1 = 2 * L.size - 2 + 1 by omega, pow_succ]
      omega
    obtain ⟨s1, s0, hs0, hs1, high, low, total⟩ :=
      add_words placedR.words aligned placedR.low words.2 fits
    rw [← total] at sums
    have exactPos := exact_pos (K := K) (d := d) placedC
    have rounds := normalize2_signed (K := K) mode rSign rExp rSign
      (by positivity) high low sums
    rw [ite_self] at rounds
    rw [if_pos same, hs0, hs1, ← same, signed_add_signed, ← add_mul, ← add_div, if_pos rfl]
    exact rounds
  · have differences := carriesWords_sub (K := K) placedR placedC order single
    obtain ⟨s1, s0, hs0, hs1, high, low, total⟩ :=
      sub_words placedR.words aligned placedR.low words.2 highR le
    rw [← total] at differences
    have rounds := normalize2_signed (K := K) mode rSign rExp
      (decide (mode = .down)) (sub_nonneg.mpr (exact_le placedR placedC order)) high low differences
    rw [if_neg same, hs0, hs1, signed_add_of_ne same, ← sub_mul, ← sub_div, if_neg same,
      rmOf_eq_rdn]
    exact rounds

end Words

section Fma

variable {L} {K : Type*} [Field K] [LinearOrder K] [IsStrictOrderedRing K] [FloorSemiring K]
  (mode : Rounding)

variable {a b : BitVec L.size}

theorem fmaProduct_spec (nonzeroA : L.isZero a = false) (nonzeroB : L.isZero b = false) :
    ∃ r, Placed L (L.fmaProduct a b).2.1 (L.fmaProduct a b).2.2 r ∧
      (r : K) / 2 ^ L.size * 2 ^ L.unit (L.fmaProduct a b).1 =
        L.magnitude K a * L.magnitude K b := by
  obtain ⟨p, product, low, high, four, value⟩ := product_spec (K := K) (j := 0) (e := 3) (by decide)
    (by decide) nonzeroA nonzeroB
  have large := L.size_large
  rw [Nat.cast_pow, Nat.cast_ofNat] at value
  have words : p / 2 ^ L.size * 2 ^ L.size + p % 2 ^ L.size = p := Nat.div_add_mod' _ _
  have lowWord : p % 2 ^ L.size < 2 ^ L.size := Nat.mod_lt _ (by positivity)
  simp only [fmaProduct, Nat.add_zero] at product low high ⊢
  simp only [product, Nat.one_shiftLeft] at value ⊢
  by_cases small : p / 2 ^ L.size < 2 ^ (L.size - 3)
  · -- the product is below one half: one more shift
    have fits : p / 2 ^ L.size * 2 ^ 1 < 2 ^ L.size := by
      have : 2 ^ (L.size - 3) * 2 ^ 1 ≤ 2 ^ L.size := by
        rw [← pow_add]
        exact Nat.pow_le_pow_right (by decide) (by omega)
      omega
    have doubled := shl_words (L := L) (s := 1) lowWord (by omega) fits
    rw [words] at doubled
    have top : p < 2 ^ (2 * L.size - 3) := by
      rwa
        [Nat.div_lt_iff_lt_mul (by positivity),
          two_pow_mul (show L.size - 3 + L.size = 2 * L.size - 3 by omega)]
        at small
    rw [if_pos small]
    dsimp only
    refine ⟨p * 2 ^ 1, ⟨doubled, Nat.mod_lt _ (by positivity), ?_, ?_, four.mul_right _⟩, ?_⟩
    · rw [show 2 * L.size - 3 = 2 * L.size - 4 + 1 by omega, pow_succ]
      omega
    · rw [show 2 * L.size - 2 = 2 * L.size - 3 + 1 by omega, pow_succ]
      omega
    · have unit (e : ℤ) : L.unit e = L.unit (e - 1) + 1 := by
        unfold unit
        omega
      rw [← value, unit (_ + 3), zpow_add₀ two_ne_zero, zpow_one]
      push_cast
      ring
  · rw [if_neg small]
    refine ⟨p, ⟨words, lowWord, ?_, high, four⟩, ?_⟩
    · rw [show 2 * L.size - 3 = L.size - 3 + L.size by omega, pow_add]
      exact (Nat.le_div_iff_mul_le (by positivity)).mp (not_lt.mp small)
    · exact value

variable {c : BitVec L.size}

theorem fmaAddend_spec (nonzero : L.isZero c = false) :
    ∃ m, Placed L (L.shl (L.hidden c).2 (L.rndSize - 1)) 0 m ∧
      (m : K) / 2 ^ L.size * 2 ^ L.unit ((L.hidden c).1 + 1) = L.magnitude K c := by
  obtain ⟨low, high, mag⟩ := hidden_spec (K := K) c nonzero
  obtain ⟨sizeEq, imantEq, rndLarge⟩ := L.sizes
  obtain ⟨shl, inWord⟩ := shl_of_lt (L := L) (L.rndSize - 1) high (by omega)
  rw [shl]
  refine ⟨_, ⟨Nat.add_zero _, by positivity, ?_, ?_, ?_⟩, ?_⟩
  · calc 2 ^ (2 * L.size - 3) = 2 ^ L.mantSize * 2 ^ (L.rndSize - 1) * 2 ^ L.size := by
          rw [← pow_add, ← pow_add]; congr 1; omega
      _ ≤ (L.hidden c).2 * 2 ^ (L.rndSize - 1) * 2 ^ L.size := by gcongr
  · calc (L.hidden c).2 * 2 ^ (L.rndSize - 1) * 2 ^ L.size
        < 2 ^ (L.mantSize + 1) * 2 ^ (L.rndSize - 1) * 2 ^ L.size := by gcongr
      _ = 2 ^ (2 * L.size - 2) := by rw [← pow_add, ← pow_add]; congr 1; omega
  · rw [show L.size = 2 + (L.size - 2) by omega, pow_add]
    exact ⟨(L.hidden c).2 * 2 ^ (L.rndSize - 1) * 2 ^ (L.size - 2), by ring⟩
  · rw [mag, show L.unit ((L.hidden c).1 + 1) = (L.hidden c).1 - L.bias - L.mantSize -
      (L.rndSize - 1 : ℕ) by unfold unit; omega, zpow_sub₀ two_ne_zero, zpow_natCast]
    push_cast
    field_simp

theorem fmaFinite_returns (nonzeroA : L.isZero a = false) (nonzeroB : L.isZero b = false) :
    L.Returns (L.fmaFinite a b c (rmOf mode)) (L.format.addFinite mode
      (.num (L.signOf a ^^ L.signOf b) (L.magnitude K a * L.magnitude K b))
      (.num (L.signOf c) (L.magnitude K c))) := by
  obtain ⟨r, placedR, valueR⟩ := fmaProduct_spec (K := K) nonzeroA nonzeroB
  obtain ⟨sizeEq, imantEq, rndLarge⟩ := L.sizes
  simp only [fmaFinite, addFinite]
  generalize hexp : (L.fmaProduct a b).1 = rExp at *
  generalize hr1 : (L.fmaProduct a b).2.1 = r1 at *
  generalize hr0 : (L.fmaProduct a b).2.2 = r0 at *
  by_cases zero : L.isZero c = true
  · have rounds :=
      normalize_jam (L := L) (y := (r : K) / (2 ^ L.size : ℕ)) mode (L.signOf a ^^ L.signOf b) rExp
      (two_pow_le_div (by omega) placedR.bottom) (div_lt_two_pow (by omega) placedR.top)
    rw [← placedR.words, ← jam_words placedR.low, placedR.words, Nat.cast_pow, Nat.cast_ofNat,
      valueR] at rounds
    have product : 0 < L.magnitude K a * L.magnitude K b := by
      rw [← valueR]
      have : 0 < r := lt_of_lt_of_le (by positivity) placedR.bottom
      positivity
    have none : signed (L.signOf c) (L.magnitude K c) = 0 := by
      rw [(magnitude_eq_zero_iff c).mpr zero]
      cases L.signOf c <;> simp [signed]
    rw [if_pos zero, none, add_zero, roundSigned_signed _ _ product]
    exact rounds
  · obtain ⟨m, placedC, valueC⟩ := fmaAddend_spec (K := K) (c := c) (by simpa using zero)
    rw [if_neg zero, ← valueR, ← valueC]
    generalize (L.hidden c).1 + 1 = cExp
    generalize L.shl (L.hidden c).2 (L.rndSize - 1) = c1 at placedC
    split_ifs with order
    · apply fmaSum_returns _ _ placedR placedC (.inr rfl) (by omega)
      intro same
      have := placedR.words
      have := placedC.words
      have : c1 * 2 ^ L.size ≤ r1 * 2 ^ L.size := Nat.mul_le_mul_right _ (by omega)
      omega
    · rw [zeroSign_comm, add_comm]
      apply fmaSum_returns _ _ placedC placedR (.inl rfl) (by omega)
      intro same
      have : (r1 + 1) * 2 ^ L.size ≤ c1 * 2 ^ L.size := Nat.mul_le_mul_right _ (by omega)
      rw [Nat.add_mul] at this
      have := placedR.words
      have := placedC.words
      have := placedR.low
      omega

def infTimesZero (L : Layout) (a b : BitVec L.size) : Bool :=
  (L.expOf a = L.expMask ∧ L.mantOf a = 0 ∧ L.isZero b) ∨
    (L.expOf b = L.expMask ∧ L.mantOf b = 0 ∧ L.isZero a)

theorem noProduct_decode (a b : BitVec L.size) :
    (L.decode K a).noProduct (L.decode K b) = L.infTimesZero a b := by
  have mask := L.expMask_eq_bias
  have zeroA : L.isZero a = true → L.expOf a ≠ L.expMask := by
    simp only [isZero, decide_eq_true_eq]
    omega
  have zeroB : L.isZero b = true → L.expOf b ≠ L.expMask := by
    simp only [isZero, decide_eq_true_eq]
    omega
  unfold infTimesZero decode
  by_cases expA : L.expOf a = L.expMask <;> by_cases expB : L.expOf b = L.expMask <;>
    by_cases mantA : L.mantOf a = 0 <;> by_cases mantB : L.mantOf b = 0 <;>
    simp_all [Datum.noProduct, magnitude_eq_zero_iff]

omit [LinearOrder K] [IsStrictOrderedRing K] [FloorSemiring K] in
theorem times_inf (notA : L.isNan a = false) (notB : L.isNan b = false)
    (inf : L.expOf a = L.expMask ∨ L.expOf b = L.expMask) :
    (L.decode K a).times (L.decode K b) = .inf (L.signOf a ^^ L.signOf b) := by
  rcases inf_or_num notA with ⟨expA, mantA⟩ | numA <;> rcases inf_or_num notB with
    ⟨expB, mantB⟩ | numB
  · rw [decode_inf expA mantA, decode_inf expB mantB]
    rfl
  · rw [decode_inf expA mantA, decode_num numB]
    rfl
  · rw [decode_num numA, decode_inf expB mantB]
    rfl
  · exact absurd inf (by simp [numA, numB])

theorem infTimesZero_iff (notA : L.isNan a = false) (notB : L.isNan b = false) :
    L.infTimesZero a b = true ↔
      L.expOf a = L.expMask ∧ L.isZero b = true ∨ L.expOf b = L.expMask ∧ L.isZero a = true := by
  have mantA : L.expOf a = L.expMask → L.mantOf a = 0 := by
    rcases inf_or_num notA with h | h <;> simp [h]
  have mantB : L.expOf b = L.expMask → L.mantOf b = 0 := by
    rcases inf_or_num notB with h | h <;> simp [h]
  simp only [infTimesZero, decide_eq_true_eq]
  tauto

theorem fma_returns_of_not_nan (notA : L.isNan a = false) (notB : L.isNan b = false)
    (notC : L.isNan c = false) :
    L.Returns (L.fma a b c (rmOf mode))
      (L.format.fma mode (L.decode K a) (L.decode K b) (L.decode K c)) := by
  have none : ¬ (L.isNan a = true ∨ L.isNan b = true ∨ L.isNan c = true) := by
    simp [notA, notB, notC]
  rw [fma_of_not_nan (by rw [isNan_decode, notA]) (by rw [isNan_decode, notB])
    (by rw [isNan_decode, notC]), noProduct_decode]
  unfold fma
  by_cases inf : L.expOf a = L.expMask ∨ L.expOf b = L.expMask
  · rw [if_pos (by tauto), if_neg none, times_inf notA notB inf]
    by_cases noProduct : L.infTimesZero a b = true
    · have := (infTimesZero_iff notA notB).mp noProduct
      rw [if_pos noProduct, if_pos (by tauto)]
      exact returns_invalid
    · have := (infTimesZero_iff notA notB).not.mp noProduct
      rw [if_neg noProduct]
      rcases inf_or_num notC with ⟨expC, mantC⟩ | numC
      · rw [decode_inf expC mantC, addFinite]
        by_cases same : (L.signOf a ^^ L.signOf b) = L.signOf c
        · rw [if_pos same, if_neg (by tauto), if_pos expC, same]
          exact returns_inf _
        · rw [if_neg same, if_pos (by tauto)]
          exact returns_invalid
      · rw [decode_num numC, addFinite, if_neg (by tauto), if_neg numC]
        exact returns_inf _
  obtain ⟨numA, numB⟩ := not_or.mp inf
  have product : L.infTimesZero a b = false := by
    have := infTimesZero_iff notA notB
    simpa [numA, numB] using this
  rw [product, if_neg (show ¬ false = true by decide), decode_num numA, decode_num numB,
    times]
  rcases inf_or_num notC with ⟨expC, mantC⟩ | numC
  · rw [decode_inf expC mantC, addFinite, if_pos (by tauto), if_neg none,
      if_neg (by tauto), if_pos expC]
    exact returns_inf _
  rw [decode_num numC, if_neg (by tauto)]
  by_cases zero : L.isZero a = true ∨ L.isZero b = true
  · have gone : L.magnitude K a * L.magnitude K b = 0 := by
      rw [mul_eq_zero, magnitude_eq_zero_iff, magnitude_eq_zero_iff]
      exact zero
    have signedZero (s : Bool) : signed s (0 : K) = 0 := by
      cases s <;> simp [signed]
    rw [if_pos zero, gone, addFinite, signedZero, zero_add]
    by_cases zeroC : L.isZero c = true
    · rw [if_pos zeroC, (magnitude_eq_zero_iff c).mpr zeroC, signedZero,
        roundSigned, if_pos rfl, rmOf_eq_rdn, zeroSign]
      by_cases same : (L.signOf a ^^ L.signOf b) = L.signOf c
      · rw [if_neg (not_not.mpr same.symm), if_pos same]
        exact returns_zero _
      · rw [if_pos (Ne.symm same), if_neg same]
        exact returns_zero _
    · have pos : 0 < L.magnitude K c := by
        refine lt_of_le_of_ne (by unfold magnitude; positivity) ?_
        intro zero
        exact zeroC ((magnitude_eq_zero_iff c).mp zero.symm)
      rw [if_neg zeroC, roundSigned_signed _ _ pos,
        round_of_holds _ _ (holds_magnitude numC)]
      exact returns_word (decode_num numC) rfl
  · rw [if_neg zero]
    obtain ⟨nonzeroA, nonzeroB⟩ := not_or.mp zero
    exact fmaFinite_returns mode (by simpa using nonzeroA) (by simpa using nonzeroB)

/-- `fma` returns the sum rounded once with its flags, except for the invalid flag of an
infinity times a zero with a quiet NaN as addend. -/
theorem fma_returns_iff (a b c : BitVec L.size) : L.Returns (L.fma a b c (rmOf mode))
        (L.format.fma mode (L.decode K a) (L.decode K b) (L.decode K c)) ↔
      ¬ (L.infTimesZero a b ∧ L.isNan c ∧ ¬ L.isSignan c) := by
  by_cases nan : L.isNan a = true ∨ L.isNan b = true ∨ L.isNan c = true
  · have special : L.expOf a = L.expMask ∨ L.expOf b = L.expMask ∨ L.expOf c = L.expMask := by
      simp only [isNan, decide_eq_true_eq] at nan
      omega
    rw [fma, if_pos special, if_pos nan, FloatFormat.fma, noProduct_decode]
    by_cases product : L.infTimesZero a b = true
    · have factors : L.isSignan a = false ∧ L.isSignan b = false ∧ L.isNan c = true := by
        simp only [infTimesZero, isZero, decide_eq_true_eq] at product
        have mask := L.expMask_eq_bias
        have notA := L.isSignan_iff a
        have notB := L.isSignan_iff b
        simp only [isNan, decide_eq_true_eq] at nan ⊢
        refine ⟨?_, ?_, by omega⟩
        · rw [← Bool.not_eq_true, notA]
          omega
        · rw [← Bool.not_eq_true, notB]
          omega
      obtain ⟨quietA, quietB, nanC⟩ := factors
      rw [if_pos product]
      cases quietC : L.isSignan c
      · -- the addend is a quiet NaN: the code raises nothing
        simp only [quietA, quietB, Bool.false_eq_true, or_self, if_false, product, nanC,
          not_false_eq_true, and_self, not_true_eq_false, iff_false]
        intro returned
        have flags := returned.2
        simp [invalidResult, flagBits, FFLAG_INVALID_OP] at flags
      · simpa [quietA, quietB, product, nanC] using returns_invalid
    · have nanSpec : ((L.decode K a).isNan || (L.decode K b).isNan || (L.decode K c).isNan) =
          true := by simpa [isNan_decode, or_assoc] using nan
      rw [if_neg product, if_pos nanSpec]
      simp only [product, Bool.false_eq_true, false_and, not_false_eq_true, iff_true]
      apply returns_nan
      simp only [isSignaling_decode, Bool.or_eq_true, or_assoc]
  · obtain ⟨notA, notB, notC⟩ : L.isNan a = false ∧ L.isNan b = false ∧ L.isNan c = false := by
      simpa using nan
    simp only [notC, Bool.false_eq_true, false_and, and_false, not_false_eq_true, iff_true]
    exact fma_returns_of_not_nan mode notA notB notC

end Fma

/-- The fused sum is the exact rational result rounded once, with exactly its flags, unless the
factors are an infinity and a zero and the addend is a quiet NaN. -/
theorem fma_rounded_once_iff (mode : Rounding) (a b c : BitVec L.size) :
    L.Returns (L.fma a b c (rmOf mode))
        (L.format.fma mode (L.decode ℚ a) (L.decode ℚ b) (L.decode ℚ c)) ↔
      ¬ (L.infTimesZero a b ∧ L.isNan c ∧ ¬ L.isSignan c) :=
  fma_returns_iff mode a b c

/-- `∞ * 0` plus a quiet NaN: no flag is raised. -/
theorem fma_quiet_addend_unflagged :
    sf64.fma 0x7ff0000000000000#64 0#64 0x7ff8000000000000#64 RM_RNE = (sf64.qnan, 0#32) ∧
      ¬ sf64.Returns (sf64.fma 0x7ff0000000000000#64 0#64 0x7ff8000000000000#64 RM_RNE)
        (sf64.format.fma .nearestEven (sf64.decode ℚ 0x7ff0000000000000#64)
          (sf64.decode ℚ 0#64) (sf64.decode ℚ 0x7ff8000000000000#64)) := by
  refine ⟨by decide +kernel, ?_⟩
  intro returned
  exact (fma_returns_iff (K := ℚ) .nearestEven _ _ _).mp returned (by decide +kernel)

end Layout
end Rv64Js.Softfp
