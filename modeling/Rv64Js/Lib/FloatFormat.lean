import Rv64Js.Lib.Rounding

/-! # Binary floating-point formats

Data are NaNs, infinities and signed magnitudes. `round` takes an exact magnitude to the format
once; underflow is raised for an inexact result whose magnitude, rounded with an unbounded exponent
range, lies below the normal range. -/

set_option autoImplicit false

namespace Rv64Js

open Int

attribute [local instance] atLeastTwo_two

/-- Significand bits and the exponents of the normal range. -/
structure FloatFormat where
  prec : ℕ
  emin : ℤ
  emax : ℤ

inductive Datum (K : Type*)
  | nan (signaling : Bool)
  | inf (neg : Bool)
  | num (neg : Bool) (mag : K)

@[ext] structure Flags where
  inexact : Bool := false
  underflow : Bool := false
  overflow : Bool := false
  divideZero : Bool := false
  invalid : Bool := false
deriving DecidableEq, Repr

namespace FloatFormat

variable {K : Type*} [Field K] [LinearOrder K] [FloorSemiring K]

def roundAt (mode : Rounding) (neg : Bool) (q : ℤ) (x : K) : K :=
  mode.toNat neg (x / 2 ^ q) * 2 ^ q

variable (F : FloatFormat)

/-- Exponent of the last place of the numbers around `x`, were there no smallest exponent. -/
def freePlace (x : K) : ℤ := Int.log 2 x - (F.prec - 1)

/-- Exponent of the last place of the numbers of the format around `x`. -/
def place (x : K) : ℤ := max (Int.log 2 x) F.emin - (F.prec - 1)

def largest : K := (2 ^ F.prec - 1) * 2 ^ (F.emax - (F.prec - 1))

def round (mode : Rounding) (neg : Bool) (x : K) : Datum K × Flags :=
  let y := roundAt mode neg (F.place x) x
  if 2 ^ (F.emax + 1) ≤ y then
    (if mode.toInfinity neg then .inf neg else .num neg F.largest,
      { overflow := true, inexact := true })
  else
    let tiny : Bool := roundAt mode neg (F.freePlace x) x < 2 ^ F.emin
    (.num neg y, { inexact := y ≠ x, underflow := tiny && y ≠ x })

variable [IsStrictOrderedRing K] {F} {x y : K}

omit [FloorSemiring K] in
theorem natCast_mul_lt {n k : ℕ} (bits : n < 2 ^ k) (q : ℤ) : (n : K) * 2 ^ q < 2 ^ (k + q) := by
  have bitsK : (n : K) < 2 ^ k := by exact_mod_cast bits
  rw [zpow_add₀ two_ne_zero, zpow_natCast]
  gcongr

omit [FloorSemiring K] in
theorem le_natCast_mul {n k : ℕ} (bits : 2 ^ k ≤ n) (q : ℤ) : (2 : K) ^ (k + q) ≤ n * 2 ^ q := by
  have bitsK : (2 : K) ^ k ≤ n := by exact_mod_cast bits
  rw [zpow_add₀ two_ne_zero, zpow_natCast]
  gcongr

variable {e : ℤ}

theorem log_eq (low : (2 : K) ^ e ≤ x) (high : x < 2 ^ (e + 1)) : log 2 x = e := by
  have pos : 0 < x := lt_of_lt_of_le (by positivity) low
  have lower := (zpow_le_iff_le_log (by norm_num : 1 < 2) pos (x := e)).mp (by simpa using low)
  have upper := (lt_zpow_iff_log_lt (by norm_num : 1 < 2) pos (x := e + 1)).mp
    (by simpa using high)
  omega

theorem two_pow_log_le (pos : 0 < x) : (2 : K) ^ log 2 x ≤ x := by
  simpa using zpow_log_le_self (b := 2) (by norm_num) pos

theorem lt_two_pow_log (x : K) : x < 2 ^ (log 2 x + 1) := by
  simpa using lt_zpow_succ_log_self (b := 2) (by norm_num) x

theorem log_lt (pos : 0 < x) (high : x < 2 ^ e) : log 2 x < e :=
  (lt_zpow_iff_log_lt (by norm_num : 1 < 2) pos).mp (by simpa using high)

theorem le_log (low : (2 : K) ^ e ≤ x) : e ≤ log 2 x :=
  (zpow_le_iff_le_log (by norm_num : 1 < 2) (lt_of_lt_of_le (by positivity) low)).mp
    (by simpa using low)

variable {mode : Rounding}

variable {neg : Bool}

omit [IsStrictOrderedRing K] in
theorem round_overflow (out : 2 ^ (F.emax + 1) ≤ roundAt mode neg (F.place x) x) :
    F.round mode neg x = (if mode.toInfinity neg then .inf neg else .num neg F.largest,
      { overflow := true, inexact := true }) := by
  simp only [round, out, if_true]

omit [IsStrictOrderedRing K] in
theorem round_fits (fits : roundAt mode neg (F.place x) x < 2 ^ (F.emax + 1)) :
    F.round mode neg x = (.num neg (roundAt mode neg (F.place x) x),
      { inexact := roundAt mode neg (F.place x) x ≠ x
        underflow := roundAt mode neg (F.freePlace x) x < 2 ^ F.emin &&
          roundAt mode neg (F.place x) x ≠ x }) := by
  simp only [round, not_le.mpr fits, if_false]

theorem roundAt_eq_self {q : ℤ} : roundAt mode neg q x = x ↔ ∃ n : ℕ, x / 2 ^ q = n := by
  have unit : (2 : K) ^ q ≠ 0 := by positivity
  unfold roundAt
  rw [← eq_div_iff unit, Rounding.toNat_eq_self_iff]

end FloatFormat

namespace Agree

variable {K : Type*} [Field K] [LinearOrder K] [IsStrictOrderedRing K] {x y : K}

variable {k : ℤ}

theorem two_pow_mono {l : ℤ} (h : Agree (2 ^ k) x y) (le : k ≤ l) : Agree (2 ^ l) x y := by
  obtain ⟨d, rfl⟩ := Int.le.dest le
  have step := h.coarser (2 ^ d)
  rwa [Nat.cast_pow, Nat.cast_ofNat, ← zpow_natCast, ← zpow_add₀ two_ne_zero, add_comm] at step

theorem div_two_pow (h : Agree (2 ^ k) x y) (l : ℤ) :
    Agree (2 ^ (k - l)) (x / 2 ^ l) (y / 2 ^ l) := by
  have step := h.scale (k := (2 ^ l : K)⁻¹) (by positivity)
  rwa [← div_eq_mul_inv, ← div_eq_mul_inv, ← div_eq_mul_inv, ← zpow_sub₀ two_ne_zero] at step

theorem two_pow_le_iff {l : ℤ} (h : Agree (2 ^ k) x y) (le : k ≤ l) : 2 ^ l ≤ x ↔ 2 ^ l ≤ y :=
  (h.two_pow_mono le).multiple_le_iff 1 (by push_cast; ring)

omit [IsStrictOrderedRing K] in
theorem pos_iff {g : K} (h : Agree g x y) : 0 < x ↔ 0 < y := by
  have step := h.le_multiple_iff (t := 0) 0 (by push_cast; ring)
  rw [← not_le, ← not_le, step]

variable [FloorSemiring K]

theorem log_eq (h : Agree (2 ^ k) x y) (pos : 0 < x) (le : k ≤ log 2 x) : log 2 y = log 2 x := by
  apply FloatFormat.log_eq
  · exact (h.two_pow_le_iff le).mp (FloatFormat.two_pow_log_le pos)
  · have := FloatFormat.lt_two_pow_log x
    rw [← not_le] at this ⊢
    rwa [← h.two_pow_le_iff (by omega)]

theorem roundAt_eq {q : ℤ} (h : Agree (2 ^ (q - 1)) x y) (x0 : 0 ≤ x) (y0 : 0 ≤ y) (mode : Rounding)
    (neg : Bool) : FloatFormat.roundAt mode neg q x = FloatFormat.roundAt mode neg q y := by
  have halves := h.div_two_pow q
  rw [show q - 1 - q = -1 by ring, zpow_neg_one, ← one_div] at halves
  unfold FloatFormat.roundAt
  rw [halves.toNat_eq (by positivity) (by positivity)]

theorem roundAt_eq_self_iff {q : ℤ} (h : Agree (2 ^ (q - 1)) x y) (mode : Rounding) (neg : Bool) :
    FloatFormat.roundAt mode neg q x = x ↔ FloatFormat.roundAt mode neg q y = y := by
  have halves := h.div_two_pow q
  rw [show q - 1 - q = -1 by ring, zpow_neg_one, ← one_div] at halves
  rw [FloatFormat.roundAt_eq_self, FloatFormat.roundAt_eq_self, halves.isNat_iff]

theorem jam_le_iff (x0 : 0 ≤ x) (even : 1 ≤ k) : (2 : K) ^ k ≤ jam x ↔ 2 ^ k ≤ x := by
  have agree := jam_agree x0
  rw [← zpow_one (2 : K)] at agree
  exact agree.two_pow_le_iff even

variable {F : FloatFormat}

/-- A stand-in that agrees with the exact magnitude down to half the last place rounds alike,
flags included. -/
theorem round_eq (h : Agree (2 ^ (F.freePlace x - 1)) x y) (pos : 0 < x) (prec : 0 < F.prec)
    (mode : Rounding) (neg : Bool) : F.round mode neg x = F.round mode neg y := by
  have pos' := h.pos_iff.mp pos
  have logs : log 2 y = log 2 x := h.log_eq pos (by unfold FloatFormat.freePlace; omega)
  have places : F.place y = F.place x := by unfold FloatFormat.place; rw [logs]
  have frees : F.freePlace y = F.freePlace x := by unfold FloatFormat.freePlace; rw [logs]
  have coarse : Agree (2 ^ (F.place x - 1)) x y := by
    apply h.two_pow_mono
    unfold FloatFormat.freePlace FloatFormat.place
    omega
  unfold FloatFormat.round
  simp only [places, frees, coarse.roundAt_eq pos.le pos'.le, h.roundAt_eq pos.le pos'.le, ne_eq,
    ← coarse.roundAt_eq_self_iff]

/-- The datum alone needs no more than half the last place the format has. -/
theorem round_fst_eq (h : Agree (2 ^ (F.place x - 1)) x y) (pos : 0 < x) (prec : 0 < F.prec)
    (mode : Rounding) (neg : Bool) : (F.round mode neg x).1 = (F.round mode neg y).1 := by
  have pos' := h.pos_iff.mp pos
  have places : F.place y = F.place x := by
    unfold FloatFormat.place at h ⊢
    rcases le_or_gt F.emin (log 2 x) with normal | small
    · rw [max_eq_left normal] at h
      rw [h.log_eq pos (by omega)]
    · rw [max_eq_right small.le] at h
      have below : x < 2 ^ F.emin := lt_of_lt_of_le (FloatFormat.lt_two_pow_log x)
        (zpow_le_zpow_right₀ one_le_two (by omega))
      have below' : y < 2 ^ F.emin := by
        rw [← not_le] at below ⊢
        rwa [← h.two_pow_le_iff (by omega)]
      have := FloatFormat.log_lt pos' below'
      omega
  unfold FloatFormat.round
  simp only [places, h.roundAt_eq pos.le pos'.le]
  split_ifs <;> rfl

end Agree

namespace FloatFormat

variable {K : Type*} [Field K] [LinearOrder K] [IsStrictOrderedRing K] [FloorSemiring K]
variable {F : FloatFormat} {x : K} (mode : Rounding) (neg : Bool)

@[simp] theorem roundAt_zero (q : ℤ) : roundAt mode neg q (0 : K) = 0 := by
  have whole := mode.toNat_natCast (K := K) neg 0
  rw [Nat.cast_zero] at whole
  simp [roundAt, whole]

@[simp] theorem round_zero : F.round mode neg (0 : K) = (.num neg 0, {}) := by
  have pos : ¬ (2 : K) ^ (F.emax + 1) ≤ 0 := by
    rw [not_le]
    positivity
  simp [round, pos]

/-- A magnitude with at most `prec` significant bits, none below the last place of the
format. -/
def Holds (F : FloatFormat) (x : K) : Prop :=
  ∃ (n : ℕ) (q : ℤ), x = n * 2 ^ q ∧ n < 2 ^ F.prec ∧ F.emin - (F.prec - 1) ≤ q ∧
    x < 2 ^ (F.emax + 1)

theorem round_of_holds (holds : F.Holds x) : F.round mode neg x = (.num neg x, {}) := by
  obtain ⟨n, q, rfl, bits, above, inRange⟩ := holds
  rcases Nat.eq_zero_or_pos n with rfl | some
  · simp
  have pos : (0 : K) < n * 2 ^ q := by positivity
  have low := log_lt pos (natCast_mul_lt bits q)
  have fine : F.place ((n : K) * 2 ^ q) ≤ q := by
    unfold place
    omega
  obtain ⟨d, hd⟩ := Int.le.dest fine
  have whole : (n : K) * 2 ^ q / 2 ^ F.place ((n : K) * 2 ^ q) = (n * 2 ^ d : ℕ) := by
    generalize F.place ((n : K) * 2 ^ q) = p at hd
    subst hd
    have unit : (2 : K) ^ p ≠ 0 := by positivity
    rw [zpow_add₀ two_ne_zero, zpow_natCast]
    push_cast
    field_simp
  have same : roundAt mode neg (F.place ((n : K) * 2 ^ q)) ((n : K) * 2 ^ q) = n * 2 ^ q :=
    roundAt_eq_self.mpr ⟨_, whole⟩
  unfold round
  simp only [same, not_le.mpr inRange, if_false]
  simp

end FloatFormat
end Rv64Js
