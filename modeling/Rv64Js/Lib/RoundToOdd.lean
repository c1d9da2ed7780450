import Rv64Js.Lib.FloatFormat

/-! # Rounding to odd

Rounding to odd keeps every bit above the last place and sets the last when something is lost.
Rounding the result to a format with two bits less is then rounding the exact value. -/

set_option autoImplicit false

namespace Rv64Js

attribute [local instance] atLeastTwo_two

variable {K : Type*} [Field K] [LinearOrder K] [IsStrictOrderedRing K] [FloorSemiring K]

/-- Less than half below a natural number, rounding reaches it in the directions that go to
infinity beyond the range. -/
theorem Rounding.toNat_just_below (mode : Rounding) (neg : Bool) {n : ℕ} {x : K} (pos : 0 < n)
    (low : (n : K) - 1 / 2 < x) (high : x < n) :
    mode.toNat neg x = if mode.toInfinity neg then n else n - 1 := by
  have pred : ((n - 1 : ℕ) : K) = n - 1 := by
    rw [Nat.cast_sub pos, Nat.cast_one]
  have nonneg : 0 ≤ x := by
    linarith
  have floor : ⌊x⌋₊ = n - 1 := by
    rw [Nat.floor_eq_iff nonneg, pred]
    constructor <;> linarith
  have ceil : ⌈x⌉₊ = n := by
    rw [Nat.ceil_eq_iff pos.ne', pred]
    constructor <;> linarith
  have far : ¬ x - (n - 1 : ℕ) < 1 / 2 := by
    rw [pred]
    linarith
  have above : 1 / 2 < x - (n - 1 : ℕ) := by
    rw [pred]
    linarith
  cases mode with
  | nearestEven =>
    simp only [toNat, toInfinity, floor, if_neg far, if_pos above, if_true]
    omega
  | nearestAway =>
    simp only [toNat, toInfinity, floor, if_neg far, if_true]
    omega
  | towardZero => simp [toNat, toInfinity, floor]
  | down => cases neg <;> simp [toNat, toInfinity, floor, ceil]
  | up => cases neg <;> simp [toNat, toInfinity, floor, ceil]

namespace FloatFormat

/-- `x` rounded to odd; the largest number when `x` is beyond the range. -/
def odd (F : FloatFormat) (x : K) : K :=
  if 2 ^ (F.emax + 1) ≤ x then F.largest else jam (x / 2 ^ F.place x) * 2 ^ F.place x

variable {F G : FloatFormat} {x : K}

theorem odd_agree (x0 : 0 ≤ x) (inRange : x < 2 ^ (F.emax + 1)) :
    Agree (2 ^ (F.place x + 1)) x (F.odd x) := by
  have agree := (jam_agree (show 0 ≤ x / 2 ^ F.place x by positivity)).symm.scale
    (k := (2 : K) ^ F.place x) (by positivity)
  rw [odd, if_neg inRange.not_ge, add_comm, zpow_add₀ two_ne_zero, zpow_one]
  rwa [div_mul_cancel₀ _ (by positivity)] at agree

omit [IsStrictOrderedRing K] in
theorem largest_eq : F.largest = (2 : K) ^ (F.emax + 1) - 2 ^ (F.emax - (F.prec - 1)) := by
  rw [largest, sub_mul, one_mul, ← zpow_natCast, ← zpow_add₀ two_ne_zero]
  congr 2
  ring

theorem largest_lt : (F.largest : K) < 2 ^ (F.emax + 1) := by
  rw [largest_eq]
  exact sub_lt_self _ (by positivity)

theorem two_pow_log_le_roundAt (mode : Rounding) (neg : Bool) (prec : 0 < F.prec) (pos : 0 < x)
    (normal : F.emin ≤ Int.log 2 x) : (2 : K) ^ Int.log 2 x ≤ roundAt mode neg (F.place x) x := by
  obtain ⟨p, hp⟩ : ∃ p, F.prec = p + 1 := ⟨F.prec - 1, by omega⟩
  have place : F.place x + p = Int.log 2 x := by
    unfold FloatFormat.place
    rw [max_eq_left normal, hp]
    push_cast
    ring
  have leading : (2 : K) ^ Int.log 2 x = (2 ^ p : ℕ) * 2 ^ F.place x := by
    rw [← place, add_comm (F.place x), zpow_add₀ two_ne_zero, zpow_natCast]
    push_cast
    rfl
  rw [leading]
  unfold roundAt
  gcongr
  apply Rounding.le_toNat
  rw [le_div_iff₀ (by positivity), ← leading]
  exact two_pow_log_le pos

section Narrower

variable (mode : Rounding) (neg : Bool) (least : G.emin = F.emin) (top : G.emax = F.emax)
  (prec : 0 < G.prec) (wider : G.prec + 2 ≤ F.prec)
include prec

theorem round_beyond (order : G.emin ≤ G.emax) (beyond : 2 ^ (G.emax + 1) ≤ x) :
    (G.round mode neg x).1 = if mode.toInfinity neg then .inf neg else .num neg G.largest := by
  have log := le_log beyond
  have pos : 0 < x := lt_of_lt_of_le (by positivity) beyond
  have reaches : (2 : K) ^ (G.emax + 1) ≤ roundAt mode neg (G.place x) x :=
    (zpow_le_zpow_right₀ one_le_two log).trans
      (two_pow_log_le_roundAt mode neg prec pos (by omega))
  rw [round_overflow reaches]

omit prec in
theorem round_just_below (order : G.emin ≤ G.emax) (prec : 0 < G.prec)
    (low : (2 : K) ^ (G.emax + 1) - 2 ^ (G.emax - G.prec) < x) (high : x < 2 ^ (G.emax + 1)) :
    (G.round mode neg x).1 = if mode.toInfinity neg then .inf neg else .num neg G.largest := by
  have half : (2 : K) ^ (G.emax - G.prec) ≤ 2 ^ G.emax :=
    zpow_le_zpow_right₀ one_le_two (by omega)
  have double : (2 : K) ^ (G.emax + 1) = 2 ^ G.emax * 2 := zpow_add_one₀ two_ne_zero _
  have log : Int.log 2 x = G.emax := log_eq (by linarith) high
  have place : G.place x = G.emax - G.prec + 1 := by
    unfold FloatFormat.place
    rw [log, max_eq_left order]
    ring
  have unit : (2 : K) ^ G.place x = 2 ^ (G.emax - G.prec) * 2 := by
    rw [place, zpow_add_one₀ two_ne_zero]
  have full : (2 : K) ^ (G.emax + 1) = (2 ^ G.prec : ℕ) * 2 ^ G.place x := by
    rw [place]
    push_cast
    rw [← zpow_natCast, ← zpow_add₀ two_ne_zero]
    congr 1
    ring
  have pos : (0 : K) < 2 ^ G.place x := by positivity
  have rounds : mode.toNat neg (x / 2 ^ G.place x) =
      if mode.toInfinity neg then 2 ^ G.prec else 2 ^ G.prec - 1 := by
    apply mode.toNat_just_below neg (by positivity)
    · rw [lt_div_iff₀ pos, sub_mul, ← full, unit]
      linarith
    · rwa [div_lt_iff₀ pos, ← full]
  by_cases away : mode.toInfinity neg
  · rw [round_overflow, if_pos away]
    unfold roundAt
    rw [rounds, if_pos away, ← full]
  · have value : roundAt mode neg (G.place x) x = G.largest := by
      unfold roundAt
      rw [rounds, if_neg away, largest, place, Nat.cast_sub Nat.one_le_two_pow]
      push_cast
      congr 2
      ring
    rw [round_fits, if_neg away, value]
    unfold roundAt
    rw [rounds, if_neg away, full]
    gcongr
    exact Nat.sub_lt (by positivity) one_pos

include least top wider

/-- Rounding to odd and then to two bits less is rounding once. -/
theorem round_odd_fst (order : F.emin ≤ F.emax) (x0 : 0 ≤ x) :
    (G.round mode neg (F.odd x)).1 = (G.round mode neg x).1 := by
  rcases le_or_gt (2 ^ (F.emax + 1)) x with beyond | inRange
  · have gap : (2 : K) ^ (F.emax - (F.prec - 1)) < 2 ^ (G.emax - G.prec) :=
      zpow_lt_zpow_right₀ one_lt_two (by omega)
    have exact := round_beyond (x := x) mode neg prec (by omega) (by rwa [top])
    rw [exact, odd, if_pos beyond, round_just_below mode neg (by omega) prec]
    · rw [largest_eq, top]
      rw [top] at gap
      linarith
    · rw [top]
      exact largest_lt
  · rcases x0.eq_or_lt with rfl | pos
    · simp [odd, jam, inRange.not_ge]
    · have agree := (odd_agree x0 inRange).two_pow_mono (l := G.place x - 1) (by
        unfold FloatFormat.place
        omega)
      exact (agree.round_fst_eq pos prec mode neg).symm

end Narrower

theorem odd_of_holds (holds : F.Holds x) : F.odd x = x := by
  have rounds := round_of_holds .towardZero false holds
  obtain ⟨-, -, -, -, -, inRange⟩ := id holds
  have same : roundAt .towardZero false (F.place x) x = x := by
    rcases le_or_gt (2 ^ (F.emax + 1)) (roundAt .towardZero false (F.place x) x) with out | fits
    · rw [round_overflow out] at rounds
      exact absurd (congrArg (fun r => r.2.overflow) rounds) (by simp)
    · rw [round_fits fits] at rounds
      injection rounds with datum
      injection datum
  obtain ⟨n, whole⟩ := roundAt_eq_self.mp same
  rw [odd, if_neg inRange.not_ge, whole, jam_natCast, ← whole, div_mul_cancel₀ _ (by positivity)]

section Truncated

theorem place_truncated (prec : 0 < F.prec) (pos : 0 < x) (some : 0 < ⌊x / 2 ^ F.place x⌋₊) :
    F.place ((⌊x / 2 ^ F.place x⌋₊ : K) * 2 ^ F.place x) = F.place x := by
  have unit : (0 : K) < 2 ^ F.place x := by positivity
  have le : (⌊x / 2 ^ F.place x⌋₊ : K) * 2 ^ F.place x ≤ x := by
    rw [← le_div_iff₀ unit]
    exact Nat.floor_le (by positivity)
  have someK : (0 : K) < (⌊x / 2 ^ F.place x⌋₊ : K) * 2 ^ F.place x := by positivity
  have below := log_lt someK (le.trans_lt (lt_two_pow_log x))
  rcases le_or_gt F.emin (Int.log 2 x) with normal | small
  · have kept : (2 : K) ^ Int.log 2 x ≤ (⌊x / 2 ^ F.place x⌋₊ : K) * 2 ^ F.place x :=
      two_pow_log_le_roundAt .towardZero false prec pos normal
    have log := le_log kept
    generalize (⌊x / 2 ^ F.place x⌋₊ : K) * 2 ^ F.place x = y at *
    unfold FloatFormat.place
    rw [show Int.log 2 y = Int.log 2 x by omega]
  · generalize (⌊x / 2 ^ F.place x⌋₊ : K) * 2 ^ F.place x = y at *
    unfold FloatFormat.place
    omega

theorem Holds.le_largest {v : K} (holds : F.Holds v) : v ≤ F.largest := by
  obtain ⟨n, k, rfl, bits, -, inRange⟩ := holds
  have bitsK : (n : K) ≤ 2 ^ F.prec - 1 := by
    have : n + 1 ≤ 2 ^ F.prec := bits
    have : (n : K) + 1 ≤ 2 ^ F.prec := by exact_mod_cast this
    linarith
  have nonneg : (0 : K) ≤ 2 ^ F.prec - 1 := le_trans (Nat.cast_nonneg n) bitsK
  rcases le_or_gt k (F.emax - (F.prec - 1)) with fine | coarse
  · rw [largest]
    gcongr
    exact one_le_two
  · obtain ⟨d, rfl⟩ := Int.le.dest coarse.le
    have multiple : (n : K) * 2 ^ (F.emax - (F.prec - 1) + d) =
        (n * 2 ^ d : ℕ) * 2 ^ (F.emax - (F.prec - 1)) := by
      rw [add_comm, zpow_add₀ two_ne_zero, zpow_natCast]
      push_cast
      ring
    have full : (2 : K) ^ (F.emax + 1) = (2 ^ F.prec : ℕ) * 2 ^ (F.emax - (F.prec - 1)) := by
      push_cast
      rw [← zpow_natCast, ← zpow_add₀ two_ne_zero]
      congr 1
      ring
    rw [multiple, full] at inRange
    have lt : n * 2 ^ d < 2 ^ F.prec := by
      have := lt_of_mul_lt_mul_right inRange (by positivity)
      exact_mod_cast this
    have le : ((n * 2 ^ d : ℕ) : K) ≤ 2 ^ F.prec - 1 := by
      have : n * 2 ^ d + 1 ≤ 2 ^ F.prec := lt
      have : ((n * 2 ^ d : ℕ) : K) + 1 ≤ 2 ^ F.prec := by exact_mod_cast this
      linarith
    rw [multiple, largest]
    gcongr

/-- Rounding toward zero, with the largest number beyond the range. -/
def truncated (F : FloatFormat) (x : K) : K :=
  if 2 ^ (F.emax + 1) ≤ x then F.largest else ⌊x / 2 ^ F.place x⌋₊ * 2 ^ F.place x

theorem truncated_le (x0 : 0 ≤ x) : F.truncated x ≤ x := by
  unfold truncated
  split_ifs with beyond
  · exact largest_lt.le.trans beyond
  · rw [← le_div_iff₀ (by positivity)]
    exact Nat.floor_le (by positivity)

theorem round_towardZero (neg : Bool) (prec : 0 < F.prec) (order : F.emin ≤ F.emax) (x0 : 0 ≤ x) :
    (F.round .towardZero neg x).1 = .num neg (F.truncated x) ∧
      ((F.round .towardZero neg x).2.inexact = true ↔ F.truncated x ≠ x) := by
  unfold truncated
  rcases le_or_gt (2 ^ (F.emax + 1)) x with beyond | inRange
  · have log := le_log beyond
    have pos : 0 < x := lt_of_lt_of_le (by positivity) beyond
    have reaches : (2 : K) ^ (F.emax + 1) ≤ roundAt .towardZero neg (F.place x) x :=
      (zpow_le_zpow_right₀ one_le_two log).trans
        (two_pow_log_le_roundAt .towardZero neg prec pos (by omega))
    rw [round_overflow reaches, if_pos beyond]
    simp [Rounding.toInfinity, (largest_lt.trans_le beyond).ne]
  · have fits : roundAt .towardZero neg (F.place x) x < 2 ^ (F.emax + 1) := by
      refine lt_of_le_of_lt ?_ inRange
      have := truncated_le (F := F) x0
      rwa [truncated, if_neg inRange.not_ge] at this
    rw [round_fits fits, if_neg inRange.not_ge]
    exact ⟨rfl, decide_eq_true_iff⟩

/-- No number of the format lies between a magnitude and its truncation. -/
theorem Holds.le_truncated {v : K} (holds : F.Holds v) (prec : 0 < F.prec) (pos : 0 < x)
    (le : v ≤ x) : v ≤ F.truncated x := by
  unfold truncated
  split_ifs with beyond
  · exact holds.le_largest
  obtain ⟨n, k, rfl, bits, above, -⟩ := holds
  have unit : (0 : K) < 2 ^ F.place x := by positivity
  rcases le_or_gt (F.place x) k with coarse | fine
  · obtain ⟨d, rfl⟩ := Int.le.dest coarse
    have multiple : (n : K) * 2 ^ (F.place x + d) = (n * 2 ^ d : ℕ) * 2 ^ F.place x := by
      rw [add_comm, zpow_add₀ two_ne_zero, zpow_natCast]
      push_cast
      ring
    rw [multiple] at le ⊢
    gcongr
    apply Nat.le_floor
    rwa [le_div_iff₀ unit]
  · -- above the subnormal places the leading bit of `x` outweighs `v`
    have normal : F.emin ≤ Int.log 2 x ∧ F.prec + k ≤ Int.log 2 x := by
      unfold FloatFormat.place at fine
      omega
    calc (n : K) * 2 ^ k ≤ 2 ^ (F.prec + k) := (natCast_mul_lt bits k).le
      _ ≤ 2 ^ Int.log 2 x := zpow_le_zpow_right₀ one_le_two normal.2
      _ ≤ _ := two_pow_log_le_roundAt .towardZero false prec pos normal.1

end Truncated

end FloatFormat
end Rv64Js
