import Rv64Js.Lib.RoundToOdd

/-! # The edge of the normal range, rounding to nearest-even

A magnitude rounds up to the smallest normal number from half a last place below it; it is tiny
after rounding up to a quarter of one. In between the result is normal and underflow is raised. -/

set_option autoImplicit false

namespace Rv64Js

open FloatFormat

attribute [local instance] atLeastTwo_two

variable {K : Type*} [Field K] [LinearOrder K] [IsStrictOrderedRing K] [FloorSemiring K]

theorem Rounding.le_nearestEven_iff (neg : Bool) {n : ℕ} {x : K} (even : n % 2 = 0)
    (x0 : 0 ≤ x) : n ≤ nearestEven.toNat neg x ↔ (n : K) - 1 / 2 ≤ x := by
  have floorLe : (⌊x⌋₊ : K) ≤ x := Nat.floor_le x0
  have ltFloor : x < ⌊x⌋₊ + 1 := Nat.lt_floor_add_one x
  rcases Nat.lt_trichotomy (⌊x⌋₊ + 1) n with below | next | above
  · have gap : (⌊x⌋₊ : K) + 1 + 1 ≤ n := by exact_mod_cast below
    have ceil := (nearestEven.toNat_le_ceil neg x0).trans (Nat.ceil_le_floor_add_one x)
    constructor
    · intro le
      omega
    · intro le
      linarith
  · have natural : (n : K) = ⌊x⌋₊ + 1 := by rw [← next]; push_cast; rfl
    rw [natural]
    simp only [toNat]
    split_ifs with down up
    · constructor <;> intro h
      · omega
      · linarith
    · exact ⟨fun _ => by linarith, fun _ => by omega⟩
    · exact ⟨fun _ => by linarith, fun _ => by omega⟩
  · have le : (n : K) ≤ ⌊x⌋₊ := by exact_mod_cast (show n ≤ ⌊x⌋₊ by omega)
    refine ⟨fun _ => by linarith, fun _ => ?_⟩
    exact nearestEven.le_toNat neg (le.trans floorLe)

namespace FloatFormat

variable {F : FloatFormat} {x : K} (neg : Bool)

/-- Rounded to a multiple of `2 ^ q`, a magnitude reaches `2 ^ (k + q)` from half a unit below. -/
theorem two_pow_le_roundAt_iff {k : ℕ} (some : 0 < k) (q : ℤ) (x0 : 0 ≤ x) :
    (2 : K) ^ (k + q) ≤ roundAt .nearestEven neg q x ↔ (2 : K) ^ (k + q) - 2 ^ (q - 1) ≤ x := by
  have unit : (0 : K) < 2 ^ q := by positivity
  have half : (2 : K) ^ (q - 1) = 1 / 2 * 2 ^ q := by
    rw [zpow_sub_one₀ two_ne_zero]
    ring
  have full : (2 : K) ^ (k + q) = (2 ^ k : ℕ) * 2 ^ q := by
    rw [zpow_add₀ two_ne_zero, zpow_natCast]
    push_cast
    rfl
  have even : 2 ^ k % 2 = 0 := by
    rw [← Nat.dvd_iff_mod_eq_zero]
    exact dvd_pow_self 2 (by omega)
  rw [roundAt, full, mul_le_mul_iff_left₀ unit, Nat.cast_le,
    Rounding.le_nearestEven_iff neg even (by positivity), half, ← sub_mul, le_div_iff₀ unit]

/-- A multiple of the smallest number of the format is exact wherever it could underflow. -/
theorem underflow_of_multiple (mode : Rounding) (prec : 0 < F.prec) (pos : 0 < x) {n : ℕ}
    (multiple : x = n * 2 ^ (F.emin - (F.prec - 1))) :
    (F.round mode neg x).2.underflow = false := by
  rcases le_or_gt (2 ^ (F.emax + 1)) (roundAt mode neg (F.place x) x) with out | fits
  · rw [round_overflow out]
  rw [round_fits fits]
  rcases le_or_gt F.emin (.log 2 x) with normal | small
  · have place : F.place x = F.freePlace x := by
      unfold FloatFormat.place freePlace
      rw [max_eq_left normal]
    have le : (2 : K) ^ F.emin ≤ roundAt mode neg (F.freePlace x) x := by
      rw [← place]
      exact (zpow_le_zpow_right₀ one_le_two normal).trans
        (two_pow_log_le_roundAt mode neg prec pos normal)
    simp [le.not_gt]
  · have place : F.place x = F.emin - (F.prec - 1) := by
      unfold FloatFormat.place
      rw [max_eq_right small.le]
    have exact : roundAt mode neg (F.place x) x = x := by
      apply roundAt_eq_self.mpr
      refine ⟨n, ?_⟩
      rw [place, multiple, mul_div_cancel_right₀]
      positivity
    simp [exact]

variable (prec : 2 ≤ F.prec) (pos : 0 < x)
include prec pos

/-- The result is normal from half a last place below the smallest normal number. -/
theorem normal_iff : (2 : K) ^ F.emin ≤ roundAt .nearestEven neg (F.place x) x ↔
    (2 : K) ^ F.emin - 2 ^ (F.emin - F.prec) ≤ x := by
  rcases le_or_gt F.emin (.log 2 x) with normal | small
  · have le : (2 : K) ^ F.emin ≤ 2 ^ Int.log 2 x := zpow_le_zpow_right₀ one_le_two normal
    have unit : (0 : K) < 2 ^ (F.emin - F.prec) := by positivity
    have value := le.trans (two_pow_log_le pos)
    refine ⟨fun _ => by linarith, fun _ => ?_⟩
    exact le.trans (two_pow_log_le_roundAt .nearestEven neg (by omega) pos normal)
  · have place : F.place x = F.emin - (F.prec - 1) := by
      unfold FloatFormat.place
      rw [max_eq_right small.le]
    have reaches := two_pow_le_roundAt_iff neg (show 0 < F.prec - 1 by omega) (F.place x) pos.le
    rwa [show ((F.prec - 1 : ℕ) : ℤ) + F.place x = F.emin by omega,
      show F.place x - 1 = F.emin - F.prec by omega] at reaches

/-- Tiny after rounding: below a quarter of a last place under the smallest normal number. -/
theorem tiny_nearestEven_iff : roundAt .nearestEven neg (F.freePlace x) x < 2 ^ F.emin ↔
    x < 2 ^ F.emin - 2 ^ (F.emin - F.prec - 1) := by
  rcases le_or_gt F.emin (.log 2 x) with normal | small
  · have le : (2 : K) ^ F.emin ≤ 2 ^ Int.log 2 x := zpow_le_zpow_right₀ one_le_two normal
    have unit : (0 : K) < 2 ^ (F.emin - F.prec - 1) := by positivity
    have value := le.trans (two_pow_log_le pos)
    have rounded := le.trans (two_pow_log_le_roundAt .nearestEven neg (by omega) pos normal)
    have place : F.place x = F.freePlace x := by
      unfold FloatFormat.place freePlace
      rw [max_eq_left normal]
    rw [place] at rounded
    constructor
    · intro tiny
      exact absurd tiny rounded.not_gt
    · intro below
      linarith
  · obtain ⟨k, hk⟩ : ∃ k : ℕ, (k : ℤ) + F.freePlace x = F.emin :=
      ⟨(F.emin - F.freePlace x).toNat, by unfold freePlace; omega⟩
    have reaches := two_pow_le_roundAt_iff neg
      (show 0 < k by unfold freePlace at hk; omega) (F.freePlace x) pos.le
    rw [hk] at reaches
    rw [← not_le, reaches, not_le]
    rcases (show Int.log 2 x = F.emin - 1 ∨ Int.log 2 x + 1 ≤ F.emin - 1 by omega) with last | deep
    · rw [show F.freePlace x - 1 = F.emin - F.prec - 1 by unfold freePlace; omega]
    · -- a binade further down both bounds are met
      have below : x < 2 ^ (F.emin - 1) :=
        (lt_two_pow_log x).trans_le (zpow_le_zpow_right₀ one_le_two deep)
      have half : (2 : K) ^ F.emin = 2 ^ (F.emin - 1) * 2 := by
        rw [← zpow_add_one₀ two_ne_zero, sub_add_cancel]
      have fine : (2 : K) ^ (F.freePlace x - 1) ≤ 2 ^ (F.emin - 1) :=
        zpow_le_zpow_right₀ one_le_two (by unfold freePlace; omega)
      have least : (2 : K) ^ (F.emin - F.prec - 1) ≤ 2 ^ (F.emin - 1) :=
        zpow_le_zpow_right₀ one_le_two (by omega)
      exact ⟨fun _ => by linarith, fun _ => by linarith⟩

end FloatFormat
end Rv64Js
