import Mathlib.Algebra.Order.Floor.Semifield
import Mathlib.Algebra.Order.Field.Power
import Mathlib.Data.Int.Log
import Mathlib.Data.Rat.Floor
import Mathlib.Tactic.Linarith
import Mathlib.Tactic.Ring
import Mathlib.Tactic.Positivity
import Mathlib.Tactic.FieldSimp

/-! # Rounding to whole numbers

A magnitude `x ≥ 0` is rounded in one of the five IEEE directions, which look at its comparisons
with the multiples of one half only. `Agree g x y`: `x` and `y` compare alike with every multiple of
`g`. `jam` is the integer part with its last bit set when something was lost. -/

set_option autoImplicit false

namespace Rv64Js

open Nat

-- The literal `2` of an arbitrary field rests on this fact; definitions cite it by name.
theorem atLeastTwo_two : AtLeastTwo 2 := ⟨le_rfl⟩

attribute [local instance] atLeastTwo_two

inductive Rounding
  | nearestEven | towardZero | down | up | nearestAway
deriving DecidableEq, Repr

section Agree

variable {K : Type*} [Field K] [LinearOrder K]

/-- The two numbers compare alike with every multiple of `g`. -/
def Agree (g x y : K) : Prop :=
  ∀ c : ℤ, (c * g ≤ x ↔ c * g ≤ y) ∧ (x ≤ c * g ↔ y ≤ c * g)

namespace Agree

variable {g x y z : K}

theorem refl (g x : K) : Agree g x x := fun _ => ⟨.rfl, .rfl⟩

theorem symm (h : Agree g x y) : Agree g y x := fun c => ⟨(h c).1.symm, (h c).2.symm⟩

theorem trans (h : Agree g x y) (h' : Agree g y z) : Agree g x z :=
  fun c => ⟨(h c).1.trans (h' c).1, (h c).2.trans (h' c).2⟩

theorem coarser (h : Agree g x y) (n : ℕ) : Agree (n * g) x y := by
  intro c
  have step := h (c * n)
  push_cast at step
  rwa [mul_assoc] at step

/-- Agreement on a grid that contains the whole numbers decides every bound by one. -/
theorem multiple_le_iff (h : Agree g x y) {t : K} (n : ℤ) (multiple : t = n * g) :
    t ≤ x ↔ t ≤ y := by
  rw [multiple]
  exact (h n).1

theorem le_multiple_iff (h : Agree g x y) {t : K} (n : ℤ) (multiple : t = n * g) :
    x ≤ t ↔ y ≤ t := by
  rw [multiple]
  exact (h n).2

variable [IsStrictOrderedRing K]

theorem scale (h : Agree g x y) {k : K} (pos : 0 < k) : Agree (g * k) (x * k) (y * k) := by
  intro c
  simp only [← mul_assoc, mul_le_mul_iff_left₀ pos]
  exact h c

theorem add_multiple (h : Agree g x y) (n : ℤ) : Agree g (n * g + x) (n * g + y) := by
  intro c
  have step := h (c - n)
  push_cast at step
  rw [sub_mul] at step
  constructor
  · rw [← sub_le_iff_le_add', ← sub_le_iff_le_add', step.1]
  · rw [← le_sub_iff_add_le', ← le_sub_iff_add_le', step.2]

theorem multiple_sub (h : Agree g x y) (n : ℤ) : Agree g (n * g - x) (n * g - y) := by
  intro c
  have step := h (n - c)
  push_cast at step
  rw [sub_mul] at step
  constructor
  · rw [le_sub_comm, le_sub_comm (c := y), step.2]
  · rw [sub_le_comm, sub_le_comm (b := y), step.1]

theorem of_between {c : ℤ} (lowX : c * g < x) (highX : x < (c + 1) * g) (lowY : c * g < y)
    (highY : y < (c + 1) * g) : Agree g x y := by
  have pos : 0 < g := by linarith
  intro d
  rcases lt_or_ge c d with above | below
  · have far : ((c : K) + 1) * g ≤ d * g := by
      have : (c : K) + 1 ≤ d := by exact_mod_cast above
      gcongr
    constructor
    · constructor <;> intro le <;> linarith
    · constructor <;> intro _ <;> linarith
  · have near : (d : K) * g ≤ c * g := by
      have : (d : K) ≤ c := by exact_mod_cast below
      gcongr
    constructor
    · constructor <;> intro _ <;> linarith
    · constructor <;> intro le <;> linarith

end Agree
end Agree

section ToNat

variable {K : Type*} [Field K] [LinearOrder K] [FloorSemiring K]

/-- Round a magnitude to a natural number; `neg` is the sign it goes with. -/
def Rounding.toNat (mode : Rounding) (neg : Bool) (x : K) : ℕ :=
  match mode with
  | nearestEven =>
    if x - ⌊x⌋₊ < 1 / 2 then ⌊x⌋₊
    else if 1 / 2 < x - ⌊x⌋₊ then ⌊x⌋₊ + 1
    else ⌊x⌋₊ + ⌊x⌋₊ % 2
  | towardZero => ⌊x⌋₊
  | down => if neg then ⌈x⌉₊ else ⌊x⌋₊
  | up => if neg then ⌊x⌋₊ else ⌈x⌉₊
  | nearestAway => if x - ⌊x⌋₊ < 1 / 2 then ⌊x⌋₊ else ⌊x⌋₊ + 1

/-- Whether a magnitude too large for a format becomes an infinity. -/
def Rounding.toInfinity (mode : Rounding) (neg : Bool) : Bool :=
  match mode with
  | nearestEven | nearestAway => true
  | towardZero => false
  | down => neg
  | up => !neg

namespace Agree

variable {x y : K}

section

variable (h : Agree (1 / 2) x y)
include h

theorem natCast_le_iff (n : ℕ) : (n : K) ≤ x ↔ (n : K) ≤ y :=
  h.multiple_le_iff (2 * n) (by push_cast; ring)

theorem le_natCast_iff (n : ℕ) : x ≤ n ↔ y ≤ n :=
  h.le_multiple_iff (2 * n) (by push_cast; ring)

theorem floor_eq (x0 : 0 ≤ x) (y0 : 0 ≤ y) : ⌊x⌋₊ = ⌊y⌋₊ := by
  apply eq_of_forall_le_iff
  intro n
  rw [le_floor_iff x0, le_floor_iff y0, h.natCast_le_iff]

theorem ceil_eq : ⌈x⌉₊ = ⌈y⌉₊ := by
  apply eq_of_forall_ge_iff
  intro n
  rw [ceil_le, ceil_le, h.le_natCast_iff]

theorem isNat_iff : (∃ n : ℕ, x = n) ↔ ∃ n : ℕ, y = n := by
  constructor
  · rintro ⟨n, whole⟩
    exact ⟨n, le_antisymm ((h.le_natCast_iff n).mp whole.le) ((h.natCast_le_iff n).mp whole.ge)⟩
  · rintro ⟨n, whole⟩
    exact ⟨n, le_antisymm ((h.le_natCast_iff n).mpr whole.le) ((h.natCast_le_iff n).mpr whole.ge)⟩

end

variable [IsStrictOrderedRing K]

theorem sub_lt_half_iff (h : Agree (1 / 2) x y) (n : ℕ) : x - n < 1 / 2 ↔ y - n < 1 / 2 := by
  have half : (n : K) + 1 / 2 ≤ x ↔ (n : K) + 1 / 2 ≤ y :=
    h.multiple_le_iff (2 * n + 1) (by push_cast; ring)
  rw [sub_lt_iff_lt_add', sub_lt_iff_lt_add', ← not_le, ← not_le, half]

theorem half_lt_sub_iff (h : Agree (1 / 2) x y) (n : ℕ) : 1 / 2 < x - n ↔ 1 / 2 < y - n := by
  have half : x ≤ (n : K) + 1 / 2 ↔ y ≤ (n : K) + 1 / 2 :=
    h.le_multiple_iff (2 * n + 1) (by push_cast; ring)
  rw [lt_sub_iff_add_lt', lt_sub_iff_add_lt', ← not_le, ← not_le, half]

/-- Rounding sees no more of a magnitude than its place among the halves. -/
theorem toNat_eq (h : Agree (1 / 2) x y) (x0 : 0 ≤ x) (y0 : 0 ≤ y) (mode : Rounding)
    (neg : Bool) : mode.toNat neg x = mode.toNat neg y := by
  have floors := h.floor_eq x0 y0
  have ceils := h.ceil_eq
  cases mode <;>
    simp only [Rounding.toNat, floors, ceils, h.sub_lt_half_iff, h.half_lt_sub_iff]

end Agree

variable [IsStrictOrderedRing K]

namespace Rounding

variable (mode : Rounding) (neg : Bool)

theorem floor_le_toNat (x : K) : ⌊x⌋₊ ≤ mode.toNat neg x := by
  have order : ⌊x⌋₊ ≤ ⌈x⌉₊ := floor_le_ceil x
  cases mode with
  | towardZero => exact le_rfl
  | _ => simp only [toNat]; split_ifs <;> omega

theorem toNat_le_ceil {x : K} (x0 : 0 ≤ x) : mode.toNat neg x ≤ ⌈x⌉₊ := by
  have floorLe : (⌊x⌋₊ : K) ≤ x := floor_le x0
  have order : ⌊x⌋₊ ≤ ⌈x⌉₊ := floor_le_ceil x
  have above : ¬ x - ⌊x⌋₊ < 1 / 2 → ⌊x⌋₊ + 1 ≤ ⌈x⌉₊ := by
    intro far
    rw [add_one_le_iff, lt_ceil]
    linarith
  cases mode with
  | nearestEven =>
    simp only [toNat]
    split_ifs with low high
    · exact order
    · exact above low
    · have := above low
      have := mod_lt ⌊x⌋₊ (show 0 < 2 by decide)
      omega
  | towardZero => exact order
  | down => simp only [toNat]; split_ifs <;> omega
  | up => simp only [toNat]; split_ifs <;> omega
  | nearestAway =>
    simp only [toNat]
    split_ifs with low
    · exact order
    · exact above low

theorem le_toNat {n : ℕ} {x : K} (le : (n : K) ≤ x) : n ≤ mode.toNat neg x :=
  (le_floor le).trans (mode.floor_le_toNat neg x)

theorem toNat_le {n : ℕ} {x : K} (x0 : 0 ≤ x) (le : x ≤ n) : mode.toNat neg x ≤ n :=
  (mode.toNat_le_ceil neg x0).trans (ceil_le.mpr le)

@[simp] theorem toNat_natCast (n : ℕ) : mode.toNat neg (n : K) = n :=
  le_antisymm (mode.toNat_le neg (cast_nonneg n) le_rfl) (mode.le_toNat neg le_rfl)

theorem toNat_eq_self_iff (x : K) : (mode.toNat neg x : K) = x ↔ ∃ n : ℕ, x = n := by
  constructor
  · intro same
    exact ⟨_, same.symm⟩
  · rintro ⟨n, rfl⟩
    rw [toNat_natCast]

end Rounding

/-- The integer part, its last bit set when there is a fraction. -/
def jam (x : K) : ℕ := ⌊x⌋₊ ||| if x = ⌊x⌋₊ then 0 else 1

theorem or_one_eq (n : ℕ) : n ||| 1 = n + (1 - n % 2) := by
  have high : (n ||| 1) / 2 = n / 2 := by
    rw [or_div_two]
    simp
  have low : (n ||| 1) % 2 = 1 := by
    rw [or_mod_two_eq_one]
    simp
  omega

theorem jam_agree {x : K} (x0 : 0 ≤ x) : Agree 2 (jam x : K) x := by
  have floorLe : (⌊x⌋₊ : K) ≤ x := floor_le x0
  have ltFloor : x < ⌊x⌋₊ + 1 := lt_floor_add_one x
  unfold jam
  split_ifs with whole
  · rw [or_zero, ← whole]
    exact .refl 2 x
  · have strict : (⌊x⌋₊ : K) < x := lt_of_le_of_ne floorLe (.symm whole)
    rw [or_one_eq]
    -- both lie strictly between the even numbers around the integer part
    obtain ⟨k, low, high, odd⟩ : ∃ k, 2 * k ≤ ⌊x⌋₊ ∧ ⌊x⌋₊ + 1 ≤ 2 * k + 2 ∧
        ⌊x⌋₊ + (1 - ⌊x⌋₊ % 2) = 2 * k + 1 := ⟨⌊x⌋₊ / 2, by omega, by omega, by omega⟩
    have lowK : (2 : K) * k ≤ ⌊x⌋₊ := by exact_mod_cast low
    have highK : (⌊x⌋₊ : K) + 1 ≤ 2 * k + 2 := by exact_mod_cast high
    rw [odd]
    apply Agree.of_between (c := k) <;> push_cast <;> linarith

theorem jam_natCast (n : ℕ) : jam (n : K) = n := by
  simp [jam]

theorem jam_div (m d : ℕ) (pos : 0 < d) :
    jam ((m : K) / d) = m / d ||| if m % d = 0 then 0 else 1 := by
  have whole : (m : K) / d = (m / d : ℕ) ↔ m % d = 0 := by
    have posK : (d : K) ≠ 0 := by exact_mod_cast pos.ne'
    rw [div_eq_iff posK]
    norm_cast
    have := div_add_mod' m d
    omega
  unfold jam
  rw [floor_div_eq_div]
  simp only [whole]

section Quotient

variable {h : ℕ} (pos : 0 < h) (m : ℕ)
include pos

theorem ceil_div (K : Type*) [Field K] [LinearOrder K] [FloorSemiring K] [IsStrictOrderedRing K] :
    ⌈(m : K) / (2 * h : ℕ)⌉₊ = (m + (2 * h - 1)) / (2 * h) := by
  have posK : (0 : K) < (2 * h : ℕ) := by positivity
  apply eq_of_forall_ge_iff
  intro n
  rw [ceil_le, div_le_iff₀ posK, div_le_iff_le_mul_add_pred (by omega), mul_comm]
  norm_cast
  omega

theorem frac_div : (m : K) / (2 * h : ℕ) - (m / (2 * h) : ℕ) = (m % (2 * h) : ℕ) / (2 * h : ℕ) := by
  have posK : ((2 * h : ℕ) : K) ≠ 0 := by positivity
  have split : ((m / (2 * h) * (2 * h) + m % (2 * h) : ℕ) : K) = m := by rw [div_add_mod']
  rw [sub_eq_iff_eq_add, div_eq_iff posK, add_mul, div_mul_cancel₀ _ posK, ← split]
  push_cast
  ring

theorem frac_lt_half_iff : (m : K) / (2 * h : ℕ) - (m / (2 * h) : ℕ) < 1 / 2 ↔ m % (2 * h) < h := by
  have posK : (0 : K) < (2 * h : ℕ) := by positivity
  rw [frac_div pos, div_lt_iff₀ posK, cast_mul, cast_ofNat, one_div,
    inv_mul_cancel_left₀ two_ne_zero, cast_lt]

theorem half_lt_frac_iff : 1 / 2 < (m : K) / (2 * h : ℕ) - (m / (2 * h) : ℕ) ↔ h < m % (2 * h) := by
  have posK : (0 : K) < (2 * h : ℕ) := by positivity
  rw [frac_div pos, lt_div_iff₀ posK, cast_mul, cast_ofNat, one_div,
    inv_mul_cancel_left₀ two_ne_zero, cast_lt]

theorem add_half_div : (m + h) / (2 * h) = m / (2 * h) + if m % (2 * h) < h then 0 else 1 := by
  have split := div_add_mod' m (2 * h)
  have small := mod_lt m (show 0 < 2 * h by omega)
  rw [Nat.div_eq_iff (by omega), Nat.add_mul]
  split_ifs <;> omega

/-- Rounding a quotient by adding to the numerator and cutting off. -/
theorem Rounding.toNat_div (mode : Rounding) (neg : Bool) :
    mode.toNat neg ((m : K) / (2 * h : ℕ)) = match mode with
      | nearestEven =>
        if m % (2 * h) = h then (m + h) / (2 * h) - (m + h) / (2 * h) % 2 else (m + h) / (2 * h)
      | towardZero => m / (2 * h)
      | down => if neg then (m + (2 * h - 1)) / (2 * h) else m / (2 * h)
      | up => if neg then m / (2 * h) else (m + (2 * h - 1)) / (2 * h)
      | nearestAway => (m + h) / (2 * h) := by
  cases mode with
  | nearestEven =>
    simp only [toNat, floor_div_eq_div, frac_lt_half_iff pos, half_lt_frac_iff pos,
      add_half_div pos]
    generalize m / (2 * h) = k
    split_ifs <;> omega
  | towardZero => simp only [toNat, floor_div_eq_div]
  | down => simp only [toNat, floor_div_eq_div, ceil_div pos]
  | up => simp only [toNat, floor_div_eq_div, ceil_div pos]
  | nearestAway =>
    simp only [toNat, floor_div_eq_div, frac_lt_half_iff pos, add_half_div pos]
    split_ifs <;> rfl

end Quotient

end ToNat
end Rv64Js
