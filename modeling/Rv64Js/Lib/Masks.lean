import Mathlib.Data.BitVec

/-! # Masks of low bits

Clearing the low bits of a word rounds it down, keeping them takes the remainder, and the two parts
add up. -/

set_option autoImplicit false

namespace Masks

open BitVec

theorem or_masked {n : Nat} (a b m : BitVec n) :
    (a &&& ~~~m) ||| (b &&& m) = (a &&& ~~~m) + (b &&& m) := by
  symm
  apply add_eq_or_of_and_eq_zero
  apply eq_of_getLsbD_eq
  intro i h
  simp only [getLsbD_and, getLsbD_not, h, decide_true, Bool.true_and, getLsbD_zero]
  cases m.getLsbD i <;> simp

theorem split_masked {n : Nat} (w m : BitVec n) : (w &&& ~~~m) + (w &&& m) = w := by
  rw [← or_masked]
  apply eq_of_getLsbD_eq
  intro i h
  simp only [getLsbD_or, getLsbD_and, getLsbD_not, h, decide_true, Bool.true_and]
  cases m.getLsbD i <;> simp

theorem toNat_lowMask (n : Nat) (small : n < 64) : ((1#64 <<< n) - 1#64).toNat = 2 ^ n - 1 := by
  have bound : 2 ^ n < 2 ^ 64 := Nat.pow_lt_pow_right (by decide) small
  have one : (1#64 <<< n).toNat = 2 ^ n := by
    rw [toNat_shiftLeft, Nat.shiftLeft_eq]
    change 1 * 2 ^ n % 2 ^ 64 = 2 ^ n
    rw [Nat.one_mul, Nat.mod_eq_of_lt bound]
  have positive : 0 < 2 ^ n := Nat.two_pow_pos n
  rw [toNat_sub_of_le, one]
  · rfl
  · rw [le_def, one]
    exact positive

theorem toNat_and_lowMask (w : BitVec 64) (n : Nat) (small : n < 64) :
    (w &&& ((1#64 <<< n) - 1#64)).toNat = w.toNat % 2 ^ n := by
  rw [toNat_and, toNat_lowMask n small, Nat.and_two_pow_sub_one_eq_mod]

theorem toNat_and_highMask (w : BitVec 64) (n : Nat) (small : n < 64) :
    (w &&& ~~~((1#64 <<< n) - 1#64)).toNat = w.toNat / 2 ^ n * 2 ^ n := by
  have low := toNat_and_lowMask w n small
  have high : w &&& ~~~((1#64 <<< n) - 1#64) = w - (w &&& ((1#64 <<< n) - 1#64)) := by
    calc
      _ = (w &&& ~~~((1#64 <<< n) - 1#64)) + (w &&& ((1#64 <<< n) - 1#64)) -
          (w &&& ((1#64 <<< n) - 1#64)) := (add_sub_cancel _ _).symm
      _ = _ := by rw [split_masked]
  have whole := Nat.div_add_mod w.toNat (2 ^ n)
  rw [high, toNat_sub_of_le, low]
  · rw [Nat.mul_comm]
    omega
  · rw [le_def, low]
    exact Nat.mod_le _ _

end Masks
