import Rv64Js.Lib.Tininess
import Rv64Js.Softfp.DivSqrt

/-! # The native fast path

`fp_fast32` and `fp_fast64` of the interpreter and `fast32` and `fast64` of `jit_fp_exec` take the
host's result when every flag but inexact seems excluded. With a host that rounds correctly the bits
are those of the soft-float routine; the flags are not, just below the smallest normal number. -/

set_option autoImplicit false

namespace Rv64Js.Softfp

open FloatFormat

attribute [local instance] atLeastTwo_two

/-- The operations with a fast path, 0 to 3 in the source. -/
inductive ArithOp
  | add
  | sub
  | mul
  | div
deriving DecidableEq, Repr

def OnlyInexact (f : Flags) : Prop :=
  f.underflow = false ∧ f.overflow = false ∧ f.divideZero = false ∧ f.invalid = false

theorem onlyInexact_iff (f : Flags) : flagBits f &&& ~~~FFLAG_INEXACT = 0#32 ↔ OnlyInexact f := by
  unfold OnlyInexact
  obtain ⟨inexact, underflow, overflow, divideZero, invalid⟩ := f
  cases inexact <;> cases underflow <;> cases overflow <;> cases divideZero <;> cases invalid <;>
    decide

namespace Layout

variable (L : Layout)

/-- The four copies of the fast path; `host` is the native operation on bit patterns. -/
def fpFast (host : ArithOp → BitVec L.size → BitVec L.size → BitVec L.size) (op : ArithOp)
    (a b : BitVec L.size) : Option (BitVec L.size) :=
  if L.expOf a = L.expMask ∨ L.expOf b = L.expMask then none
  else if op = .div ∧ b <<< 1 = 0#L.size then none
  else
    let r := host op a b
    let normal : Bool := 1 ≤ L.expOf r ∧ L.expOf r ≤ L.expMask - 1
    let ok : Bool :=
      match op with
      | .add | .sub => L.expOf r ≠ L.expMask
      | .mul => normal ∨ (r <<< 1 = 0#L.size ∧ (a <<< 1 = 0#L.size ∨ b <<< 1 = 0#L.size))
      | .div => normal ∨ (r <<< 1 = 0#L.size ∧ a <<< 1 = 0#L.size)
    if ok then some r else none

def soft (op : ArithOp) (a b : BitVec L.size) (rm : BitVec 3) : BitVec L.size × BitVec 32 :=
  match op with
  | .add => L.add a b rm
  | .sub => L.sub a b rm
  | .mul => L.mul a b rm
  | .div => L.div a b rm

def nearest (op : ArithOp) (a b : BitVec L.size) : Datum ℚ × Flags :=
  match op with
  | .add => L.format.add .nearestEven (L.decode ℚ a) (L.decode ℚ b)
  | .sub => L.format.sub .nearestEven (L.decode ℚ a) (L.decode ℚ b)
  | .mul => L.format.mul .nearestEven (L.decode ℚ a) (L.decode ℚ b)
  | .div => L.format.div .nearestEven (L.decode ℚ a) (L.decode ℚ b)

/-- The host returns the bits of the correctly rounded result of finite operands. -/
def HostRounds (host : ArithOp → BitVec L.size → BitVec L.size → BitVec L.size) : Prop :=
  ∀ op a b, L.expOf a ≠ L.expMask → L.expOf b ≠ L.expMask → (op = .div → L.isZero b = false) →
    L.Represents (host op a b) (L.nearest op a b).1

def exactMagnitude (op : ArithOp) (a b : BitVec L.size) : ℚ :=
  match op with
  | .div => L.magnitude ℚ a / L.magnitude ℚ b
  | _ => L.magnitude ℚ a * L.magnitude ℚ b

/-- A product or quotient that rounds up to the smallest normal number and is tiny all the
same: from half to a quarter of a last place below it. -/
def TinyYetNormal (op : ArithOp) (a b : BitVec L.size) : Prop :=
  (op = .mul ∨ op = .div) ∧
    2 ^ L.format.emin - 2 ^ (L.format.emin - L.format.prec) ≤ L.exactMagnitude op a b ∧
    L.exactMagnitude op a b < 2 ^ L.format.emin - 2 ^ (L.format.emin - L.format.prec - 1)

variable {L}

theorem soft_returns (op : ArithOp) (a b : BitVec L.size) :
    L.Returns (L.soft op a b RM_RNE) (L.nearest op a b) := by
  cases op with
  | add => exact add_returns .nearestEven a b
  | sub => exact sub_returns .nearestEven a b
  | mul => exact mul_returns .nearestEven a b
  | div => exact div_returns .nearestEven a b

/-- A host that computes what the soft-float routines compute. -/
def softHost (op : ArithOp) (a b : BitVec L.size) : BitVec L.size := (L.soft op a b RM_RNE).1

theorem softHost_rounds : L.HostRounds L.softHost := by
  intro op a b _ _ _
  exact (soft_returns op a b).1

theorem shl_one_eq_zero_iff (a : BitVec L.size) : a <<< 1 = 0#L.size ↔ L.isZero a = true := by
  have fields := L.toNat_eq_fields a
  have half := L.two_pow_size
  have low := low_lt_top (L.expOf_le a) (L.mantOf_lt a)
  have pos : 0 < 2 ^ L.mantSize := by positivity
  have doubled : (a <<< 1).toNat = 2 * (L.expOf a * 2 ^ L.mantSize + L.mantOf a) := by
    have carried : ((L.signOf a).toNat * 2 ^ (L.size - 1) + (L.expOf a * 2 ^ L.mantSize +
        L.mantOf a)) * 2 ^ 1 = 2 * (L.expOf a * 2 ^ L.mantSize + L.mantOf a) +
        (L.signOf a).toNat * 2 ^ L.size := by
      rw [half]
      ring
    rw [BitVec.toNat_shiftLeft, Nat.shiftLeft_eq, fields, carried, Nat.add_mul_mod_self_right,
      Nat.mod_eq_of_lt (by omega)]
  rw [← BitVec.toNat_inj, doubled, BitVec.toNat_ofNat, Nat.zero_mod, isZero, decide_eq_true_eq]
  constructor
  · intro zero
    have : L.expOf a * 2 ^ L.mantSize = 0 := by omega
    exact ⟨(Nat.mul_eq_zero.mp this).resolve_right pos.ne', by omega⟩
  · rintro ⟨exp, mant⟩
    rw [exp, mant, Nat.zero_mul]

variable {r : BitVec L.size} {host : ArithOp → BitVec L.size → BitVec L.size → BitVec L.size}

theorem fpFast_some {op : ArithOp} {a b : BitVec L.size} (fast : L.fpFast host op a b = some r) :
    L.expOf a ≠ L.expMask ∧ L.expOf b ≠ L.expMask ∧ (op = .div → L.isZero b = false) ∧
      r = host op a b ∧ L.expOf r ≠ L.expMask ∧
      (op = .mul → L.expOf r = 0 → L.isZero a = true ∨ L.isZero b = true) ∧
      (op = .div → L.expOf r = 0 → L.isZero a = true) := by
  have mask := L.expMask_eq_bias
  have isZero_exp (w : BitVec L.size) (zero : L.isZero w = true) : L.expOf w = 0 := by
    simp only [isZero, decide_eq_true_eq] at zero
    exact zero.1
  simp only [fpFast, shl_one_eq_zero_iff] at fast
  split_ifs at fast with special divisor ok
  rw [not_or] at special
  obtain rfl : host op a b = r := by simpa using fast
  refine ⟨special.1, special.2, ?_, rfl, ?_, ?_, ?_⟩
  · rintro rfl
    simpa using divisor
  · cases op <;> simp only [decide_eq_true_eq] at ok
    · exact ok
    · exact ok
    all_goals
      rcases ok with normal | ⟨zero, -⟩
      · omega
      · have := isZero_exp _ zero
        omega
  · rintro rfl zero
    simp only [decide_eq_true_eq] at ok
    exact (ok.resolve_left (by omega)).2
  · rintro rfl zero
    simp only [decide_eq_true_eq] at ok
    exact (ok.resolve_left (by omega)).2

section Flags

theorem magnitude_multiple (a : BitVec L.size) :
    ∃ n : ℕ, L.magnitude ℚ a = n * 2 ^ (L.format.emin - (L.format.prec - 1)) := by
  obtain ⟨d, hd⟩ : ∃ d : ℕ, max 1 (L.expOf a) = 1 + d := ⟨max 1 (L.expOf a) - 1, by omega⟩
  refine ⟨L.significand a * 2 ^ d, ?_⟩
  rw [magnitude, hd, show ((1 + d : ℕ) - L.bias - L.mantSize : ℤ) =
    L.format.emin - (L.format.prec - 1) + d by simp only [format]; push_cast; ring,
    zpow_add₀ two_ne_zero, zpow_natCast]
  push_cast
  ring

variable {r : BitVec L.size}

theorem normal_magnitude (normal : L.expOf r ≠ 0) : 2 ^ L.format.emin ≤ L.magnitude ℚ r := by
  have := le_natCast_mul (K := ℚ) (le_significand normal)
    ((max 1 (L.expOf r) : ℕ) - L.bias - L.mantSize : ℤ)
  refine le_trans (zpow_le_zpow_right₀ one_le_two ?_) this
  simp only [format]
  push_cast
  omega

variable {x : ℚ}

theorem round_fits_of_finite {neg : Bool}
    (rounded : L.Represents r (L.format.round .nearestEven neg x).1)
    (finite : L.expOf r ≠ L.expMask) :
    roundAt .nearestEven neg (L.format.place x) x < 2 ^ (L.format.emax + 1) ∧
      L.magnitude ℚ r = roundAt .nearestEven neg (L.format.place x) x := by
  rcases le_or_gt (2 ^ (L.format.emax + 1))
    (roundAt .nearestEven neg (L.format.place x) x) with out | fits
  · rw [round_overflow out, Represents, if_neg (by simp [Rounding.toInfinity, Datum.isNan]),
      decode_num finite] at rounded
    simp [Rounding.toInfinity] at rounded
  · rw [round_fits fits, Represents, if_neg (by simp [Datum.isNan]),
      decode_num finite] at rounded
    injection rounded with _ value
    exact ⟨fits, value⟩

/-- A sum of two finite numbers that stays in range is exact wherever it is subnormal. -/
theorem addFinite_onlyInexact {s t : Bool} {y : ℚ} {n m : ℕ}
    (hx : x = n * 2 ^ (L.format.emin - (L.format.prec - 1)))
    (hy : y = m * 2 ^ (L.format.emin - (L.format.prec - 1)))
    (rounded : L.Represents r (L.format.addFinite .nearestEven (.num s x) (.num t y)).1)
    (finite : L.expOf r ≠ L.expMask) :
    OnlyInexact (L.format.addFinite .nearestEven (.num s x) (.num t y)).2 := by
  simp only [addFinite, roundSigned] at rounded ⊢
  split_ifs at rounded ⊢ with zero
  · exact ⟨rfl, rfl, rfl, rfl⟩
  obtain ⟨k, hk⟩ : ∃ k : ℕ, |Datum.signed s x + Datum.signed t y| =
      k * 2 ^ (L.format.emin - (L.format.prec - 1)) := by
    have unit : (0 : ℚ) < 2 ^ (L.format.emin - (L.format.prec - 1)) := by positivity
    obtain ⟨z, hz⟩ : ∃ z : ℤ, Datum.signed s x + Datum.signed t y =
        z * 2 ^ (L.format.emin - (L.format.prec - 1)) := by
      refine ⟨(if s then -(n : ℤ) else n) + (if t then -(m : ℤ) else m), ?_⟩
      rw [hx, hy]
      cases s <;> cases t <;> simp [Datum.signed] <;> ring
    refine ⟨z.natAbs, ?_⟩
    rw [hz, abs_mul, abs_of_pos unit, Nat.cast_natAbs, Int.cast_abs]
  have underflow := underflow_of_multiple (F := L.format)
    (decide (Datum.signed s x + Datum.signed t y < 0)) .nearestEven (by simp [format])
    (abs_pos.mpr zero) hk
  obtain ⟨fits, -⟩ := round_fits_of_finite rounded finite
  refine ⟨underflow, ?_⟩
  rw [round_fits fits]
  exact ⟨rfl, rfl, rfl⟩

/-- A rounded magnitude with a normal result raises more than inexact only in the last
quarter of a place where it is still tiny. -/
theorem round_onlyInexact_iff {neg : Bool} (pos : 0 < x)
    (rounded : L.Represents r (L.format.round .nearestEven neg x).1)
    (finite : L.expOf r ≠ L.expMask) (normal : L.expOf r ≠ 0) :
    OnlyInexact (L.format.round .nearestEven neg x).2 ↔
      ¬ (2 ^ L.format.emin - 2 ^ (L.format.emin - L.format.prec) ≤ x ∧
        x < 2 ^ L.format.emin - 2 ^ (L.format.emin - L.format.prec - 1)) := by
  have prec : 2 ≤ L.format.prec := by
    have := L.mantWide
    simp only [format]
    omega
  obtain ⟨fits, value⟩ := round_fits_of_finite rounded finite
  have large := normal_magnitude normal
  rw [value] at large
  have reached := (normal_iff neg prec pos).mp large
  have tiny := tiny_nearestEven_iff neg prec pos
  rw [round_fits fits]
  simp only [OnlyInexact, and_true, reached, true_and, ← tiny]
  by_cases below : roundAt .nearestEven neg (L.format.freePlace x) x < 2 ^ L.format.emin
  · have apart : roundAt .nearestEven neg (L.format.place x) x ≠ x := by
      have edge : (0 : ℚ) < 2 ^ (L.format.emin - L.format.prec - 1) := by positivity
      have := tiny.mp below
      intro same
      linarith
    simp [below, apart]
  · simp [below]

end Flags

theorem product_flags_iff {neg : Bool} {x : ℚ} (nonneg : 0 ≤ x)
    (rounded : L.Represents r (L.format.round .nearestEven neg x).1)
    (finite : L.expOf r ≠ L.expMask) (normal : L.expOf r = 0 → x = 0) :
    OnlyInexact (L.format.round .nearestEven neg x).2 ↔
      ¬ (2 ^ L.format.emin - 2 ^ (L.format.emin - L.format.prec) ≤ x ∧
        x < 2 ^ L.format.emin - 2 ^ (L.format.emin - L.format.prec - 1)) := by
  rcases nonneg.eq_or_lt with rfl | pos
  · have room : (2 : ℚ) ^ (L.format.emin - L.format.prec) < 2 ^ L.format.emin :=
      zpow_lt_zpow_right₀ one_lt_two (by simp only [format]; omega)
    rw [FloatFormat.round_zero]
    refine iff_of_true ⟨rfl, rfl, rfl, rfl⟩ ?_
    rintro ⟨le, -⟩
    linarith
  · exact round_onlyInexact_iff pos rounded finite (fun zero => pos.ne' (normal zero))

theorem fast_flags_iff (rounds : L.HostRounds host) {op : ArithOp} {a b : BitVec L.size}
    (fast : L.fpFast host op a b = some r) :
    OnlyInexact (L.nearest op a b).2 ↔ ¬ L.TinyYetNormal op a b := by
  obtain ⟨finiteA, finiteB, divisor, rfl, finite, product, quotient⟩ := fpFast_some fast
  have rounded := rounds op a b finiteA finiteB divisor
  obtain ⟨n, hn⟩ := magnitude_multiple a
  obtain ⟨m, hm⟩ := magnitude_multiple b
  have nonnegA : 0 ≤ L.magnitude ℚ a := by rw [hn]; positivity
  have nonnegB : 0 ≤ L.magnitude ℚ b := by rw [hm]; positivity
  have realA : (L.decode ℚ a).isNan = false := by simp [isNan_decode, isNan, finiteA]
  have realB : (L.decode ℚ b).isNan = false := by simp [isNan_decode, isNan, finiteB]
  cases op with
  | add =>
    simp only [nearest] at rounded ⊢
    rw [add_of_not_nan realA realB, decode_num finiteA, decode_num finiteB] at rounded ⊢
    have only := addFinite_onlyInexact hn hm rounded finite
    simp [TinyYetNormal, only]
  | sub =>
    simp only [nearest, FloatFormat.sub] at rounded ⊢
    rw [decode_num finiteB, add_of_not_nan realA rfl, decode_num finiteA] at rounded ⊢
    have only := addFinite_onlyInexact hn hm rounded finite
    simp only [TinyYetNormal, reduceCtorEq, or_self, false_and, not_false_eq_true, iff_true]
    exact only
  | mul =>
    have exact : L.nearest .mul a b = L.format.round .nearestEven (L.signOf a ^^ L.signOf b)
        (L.magnitude ℚ a * L.magnitude ℚ b) := by
      rw [nearest, mul_of_not_nan realA realB, decode_num finiteA, decode_num finiteB]
      rfl
    rw [exact] at rounded ⊢
    have edge : L.TinyYetNormal .mul a b ↔ _ := and_iff_right (Or.inl rfl)
    rw [edge]
    refine product_flags_iff (mul_nonneg nonnegA nonnegB) rounded finite ?_
    intro zero
    rcases product rfl zero with zeroA | zeroB
    · rw [(magnitude_eq_zero_iff a).mpr zeroA, zero_mul]
    · rw [(magnitude_eq_zero_iff b).mpr zeroB, mul_zero]
  | div =>
    have nonzero : L.magnitude ℚ b ≠ 0 := by
      rw [ne_eq, magnitude_eq_zero_iff, divisor rfl]
      decide
    have exact : L.nearest .div a b = L.format.round .nearestEven (L.signOf a ^^ L.signOf b)
        (L.magnitude ℚ a / L.magnitude ℚ b) := by
      rw [nearest, FloatFormat.div_of_not_nan realA realB, decode_num finiteA, decode_num finiteB,
        FloatFormat.divFinite, if_neg nonzero]
    rw [exact] at rounded ⊢
    have edge : L.TinyYetNormal .div a b ↔ _ := and_iff_right (Or.inr rfl)
    rw [edge]
    refine product_flags_iff (div_nonneg nonnegA nonnegB) rounded finite ?_
    intro zero
    rw [(magnitude_eq_zero_iff a).mpr (quotient rfl zero), zero_div]

/-- Where the fast path gives a result, soft-float gives the same bits and raises nothing but
inexact, except where a product or a quotient is tiny and rounds up to the smallest normal number.
-/
theorem fast_path_matches_iff {host : ArithOp → BitVec L.size → BitVec L.size → BitVec L.size}
    (rounds : L.HostRounds host) {op : ArithOp} {a b r : BitVec L.size}
    (fast : L.fpFast host op a b = some r) :
    ((L.soft op a b RM_RNE).1 = r ∧ (L.soft op a b RM_RNE).2 &&& ~~~FFLAG_INEXACT = 0#32) ↔
      ¬ L.TinyYetNormal op a b := by
  obtain ⟨word, flags⟩ := soft_returns op a b
  obtain ⟨finiteA, finiteB, divisor, hostResult, -, -, -⟩ := fpFast_some fast
  have same : (L.soft op a b RM_RNE).1 = r := by
    rw [hostResult]
    exact word.unique (rounds op a b finiteA finiteB divisor)
  rw [flags, onlyInexact_iff, fast_flags_iff rounds fast, and_iff_right same]

theorem fast_sum_matches :
    sf64.fpFast (sf64.softHost) .add 0x3ff0000000000000#64 0x3ff0000000000000#64 =
        some (sf64.pack false 0x400 0) ∧
        (((sf64.soft .add 0x3ff0000000000000#64 0x3ff0000000000000#64 RM_RNE).1 =
          sf64.pack false 0x400 0 ∧
          (sf64.soft .add 0x3ff0000000000000#64 0x3ff0000000000000#64 RM_RNE).2 &&&
          ~~~FFLAG_INEXACT = 0#32) ↔
            ¬ sf64.TinyYetNormal .add 0x3ff0000000000000#64 0x3ff0000000000000#64) :=
  ⟨by decide +kernel, fast_path_matches_iff softHost_rounds (by decide +kernel)⟩

/-- The number before `1` times the smallest normal number: the fast path returns the smallest
normal number, and soft-float raises underflow. -/
theorem fast_product_hides_underflow : sf64.HostRounds sf64.softHost ∧
      sf64.fpFast (sf64.softHost) .mul 0x3fefffffffffffff#64 0x0010000000000000#64 =
        some (sf64.pack false 1 0) ∧
      sf64.soft .mul 0x3fefffffffffffff#64 0x0010000000000000#64 RM_RNE =
        (sf64.pack false 1 0, FFLAG_UNDERFLOW ||| FFLAG_INEXACT) :=
  ⟨softHost_rounds, by decide +kernel, by decide +kernel⟩

end Layout

end Rv64Js.Softfp
