import Mathlib.Analysis.Real.Sqrt
import Rv64Js.Softfp.AddMul

/-! # Division and square root

The square root is found by iteration on integers; `rootLoop` is `none` when its fuel runs out or a
round would divide by zero. -/

set_option autoImplicit false

namespace Rv64Js.Softfp

open Nat

/-- `loop { s = u; u = (a / s + s) / 2; if u >= s { break } }`, returning the last `s`. -/
def rootLoop (a : ℕ) : ℕ → ℕ → Option ℕ
  | 0, _ => none
  | fuel + 1, s =>
    if s = 0 then none
    else if (a / s + s) / 2 ≥ s then some s else rootLoop a fuel ((a / s + s) / 2)

namespace Layout

variable (L : Layout)

/-- `divrem_u`: quotient and remainder of a double word. -/
def divremU (ah al b : ℕ) : ℕ × ℕ :=
  let a := ah <<< L.size ||| al
  (a / b % 2 ^ L.size, a % b % 2 ^ L.size)

def divFinite (a b : BitVec L.size) (rm : BitVec 3) : BitVec L.size × BitVec 32 :=
  let (aExp, aMant) := L.hidden a
  let (bExp, bMant) := L.hidden b
  let rExp := aExp - bExp + (1 <<< (L.expSize - 1) : ℕ) - 1
  let (rMant, rem) := L.divremU aMant 0 (L.shl bMant 2)
  L.normalize (L.signOf a ^^ L.signOf b) rExp (if rem ≠ 0 then rMant ||| 1 else rMant) rm

def div (a b : BitVec L.size) (rm : BitVec 3) : BitVec L.size × BitVec 32 :=
  let rSign := L.signOf a ^^ L.signOf b
  let signan := if L.isSignan a ∨ L.isSignan b then FFLAG_INVALID_OP else 0#32
  if L.expOf a = L.expMask then
    if L.mantOf a ≠ 0 ∨ L.isNan b then (L.qnan, signan)
    else if L.expOf b = L.expMask then (L.qnan, FFLAG_INVALID_OP)
    else (L.pack rSign L.expMask 0, 0#32)
  else if L.expOf b = L.expMask then
    if L.mantOf b ≠ 0 then (L.qnan, signan) else (L.pack rSign 0 0, 0#32)
  else if L.isZero b then
    if L.isZero a then (L.qnan, FFLAG_INVALID_OP)
    else (L.pack rSign L.expMask 0, FFLAG_DIVIDE_ZERO)
  else if L.isZero a then (L.pack rSign 0 0, 0#32)
  else L.divFinite a b rm

/-- The integer root of a double word, and whether something is left. -/
def sqrtremU (fuel ah al : ℕ) : Option (ℕ × Bool) :=
  if ah = 0 ∧ al = 0 then some (0, false)
  else
    let a := ah <<< L.size ||| al
    let l := if ah ≠ 0 then 2 * L.size - leadingZeros L.size (ah - 1)
      else L.size - leadingZeros L.size (L.wrapSub al 1)
    (rootLoop a fuel (1 <<< ((l + 1) / 2))).map fun s => (s % 2 ^ L.size, a - s * s ≠ 0)

def sqrtFinite (fuel : ℕ) (a : BitVec L.size) (rm : BitVec 3) :
    Option (BitVec L.size × BitVec 32) :=
  let (aExp, aMant) := L.hidden a
  let aExp := aExp - L.bias
  let aMant := if aExp % 2 ≠ 0 then L.shl aMant 1 else aMant
  let aExp := if aExp % 2 ≠ 0 then aExp - 1 else aExp
  let aExp := aExp / 2 + L.bias
  let aMant := L.shl aMant (L.size - 4 - L.mantSize)
  (L.sqrtremU fuel aMant 0).map fun (root, inexact) =>
    L.normalize (L.signOf a) aExp (if inexact then root ||| 1 else root) rm

def sqrt (fuel : ℕ) (a : BitVec L.size) (rm : BitVec 3) : Option (BitVec L.size × BitVec 32) :=
  if L.expOf a = L.expMask then
    if L.mantOf a ≠ 0 then some (L.qnan, if L.isSignan a then FFLAG_INVALID_OP else 0#32)
    else if L.signOf a then some (L.qnan, FFLAG_INVALID_OP)
    else some (a, 0#32)
  else if L.signOf a then
    if L.isZero a then some (a, 0#32) else some (L.qnan, FFLAG_INVALID_OP)
  else if L.isZero a then some (L.pack false 0 0, 0#32)
  else L.sqrtFinite fuel a rm

/-- Where the iteration for the root starts, in bits of the square. -/
def rootBits (ah al : ℕ) : ℕ :=
  if ah ≠ 0 then 2 * L.size - leadingZeros L.size (ah - 1)
    else L.size - leadingZeros L.size (L.wrapSub al 1)

def doubleWord (ah al : BitVec L.size) : ℕ := ah.toNat * 2 ^ L.size + al.toNat

/-- Where the high word is a power of two whose root is the start, the low word does not take the
root past it. -/
def LowFits (ah al : ℕ) :
    Prop := ∀ k, ah = 2 ^ k → (L.size + k) % 2 = 0 → al ≤ 2 ^ ((L.size + k) / 2 + 1)

section Div

variable {L} {K : Type*} [Field K] [LinearOrder K] [IsStrictOrderedRing K] [FloorSemiring K]
  (mode : Rounding)

theorem divFinite_returns {a b : BitVec L.size} (nonzeroA : L.isZero a = false)
    (nonzeroB : L.isZero b = false) :
    L.Returns (L.divFinite a b (rmOf mode)) (L.format.round mode (L.signOf a ^^ L.signOf b)
      (L.magnitude K a / L.magnitude K b)) := by
  obtain ⟨lowA, highA, magA⟩ := hidden_spec (K := K) a nonzeroA
  obtain ⟨lowB, highB, magB⟩ := hidden_spec (K := K) b nonzeroB
  obtain ⟨sizeEq, imantEq, rndLarge⟩ := L.sizes
  obtain ⟨shlB, inB⟩ := shl_of_lt (L := L) 2 highB (by omega)
  generalize hx : (L.hidden a).2 = x at *
  generalize hy : (L.hidden b).2 = y at *
  have posB : 0 < y := lt_of_lt_of_le (by positivity) lowB
  -- the quotient lies between one half and two
  have low : 2 ^ (L.mantSize + 2) * (y * 2 ^ 2) ≤ x * 2 ^ L.size := by
    calc 2 ^ (L.mantSize + 2) * (y * 2 ^ 2)
        ≤ 2 ^ (L.mantSize + 2) * (2 ^ (L.mantSize + 1) * 2 ^ 2) := by gcongr
      _ = 2 ^ L.mantSize * 2 ^ (L.mantSize + 5) := by ring
      _ ≤ x * 2 ^ L.size := by gcongr <;> omega
  have high : x * 2 ^ L.size < 2 ^ (L.size - 1) * (y * 2 ^ 2) := by
    calc x * 2 ^ L.size < 2 ^ (L.mantSize + 1) * 2 ^ L.size := by gcongr
      _ = 2 ^ (L.size - 1) * (2 ^ L.mantSize * 2 ^ 2) := by
          rw [← pow_add, ← pow_add, ← pow_add]
          congr 1
          omega
      _ ≤ 2 ^ (L.size - 1) * (y * 2 ^ 2) := by gcongr
  have exact : ((x * 2 ^ L.size : ℕ) : K) / (y * 2 ^ 2 : ℕ) *
      (2 : K) ^ L.unit ((L.hidden a).1 - (L.hidden b).1 + (1 <<< (L.expSize - 1) : ℕ) - 1) =
      L.magnitude K a / L.magnitude K b := by
    have exps : L.unit ((L.hidden a).1 - (L.hidden b).1 + (1 <<< (L.expSize - 1) : ℕ) - 1) =
        ((L.hidden a).1 - L.bias - L.mantSize) - ((L.hidden b).1 - L.bias - L.mantSize) +
          2 - L.size := by
      rw [half_exp, unit]
      push_cast
      omega
    generalize (L.hidden a).1 - L.bias - L.mantSize = p at exps magA
    generalize (L.hidden b).1 - L.bias - L.mantSize = q at exps magB
    have posK : (y : K) ≠ 0 := by exact_mod_cast posB.ne'
    rw [magA, magB, exps, zpow_sub₀ two_ne_zero, zpow_add₀ two_ne_zero, zpow_sub₀ two_ne_zero,
      zpow_natCast]
    push_cast
    field_simp
    norm_num
  have jammed := normalize_jam (K := K) (L := L) mode (L.signOf a ^^ L.signOf b)
    (y := ((x * 2 ^ L.size : ℕ) : K) / (y * 2 ^ 2 : ℕ))
    ((L.hidden a).1 - (L.hidden b).1 + (1 <<< (L.expSize - 1) : ℕ) - 1)
    (by
      rw [le_div_iff₀ (by positivity)]
      exact_mod_cast low)
    (by
      rw [div_lt_iff₀ (by positivity)]
      exact_mod_cast high)
  have quotientLt : x * 2 ^ L.size / (y * 2 ^ 2) < 2 ^ L.size := by
    rw [div_lt_iff_lt_mul (by positivity)]
    refine high.trans_le (Nat.mul_le_mul_right _ ?_)
    exact Nat.pow_le_pow_right (by decide) (by omega)
  have remLt : x * 2 ^ L.size % (y * 2 ^ 2) < 2 ^ L.size :=
    (mod_lt _ (by positivity)).trans inB
  rw [exact, jam_div _ _ (by positivity)] at jammed
  simp only [divFinite, divremU, hx, hy, shlB, or_zero, shiftLeft_eq x,
    mod_eq_of_lt quotientLt, mod_eq_of_lt remLt]
  by_cases rem : x * 2 ^ L.size % (y * 2 ^ 2) = 0
  · rw [if_pos rem, or_zero] at jammed
    rw [if_neg (not_not.mpr rem)]
    exact jammed
  · rw [if_neg rem] at jammed
    rw [if_pos rem]
    exact jammed

omit [LinearOrder K] [IsStrictOrderedRing K] [FloorSemiring K] in
theorem returns_divideZero (sign : Bool) : L.Returns (L.pack sign L.expMask 0, FFLAG_DIVIDE_ZERO)
      ((.inf sign : Datum K), { divideZero := true }) := by
  refine ⟨?_, by simp [flagBits]⟩
  simpa [Represents, Datum.isNan] using decode_pack_inf sign

theorem div_returns (a b : BitVec L.size) :
    L.Returns (L.div a b (rmOf mode)) (L.format.div mode (L.decode K a) (L.decode K b)) := by
  unfold div
  by_cases nan : L.isNan a ∨ L.isNan b
  · have spec : L.format.div mode (L.decode K a) (L.decode K b) =
        FloatFormat.nanResult (L.isSignan a || L.isSignan b) := by
      rw [FloatFormat.div_of_nan (by simpa [isNan_decode] using nan), isSignaling_decode,
        isSignaling_decode]
    have returned : L.Returns (L.qnan, if L.isSignan a ∨ L.isSignan b then FFLAG_INVALID_OP
        else 0#32) (L.format.div mode (L.decode K a) (L.decode K b)) := by
      rw [spec]
      apply returns_nan
      simp only [Bool.or_eq_true]
    by_cases expA : L.expOf a = L.expMask
    · have special : L.mantOf a ≠ 0 ∨ L.isNan b := by
        simp only [isNan, decide_eq_true_eq] at nan ⊢
        omega
      rw [if_pos expA, if_pos special]
      exact returned
    · have special : L.expOf b = L.expMask ∧ L.mantOf b ≠ 0 := by
        simp only [isNan, decide_eq_true_eq] at nan
        omega
      rw [if_neg expA, if_pos special.1, if_pos special.2]
      exact returned
  obtain ⟨notA, notB⟩ : L.isNan a = false ∧ L.isNan b = false := by simpa using nan
  rw [FloatFormat.div_of_not_nan (by rw [isNan_decode, notA]) (by rw [isNan_decode, notB])]
  rcases inf_or_num notA with ⟨expA, mantA⟩ | numA <;> rcases inf_or_num notB with
    ⟨expB, mantB⟩ | numB
  · rw [decode_inf expA mantA, decode_inf expB mantB, if_pos expA,
      if_neg (by simp [mantA, notB]), if_pos expB]
    exact returns_invalid
  · rw [decode_inf expA mantA, decode_num numB, if_pos expA, if_neg (by simp [mantA, notB]),
      if_neg numB]
    exact returns_inf _
  · rw [decode_num numA, decode_inf expB mantB, if_neg numA, if_pos expB, if_neg (by simp [mantB])]
    exact returns_zero _
  · rw [decode_num numA, decode_num numB, if_neg numA, if_neg numB, FloatFormat.divFinite]
    simp only [magnitude_eq_zero_iff]
    by_cases zeroB : L.isZero b = true
    · rw [if_pos zeroB, if_pos zeroB]
      by_cases zeroA : L.isZero a = true
      · rw [if_pos zeroA, if_pos zeroA]
        exact returns_invalid
      · rw [if_neg zeroA, if_neg zeroA]
        exact returns_divideZero _
    rw [if_neg zeroB, if_neg zeroB]
    by_cases zeroA : L.isZero a = true
    · rw [if_pos zeroA, (magnitude_eq_zero_iff a).mpr zeroA, zero_div, FloatFormat.round_zero]
      exact returns_zero _
    · rw [if_neg zeroA]
      exact divFinite_returns mode (by simpa using zeroA) (by simpa using zeroB)

end Div

section RootLoop

variable {a : ℕ}

theorem sqrt_le_round {s : ℕ} (pos : 0 < s) : a.sqrt ≤ (a / s + s) / 2 := by
  have root := sqrt_le a
  generalize a.sqrt = r at root
  rw [le_div_iff_mul_le (by decide)]
  rcases le_or_gt (2 * r) s with far | near
  · exact le_trans (by omega) (le_add_left s (a / s))
  · have quotient : 2 * r - s ≤ a / s := by
      rw [le_div_iff_mul_le pos]
      refine le_trans ?_ root
      obtain ⟨d, hd⟩ : ∃ d, 2 * r = s + d := ⟨2 * r - s, by omega⟩
      have : (2 * r - s) * s = d * s := by rw [hd, Nat.add_sub_cancel_left]
      nlinarith [sq_nonneg ((s : ℤ) - d)]
    omega

theorem round_sub_le {s : ℕ} (above : a.sqrt < s) :
    (a / s + s) / 2 - a.sqrt ≤ (s - a.sqrt) / 2 := by
  have root := sqrt_lt.mp (lt_succ_self a.sqrt)
  have : a / s ≤ a.sqrt := by
    rw [div_le_iff_le_mul_add_pred (by omega)]
    have : s * a.sqrt + (s - 1) = s * (a.sqrt + 1) - 1 := by
      rw [mul_add]
      omega
    have : (a.sqrt + 1) * (a.sqrt + 1) ≤ s * (a.sqrt + 1) := mul_le_mul_right _ above
    rw [succ_eq_add_one] at root
    omega
  omega

/-- The iteration ends on the root, after at most one round for each bit of the distance it
starts from. -/
theorem rootLoop_eq_sqrt (pos : 0 < a) (fuel : ℕ) (s : ℕ) (above : a.sqrt ≤ s)
    (near : s - a.sqrt < 2 ^ fuel) (fuel' : ℕ) (enough : fuel < fuel') :
    rootLoop a fuel' s = some a.sqrt := by
  have rootPos : 0 < a.sqrt := sqrt_pos.mpr pos
  induction fuel generalizing s fuel' with
  | zero =>
    obtain rfl : s = a.sqrt := by omega
    obtain ⟨n, rfl⟩ : ∃ n, fuel' = n + 1 := ⟨fuel' - 1, by omega⟩
    have stop := sqrt_le_round (a := a) rootPos
    rw [rootLoop, if_neg (by omega), if_pos stop]
  | succ fuel ih =>
    obtain ⟨n, rfl⟩ : ∃ n, fuel' = n + 1 := ⟨fuel' - 1, by omega⟩
    rw [rootLoop, if_neg (by omega)]
    split_ifs with stop
    · -- the iterate no longer decreases: its square is at most `a`
      have square : s * s ≤ a := by
        rw [ge_iff_le, le_div_iff_mul_le (by decide)] at stop
        rw [← le_div_iff_mul_le (by omega)]
        omega
      have := le_sqrt.mpr square
      congr 1
      omega
    · have strict : a.sqrt < s := by
        have := sqrt_le_round (a := a) (s := s) (by omega)
        omega
      have halved := round_sub_le strict
      rw [pow_succ] at near
      exact ih _ (sqrt_le_round (by omega)) (by omega) n (by omega)

/-- Started below the root, the iteration ends at once, on its start. -/
theorem rootLoop_eq_min (pos : 0 < a) {s n fuel : ℕ} (start : 0 < s) (near : s ≤ 2 ^ n)
    (enough : n < fuel) : rootLoop a fuel s = some (min a.sqrt s) := by
  have rootPos : 0 < a.sqrt := sqrt_pos.mpr pos
  rcases le_or_gt a.sqrt s with above | below
  · rw [min_eq_left above]
    exact rootLoop_eq_sqrt pos n s above (by omega) fuel enough
  · obtain ⟨m, rfl⟩ : ∃ m, fuel = m + 1 := ⟨fuel - 1, by omega⟩
    have quotient : s ≤ a / s := (le_div_iff_mul_le start).mpr (le_sqrt.mp below.le)
    rw [rootLoop, if_neg start.ne', if_pos (by omega), min_eq_right below.le]

end RootLoop

section Sqrt

variable {L} (mode : Rounding)

/-- The bits of `x - 1` are the exponent of the least power of two from `x` on. -/
theorem bits_bound {w x : ℕ} (pos : 0 < x) (inWord : x < 2 ^ w) :
    x ≤ 2 ^ (w - leadingZeros w (x - 1)) ∧ 2 ^ (w - leadingZeros w (x - 1)) < 2 * x := by
  unfold leadingZeros
  split_ifs with one
  · rw [Nat.sub_self]
    omega
  · have log : (x - 1).log2 < w := (log2_lt one).mpr (by omega)
    have low := log2_self_le one
    have top : x - 1 < 2 ^ ((x - 1).log2 + 1) := lt_log2_self
    rw [show w - (w - 1 - (x - 1).log2) = (x - 1).log2 + 1 by omega]
    rw [pow_succ] at top ⊢
    omega

theorem sqrt_le_start {a l : ℕ} (bound : a ≤ 2 ^ l) : a.sqrt ≤ 2 ^ ((l + 1) / 2) := by
  rw [← Nat.lt_succ_iff, Nat.succ_eq_add_one, Nat.sqrt_lt]
  calc a ≤ 2 ^ l := bound
    _ ≤ 2 ^ ((l + 1) / 2) * 2 ^ ((l + 1) / 2) := by
        rw [← pow_add]
        exact Nat.pow_le_pow_right (by decide) (by omega)
    _ < (2 ^ ((l + 1) / 2) + 1) * (2 ^ ((l + 1) / 2) + 1) :=
        mul_self_lt_mul_self (lt_succ_self _)

theorem rootBits_split {ah : ℕ} (pos : 0 < ah) (al : ℕ) :
    L.rootBits ah al = L.size + (L.size - leadingZeros L.size (ah - 1)) := by
  have : leadingZeros L.size (ah - 1) ≤ L.size := by
    unfold leadingZeros
    split_ifs <;> omega
  rw [rootBits, if_pos pos.ne']
  omega

variable {ah al : ℕ} (inHigh : ah < 2 ^ L.size) (inLow : al < 2 ^ L.size)
include inHigh inLow

/-- What is returned is the root or the start of the iteration, whichever is less. -/
theorem sqrtremU_eq_min {a s fuel : ℕ} (double : a = ah * 2 ^ L.size + al)
    (least : s = min a.sqrt (2 ^ ((L.rootBits ah al + 1) / 2))) (enough : 2 * L.size ≤ fuel) :
    L.sqrtremU fuel ah al = some (s, decide (a - s * s ≠ 0)) := by
  have sizePos := L.size_eq
  by_cases zero : ah = 0 ∧ al = 0
  · obtain ⟨rfl, rfl⟩ := zero
    rw [zero_mul] at double
    subst double least
    rw [sqrtremU, if_pos ⟨rfl, rfl⟩, sqrt_zero, zero_min]
    rfl
  · have joined : ah <<< L.size ||| al = a := by
      rw [double, shiftLeft_eq, mul_comm, two_pow_add_eq_or_of_lt inLow]
    have pos : 0 < a := by
      rcases Nat.eq_zero_or_pos ah with rfl | high
      · omega
      · have : 0 < ah * 2 ^ L.size := by positivity
        omega
    have rootLt : a.sqrt < 2 ^ L.size := by
      rw [sqrt_lt, double]
      calc ah * 2 ^ L.size + al < (ah + 1) * 2 ^ L.size := by rw [succ_mul]; omega
        _ ≤ 2 ^ L.size * 2 ^ L.size := mul_le_mul_right _ inHigh
    have short : (L.rootBits ah al + 1) / 2 ≤ L.size := by
      unfold rootBits
      split_ifs <;> omega
    have runs := rootLoop_eq_min pos (Nat.two_pow_pos ((L.rootBits ah al + 1) / 2))
      (Nat.pow_le_pow_right (by decide) short) (show L.size < fuel by omega)
    rw [sqrtremU, if_neg zero, joined]
    change (rootLoop a fuel (1 <<< ((L.rootBits ah al + 1) / 2))).map _ = _
    rw [one_shiftLeft, runs, ← least, Option.map_some, mod_eq_of_lt (by omega)]

theorem root_le_start_iff :
    (ah * 2 ^ L.size + al).sqrt ≤ 2 ^ ((L.rootBits ah al + 1) / 2) ↔ L.LowFits ah al := by
  rcases Nat.eq_zero_or_pos ah with rfl | pos
  · refine iff_of_true ?_ fun k same => absurd same (Nat.two_pow_pos k).ne
    rw [Nat.zero_mul, Nat.zero_add]
    rcases Nat.eq_zero_or_pos al with rfl | some_low
    · exact Nat.zero_le _
    · rw [rootBits, if_neg (by omega), L.wrapSub_eq some_low inLow]
      exact sqrt_le_start (bits_bound some_low inLow).1
  obtain ⟨high, low⟩ := bits_bound pos inHigh
  rw [rootBits_split pos]
  generalize L.size - leadingZeros L.size (ah - 1) = c at high low
  have power (k : ℕ) (same : ah = 2 ^ k) : k = c := by
    rw [same] at high low
    rw [← pow_succ'] at low
    have := (Nat.pow_le_pow_iff_right Nat.one_lt_two).mp high
    have := (Nat.pow_lt_pow_iff_right Nat.one_lt_two).mp low
    omega
  by_cases exact_start : ah = 2 ^ c ∧ (L.size + c) % 2 = 0
  · -- the iteration starts from the root of the high word
    obtain ⟨full, even⟩ := exact_start
    have square : ah * 2 ^ L.size = 2 ^ ((L.size + c) / 2) * 2 ^ ((L.size + c) / 2) := by
      rw [full, ← pow_add, ← pow_add]
      congr 1
      omega
    have next (u : ℕ) : (u + 1) * (u + 1) = u * u + 2 * u + 1 := by ring
    rw [show (L.size + c + 1) / 2 = (L.size + c) / 2 by omega, ← Nat.lt_succ_iff,
      Nat.succ_eq_add_one, Nat.sqrt_lt, square, next]
    refine ⟨fun bound k same _ => ?_, fun fits => ?_⟩
    · rw [power k same, pow_succ]
      omega
    · have bound := fits c full even
      rw [pow_succ] at bound
      omega
  · refine iff_of_true ?_ fun k same even =>
      absurd ⟨power k same ▸ same, power k same ▸ even⟩ exact_start
    obtain ⟨d, same, room⟩ : ∃ d, (L.size + c + 1) / 2 = (L.size + d + 1) / 2 ∧ ah + 1 ≤ 2 ^ d := by
      rcases mod_two_eq_zero_or_one (L.size + c) with even | odd
      · exact ⟨c, rfl, lt_of_le_of_ne high fun full => exact_start ⟨full, even⟩⟩
      · exact ⟨c + 1, by omega, by rw [pow_succ]; omega⟩
    rw [same]
    apply sqrt_le_start
    calc ah * 2 ^ L.size + al ≤ (ah + 1) * 2 ^ L.size := by rw [succ_mul]; omega
      _ ≤ 2 ^ d * 2 ^ L.size := mul_le_mul_right _ room
      _ = 2 ^ (L.size + d) := by rw [← pow_add, add_comm]

omit inHigh inLow

theorem jam_sqrt (a : ℕ) :
    jam (Real.sqrt a) = a.sqrt ||| if a - a.sqrt * a.sqrt = 0 then 0 else 1 := by
  have whole : Real.sqrt a = (a.sqrt : ℝ) ↔ a - a.sqrt * a.sqrt = 0 := by
    have le := sqrt_le a
    rw [Real.sqrt_eq_iff_mul_self_eq (by positivity) (by positivity)]
    norm_cast
    omega
  unfold jam
  rw [Real.nat_floor_real_sqrt_eq_nat_sqrt]
  simp only [whole]

variable {fuel : ℕ}

theorem sqrtremU_jam (inWord : ah < 2 ^ L.size) (enough : 2 * L.size ≤ fuel) :
    ∃ root inexact, L.sqrtremU fuel ah 0 = some (root, inexact) ∧
      (if inexact then root ||| 1 else root) = jam (Real.sqrt ((ah * 2 ^ L.size : ℕ) : ℝ)) := by
  have above := (root_le_start_iff inWord (Nat.two_pow_pos _)).mpr fun k _ _ => Nat.zero_le _
  have runs := sqrtremU_eq_min inWord (Nat.two_pow_pos _) rfl (min_eq_left above).symm enough
  refine ⟨_, _, runs, ?_⟩
  rw [add_zero]
  rw [jam_sqrt]
  by_cases rest : ah * 2 ^ L.size - (ah * 2 ^ L.size).sqrt * (ah * 2 ^ L.size).sqrt = 0 <;>
    simp [rest]

theorem sqrt_scaled (x : ℕ) (p : ℤ) :
    Real.sqrt (x * ((2 : ℝ) ^ p * 2 ^ p)) = Real.sqrt x * 2 ^ p := by
  rw [Real.sqrt_mul (by positivity), Real.sqrt_mul_self (by positivity)]

theorem even_exponent {x : ℕ} (low : 2 ^ L.mantSize ≤ x) (high : x < 2 ^ (L.mantSize + 1)) (p : ℤ) :
    ∃ (e : ℤ) (m : ℕ), (if p % 2 ≠ 0 then L.shl x 1 else x) = m ∧
      (if p % 2 ≠ 0 then p - 1 else p) = 2 * e ∧ 2 ^ L.mantSize ≤ m ∧ m < 2 ^ (L.mantSize + 2) ∧
      (x : ℝ) * 2 ^ (p - L.mantSize) = m * 2 ^ (2 * e - L.mantSize) := by
  obtain ⟨sizeEq, imantEq, rndLarge⟩ := L.sizes
  rw [pow_succ] at high
  by_cases odd : p % 2 ≠ 0
  · obtain ⟨shl, -⟩ := shl_of_lt (L := L) 1 (by rwa [← pow_succ] at high)
      (show L.mantSize + 1 + 1 ≤ L.size by omega)
    refine ⟨(p - 1) / 2, x * 2 ^ 1, by rw [if_pos odd, shl], by rw [if_pos odd]; omega, by omega,
      by rw [pow_add]; omega, ?_⟩
    rw [show p - L.mantSize = 1 + (2 * ((p - 1) / 2) - L.mantSize) by omega,
      zpow_add₀ two_ne_zero]
    push_cast
    ring
  · refine ⟨p / 2, x, if_neg odd, by rw [if_neg odd]; omega, low, by rw [pow_add]; omega, ?_⟩
    rw [show 2 * (p / 2) = p by omega]

theorem sqrtFinite_returns {a : BitVec L.size} (nonzero : L.isZero a = false)
    (positive : L.signOf a = false) (enough : 2 * L.size ≤ fuel) :
    ∃ r, L.sqrtFinite fuel a (rmOf mode) = some r ∧
      L.Returns r (L.format.round mode false (Real.sqrt (L.magnitude ℝ a))) := by
  obtain ⟨low, high, mag⟩ := hidden_spec (K := ℝ) a nonzero
  obtain ⟨sizeEq, imantEq, rndLarge⟩ := L.sizes
  obtain ⟨e, m, hm, he, lowM, highM, same⟩ := even_exponent low high ((L.hidden a).1 - L.bias)
  rw [← mag] at same
  obtain ⟨shl, inWord⟩ := shl_of_lt (L := L) (L.size - 4 - L.mantSize) highM (by omega)
  have posM : 0 < m := lt_of_lt_of_le (by positivity) lowM
  obtain ⟨root, inexact, runs, jammed⟩ := sqrtremU_jam inWord enough
  have square : ((m * 2 ^ (L.size - 4 - L.mantSize) * 2 ^ L.size : ℕ) : ℝ) *
      (2 ^ L.unit (e + L.bias) * 2 ^ L.unit (e + L.bias)) = L.magnitude ℝ a := by
    rw [same]
    push_cast
    rw [← zpow_natCast, ← zpow_natCast, mul_assoc, mul_assoc, ← zpow_add₀ two_ne_zero,
      ← zpow_add₀ two_ne_zero, ← zpow_add₀ two_ne_zero]
    congr 2
    unfold unit
    omega
  have lowSq : 2 ^ (L.mantSize + 2) * 2 ^ (L.mantSize + 2) ≤
      m * 2 ^ (L.size - 4 - L.mantSize) * 2 ^ L.size := by
    calc 2 ^ (L.mantSize + 2) * 2 ^ (L.mantSize + 2)
        ≤ 2 ^ L.mantSize * 2 ^ (L.size - 4 - L.mantSize) * 2 ^ L.size := by
          rw [← pow_add, ← pow_add, ← pow_add]
          exact Nat.pow_le_pow_right (by decide) (by omega)
      _ ≤ m * 2 ^ (L.size - 4 - L.mantSize) * 2 ^ L.size := by gcongr
  have highSq : m * 2 ^ (L.size - 4 - L.mantSize) * 2 ^ L.size <
      2 ^ (L.size - 1) * 2 ^ (L.size - 1) := by
    calc m * 2 ^ (L.size - 4 - L.mantSize) * 2 ^ L.size
        < 2 ^ (L.mantSize + 2) * 2 ^ (L.size - 4 - L.mantSize) * 2 ^ L.size := by gcongr
      _ = 2 ^ (L.size - 1) * 2 ^ (L.size - 1) := by
          rw [← pow_add, ← pow_add, ← pow_add]
          congr 1
          omega
  have rounds := normalize_jam (L := L) mode false
    (y := Real.sqrt ((m * 2 ^ (L.size - 4 - L.mantSize) * 2 ^ L.size : ℕ) : ℝ)) (e + L.bias)
    (Real.le_sqrt_of_sq_le (by rw [sq]; exact_mod_cast lowSq))
    ((Real.sqrt_lt' (by positivity)).mpr (by rw [sq]; exact_mod_cast highSq))
  rw [← sqrt_scaled, square, ← jammed] at rounds
  refine ⟨_, ?_, rounds⟩
  simp only [sqrtFinite, hm, he, shl, runs, Option.map_some, positive]
  rw [Int.mul_ediv_cancel_left _ (by decide)]

theorem sqrt_returns (a : BitVec L.size) (enough : 2 * L.size ≤ fuel) :
    ∃ r, L.sqrt fuel a (rmOf mode) = some r ∧
      L.Returns r (L.format.sqrt mode Real.sqrt (L.decode ℝ a)) := by
  unfold sqrt
  by_cases exp : L.expOf a = L.expMask
  · rw [if_pos exp]
    by_cases mant : L.mantOf a ≠ 0
    · rw [if_pos mant, decode_nan (by simp [isNan, exp, mant])]
      exact ⟨_, rfl, returns_nan _ rfl⟩
    · rw [if_neg mant, decode_inf exp (not_not.mp mant)]
      cases sign : L.signOf a
      · exact ⟨_, rfl, returns_word (by rw [decode_inf exp (not_not.mp mant), sign]) rfl⟩
      · exact ⟨_, rfl, returns_invalid⟩
  rw [if_neg exp, decode_num exp, FloatFormat.sqrt]
  simp only [magnitude_eq_zero_iff]
  cases sign : L.signOf a <;> cases zero : L.isZero a
  · simpa using sqrtFinite_returns mode zero sign enough
  · exact ⟨_, rfl, returns_zero _⟩
  · exact ⟨_, rfl, returns_invalid⟩
  · refine ⟨_, rfl, returns_word ?_ rfl⟩
    rw [decode_num exp, sign, (magnitude_eq_zero_iff a).mpr zero]

end Sqrt

/-- Quotient and root of any words: the exact result rounded once, with exactly its flags.  The
iteration behind the root ends within `2 * F_SIZE` rounds. -/
theorem div_sqrt_rounded_once (mode : Rounding) (a b : BitVec L.size) (spare : ℕ) :
    L.Returns (L.div a b (rmOf mode)) (L.format.div mode (L.decode ℚ a) (L.decode ℚ b)) ∧
      ∃ r, L.sqrt (2 * L.size + spare) a (rmOf mode) = some r ∧
        L.Returns r (L.format.sqrt mode Real.sqrt (L.decode ℝ a)) :=
  ⟨div_returns mode a b, sqrt_returns mode a (by omega)⟩

end Layout
end Rv64Js.Softfp
