import Rv64Js.Lib.FloatFormat

/-! # Correctly rounded operations on float data

Each operation computes the exact result and rounds it once.  A NaN result is quiet;
NaN operands raise the invalid flag when one of them is signaling. -/

set_option autoImplicit false

namespace Rv64Js

variable {K : Type*}

namespace Datum

def isNan : Datum K → Bool
  | nan _ => true
  | _ => false

def isSignaling : Datum K → Bool
  | nan signaling => signaling
  | _ => false

def negate : Datum K → Datum K
  | nan signaling => nan signaling
  | inf neg => inf !neg
  | num neg mag => num (!neg) mag

variable [Field K] [LinearOrder K]

def signed (neg : Bool) (mag : K) : K := if neg then -mag else mag

omit [LinearOrder K] in
theorem signed_add_signed (neg : Bool) (x y : K) :
    signed neg x + signed neg y = signed neg (x + y) := by
  cases neg <;> simp [signed, add_comm]

omit [LinearOrder K] in
theorem signed_add_of_ne {neg other : Bool} (ne : neg ≠ other) (x y : K) :
    signed neg x + signed other y = signed neg (x - y) := by
  cases neg <;> cases other <;> simp_all [signed, sub_eq_add_neg, add_comm]

/-- An infinity and a zero have no product. -/
def noProduct : Datum K → Datum K → Bool
  | inf _, num _ y => y = 0
  | num _ x, inf _ => x = 0
  | _, _ => false

def times : Datum K → Datum K → Datum K
  | num s x, num t y => num (s ^^ t) (x * y)
  | num s _, inf t => inf (s ^^ t)
  | inf s, num t _ => inf (s ^^ t)
  | inf s, inf t => inf (s ^^ t)
  | _, _ => nan false

omit [LinearOrder K] in
theorem intCast_eq_signed_iff (neg : Bool) (n : ℕ) (x : K) :
    (((if neg then -n else n : ℤ)) : K) = signed neg x ↔ (n : K) = x := by
  cases neg <;> simp [signed]

def saturate (lo hi n : ℤ) (inexact : Bool) : ℤ × Flags :=
  if n < lo then (lo, { invalid := true })
  else if hi < n then (hi, { invalid := true })
  else (n, { inexact := inexact })

variable {lo hi n : ℤ} {inexact : Bool}

theorem saturate_below (below : n < lo) : saturate lo hi n inexact = (lo, { invalid := true }) :=
  if_pos below

theorem saturate_above (above : lo ≤ n) (beyond : hi < n) :
    saturate lo hi n inexact = (hi, { invalid := true }) := by
  rw [saturate, if_neg above.not_gt, if_pos beyond]

theorem saturate_within (above : lo ≤ n) (within : n ≤ hi) :
    saturate lo hi n inexact = (n, { inexact := inexact }) := by
  rw [saturate, if_neg above.not_gt, if_neg within.not_gt]

theorem saturate_bounds (le : lo ≤ hi) (n : ℤ) (inexact : Bool) :
    lo ≤ (saturate lo hi n inexact).1 ∧ (saturate lo hi n inexact).1 ≤ hi := by
  unfold saturate
  split_ifs <;> constructor <;> simp <;> omega

theorem saturate_flags (lo hi n : ℤ) (inexact : Bool) :
    (saturate lo hi n inexact).2 = { invalid := true } ∨
      ∃ inexact', (saturate lo hi n inexact).2 = { inexact := inexact' } := by
  unfold saturate
  split_ifs
  · exact .inl rfl
  · exact .inl rfl
  · exact .inr ⟨inexact, rfl⟩

/-- What is left to do for a narrower range. -/
def clamp (lo hi : ℤ) (wide : ℤ × Flags) : ℤ × Flags :=
  if wide.2.invalid ∨ wide.1 < lo ∨ hi < wide.1 then
    (max lo (min hi wide.1), { invalid := true })
  else wide

theorem saturate_narrow {lo' hi' : ℤ} (low : lo' ≤ lo) (le : lo ≤ hi) (high : hi ≤ hi') (n : ℤ)
    (inexact : Bool) : saturate lo hi n inexact = clamp lo hi (saturate lo' hi' n inexact) := by
  rcases lt_or_ge n lo with below | above
  · rw [saturate_below below]
    rcases lt_or_ge n lo' with out | inLow
    · simp [saturate_below out, clamp, low, low.trans le]
    · simp [saturate_within inLow (show n ≤ hi' by omega), clamp, below, below.le]
  have inLow : lo' ≤ n := by omega
  rcases lt_or_ge hi n with beyond | within
  · rw [saturate_above above beyond]
    rcases lt_or_ge hi' n with out | inHigh
    · simp [saturate_above inLow out, clamp, high, le]
    · simp [saturate_within inLow inHigh, clamp, beyond, beyond.le, le]
  · rw [saturate_within above within, saturate_within inLow (by omega)]
    simp [clamp, above.not_gt, within.not_gt]

variable [FloorSemiring K]

/-- A datum as an integer: rounded once, and the nearer bound when that is outside. A NaN goes to
`hi`. -/
def toInt (mode : Rounding) (lo hi : ℤ) : Datum K → ℤ × Flags
  | nan _ => (hi, { invalid := true })
  | inf neg => (if neg then lo else hi, { invalid := true })
  | num neg mag =>
    let rounded : ℤ := if neg then -mode.toNat neg mag else mode.toNat neg mag
    saturate lo hi rounded ((rounded : K) ≠ signed neg mag)

variable (mode : Rounding)

theorem toInt_bounds (le : lo ≤ hi) (d : Datum K) :
    lo ≤ (d.toInt mode lo hi).1 ∧ (d.toInt mode lo hi).1 ≤ hi := by
  cases d with
  | nan _ => exact ⟨le, le_rfl⟩
  | inf neg => cases neg <;> simp [toInt, le]
  | num neg mag => exact saturate_bounds le _ _

theorem toInt_flags (lo hi : ℤ) (d : Datum K) : (d.toInt mode lo hi).2 = { invalid := true } ∨
      ∃ inexact, (d.toInt mode lo hi).2 = { inexact := inexact } := by
  cases d with
  | nan _ => exact .inl rfl
  | inf neg => exact .inl rfl
  | num neg mag => exact saturate_flags lo hi _ _

theorem toInt_narrow {lo' hi' : ℤ} (low : lo' ≤ lo) (le : lo ≤ hi) (high : hi ≤ hi') (d : Datum K) :
    d.toInt mode lo hi = clamp lo hi (d.toInt mode lo' hi') := by
  cases d with
  | nan _ => simp [toInt, clamp, high, le]
  | inf neg =>
    cases neg
    · simp [toInt, clamp, high, le]
    · simp [toInt, clamp, low, low.trans le]
  | num neg mag => exact saturate_narrow low le high _ _

end Datum

namespace FloatFormat

variable [Field K] [LinearOrder K] [FloorSemiring K] (F : FloatFormat) (mode : Rounding)

def invalidResult : Datum K × Flags := (.nan false, { invalid := true })

def nanResult (signaling : Bool) : Datum K × Flags := (.nan false, { invalid := signaling })

/-- Round a signed exact value; `zero` is the sign an exact zero takes. -/
def roundSigned (zero : Bool) (v : K) : Datum K × Flags :=
  if v = 0 then (.num zero 0, {}) else F.round mode (v < 0) |v|

/-- An exact zero sum of two different signs is positive except when rounding down. -/
def zeroSign (s t : Bool) : Bool := if s = t then s else mode = .down

def addFinite : Datum K → Datum K → Datum K × Flags
  | .inf s, .inf t => if s = t then (.inf s, {}) else invalidResult
  | .inf s, .num _ _ => (.inf s, {})
  | .num _ _, .inf t => (.inf t, {})
  | .num s x, .num t y =>
    F.roundSigned mode (zeroSign mode s t) (Datum.signed s x + Datum.signed t y)
  | _, _ => nanResult false

def add (a b : Datum K) : Datum K × Flags :=
  if a.isNan || b.isNan then nanResult (a.isSignaling || b.isSignaling)
  else F.addFinite mode a b

def sub (a b : Datum K) : Datum K × Flags := F.add mode a b.negate

def roundDatum : Datum K → Datum K × Flags
  | .num s x => F.round mode s x
  | d => (d, {})

/-- A datum carried over exactly; NaNs become quiet. -/
def carried (d : Datum K) : Datum K × Flags :=
  if d.isNan then nanResult d.isSignaling else (d, {})

/-- A datum of another format, rounded to this one. -/
def convert (d : Datum K) : Datum K × Flags :=
  if d.isNan then nanResult d.isSignaling else F.roundDatum mode d

def mul (a b : Datum K) : Datum K × Flags :=
  if a.isNan || b.isNan then nanResult (a.isSignaling || b.isSignaling)
  else if a.noProduct b then invalidResult
  else F.roundDatum mode (a.times b)

/-- `a * b + c`.  A product of an infinity and a zero is invalid whatever the addend is. -/
def fma (a b c : Datum K) : Datum K × Flags :=
  if a.noProduct b then invalidResult
  else if a.isNan || b.isNan || c.isNan then
    nanResult (a.isSignaling || b.isSignaling || c.isSignaling)
  else F.addFinite mode (a.times b) c

def divFinite : Datum K → Datum K → Datum K × Flags
  | .inf _, .inf _ => invalidResult
  | .inf s, .num t _ => (.inf (s ^^ t), {})
  | .num s _, .inf t => (.num (s ^^ t) 0, {})
  | .num s x, .num t y =>
    if y = 0 then
      if x = 0 then invalidResult else (.inf (s ^^ t), { divideZero := true })
    else F.round mode (s ^^ t) (x / y)
  | _, _ => nanResult false

def div (a b : Datum K) : Datum K × Flags :=
  if a.isNan || b.isNan then nanResult (a.isSignaling || b.isSignaling)
  else F.divFinite mode a b

/-- The square root, with the exact root of a magnitude given by `root`. -/
def sqrt (root : K → K) : Datum K → Datum K × Flags
  | .nan signaling => nanResult signaling
  | .inf s => if s then invalidResult else (.inf false, {})
  | .num s x =>
    if x = 0 then (.num s 0, {}) else if s then invalidResult else F.round mode false (root x)

variable {F mode}

variable {a b : Datum K}

theorem add_of_nan (nan : (a.isNan || b.isNan) = true) :
    F.add mode a b = nanResult (a.isSignaling || b.isSignaling) := if_pos nan

theorem add_of_not_nan (notA : a.isNan = false) (notB : b.isNan = false) :
    F.add mode a b = F.addFinite mode a b := by
  simp [add, notA, notB]

theorem mul_of_nan (nan : (a.isNan || b.isNan) = true) :
    F.mul mode a b = nanResult (a.isSignaling || b.isSignaling) := if_pos nan

theorem mul_of_not_nan (notA : a.isNan = false) (notB : b.isNan = false) : F.mul mode a b =
      if a.noProduct b then invalidResult else F.roundDatum mode (a.times b) := by
  simp [mul, notA, notB]

theorem fma_of_not_nan {c : Datum K} (notA : a.isNan = false) (notB : b.isNan = false)
    (notC : c.isNan = false) :
    F.fma mode a b c = if a.noProduct b then invalidResult else F.addFinite mode (a.times b) c := by
  simp [fma, notA, notB, notC]

theorem div_of_nan (nan : (a.isNan || b.isNan) = true) :
    F.div mode a b = nanResult (a.isSignaling || b.isSignaling) := if_pos nan

theorem div_of_not_nan (notA : a.isNan = false) (notB : b.isNan = false) :
    F.div mode a b = F.divFinite mode a b := by
  simp [div, notA, notB]

theorem zeroSign_comm (s t : Bool) : zeroSign mode s t = zeroSign mode t s := by
  cases s <;> cases t <;> rfl

theorem add_swap (a b : Datum K) : F.add mode a b = F.add mode b a := by
  unfold add
  rw [Bool.or_comm a.isNan, Bool.or_comm a.isSignaling]
  congr 1
  cases a <;> cases b <;> try rfl
  · rename_i s t
    cases s <;> cases t <;> rfl
  · simp only [addFinite]
    rw [zeroSign_comm, add_comm]

variable [IsStrictOrderedRing K]

theorem roundSigned_signed (zero s : Bool) {z : K} (pos : 0 < z) :
    F.roundSigned mode zero (Datum.signed s z) = F.round mode s z := by
  cases s
  · simp [roundSigned, Datum.signed, pos.ne', pos.not_gt, abs_of_pos pos]
  · simp [roundSigned, Datum.signed, pos.ne', pos, abs_of_pos pos]

end FloatFormat
end Rv64Js
