import Rv64Js.Core.Alu

/-! # Scalar floating point

`op_fp` and the fused multiply-add arm of `step`. The soft-float routines and the host operations
behind `fp_fast32` and `fp_fast64` are parameters that return a result with its flags. -/

set_option autoImplicit false

namespace Rv64Js.Core

structure SoftFormat (w : Nat) where
  add : BitVec w → BitVec w → BitVec 3 → BitVec w × BitVec 32
  sub : BitVec w → BitVec w → BitVec 3 → BitVec w × BitVec 32
  mul : BitVec w → BitVec w → BitVec 3 → BitVec w × BitVec 32
  div : BitVec w → BitVec w → BitVec 3 → BitVec w × BitVec 32
  sqrt : BitVec w → BitVec 3 → BitVec w × BitVec 32
  fma : BitVec w → BitVec w → BitVec w → BitVec 3 → BitVec w × BitVec 32
  min : BitVec w → BitVec w → BitVec w × BitVec 32
  max : BitVec w → BitVec w → BitVec w × BitVec 32
  eqQuiet : BitVec w → BitVec w → Bool × BitVec 32
  le : BitVec w → BitVec w → Bool × BitVec 32
  lt : BitVec w → BitVec w → Bool × BitVec 32
  fclass : BitVec w → BitVec 32
  cvtToI32 : BitVec w → BitVec 3 → Bool → BitVec 32 × BitVec 32
  cvtToI64 : BitVec w → BitVec 3 → Bool → Word × BitVec 32
  cvtFromI32 : BitVec 32 → BitVec 3 → Bool → BitVec w × BitVec 32
  cvtFromI64 : Word → BitVec 3 → Bool → BitVec w × BitVec 32
  /-- `fp_fast32` / `fp_fast64`: the host operation where no new flag is possible. -/
  fast : BitVec 5 → BitVec w → BitVec w → Option (BitVec w)
deriving Inhabited

structure SoftFp where
  sf32 : SoftFormat 32
  sf64 : SoftFormat 64
  cvtSf64Sf32 : Word → BitVec 3 → BitVec 32 × BitVec 32
  cvtSf32Sf64 : BitVec 32 → Word × BitVec 32
deriving Inhabited

def RM_RNE : BitVec 3 := 0#3
def FFLAG_INEXACT : BitVec 32 := 1#32

/-- NaN-boxed operand; an improper box reads as the canonical quiet NaN. -/
def unbox32 (r : Word) : BitVec 32 :=
  if r >>> 32 = 0xffffffff#64 then lowWord r else 0x7fc00000#32

def box32 (v : BitVec 32) : Word := 0xffffffff00000000#64 ||| v.setWidth 64

/-- Rounding mode field, 7 meaning dynamic; reserved modes are illegal. -/
def getRm (fcsr : BitVec 32) (field : BitVec 3) : Option (BitVec 3) :=
  let rm := if field = 7#3 then (fcsr >>> 5).setWidth 3 else field
  if rm ≤ 4#3 then some rm else none

variable {w : Nat} (format : SoftFormat w)

def SoftFormat.arith (op : BitVec 5) (a b : BitVec w) (rm : BitVec 3) : BitVec w × BitVec 32 :=
  match op with
  | 0#5 => format.add a b rm
  | 1#5 => format.sub a b rm
  | 2#5 => format.mul a b rm
  | _ => format.div a b rm

/-- Once the inexact flag is sticky and rounding is to nearest-even, a host result that could raise
nothing else is taken as is. -/
def SoftFormat.arithFast (fcsr : BitVec 32) (op : BitVec 5) (a b : BitVec w) (rm : BitVec 3) :
    BitVec w × BitVec 32 :=
  if rm = RM_RNE ∧ fcsr &&& FFLAG_INEXACT ≠ 0#32 then
    match format.fast op a b with
    | some r => (r, 0#32)
    | none => format.arith op a b rm
  else format.arith op a b rm

def signInject (sign : BitVec w) (f3 : BitVec 3) (a b : BitVec w) : Option (BitVec w) :=
  match f3 with
  | 0#3 => some ((a &&& ~~~sign) ||| (b &&& sign))
  | 1#3 => some ((a &&& ~~~sign) ||| (~~~b &&& sign))
  | 2#3 => some (a ^^^ (b &&& sign))
  | _ => none

def SoftFormat.minMax (f3 : BitVec 3) (a b : BitVec w) : Option (BitVec w × BitVec 32) :=
  match f3 with
  | 0#3 => some (format.min a b)
  | 1#3 => some (format.max a b)
  | _ => none

def SoftFormat.compare (f3 : BitVec 3) (a b : BitVec w) : Option (Bool × BitVec 32) :=
  match f3 with
  | 2#3 => some (format.eqQuiet a b)
  | 1#3 => some (format.lt a b)
  | 0#3 => some (format.le a b)
  | _ => none

def SoftFormat.toInt (kind : Reg) (a : BitVec w) (rm : BitVec 3) : Option (Word × BitVec 32) :=
  match kind with
  | 0#5 => some ((format.cvtToI32 a rm false).map sextWord id)
  | 1#5 => some ((format.cvtToI32 a rm true).map sextWord id)
  | 2#5 => some (format.cvtToI64 a rm false)
  | 3#5 => some (format.cvtToI64 a rm true)
  | _ => none

def SoftFormat.ofInt (kind : Reg) (x : Word) (rm : BitVec 3) : Option (BitVec w × BitVec 32) :=
  match kind with
  | 0#5 => some (format.cvtFromI32 (lowWord x) rm false)
  | 1#5 => some (format.cvtFromI32 (lowWord x) rm true)
  | 2#5 => some (format.cvtFromI64 x rm false)
  | 3#5 => some (format.cvtFromI64 x rm true)
  | _ => none

namespace Hart

variable (hart : Hart)

def raise (fl : BitVec 32) : Hart := { hart with fcsr := hart.fcsr ||| (fl &&& 0x1f#32) }

def fpDouble (d : Reg) (r : Word × BitVec 32) : Hart := (hart.setF d r.1).raise r.2

def fpSingle (d : Reg) (r : BitVec 32 × BitVec 32) : Hart :=
  (hart.setF d (box32 r.1)).raise r.2

def fpInt (d : Reg) (r : Word × BitVec 32) : Hart := (hart.wr d r.1).raise r.2

variable (soft : SoftFp)

/-- OP-FP; `none` is an illegal encoding, which leaves the hart alone. -/
def opFp (hart : Hart) (insn : Insn) : Option Hart :=
  let f7 := funct7 insn
  let fmt : BitVec 2 := f7.extractLsb' 0 2
  let op : BitVec 5 := f7.extractLsb' 2 5
  let f3 := funct3 insn
  let d := rd insn
  let s1 := rs1 insn
  let s2 := rs2 insn
  let a32 := unbox32 (hart.f s1)
  let b32 := unbox32 (hart.f s2)
  let a64 := hart.f s1
  let b64 := hart.f s2
  match op, fmt with
  | 0x00#5, 0#2 | 0x01#5, 0#2 | 0x02#5, 0#2 | 0x03#5, 0#2 =>
    (getRm hart.fcsr f3).map fun rm =>
      hart.fpSingle d (soft.sf32.arithFast hart.fcsr op a32 b32 rm)
  | 0x00#5, 1#2 | 0x01#5, 1#2 | 0x02#5, 1#2 | 0x03#5, 1#2 =>
    (getRm hart.fcsr f3).map fun rm =>
      hart.fpDouble d (soft.sf64.arithFast hart.fcsr op a64 b64 rm)
  | 0x0b#5, 0#2 =>
    if s2 = 0#5 then
      (getRm hart.fcsr f3).map fun rm => hart.fpSingle d (soft.sf32.sqrt a32 rm)
    else none
  | 0x0b#5, 1#2 =>
    if s2 = 0#5 then
      (getRm hart.fcsr f3).map fun rm => hart.fpDouble d (soft.sf64.sqrt a64 rm)
    else none
  | 0x04#5, 0#2 =>
    (signInject 0x80000000#32 f3 a32 b32).map fun r => hart.fpSingle d (r, 0#32)
  | 0x04#5, 1#2 =>
    (signInject (1#64 <<< 63) f3 a64 b64).map fun r => hart.fpDouble d (r, 0#32)
  | 0x05#5, 0#2 => (soft.sf32.minMax f3 a32 b32).map (hart.fpSingle d)
  | 0x05#5, 1#2 => (soft.sf64.minMax f3 a64 b64).map (hart.fpDouble d)
  | 0x08#5, 0#2 =>
    if s2 = 1#5 then
      (getRm hart.fcsr f3).map fun rm => hart.fpSingle d (soft.cvtSf64Sf32 a64 rm)
    else none
  | 0x08#5, 1#2 => if s2 = 0#5 then some (hart.fpDouble d (soft.cvtSf32Sf64 a32)) else none
  | 0x14#5, 0#2 => (soft.sf32.compare f3 a32 b32).map fun r => hart.fpInt d (r.map boolWord id)
  | 0x14#5, 1#2 => (soft.sf64.compare f3 a64 b64).map fun r => hart.fpInt d (r.map boolWord id)
  | 0x18#5, 0#2 =>
    (getRm hart.fcsr f3).bind fun rm => (soft.sf32.toInt s2 a32 rm).map (hart.fpInt d)
  | 0x18#5, 1#2 =>
    (getRm hart.fcsr f3).bind fun rm => (soft.sf64.toInt s2 a64 rm).map (hart.fpInt d)
  | 0x1a#5, 0#2 =>
    (getRm hart.fcsr f3).bind fun rm => (soft.sf32.ofInt s2 (hart.x s1) rm).map (hart.fpSingle d)
  | 0x1a#5, 1#2 =>
    (getRm hart.fcsr f3).bind fun rm => (soft.sf64.ofInt s2 (hart.x s1) rm).map (hart.fpDouble d)
  | 0x1c#5, 0#2 =>
    match f3 with
    | 0#3 => some (hart.fpInt d (sextWord (lowWord a64), 0#32))
    | 1#3 => some (hart.fpInt d ((soft.sf32.fclass a32).setWidth 64, 0#32))
    | _ => none
  | 0x1c#5, 1#2 =>
    match f3 with
    | 0#3 => some (hart.fpInt d (a64, 0#32))
    | 1#3 => some (hart.fpInt d ((soft.sf64.fclass a64).setWidth 64, 0#32))
    | _ => none
  | 0x1e#5, 0#2 =>
    if f3 = 0#3 then some (hart.fpSingle d (lowWord (hart.x s1), 0#32)) else none
  | 0x1e#5, 1#2 => if f3 = 0#3 then some (hart.fpDouble d (hart.x s1, 0#32)) else none
  | _, _ => none

def fma (hart : Hart) (insn : Insn) : Option Hart :=
  let rs3 : Reg := insn.extractLsb' 27 5
  let negProd : Bool := opcode insn = 0x4b#7 ∨ opcode insn = 0x4f#7
  let negC : Bool := opcode insn = 0x47#7 ∨ opcode insn = 0x4f#7
  (getRm hart.fcsr (funct3 insn)).bind fun rm =>
    match insn.extractLsb' 25 2 with
    | 0#2 =>
      let flip (neg : Bool) (v : BitVec 32) := if neg then v ^^^ 0x80000000#32 else v
      some (hart.fpSingle (rd insn)
        (soft.sf32.fma (flip negProd (unbox32 (hart.f (rs1 insn)))) (unbox32 (hart.f (rs2 insn)))
          (flip negC (unbox32 (hart.f rs3))) rm))
    | 1#2 =>
      let flip (neg : Bool) (v : Word) := if neg then v ^^^ (1#64 <<< 63) else v
      some
        (hart.fpDouble (rd insn)
          (soft.sf64.fma (flip negProd (hart.f (rs1 insn))) (hart.f (rs2 insn))
          (flip negC (hart.f rs3)) rm))
    | _ => none

/-! ## What a scalar FP instruction writes -/

inductive FpWrites (hart : Hart) : Hart → Prop
  | float (d : Reg) (v : Word) (fl : BitVec 32) : FpWrites hart ((hart.setF d v).raise fl)
  | int (d : Reg) (v : Word) (fl : BitVec 32) : FpWrites hart ((hart.wr d v).raise fl)

def FpResults (result : Option Hart) : Prop := ∀ hart' ∈ result, hart.FpWrites hart'

namespace FpResults

theorem none (hart : Hart) : FpResults hart none := fun _ member => by cases member

variable {hart : Hart}

theorem some {hart' : Hart} (writes : hart.FpWrites hart') : FpResults hart (some hart') := by
  intro other member
  cases member
  exact writes

theorem map {α : Type} {f : α → Hart} (writes : ∀ a, hart.FpWrites (f a))
    (o : Option α) : FpResults hart (o.map f) := by
  cases o with
  | none => exact .none hart
  | some a => exact .some (writes a)

theorem bind {α : Type} {f : α → Option Hart} (writes : ∀ a, FpResults hart (f a))
    (o : Option α) : FpResults hart (o.bind f) := by
  cases o with
  | none => exact .none hart
  | some a => exact writes a

theorem ite {p : Prop} [Decidable p] {a b : Option Hart} (yes : FpResults hart a)
    (no : FpResults hart b) : FpResults hart (if p then a else b) := by
  by_cases h : p
  · rwa [if_pos h]
  · rwa [if_neg h]

end FpResults

variable (hart : Hart)

theorem fpSingle_writes (d : Reg) (r : BitVec 32 × BitVec 32) : hart.FpWrites (hart.fpSingle d r) :=
  .float d _ _

theorem fpDouble_writes (d : Reg) (r : Word × BitVec 32) : hart.FpWrites (hart.fpDouble d r) :=
  .float d _ _

theorem fpInt_writes (d : Reg) (r : Word × BitVec 32) : hart.FpWrites (hart.fpInt d r) := .int d _ _

theorem opFp_writes (hart : Hart) (insn : Insn) : FpResults hart (hart.opFp soft insn) := by
  unfold Hart.opFp
  simp only
  split
  case h_1 | h_2 | h_3 | h_4 | h_11 | h_13 => exact .map (fun _ => fpSingle_writes _ _ _) _
  case h_5 | h_6 | h_7 | h_8 | h_12 | h_14 => exact .map (fun _ => fpDouble_writes _ _ _) _
  case h_9 | h_15 => exact .ite (.map (fun _ => fpSingle_writes _ _ _) _) (.none _)
  case h_10 => exact .ite (.map (fun _ => fpDouble_writes _ _ _) _) (.none _)
  case h_16 | h_26 => exact .ite (.some (fpDouble_writes _ _ _)) (.none _)
  case h_17 | h_18 => exact .map (fun _ => fpInt_writes _ _ _) _
  case h_19 | h_20 => exact .bind (fun _ => .map (fun _ => fpInt_writes _ _ _) _) _
  case h_21 => exact .bind (fun _ => .map (fun _ => fpSingle_writes _ _ _) _) _
  case h_22 => exact .bind (fun _ => .map (fun _ => fpDouble_writes _ _ _) _) _
  case h_23 | h_24 => split <;> first | exact .some (fpInt_writes _ _ _) | exact .none _
  case h_25 => exact .ite (.some (fpSingle_writes _ _ _)) (.none _)
  case h_27 => exact .none _

theorem fma_writes (hart : Hart) (insn : Insn) : FpResults hart (hart.fma soft insn) := by
  refine .bind (fun rm => ?_) _
  match insn.extractLsb' 25 2 with
  | 0#2 => exact .some (fpSingle_writes _ _ _)
  | 1#2 => exact .some (fpDouble_writes _ _ _)
  | 2#2 | 3#2 => exact .none _

end Hart

end Rv64Js.Core
