import Rv64Js.Core.Compressed
import Mathlib.Tactic.IntervalCases

/-! # Decoding what the expander encodes

The fields and immediates that `decode.rs` reads back from the words the RVC expander builds. -/

set_option autoImplicit false

namespace Rv64Js.Core

open BitVec

/-! ## Register and function fields -/

section Fields

variable (op : BitVec 7) (d s t : Reg) (f3 : BitVec 3) (f7 : BitVec 7) (imm : BitVec 32)

theorem opcode_encI : opcode (encI op d f3 s imm) = op := by
  ext i h
  interval_cases i <;> simp [opcode, encI]

theorem rd_encI : rd (encI op d f3 s imm) = d := by
  ext i h
  interval_cases i <;> simp [rd, encI, getLsbD_of_ge]

theorem funct3_encI : funct3 (encI op d f3 s imm) = f3 := by
  ext i h
  interval_cases i <;> simp [funct3, encI, getLsbD_of_ge]

theorem rs1_encI : rs1 (encI op d f3 s imm) = s := by
  ext i h
  interval_cases i <;> simp [rs1, encI, getLsbD_of_ge]

theorem opcode_encR : opcode (encR op d f3 s t f7) = op := by
  ext i h
  interval_cases i <;> simp [opcode, encR]

theorem rd_encR : rd (encR op d f3 s t f7) = d := by
  ext i h
  interval_cases i <;> simp [rd, encR, getLsbD_of_ge]

theorem funct3_encR : funct3 (encR op d f3 s t f7) = f3 := by
  ext i h
  interval_cases i <;> simp [funct3, encR, getLsbD_of_ge]

theorem rs1_encR : rs1 (encR op d f3 s t f7) = s := by
  ext i h
  interval_cases i <;> simp [rs1, encR, getLsbD_of_ge]

theorem rs2_encR : rs2 (encR op d f3 s t f7) = t := by
  ext i h
  interval_cases i <;> simp [rs2, encR, getLsbD_of_ge]

theorem funct7_encR : funct7 (encR op d f3 s t f7) = f7 := by
  ext i h
  interval_cases i <;> simp [funct7, encR, getLsbD_of_ge]

theorem opcode_encS : opcode (encS op f3 s t imm) = op := by
  ext i h
  interval_cases i <;> simp [opcode, encS]

theorem funct3_encS : funct3 (encS op f3 s t imm) = f3 := by
  ext i h
  interval_cases i <;> simp [funct3, encS, getLsbD_of_ge]

theorem rs1_encS : rs1 (encS op f3 s t imm) = s := by
  ext i h
  interval_cases i <;> simp [rs1, encS, getLsbD_of_ge]

theorem rs2_encS : rs2 (encS op f3 s t imm) = t := by
  ext i h
  interval_cases i <;> simp [rs2, encS, getLsbD_of_ge]

theorem opcode_encB : opcode (encB op f3 s t imm) = op := by
  ext i h
  interval_cases i <;> simp [opcode, encB]

theorem funct3_encB : funct3 (encB op f3 s t imm) = f3 := by
  ext i h
  interval_cases i <;> simp [funct3, encB, getLsbD_of_ge]

theorem rs1_encB : rs1 (encB op f3 s t imm) = s := by
  ext i h
  interval_cases i <;> simp [rs1, encB, getLsbD_of_ge]

theorem rs2_encB : rs2 (encB op f3 s t imm) = t := by
  ext i h
  interval_cases i <;> simp [rs2, encB, getLsbD_of_ge]

theorem opcode_encU : opcode (encU op d imm) = op := by
  ext i h
  interval_cases i <;> simp [opcode, encU]

theorem rd_encU : rd (encU op d imm) = d := by
  ext i h
  interval_cases i <;> simp [rd, encU, getLsbD_of_ge]

theorem opcode_encJ : opcode (encJ op d imm) = op := by
  ext i h
  interval_cases i <;> simp [opcode, encJ]

theorem rd_encJ : rd (encJ op d imm) = d := by
  ext i h
  interval_cases i <;> simp [rd, encJ, getLsbD_of_ge]

end Fields

/-! ## Immediates -/

variable (v : BitVec 32)

theorem getLsbD_cSext {b i : Nat} (pos : 0 < b) (fits : b ≤ 32) (h : i < 32) :
    (cSext v b).getLsbD i = if i < b then v.getLsbD i else v.getLsbD (b - 1) := by
  rw [cSext, getLsbD_sshiftRight]
  by_cases low : i < b
  · simp [low, h, show ¬ 32 ≤ i by omega, show 32 - b + i < 32 by omega]
  · rw [if_neg low, if_neg (by omega), msb_eq_getLsbD_last, getLsbD_shiftLeft]
    simp [show ¬ 32 ≤ i by omega, show ¬ 31 < 32 - b by omega,
      show 31 - (32 - b) = b - 1 by omega]

theorem getLsbD_compressedSext {b i : Nat} (pos : 0 < b) (fits : b ≤ 32) (h : i < 64) :
    (compressedSext v b).getLsbD i = if i < b then v.getLsbD i else v.getLsbD (b - 1) := by
  rw [compressedSext, getLsbD_signExtend, msb_eq_getLsbD_last]
  by_cases low : i < 32
  · rw [if_pos low, getLsbD_cSext v pos fits low]
    simp [h]
  · rw [if_neg low, if_neg (show ¬ i < b by omega), getLsbD_cSext v pos fits (by omega)]
    rcases Nat.lt_or_ge (32 - 1) b with full | narrow
    · simp [h, show b = 32 by omega]
    · simp [h, show ¬ 31 < b by omega]

theorem signExtend_extract_cSext {b k : Nat} (pos : 0 < b) (fits : b ≤ k) (wide : k ≤ 32) :
    ((cSext v b).extractLsb' 0 k).signExtend 64 = compressedSext v b := by
  have extracted : ∀ j, j < k →
      ((cSext v b).extractLsb' 0 k).getLsbD j =
        if j < b then v.getLsbD j else v.getLsbD (b - 1) := by
    intro j short
    rw [getLsbD_extractLsb', ← getLsbD_cSext v pos (by omega) (by omega)]
    simp [short]
  apply eq_of_getLsbD_eq
  intro i h
  rw [getLsbD_compressedSext v pos (by omega) h, getLsbD_signExtend,
    msb_eq_getLsbD_last, extracted (k - 1) (by omega)]
  by_cases short : i < k
  · rw [if_pos short, extracted i short]
    simp [h]
  · rw [if_neg short, if_neg (show ¬ i < b by omega)]
    rcases Nat.lt_or_ge (k - 1) b with same | narrow
    · simp [h, show k = b by omega, show b - 1 < b by omega]
    · simp [h, show ¬ k - 1 < b by omega]

theorem compressedSext_eq_zero (b : Nat) : compressedSext v b = 0#64 ↔ cSext v b = 0#32 := by
  constructor
  · intro zero
    apply eq_of_getLsbD_eq
    intro i h
    have bit := congrArg (fun w : Word => w.getLsbD i) zero
    simp only [compressedSext, getLsbD_signExtend, if_pos h] at bit
    simpa [show i < 64 by omega] using bit
  · intro zero
    rw [compressedSext, zero]
    rfl

theorem extract_sext_small (imm : BitVec 32) (small : imm >>> 11 = 0#32) :
    (imm.extractLsb' 0 12).signExtend 64 = imm.setWidth 64 := by
  have zero : ∀ j, 11 ≤ j → imm.getLsbD j = false := by
    intro j le
    have bit := congrArg (fun v : BitVec 32 => v.getLsbD (j - 11)) small
    simpa [show 11 + (j - 11) = j by omega] using bit
  have sign : (imm.extractLsb' 0 12).msb = false := by
    rw [msb_eq_getLsbD_last, getLsbD_extractLsb', zero _ (by omega)]
    rfl
  rw [signExtend_eq_setWidth_of_msb_false sign]
  apply eq_of_getLsbD_eq
  intro i h
  rw [getLsbD_setWidth, getLsbD_extractLsb', getLsbD_setWidth]
  by_cases short : i < 12
  · simp [short]
  · simp [short, zero i (by omega)]

variable (op : BitVec 7)

theorem immI_encI (d s : Reg) (f3 : BitVec 3) (imm : BitVec 32) :
    immI (encI op d f3 s imm) = (imm.extractLsb' 0 12).signExtend 64 := by
  apply eq_of_getLsbD_eq
  intro i h
  interval_cases i <;>
    simp [immI, encI, getElem_sshiftRight, getElem_signExtend, msb_eq_getLsbD_last, getLsbD_of_ge]

theorem immS_encS (f3 : BitVec 3) (s t : Reg) (imm : BitVec 32) :
    immS (encS op f3 s t imm) = (imm.extractLsb' 0 12).signExtend 64 := by
  apply eq_of_getLsbD_eq
  intro i h
  interval_cases i <;>
    simp [immS, encS, getElem_sshiftRight, getElem_signExtend, msb_eq_getLsbD_last, getLsbD_of_ge]

theorem immB_eq (insn : Insn) :
    immB insn = (insn.extractLsb' 31 1 ++ insn.extractLsb' 7 1 ++ insn.extractLsb' 25 6 ++
      insn.extractLsb' 8 4 ++ 0#1).signExtend 64 := by
  apply eq_of_getLsbD_eq
  intro i h
  rw [getLsbD_signExtend, msb_eq_getLsbD_last]
  repeat rw [getLsbD_append]
  interval_cases i <;>
    simp [immB, getElem_sshiftRight, getElem_signExtend, msb_eq_getLsbD_last]

theorem immB_encB (f3 : BitVec 3) (s t : Reg) (imm : BitVec 32) (even : imm.getLsbD 0 = false) :
    immB (encB op f3 s t imm) = (imm.extractLsb' 0 13).signExtend 64 := by
  rw [immB_eq]
  congr 1
  rw [getLsbD_eq_getElem (by omega)] at even
  apply eq_of_getLsbD_eq
  intro i h
  repeat rw [getLsbD_append]
  interval_cases i <;> simp [encB, getLsbD_of_ge, even]

theorem immJ_eq (insn : Insn) :
    immJ insn = (insn.extractLsb' 31 1 ++ insn.extractLsb' 12 8 ++ insn.extractLsb' 20 1 ++
      insn.extractLsb' 21 10 ++ 0#1).signExtend 64 := by
  apply eq_of_getLsbD_eq
  intro i h
  rw [getLsbD_signExtend, msb_eq_getLsbD_last]
  repeat rw [getLsbD_append]
  interval_cases i <;>
    simp [immJ, getElem_sshiftRight, getElem_signExtend, msb_eq_getLsbD_last]

theorem immJ_encJ (d : Reg) (imm : BitVec 32) (even : imm.getLsbD 0 = false) :
    immJ (encJ op d imm) = (imm.extractLsb' 0 21).signExtend 64 := by
  rw [immJ_eq]
  congr 1
  rw [getLsbD_eq_getElem (by omega)] at even
  apply eq_of_getLsbD_eq
  intro i h
  repeat rw [getLsbD_append]
  interval_cases i <;> simp [encJ, getLsbD_of_ge, even]

/-- C.LUI: the sign-extended six-bit immediate, twelve bits up. -/
theorem immU_encU (d : Reg) (v : BitVec 32) :
    immU (encU op d (cSext v 6 &&& 0xfffff#32)) = compressedSext v 6 <<< 12 := by
  apply eq_of_getLsbD_eq
  intro i h
  rw [immU, getLsbD_signExtend, msb_eq_getLsbD_last, getLsbD_shiftLeft]
  interval_cases i <;>
    simp [encU, getLsbD_of_ge, -getLsbD_eq_getElem, getLsbD_cSext, getLsbD_compressedSext]

/-! ## Immediates of the 16-bit forms -/

section Small

variable (c : Insn)

theorem cAddi4spnImm_small : cAddi4spnImm c >>> 11 = 0#32 := by
  ext i h
  interval_cases i <;> simp [cAddi4spnImm]

theorem cLwImm_small : cLwImm c >>> 11 = 0#32 := by
  ext i h
  interval_cases i <;> simp [cLwImm]

theorem cLdImm_small : cLdImm c >>> 11 = 0#32 := by
  ext i h
  interval_cases i <;> simp [cLdImm]

theorem cLwspImm_small : cLwspImm c >>> 11 = 0#32 := by
  ext i h
  interval_cases i <;> simp [cLwspImm]

theorem cLdspImm_small : cLdspImm c >>> 11 = 0#32 := by
  ext i h
  interval_cases i <;> simp [cLdspImm]

theorem cSwspImm_small : cSwspImm c >>> 11 = 0#32 := by
  ext i h
  interval_cases i <;> simp [cSwspImm]

theorem cSdspImm_small : cSdspImm c >>> 11 = 0#32 := by
  ext i h
  interval_cases i <;> simp [cSdspImm]

theorem cImm6_small : cImm6 c >>> 6 = 0#32 := by
  ext i h
  interval_cases i <;> simp [cImm6]

theorem cJImm_even : (cJImm c).getLsbD 0 = false := by simp [cJImm]

theorem cBImm_even : (cBImm c).getLsbD 0 = false := by simp [cBImm]

end Small

theorem shamt64_shift (imm : BitVec 32) :
    shamt64 ((imm.extractLsb' 0 12).signExtend 64) = (imm &&& 0x3f#32).toNat := by
  have same : (imm.extractLsb' 0 12).signExtend 64 &&& 0x3f#64 = (imm &&& 0x3f#32).setWidth 64 := by
    apply eq_of_getLsbD_eq
    intro i h
    interval_cases i <;> simp [getElem_signExtend]
  rw [shamt64, same, toNat_setWidth, Nat.mod_eq_of_lt (by omega)]

theorem shift_encI (d s : Reg) (f3 : BitVec 3) (imm : BitVec 32) :
    encI 0x13#7 d f3 s imm >>> 26 = (imm >>> 6) &&& 0x3f#32 := by
  ext i h
  interval_cases i <;> simp [encI, getLsbD_of_ge]
end Rv64Js.Core
