import Rv64Js.Board.CodePages
import Rv64Js.Core.Encode

/-! # Compressed execution against the expander

`step_compressed` and `scalar_t0_compressed` never build the 32-bit word. Their effect is that of
the word `expand` builds, run with a fall-through of two bytes. -/

set_option autoImplicit false

namespace Rv64Js.Core

open Fallible (Matches Finishes)

variable {β : Type} [Bus β]

/-! ## Expanded instructions -/

section Encoded

variable (units : Units β) (d s t : Reg) (f3 : BitVec 3) (f7 : BitVec 7) (imm : BitVec 32)
  (pc next n : Word)

theorem executeNext_opImm :
    executeNext units (encI 0x13#7 d f3 s imm) pc next n = (do
      let a ← getX s
      writeX d (opImm (encI 0x13#7 d f3 s imm) a)
      pure (.goto next)) := by
  unfold executeNext
  simp only [opcode_encI, rd_encI, rs1_encI]

theorem executeNext_load :
    executeNext units (encI 0x03#7 d f3 s imm) pc next n = (do
      let base ← getX s
      let form ← orIllegal (encI 0x03#7 d f3 s imm) (loadForm f3)
      let v ← ld form.1 (base + (imm.extractLsb' 0 12).signExtend 64)
      writeX d (loadExtend form.1 form.2 v)
      pure (.goto next)) := by
  unfold executeNext
  simp only [opcode_encI, rd_encI, rs1_encI, funct3_encI, immI_encI]

theorem executeNext_jalr :
    executeNext units (encI 0x67#7 d f3 s imm) pc next n = (do
      let base ← getX s
      writeX d next
      pure (.goto ((base + (imm.extractLsb' 0 12).signExtend 64) &&& ~~~1#64))) := by
  unfold executeNext
  simp only [opcode_encI, rd_encI, rs1_encI, immI_encI]

theorem executeNext_op :
    executeNext units (encR 0x33#7 d f3 s t f7) pc next n = (do
      let a ← getX s
      let b ← getX t
      let v ← orIllegal (encR 0x33#7 d f3 s t f7) (op (encR 0x33#7 d f3 s t f7) a b)
      writeX d v
      pure (.goto next)) := by
  unfold executeNext
  simp only [opcode_encR, rd_encR, rs1_encR, rs2_encR]

theorem executeNext_branch (even : imm.getLsbD 0 = false) :
    executeNext units (encB 0x63#7 f3 s t imm) pc next n = (do
      let a ← getX s
      let b ← getX t
      let taken ← orIllegal (encB 0x63#7 f3 s t imm) (branchTaken f3 a b)
      pure (.goto (if taken then pc + (imm.extractLsb' 0 13).signExtend 64 else next))) := by
  unfold executeNext
  simp only [opcode_encB, rs1_encB, rs2_encB, funct3_encB, immB_encB _ _ _ _ _ even]

end Encoded

/-! ## One quadrant after the other -/

/-- A reserved encoding is illegal; any other runs as its expansion with the fall-through two bytes
on, where `x0` is clear and wherever the step fails. -/
inductive RunsAs (units : Units β) (pc n : Word) (c : Insn) (step : Exec β Next) :
    Option Insn → Prop
  | reserved (raises : step = illegal c) : RunsAs units pc n c step none
  | runs (insn : Insn) (same : ∀ m : Machine β,
      (m.hart.x 0#5 = 0#64 ∨ ∃ e m', step m = .error e m') →
      (step >>= fun next => pure { next := next, fetch := .keep : Outcome }) m =
        executeNext units insn pc (pc + 2) n m) : RunsAs units pc n c step (some insn)

variable {c : Insn}

/-- A step that reads `x0` cannot fail. -/
theorem RunsAs.of_finishes {units : Units β} {pc n : Word} {step : Exec β Next} {insn : Insn}
    (finishes : Finishes step) (same : ∀ m : Machine β, m.hart.x 0#5 = 0#64 →
      (step >>= fun next => pure { next := next, fetch := .keep : Outcome }) m =
        executeNext units insn pc (pc + 2) n m) : RunsAs units pc n c step (some insn) := by
  refine .runs insn fun m clear => same m (clear.resolve_right ?_)
  rintro ⟨e, m', raised⟩
  obtain ⟨next, m₁, done⟩ := finishes m
  cases done.symm.trans raised

theorem RunsAs.ite {units : Units β} {pc n : Word} {p : Prop} [Decidable p] {yes no : Exec β Next}
    {yes' no' : Option Insn} (pos : p → RunsAs units pc n c yes yes')
    (neg : ¬ p → RunsAs units pc n c no no') :
    RunsAs units pc n c (if p then yes else no) (if p then yes' else no') := by
  by_cases h : p
  · rw [if_pos h, if_pos h]
    exact pos h
  · rw [if_neg h, if_neg h]
    exact neg h

theorem opImm_addi (d s : Reg) (imm : BitVec 32) (a : Word) :
    opImm (encI 0x13#7 d 0#3 s imm) a = a + (imm.extractLsb' 0 12).signExtend 64 := by
  unfold opImm
  simp only [funct3_encI, immI_encI]

omit [Bus β] in
theorem writeX_eq_assignX {d : Reg} (nonzero : d ≠ 0#5) (v : Word) :
    (writeX d v : Exec β Unit) = assignX d v := by
  unfold writeX assignX Hart.wr Hart.setX
  simp [nonzero]

omit [Bus β] in
theorem getX_bind {α : Type} (r : Reg) (k : Word → Exec β α) (m : Machine β) :
    (getX r >>= k) m = k (m.hart.x r) m := rfl

omit [Bus β] in
theorem writeX_zero (v : Word) : (writeX 0#5 v : Exec β Unit) = pure () := by
  unfold writeX modifyHart Hart.wr
  simp
  rfl

variable (units : Units β) (instruction : CInsn)

/-! Loads and stores, whose offsets are positive. -/

section Memory

variable (pc n : Word) (d s t : Reg) {imm : BitVec 32} (small : imm >>> 11 = 0#32)
include small

theorem runsAs_lw : RunsAs units pc n c
    (do writeX d (← ldSigned32 ((← getX s) + imm.setWidth 64)); pure { pc := pc + 2, stop := none })
    (some (encI 0x03#7 d 2#3 s imm)) := by
  refine .runs _ fun m _ => ?_
  rw [executeNext_load]
  simp only [ldSigned32, extract_sext_small _ small, bind_assoc, pure_bind]
  rfl

theorem runsAs_ld : RunsAs units pc n c
    (do writeX d (← ld .dword ((← getX s) + imm.setWidth 64)); pure { pc := pc + 2, stop := none })
    (some (encI 0x03#7 d 3#3 s imm)) := by
  refine .runs _ fun m _ => ?_
  rw [executeNext_load]
  simp only [extract_sext_small _ small, bind_assoc, pure_bind]
  rfl

theorem runsAs_store {f3 : BitVec 3} {width : Width} (form : storeForm f3 = some width) :
    RunsAs units pc n c
    (do st width ((← getX s) + imm.setWidth 64) (← getX t); pure { pc := pc + 2, stop := none })
    (some (encS 0x23#7 f3 s t imm)) := by
  refine .runs _ fun m _ => ?_
  unfold executeNext
  simp only [opcode_encS, rs1_encS, rs2_encS, funct3_encS, immS_encS, form,
    extract_sext_small _ small, bind_assoc, pure_bind]
  rfl

theorem runsAs_loadFp (expands : expand instruction = some (encI 0x07#7 d 3#3 s imm)) :
    RunsAs units pc n c
    (do cFpLoad instruction d s imm; pure { pc := pc + 2, stop := none })
      (some (encI 0x07#7 d 3#3 s imm)) := by
  refine .runs _ fun m _ => ?_
  unfold executeNext
  simp only [cFpLoad, expands, stepLoadFp, Option.getD_some, opcode_encI, funct3_encI, rd_encI,
    rs1_encI, immI_encI, extract_sext_small _ small, bind_assoc, pure_bind]
  rfl

theorem runsAs_storeFp (expands : expand instruction = some (encS 0x27#7 3#3 s t imm)) :
    RunsAs units pc n c
    (do cFpStore instruction t s imm; pure { pc := pc + 2, stop := none })
      (some (encS 0x27#7 3#3 s t imm)) := by
  refine .runs _ fun m _ => ?_
  unfold executeNext
  simp only [cFpStore, expands, stepStoreFp, Option.getD_some, opcode_encS, funct3_encS, rs1_encS,
    rs2_encS, immS_encS, extract_sext_small _ small, bind_assoc, pure_bind]
  rfl

end Memory

theorem stepQuadrant0_expands (c : Insn) (pc n : Word)
    (expands : expand instruction = expandQuadrant0 c) :
    RunsAs units pc n c (stepQuadrant0 instruction c pc) (expandQuadrant0 c) := by
  unfold expandQuadrant0 stepQuadrant0 at *
  revert expands
  match cFunct3 c with
  | 0b000#3 =>
    intro _
    by_cases zero : cAddi4spnImm c = 0#32
    · simp only [if_pos zero]
      exact .reserved rfl
    · simp only [if_neg zero]
      refine .runs _ fun m _ => ?_
      rw [executeNext_opImm]
      simp only [opImm_addi, extract_sext_small _ (cAddi4spnImm_small c)]
      rfl
  | 0b001#3 => exact runsAs_loadFp units instruction pc n _ _ (cLdImm_small c)
  | 0b010#3 => exact fun _ => runsAs_lw units pc n _ _ (cLwImm_small c)
  | 0b011#3 => exact fun _ => runsAs_ld units pc n _ _ (cLdImm_small c)
  | 0b100#3 => exact fun _ => .reserved rfl
  | 0b101#3 => exact runsAs_storeFp units instruction pc n _ _ (cLdImm_small c)
  | 0b110#3 => exact fun _ => runsAs_store units pc n _ _ (cLwImm_small c) rfl
  | 0b111#3 => exact fun _ => runsAs_store units pc n _ _ (cLdImm_small c) rfl

theorem opImm_slli (d s : Reg) (imm : BitVec 32) (a : Word) :
    opImm (encI 0x13#7 d 1#3 s imm) a = a <<< (imm &&& 0x3f#32).toNat := by
  unfold opImm
  simp only [funct3_encI, immI_encI, shamt64_shift]

theorem opImm_shiftRight (d s : Reg) (imm : BitVec 32) (a : Word) :
    opImm (encI 0x13#7 d 5#3 s imm) a =
      if (imm >>> 6) &&& 0x3f#32 = 0x10#32 then a.sshiftRight (imm &&& 0x3f#32).toNat
      else a >>> (imm &&& 0x3f#32).toNat := by
  unfold opImm
  simp only [funct3_encI, immI_encI, shamt64_shift, shift_encI]

theorem opImm_andi (d s : Reg) (imm : BitVec 32) (a : Word) :
    opImm (encI 0x13#7 d 7#3 s imm) a = a &&& (imm.extractLsb' 0 12).signExtend 64 := by
  unfold opImm
  simp only [funct3_encI, immI_encI]

theorem opImm32_addiw (d s : Reg) (imm a : BitVec 32) :
    opImm32 (encI 0x1b#7 d 0#3 s imm) a =
      some (a + lowWord ((imm.extractLsb' 0 12).signExtend 64)) := by
  unfold opImm32
  simp only [funct3_encI, immI_encI]

theorem cImm6_shamt (c : Insn) : cImm6 c &&& 0x3f#32 = cImm6 c := by
  apply BitVec.eq_of_getLsbD_eq
  intro i h
  interval_cases i <;> simp [cImm6]

theorem cImm6_srai_shamt (c : Insn) : (cImm6 c ||| 0x400#32) &&& 0x3f#32 = cImm6 c := by
  apply BitVec.eq_of_getLsbD_eq
  intro i h
  interval_cases i <;> simp [cImm6]

theorem cImm6_srli_form (c : Insn) : (cImm6 c >>> 6) &&& 0x3f#32 = 0#32 := by
  rw [cImm6_small]
  rfl

theorem cImm6_srai_form (c : Insn) : ((cImm6 c ||| 0x400#32) >>> 6) &&& 0x3f#32 = 0x10#32 := by
  rw [BitVec.ushiftRight_or_distrib, cImm6_small]
  rfl

theorem cSext_even (v : BitVec 32) {b : Nat} (one : 0 < b) (fits : b ≤ 32)
    (even : v.getLsbD 0 = false) : (cSext v b).getLsbD 0 = false := by
  rw [getLsbD_cSext v one fits (by omega), if_pos one, even]

theorem stepArith_expands (c : Insn) (pc n : Word) (group : cFunct3 c = 0b100#3) :
    RunsAs units pc n c
      (stepArith c >>= fun _ => pure { pc := pc + 2, stop := none }) (expandQuadrant1 c) := by
  have target : ∀ v, (writeX (cRs1Low c) v : Exec β Unit) = assignX (cRs1Low c) v :=
    writeX_eq_assignX (compressedRegister_ne_zero _)
  unfold expandQuadrant1 stepArith
  rw [group]
  match c.extractLsb' 10 2 with
  | 0#2 =>
    refine .runs _ fun m _ => ?_
    rw [executeNext_opImm]
    simp only [opImm_shiftRight, cImm6_shamt, cImm6_srli_form, target]
    rfl
  | 1#2 =>
    refine .runs _ fun m _ => ?_
    rw [executeNext_opImm]
    simp only [opImm_shiftRight, cImm6_srai_shamt, cImm6_srai_form, target]
    rfl
  | 2#2 =>
    refine .runs _ fun m _ => ?_
    rw [executeNext_opImm]
    simp only [opImm_andi, signExtend_extract_cSext (cImm6 c) (show 0 < 6 by omega)
      (show 6 ≤ 12 by omega) (by omega), target]
    rfl
  | 3#2 =>
    match cArith c with
    | 0b000#3 | 0b001#3 | 0b010#3 | 0b011#3 =>
      refine .runs _ fun m _ => ?_
      rw [executeNext_op]
      simp only [op, funct3_encR, funct7_encR, target]
      rfl
    | 0b100#3 | 0b101#3 =>
      refine .runs _ fun m _ => ?_
      unfold executeNext
      simp only [opcode_encR, rd_encR, rs1_encR, rs2_encR, op32, funct3_encR, funct7_encR, target]
      rfl
    | 0b110#3 | 0b111#3 => exact .reserved rfl

theorem stepAddi16sp_expands (c : Insn) (pc n : Word) :
    RunsAs units pc n c
      (getX 2#5 >>= fun a => assignX 2#5 (a + compressedSext (cAddi16spImm c) 10) >>= fun _ =>
        pure { pc := pc + 2, stop := none })
      (some (encI 0x13#7 2#5 0#3 2#5 (cSext (cAddi16spImm c) 10))) := by
  refine .runs _ fun m _ => ?_
  rw [executeNext_opImm]
  simp only [opImm_addi, signExtend_extract_cSext (cAddi16spImm c) (show 0 < 10 by omega)
    (show 10 ≤ 12 by omega) (by omega), writeX_eq_assignX (show (2#5 : Reg) ≠ 0#5 by decide)]
  rfl

theorem stepLui_expands (c : Insn) (pc n : Word) :
    RunsAs units pc n c
      (writeX (cRd c) (compressedSext (cImm6 c) 6 <<< 12) >>= fun _ =>
        pure { pc := pc + 2, stop := none })
      (some (encU 0x37#7 (cRd c) (cSext (cImm6 c) 6 &&& 0xfffff#32))) := by
  refine .runs _ fun m _ => ?_
  unfold executeNext
  simp only [opcode_encU, rd_encU, immU_encU]
  rfl

theorem stepQuadrant1_expands (c : Insn) (pc n : Word) :
    RunsAs units pc n c (stepQuadrant1 c pc) (expandQuadrant1 c) := by
  have imm6 : ((cSext (cImm6 c) 6).extractLsb' 0 12).signExtend 64 = compressedSext (cImm6 c) 6 :=
    signExtend_extract_cSext _ (by omega) (by omega) (by omega)
  by_cases arith : cFunct3 c = 0b100#3
  · have direct : (stepQuadrant1 c pc : Exec β Next) =
        stepArith c >>= fun _ => pure { pc := pc + 2, stop := none } := by
      unfold stepQuadrant1
      simp only [arith]
    rw [direct]
    exact stepArith_expands units c pc n arith
  unfold expandQuadrant1 stepQuadrant1
  generalize cFunct3 c = form at arith
  dsimp only
  match form with
  | 0b000#3 =>
    refine .runs _ fun m _ => ?_
    rw [executeNext_opImm]
    simp only [opImm_addi, imm6]
    rfl
  | 0b001#3 =>
    by_cases zero : cRd c = 0#5
    · simp only [if_pos zero]
      exact .reserved rfl
    · simp only [if_neg zero]
      refine .runs _ fun m _ => ?_
      unfold executeNext
      simp only [opcode_encI, rd_encI, rs1_encI, opImm32_addiw, imm6]
      rfl
  | 0b010#3 =>
    refine .of_finishes (fun _ => ⟨_, _, rfl⟩) fun m x0 => ?_
    rw [executeNext_opImm]
    rw [getX_bind, opImm_addi, imm6, x0, BitVec.zero_add]
    rfl
  | 0b011#3 =>
    simp only [compressedSext_eq_zero]
    exact .ite (fun _ => .ite (fun _ => .reserved rfl) fun _ => stepAddi16sp_expands units c pc n)
      fun _ => .ite (fun _ => .reserved rfl) fun _ => stepLui_expands units c pc n
  | 0b100#3 => exact absurd rfl arith
  | 0b101#3 =>
    refine .runs _ fun m _ => ?_
    have even : (cSext (cJImm c) 12).getLsbD 0 = false :=
      cSext_even _ (by omega) (by omega) (cJImm_even c)
    unfold executeNext
    simp only [opcode_encJ, rd_encJ, immJ_encJ _ _ _ even, signExtend_extract_cSext (cJImm c)
      (show 0 < 12 by omega) (show 12 ≤ 21 by omega) (by omega), writeX_zero]
    rfl
  | 0b110#3 =>
    refine .of_finishes (fun _ => ⟨_, _, rfl⟩) fun m x0 => ?_
    rw [executeNext_branch _ _ _ _ _ _ _ _ (cSext_even _ (by omega) (by omega) (cBImm_even c)),
      signExtend_extract_cSext (cBImm c) (show 0 < 9 by omega) (by omega) (by omega),
      getX_bind, getX_bind, x0]
    rfl
  | 0b111#3 =>
    refine .of_finishes (fun _ => ⟨_, _, rfl⟩) fun m x0 => ?_
    rw [executeNext_branch _ _ _ _ _ _ _ _ (cSext_even _ (by omega) (by omega) (cBImm_even c)),
      signExtend_extract_cSext (cBImm c) (show 0 < 9 by omega) (by omega) (by omega),
      getX_bind, getX_bind, x0]
    change EStateM.Result.ok
        (Outcome.goto (if decide (m.hart.x (cRs1Low c) ≠ 0#64) = true then _ else _)) m =
      .ok (Outcome.goto (if (m.hart.x (cRs1Low c) != 0#64) = true then _ else _)) m
    simp

theorem stepJumpMove_expands (c : Insn) (pc n : Word) (group : cFunct3 c = 0b100#3) :
    RunsAs units pc n c (stepJumpMove c pc) (expandQuadrant2 c) := by
  have zero : ((0#32).extractLsb' 0 12).signExtend 64 = 0#64 := rfl
  unfold expandQuadrant2 stepJumpMove
  rw [group]
  by_cases clear : c.extractLsb' 12 1 = 0#1
  · simp only [if_pos clear]
    by_cases reserved : cRd c = 0#5
    · simp only [if_pos reserved]
      exact .reserved rfl
    by_cases jump : cRs2 c = 0#5
    · simp only [if_neg reserved, if_pos jump]
      refine .runs _ fun m _ => ?_
      rw [executeNext_jalr]
      simp only [zero, BitVec.add_zero, writeX_zero]
      rfl
    · simp only [if_neg reserved, if_neg jump]
      refine .of_finishes (fun _ => ⟨_, _, rfl⟩) fun m x0 => ?_
      rw [executeNext_op]
      rw [getX_bind, getX_bind, x0]
      simp only [op, funct3_encR, funct7_encR, BitVec.zero_add]
      rfl
  · simp only [if_neg clear]
    by_cases single : cRs2 c = 0#5
    · simp only [if_pos single]
      by_cases stop : cRd c = 0#5
      · simp only [if_pos stop]
        refine .runs _ fun m _ => ?_
        change _ = (do if ← inSystem then throw .breakpoint else pure _ : Exec β Outcome) m
        unfold inSystem
        cases h : m.hart.sys.isSome <;> simp [bind, EStateM.bind, h] <;> rfl
      · simp only [if_neg stop]
        refine .runs _ fun m _ => ?_
        rw [executeNext_jalr]
        simp only [zero, BitVec.add_zero, writeX_eq_assignX (show (1#5 : Reg) ≠ 0#5 by decide)]
        rfl
    · simp only [if_neg single]
      refine .runs _ fun m _ => ?_
      rw [executeNext_op]
      simp only [op, funct3_encR, funct7_encR]
      rfl

theorem stepQuadrant2_expands (c : Insn) (pc n : Word)
    (expands : expand instruction = expandQuadrant2 c) :
    RunsAs units pc n c (stepQuadrant2 instruction c pc) (expandQuadrant2 c) := by
  by_cases jump : cFunct3 c = 0b100#3
  · have direct : (stepQuadrant2 instruction c pc : Exec β Next) = stepJumpMove c pc := by
      unfold stepQuadrant2
      simp only [jump]
    rw [direct]
    exact stepJumpMove_expands units c pc n jump
  unfold expandQuadrant2 stepQuadrant2 at *
  revert expands
  generalize cFunct3 c = form at jump
  dsimp only
  match form with
  | 0b000#3 =>
    refine fun _ => .runs _ fun m _ => ?_
    rw [executeNext_opImm]
    simp only [opImm_slli, cImm6_shamt]
    rfl
  | 0b001#3 => exact runsAs_loadFp units instruction pc n _ _ (cLdspImm_small c)
  | 0b010#3 =>
    exact fun _ => .ite (fun _ => .reserved rfl) fun _ =>
      runsAs_lw units pc n _ _ (cLwspImm_small c)
  | 0b011#3 =>
    exact fun _ => .ite (fun _ => .reserved rfl) fun _ =>
      runsAs_ld units pc n _ _ (cLdspImm_small c)
  | 0b100#3 => exact absurd rfl jump
  | 0b101#3 => exact runsAs_storeFp units instruction pc n _ _ (cSdspImm_small c)
  | 0b110#3 => exact fun _ => runsAs_store units pc n _ _ (cSwspImm_small c) rfl
  | 0b111#3 => exact fun _ => runsAs_store units pc n _ _ (cSdspImm_small c) rfl

theorem expand_eq :
    expand instruction =
      if instruction.setWidth 32 = 0#32 then none
      else match (instruction.setWidth 32).extractLsb' 0 2 with
        | 0#2 => expandQuadrant0 (instruction.setWidth 32)
        | 1#2 => expandQuadrant1 (instruction.setWidth 32)
        | 2#2 => expandQuadrant2 (instruction.setWidth 32)
        | _ => none := rfl

theorem stepCompressed_runsAs (pc n : Word) :
    RunsAs units pc n (instruction.setWidth 32) (stepCompressed instruction pc)
      (expand instruction) := by
  have expanded := expand_eq instruction
  unfold stepCompressed
  revert expanded
  generalize (instruction.setWidth 32 : Insn) = c
  dsimp only
  by_cases zero : c = 0#32
  · intro expanded
    rw [if_pos zero] at expanded ⊢
    rw [expanded]
    exact .reserved rfl
  · rw [if_neg zero, if_neg zero]
    match c.extractLsb' 0 2 with
    | 0#2 =>
      intro expanded
      change expand instruction = expandQuadrant0 c at expanded
      rw [expanded]
      exact stepQuadrant0_expands units instruction c pc n expanded
    | 1#2 =>
      intro expanded
      rw [expanded]
      exact stepQuadrant1_expands units c pc n
    | 2#2 =>
      intro expanded
      change expand instruction = expandQuadrant2 c at expanded
      rw [expanded]
      exact stepQuadrant2_expands units instruction c pc n expanded
    | 3#2 =>
      intro expanded
      rw [expanded]
      exact .reserved rfl

/-! ## The forms left to the interpreter -/

/-- FLW, FLD, FSW and FSD share their opcodes with vector memory. -/
def fpMemory (insn : Insn) : Bool := opcode insn = 0x07#7 || opcode insn = 0x27#7

/-- Vector instructions, by opcode and, among the FP memory opcodes, by width. -/
def isVector (insn : Insn) : Bool :=
  match opcode insn with
  | 0x57#7 => true
  | 0x07#7 | 0x27#7 => isVectorWidth (funct3 insn)
  | _ => false

variable {insn : Insn}

theorem expandQuadrant0_memory (expanded : expandQuadrant0 c = some insn) :
    fpMemory insn = cFpMemory c ∧ isVector insn = false := by
  unfold expandQuadrant0 at expanded
  unfold cFpMemory
  generalize cFunct3 c = form at expanded
  dsimp only at expanded
  repeat' split at expanded
  all_goals cases expanded
  all_goals
    simp [fpMemory, isVector, isVectorWidth, opcode_encI, opcode_encS, funct3_encI, funct3_encS]

theorem expandQuadrant1_memory (expanded : expandQuadrant1 c = some insn) :
    fpMemory insn = false ∧ isVector insn = false := by
  unfold expandQuadrant1 at expanded
  dsimp only at expanded
  -- one case for each encoding the quadrant produces
  repeat' split at expanded
  all_goals cases expanded
  all_goals
    simp [fpMemory, isVector, opcode_encI, opcode_encR, opcode_encB, opcode_encU, opcode_encJ]

theorem expandQuadrant2_memory (expanded : expandQuadrant2 c = some insn) :
    fpMemory insn = cFpMemory c ∧ isVector insn = false := by
  unfold expandQuadrant2 at expanded
  unfold cFpMemory
  generalize cFunct3 c = form at expanded
  dsimp only at expanded
  repeat' split at expanded
  all_goals cases expanded
  all_goals
    simp [fpMemory, isVector, isVectorWidth, opcode_encI, opcode_encR, opcode_encS, funct3_encI,
      funct3_encS, show opcode 0x00100073#32 = 0x73#7 by decide]

theorem expand_memory {instruction : CInsn} (expanded : expand instruction = some insn) :
    fpMemory insn = leavesCompressed (instruction.setWidth 32) ∧ isVector insn = false := by
  rw [expand_eq] at expanded
  unfold leavesCompressed
  generalize (instruction.setWidth 32 : Insn) = c at expanded
  split at expanded
  · cases expanded
  · generalize c.extractLsb' 0 2 = quadrant at expanded
    split at expanded
    · rw [(expandQuadrant0_memory expanded).1]
      simpa using (expandQuadrant0_memory expanded).2
    · rw [(expandQuadrant1_memory expanded).1]
      simpa using (expandQuadrant1_memory expanded).2
    · rw [(expandQuadrant2_memory expanded).1]
      simpa using (expandQuadrant2_memory expanded).2
    · cases expanded

theorem expandQuadrant0_isSome (fp : cFpMemory c) : (expandQuadrant0 c).isSome := by
  unfold cFpMemory at fp
  unfold expandQuadrant0
  generalize cFunct3 c = form at fp
  rw [Bool.or_eq_true, decide_eq_true_iff, decide_eq_true_iff] at fp
  rcases fp with rfl | rfl <;> rfl

theorem expandQuadrant2_isSome (fp : cFpMemory c) : (expandQuadrant2 c).isSome := by
  unfold cFpMemory at fp
  unfold expandQuadrant2
  generalize cFunct3 c = form at fp
  rw [Bool.or_eq_true, decide_eq_true_iff, decide_eq_true_iff] at fp
  rcases fp with rfl | rfl <;> rfl

theorem leavesCompressed_of_reserved {instruction : CInsn} (reserved : expand instruction = none) :
    leavesCompressed (instruction.setWidth 32) = false := by
  rw [expand_eq] at reserved
  unfold leavesCompressed
  generalize (instruction.setWidth 32 : Insn) = c at reserved
  by_cases zero : c = 0#32
  · rw [zero]
    decide
  rw [if_neg zero] at reserved
  cases fp : cFpMemory c with
  | false => rw [Bool.and_false]
  | true =>
    generalize c.extractLsb' 0 2 = quadrant at reserved
    split at reserved
    · exact absurd (expandQuadrant0_isSome fp) (by simp [reserved])
    · rfl
    · exact absurd (expandQuadrant2_isSome fp) (by simp [reserved])
    · simp_all

/-- Both direct executors against the expander, from any state with `x0` clear. A reserved encoding
raises with the 16-bit word; any other runs as its expansion, what that raises included, and Tier-0
leaves FP memory to the interpreter. -/
theorem compressed_runs_expansion (units : Units β) (instruction : CInsn) (pc n : Word)
    (m : Machine β) (x0 : m.hart.x 0#5 = 0#64) :
    (expand instruction = none →
      stepCompressed instruction pc m = .error (.illegalInstruction (instruction.setWidth 32)) m ∧
      scalarT0Compressed instruction pc m =
        .error (.illegalInstruction (instruction.setWidth 32)) m) ∧
    ∀ insn, expand instruction = some insn →
      body units pc n (.compressed instruction) m = executeNext units insn pc (pc + 2) n m ∧
      if fpMemory insn then scalarT0Compressed instruction pc m = .ok .slow m
      else Matches Inlined Eq (scalarT0Compressed instruction pc m)
        (executeNext units insn pc (pc + 2) n m) := by
  have direct := stepCompressed_runsAs units instruction pc n
  constructor
  · intro reserved
    have runs := scalarT0Compressed_runsLike (β := β) instruction pc
      (leavesCompressed_of_reserved reserved) m
    rw [reserved] at direct
    cases direct with
    | reserved raises =>
      rw [raises] at runs ⊢
      obtain ⟨m', raised, rfl⟩ := runs.error_right
      exact ⟨rfl, raised⟩
  · intro insn expanded
    have fp := (expand_memory expanded).1
    rw [expanded] at direct
    cases direct with
    | runs _ same =>
      refine ⟨same m (.inl x0), ?_⟩
      rw [fp]
      cases leaves : leavesCompressed (instruction.setWidth 32) with
      | true => rw [if_pos rfl, scalarT0Compressed_slow instruction pc leaves]; rfl
      | false =>
        have inlines : Fallible.RunsLike Inlined (scalarT0Compressed instruction pc)
            (body units pc n (.compressed instruction)) :=
          (scalarT0Compressed_runsLike instruction pc leaves).map fun _ _ inlined => inlined
        rw [if_neg (by decide), ← same m (.inl x0)]
        exact inlines m

/-! ## FP off -/

section FpOff

open Rv64Js.Board Rv64Js.Board.TwoPages

/-- `c.fld fs0, 0(s0)` has an expansion and is illegal while FS is off. -/
theorem fld_illegal_with_fp_off :
    (expand 0x2000#16).isSome ∧
      stepCompressed 0x2000#16 0#64 boot.machine =
        .error (.illegalInstruction (encI 0x07#7 8#5 3#3 8#5 0#32)) boot.machine ∧
      scalarT0Compressed 0x2000#16 0#64 boot.machine = .ok .slow boot.machine :=
  ⟨by decide, rfl, rfl⟩

theorem boot_addi_expands :
    boot.machine.hart.x 0#5 = 0#64 ∧
      body Units.scalar 0#64 0#64 (.compressed 0x0505#16) boot.machine =
        executeNext Units.scalar (encI 0x13#7 10#5 0#3 10#5 1#32) 0#64 2#64 0#64 boot.machine :=
  ⟨rfl, ((compressed_runs_expansion Units.scalar 0x0505#16 0#64 0#64 boot.machine rfl).2 _
    (by decide)).1⟩

end FpOff

end Rv64Js.Core
