import Rv64Js.Core.ScalarT0

/-! # What the integrated decoder runs inline

Every instruction the integrated decoder does not hand back as `slow` runs as `step` runs it. -/

set_option autoImplicit false

namespace Rv64Js.Core

open Fallible (RunsLike Along)

variable {β : Type} [Bus β]

/-- The outcome of `step` that an inline result stands for. -/
inductive Inlined : ScalarT0Step → Outcome → Prop
  | retired (pc : Word) : Inlined (.retired pc) (.goto pc)
  | stop (pc : Word) (reason : StopReason) :
      Inlined (.stop pc reason) { next := { pc := pc, stop := some reason }, fetch := .keep }

/-- `Inlined`, for the compressed forms, which never touch the fetch cache. -/
def InlinedNext (step : ScalarT0Step) (next : Next) : Prop :=
  Inlined step { next := next, fetch := .keep }

theorem InlinedNext.retired (pc : Word) : InlinedNext (.retired pc) { pc := pc, stop := none } :=
  Inlined.retired pc

/-- Handed back untouched, or run as the interpreter does. -/
def Inlines {γ : Type} (Q : ScalarT0Step → γ → Prop) (t0 : Exec β ScalarT0Step)
    (interpreter : Exec β γ) : Prop :=
  t0 = pure .slow ∨ RunsLike Q t0 interpreter

omit [Bus β] in
theorem t0Arith_eq_stepArith (c : Insn) : (t0Arith c : Exec β Unit) = stepArith c := rfl

def cFpMemory (c : Insn) : Bool := cFunct3 c = 0b001#3 || cFunct3 c = 0b101#3

theorem cFpMemory_form {c : Insn} (fp : cFpMemory c) :
    cFunct3 c = 0b001#3 ∨ cFunct3 c = 0b101#3 := by
  simpa [cFpMemory] using fp

theorem t0Quadrant0_slow (c : Insn) (pc : Word) (fp : cFpMemory c) :
    (t0Quadrant0 c pc : Exec β _) = pure .slow := by
  unfold t0Quadrant0
  rcases cFpMemory_form fp with form | form <;> rw [form] <;> rfl

variable (instruction : CInsn)

theorem t0Quadrant0_runsLike (c : Insn) (pc : Word) (scalar : cFpMemory c = false) :
    RunsLike InlinedNext (t0Quadrant0 c pc : Exec β _) (stepQuadrant0 instruction c pc) := by
  unfold t0Quadrant0 stepQuadrant0
  unfold cFpMemory at scalar
  revert scalar
  match cFunct3 c with
  | 0b000#3 =>
    exact fun _ => .ite (.throw_bind _ _) (.bind fun _ => .bind fun _ => .pure (.retired _))
  | 0b001#3 | 0b101#3 =>
    intro scalar
    exact absurd scalar (by decide)
  | 0b010#3 | 0b011#3 | 0b110#3 | 0b111#3 =>
    exact fun _ => .bind fun _ => .bind fun _ => .bind fun _ => .pure (.retired _)
  | 0b100#3 => exact fun _ => .throw_bind _ _

omit [Bus β] in
theorem t0Quadrant1_runsLike (c : Insn) (pc : Word) :
    RunsLike InlinedNext (t0Quadrant1 c pc : Exec β _) (stepQuadrant1 c pc) := by
  unfold t0Quadrant1 stepQuadrant1
  match cFunct3 c with
  | 0b000#3 => exact .bind fun _ => .bind fun _ => .pure (.retired _)
  | 0b001#3 => exact .ite (.throw _) (.bind fun _ => .bind fun _ => .pure (.retired _))
  | 0b010#3 | 0b110#3 | 0b111#3 => exact .bind fun _ => .pure (.retired _)
  | 0b011#3 =>
    exact .ite (.ite (.throw _) (.bind fun _ => .bind fun _ => .pure (.retired _)))
      (.ite (.throw _) (.bind fun _ => .pure (.retired _)))
  | 0b100#3 =>
    rw [t0Arith_eq_stepArith]
    exact .bind fun _ => .pure (.retired _)
  | 0b101#3 => exact .pure (.retired _)

omit [Bus β] in
theorem t0JumpMove_runsLike (c : Insn) (pc : Word) :
    RunsLike InlinedNext (t0JumpMove c pc : Exec β _) (stepJumpMove c pc) := by
  unfold t0JumpMove stepJumpMove
  refine .ite (.ite (.throw _) (.ite ?_ ?_)) (.ite (.ite ?_ ?_) ?_)
  · exact .bind fun _ => .pure (.retired _)
  · exact .bind fun _ => .bind fun _ => .pure (.retired _)
  · exact .bind fun _ => .ite (.throw _) (.pure (.stop _ _))
  · exact .bind fun _ => .bind fun _ => .pure (.retired _)
  · exact .bind fun _ => .bind fun _ => .bind fun _ => .pure (.retired _)

theorem t0Quadrant2_slow (c : Insn) (pc : Word) (fp : cFpMemory c) :
    (t0Quadrant2 c pc : Exec β _) = pure .slow := by
  unfold t0Quadrant2
  rcases cFpMemory_form fp with form | form <;> rw [form] <;> rfl

theorem t0Quadrant2_runsLike (c : Insn) (pc : Word) (scalar : cFpMemory c = false) :
    RunsLike InlinedNext (t0Quadrant2 c pc : Exec β _) (stepQuadrant2 instruction c pc) := by
  unfold t0Quadrant2 stepQuadrant2
  unfold cFpMemory at scalar
  revert scalar
  match cFunct3 c with
  | 0b000#3 => exact fun _ => .bind fun _ => .bind fun _ => .pure (.retired _)
  | 0b001#3 | 0b101#3 =>
    intro scalar
    exact absurd scalar (by decide)
  | 0b010#3 | 0b011#3 =>
    exact fun _ => .ite (.throw _)
      (.bind fun _ => .bind fun _ => .bind fun _ => .pure (.retired _))
  | 0b100#3 => exact fun _ => t0JumpMove_runsLike c pc
  | 0b110#3 | 0b111#3 =>
    exact fun _ => .bind fun _ => .bind fun _ => .bind fun _ => .pure (.retired _)

/-- The forms `scalar_t0_compressed` leaves to the interpreter. -/
def leavesCompressed (c : Insn) : Bool :=
  (c.extractLsb' 0 2 = 0#2 || c.extractLsb' 0 2 = 2#2) && cFpMemory c

theorem scalarT0Compressed_slow (pc : Word) (fp : leavesCompressed (instruction.setWidth 32)) :
    (scalarT0Compressed instruction pc : Exec β _) = pure .slow := by
  unfold scalarT0Compressed
  generalize instruction.setWidth 32 = c at fp
  have nonzero : c ≠ 0#32 := by
    rintro rfl
    exact absurd fp (by decide)
  simp only [if_neg nonzero]
  unfold leavesCompressed at fp
  revert fp
  match c.extractLsb' 0 2 with
  | 0#2 => exact fun fp => t0Quadrant0_slow c pc (by simpa using fp)
  | 2#2 => exact fun fp => t0Quadrant2_slow c pc (by simpa using fp)
  | 1#2 | 3#2 =>
    intro fp
    exact absurd fp (by simp)

theorem quadrant_cases (q : BitVec 2) : q = 0#2 ∨ q = 1#2 ∨ q = 2#2 ∨ q = 3#2 := by
  revert q
  decide

theorem scalarT0Compressed_runsLike (pc : Word)
    (scalar : leavesCompressed (instruction.setWidth 32) = false) :
    RunsLike InlinedNext (scalarT0Compressed instruction pc : Exec β _)
      (stepCompressed instruction pc) := by
  unfold scalarT0Compressed stepCompressed
  generalize instruction.setWidth 32 = c at scalar
  by_cases zero : c = 0#32
  · simp only [if_pos zero]
    exact .throw _
  · simp only [if_neg zero]
    unfold leavesCompressed at scalar
    rcases quadrant_cases (c.extractLsb' 0 2) with q | q | q | q <;> rw [q] at scalar ⊢
    · exact t0Quadrant0_runsLike instruction c pc (by simpa using scalar)
    · exact t0Quadrant1_runsLike c pc
    · exact t0Quadrant2_runsLike instruction c pc (by simpa using scalar)
    · exact .throw _

theorem scalarT0Compressed_inlines (pc : Word) :
    Inlines InlinedNext (scalarT0Compressed instruction pc : Exec β _)
      (stepCompressed instruction pc) := by
  cases fp : leavesCompressed (instruction.setWidth 32) with
  | true => exact .inl (scalarT0Compressed_slow instruction pc fp)
  | false => exact .inr (scalarT0Compressed_runsLike instruction pc fp)

theorem scalarT0Full_inlines (units : Units β) (insn : Insn) (pc insnCount : Word) :
    Inlines Inlined (scalarT0Full units insn pc) (execute units insn pc insnCount) := by
  unfold scalarT0Full execute executeNext
  generalize opcode insn = form
  split
  case h_1 | h_2 | h_3 | h_14 => exact .inr (.bind fun _ => .pure (.retired _))
  case h_4 | h_8 => exact .inr (.bind fun _ => .bind fun _ => .pure (.retired _))
  case h_5 | h_9 =>
    exact .inr (.bind fun _ => .bind fun _ => .bind fun _ => .pure (.retired _))
  case h_6 | h_7 | h_10 | h_11 =>
    exact .inr (.bind fun _ => .bind fun _ => .bind fun _ => .bind fun _ => .pure (.retired _))
  case h_12 | h_13 =>
    by_cases vector : isVectorWidth (funct3 insn)
    · simp only [if_pos vector]
      exact .inr (.bind fun _ => .pure (.retired _))
    · exact .inl (if_neg vector)
  case h_15 => exact .inl rfl

theorem t0Body_inlines (units : Units β) (pc insnCount : Word) (fetched : Fetched) :
    Inlines Inlined (t0Body units pc fetched) (body units pc insnCount fetched) := by
  cases fetched with
  | compressed instruction =>
    rcases scalarT0Compressed_inlines (β := β) instruction pc with slow | runs
    · exact .inl slow
    · exact .inr (runs.map fun _ _ inlined => inlined)
  | full insn => exact scalarT0Full_inlines units insn pc insnCount

end Rv64Js.Core
