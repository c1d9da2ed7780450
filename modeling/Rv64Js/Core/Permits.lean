import Rv64Js.Core.Run

/-! # What an instruction may do

`Permits` lists the changes an instruction is made of. A preorder that has them all relates the
machines before and after every instruction, completed or not. ECALL, which may take a trap, is left
to the user of the rule. -/

set_option autoImplicit false

namespace Rv64Js.Core

open Fallible (Along finalState)

variable {β : Type} [Bus β]

def mretAllowed (sys : SysCsrs) : Bool := sys.mode = .machine

def sretAllowed (sys : SysCsrs) : Bool :=
  !(sys.mode = .user || (sys.mode = .supervisor && sys.mstatus &&& MSTATUS_TSR ≠ 0#64))

abbrev ECALL : Insn := 0x00000073#32

/-- A preorder on machines with what an instruction does before it commits. -/
structure Reads (R : Machine β → Machine β → Prop) : Prop where
  refl : ∀ m, R m m
  trans : ∀ a b c, R a b → R b c → R a c
  fpDirty : ∀ m, R m { m with hart := m.hart.fpDirty }
  ld : ∀ width va, Along R (ld width va)

/-- Every change an unprivileged instruction is made of. -/
structure PermitsUser (units : Units β) (R : Machine β → Machine β → Prop) :
    Prop extends Reads R where
  setX : ∀ m r v, r ≠ 0#5 → R m { m with hart := m.hart.setX r v }
  setF : ∀ m r v, R m { m with hart := m.hart.setF r v }
  raise : ∀ m fl, R m { m with hart := m.hart.raise fl }
  reserve : ∀ m reservation, R m { m with hart := { m.hart with reservation := reservation } }
  st : ∀ width va val, Along R (st width va val)
  vectorMemory : ∀ insn load, Along R (units.vector.memory insn load)
  vectorArithmetic : ∀ insn, Along R (units.vector.arithmetic insn)

/-- Those of the SYSTEM instructions, too. -/
structure Permits (units : Units β) (R : Machine β → Machine β → Prop) :
    Prop extends PermitsUser units R where
  /-- the next instruction polls interrupts -/
  pollNow : ∀ m, R m { m with hart := { m.hart with irqPollCd := 0#32 } }
  csrWrite : ∀ m insnCount csr v, R m { m with hart := (m.hart.csrWrite insnCount csr v).hart }
  mret : ∀ m, R m { m with hart := (m.hart.xret mretAllowed SysCsrs.mret SysCsrs.mepc).2 }
  sret : ∀ m, R m { m with hart := (m.hart.xret sretAllowed SysCsrs.sret SysCsrs.sepc).2 }
  fence : ∀ m insn, m.hart.sfenceTraps = false → R m { m with hart := (m.hart.fence insn).2 }

namespace Reads

variable {R : Machine β → Machine β → Prop}

/-- A computation that moves along the preorder. -/
def Covers {α : Type} (_ : Reads R) (m : Exec β α) : Prop := Along R m

namespace Covers

variable {reads : Reads R} {α γ : Type}

theorem bind {m : Exec β α} {k : α → Exec β γ} (first : reads.Covers m)
    (rest : ∀ a, reads.Covers (k a)) : reads.Covers (m >>= k) :=
  Along.bind reads.trans first rest

theorem ite {p : Prop} [Decidable p] {m n : Exec β α} (yes : reads.Covers m)
    (no : reads.Covers n) : reads.Covers (if p then m else n) :=
  Along.ite yes no

theorem pure (a : α) : reads.Covers (Pure.pure a : Exec β α) := reads.refl

theorem throw (e : Exception) : reads.Covers (throw e : Exec β α) := reads.refl

theorem get : reads.Covers (MonadState.get : Exec β (Machine β)) := reads.refl

theorem getX (r : Reg) : reads.Covers (getX r : Exec β Word) := reads.refl

theorem getF (r : Reg) : reads.Covers (getF r : Exec β Word) := reads.refl

theorem inSystem : reads.Covers (inSystem : Exec β Bool) := reads.refl

theorem fpCheck (insn : Insn) : reads.Covers (fpCheck insn : Exec β Unit) := by
  intro m
  unfold Core.fpCheck
  split <;> exact reads.refl m

theorem orIllegal (insn : Insn) (v : Option α) : reads.Covers (orIllegal insn v : Exec β α) := by
  cases v with
  | none => exact throw _
  | some v => exact pure v

theorem dirty : reads.Covers (modifyHart Hart.fpDirty) := fun m => reads.fpDirty m

theorem ld (width : Width) (va : Word) : reads.Covers (Core.ld width va) := reads.ld width va

theorem ldSigned32 (addr : Word) : reads.Covers (ldSigned32 addr) :=
  .bind (ld _ _) fun _ => pure _

theorem aload (is64 : Bool) (addr : Word) : reads.Covers (aload is64 addr) :=
  .ite (ld _ _) (ldSigned32 _)

end Covers

theorem stepCsr (reads : Reads R)
    (wr : ∀ m rd val, R m { m with hart := m.hart.wr rd val })
    (csrWrite : ∀ m insnCount csr v, R m { m with hart := (m.hart.csrWrite insnCount csr v).hart })
    (insn : Insn) (nextPc insnCount : Word) : reads.Covers (stepCsr insn nextPc insnCount) := by
  have writeX (rd : Reg) (val : Word) : reads.Covers (writeX rd val) := fun m => wr m rd val
  refine .bind (.ite (.bind (.fpCheck _) fun _ => .dirty) (.pure _)) fun _ => ?_
  refine .bind (.ite (.pure _) (.getX _)) fun src => ?_
  refine .bind .get fun m => .bind (.orIllegal _ _) fun old => ?_
  cases csrSource insn old src with
  | none => exact .bind (writeX _ _) fun _ => .pure _
  | some v =>
    refine .bind (fun m => csrWrite m _ _ _) fun written => ?_
    exact .ite (.bind (writeX _ _) fun _ => .pure _) (.throw _)

end Reads

namespace PermitsUser

variable {units : Units β} {R : Machine β → Machine β → Prop} (permits : PermitsUser units R)
include permits

theorem wr (m : Machine β) (rd : Reg) (val : Word) : R m { m with hart := m.hart.wr rd val } := by
  by_cases zero : rd = 0#5
  · have same : m.hart.wr rd val = m.hart := by simp [Hart.wr, zero]
    rw [same]
    exact permits.refl m
  · have set : m.hart.wr rd val = m.hart.setX rd val := by simp [Hart.wr, Hart.setX, zero]
    rw [set]
    exact permits.setX m rd val zero

theorem writeX (rd : Reg) (val : Word) : permits.Covers (writeX rd val) :=
  fun m => permits.wr m rd val

theorem writes {α : Type} (rd : Reg) (val : Word) (a : α) :
    permits.Covers (Core.writeX rd val >>= fun _ => pure a) :=
  .bind (permits.writeX rd val) fun _ => .pure a

theorem assignX {rd : Reg} (nonzero : rd ≠ 0#5) (val : Word) : permits.Covers (assignX rd val) :=
  fun m => permits.setX m rd val nonzero

theorem assignF (rd : Reg) (val : Word) : permits.Covers (assignF rd val) :=
  fun m => permits.setF m rd val

/-! ## Compressed instructions -/

variable (instruction : CInsn)

theorem cFpLoad (rd base : Reg) (imm : BitVec 32) :
    permits.Covers (cFpLoad instruction rd base imm) :=
  .bind (.fpCheck _) fun _ => .bind .dirty fun _ => .bind (.getX _) fun _ =>
    .bind (.ld _ _) fun _ =>
      permits.assignF _ _

theorem cFpStore (rs2 base : Reg) (imm : BitVec 32) :
    permits.Covers (cFpStore instruction rs2 base imm) :=
  .bind (.fpCheck _) fun _ => .bind (.getX _) fun _ => .bind (.getF _) fun _ => permits.st _ _ _

variable (c : Insn) (pc : Word)

theorem stepQuadrant0 : permits.Covers (stepQuadrant0 instruction c pc) := by
  unfold Core.stepQuadrant0
  match cFunct3 c with
  | 0b000#3 => exact .ite (.throw _) (.bind (.getX _) fun _ => permits.writes _ _ _)
  | 0b001#3 => exact .bind (permits.cFpLoad _ _ _ _) fun _ => .pure _
  | 0b010#3 =>
    exact .bind (.getX _) fun _ => .bind (.ldSigned32 _) fun _ => permits.writes _ _ _
  | 0b011#3 =>
    exact .bind (.getX _) fun _ => .bind (.ld _ _) fun _ => permits.writes _ _ _
  | 0b101#3 => exact .bind (permits.cFpStore _ _ _ _) fun _ => .pure _
  | 0b110#3 | 0b111#3 =>
    exact .bind (.getX _) fun _ => .bind (.getX _) fun _ =>
      .bind (permits.st _ _ _) fun _ => .pure _
  | 0b100#3 => exact .throw _

theorem stepArith : permits.Covers (stepArith c) := by
  have target := compressedRegister_ne_zero (c.extractLsb' 7 3)
  refine .bind (.getX _) fun a => ?_
  match c.extractLsb' 10 2 with
  | 0#2 | 1#2 | 2#2 => exact permits.assignX target _
  | 3#2 =>
    refine .bind (.getX _) fun b => ?_
    match cArith c with
    | 0b000#3 | 0b001#3 | 0b010#3 | 0b011#3 | 0b100#3 | 0b101#3 => exact permits.assignX target _
    | 0b110#3 | 0b111#3 => exact .throw _

theorem stepQuadrant1 : permits.Covers (stepQuadrant1 c pc) := by
  unfold Core.stepQuadrant1
  match cFunct3 c with
  | 0b000#3 => exact .bind (.getX _) fun _ => permits.writes _ _ _
  | 0b001#3 => exact .ite (.throw _) (.bind (.getX _) fun _ => permits.writes _ _ _)
  | 0b010#3 => exact permits.writes _ _ _
  | 0b011#3 =>
    exact .ite (.ite (.throw _)
        (.bind (.getX _) fun _ => .bind (permits.assignX (by decide) _) fun _ => .pure _))
      (.ite (.throw _) (permits.writes _ _ _))
  | 0b100#3 => exact .bind (permits.stepArith c) fun _ => .pure _
  | 0b101#3 => exact .pure _
  | 0b110#3 | 0b111#3 => exact .bind (.getX _) fun _ => .pure _

theorem stepJumpMove : permits.Covers (stepJumpMove c pc) := by
  unfold Core.stepJumpMove
  refine .ite (.ite (.throw _) (.ite ?_ ?_)) (.ite (.ite ?_ ?_) ?_)
  · exact .bind (.getX _) fun _ => .pure _
  · exact .bind (.getX _) fun _ => permits.writes _ _ _
  · exact .bind .inSystem fun _ => .ite (.throw _) (.pure _)
  · exact .bind (.getX _) fun _ => .bind (permits.assignX (by decide) _) fun _ => .pure _
  · exact .bind (.getX _) fun _ => .bind (.getX _) fun _ => permits.writes _ _ _

theorem stepQuadrant2 : permits.Covers (stepQuadrant2 instruction c pc) := by
  unfold Core.stepQuadrant2
  match cFunct3 c with
  | 0b000#3 => exact .bind (.getX _) fun _ => permits.writes _ _ _
  | 0b001#3 => exact .bind (permits.cFpLoad _ _ _ _) fun _ => .pure _
  | 0b010#3 =>
    exact .ite (.throw _) (.bind (.getX _) fun _ =>
      .bind (.ldSigned32 _) fun _ => permits.writes _ _ _)
  | 0b011#3 =>
    exact .ite (.throw _)
      (.bind (.getX _) fun _ => .bind (.ld _ _) fun _ => permits.writes _ _ _)
  | 0b100#3 => exact permits.stepJumpMove c pc
  | 0b101#3 => exact .bind (permits.cFpStore _ _ _ _) fun _ => .pure _
  | 0b110#3 | 0b111#3 =>
    exact .bind (.getX _) fun _ => .bind (.getX _) fun _ =>
      .bind (permits.st _ _ _) fun _ => .pure _

theorem stepCompressed : permits.Covers (stepCompressed instruction pc) := by
  unfold Core.stepCompressed
  refine .ite (.throw _) ?_
  match (instruction.setWidth 32).extractLsb' 0 2 with
  | 0#2 => exact permits.stepQuadrant0 _ _ pc
  | 1#2 => exact permits.stepQuadrant1 _ pc
  | 2#2 => exact permits.stepQuadrant2 _ _ pc
  | 3#2 => exact .throw _

/-! ## 32-bit instructions -/

theorem astore (is64 : Bool) (addr v : Word) : permits.Covers (astore is64 addr v) :=
  .ite (permits.st _ _ _) (permits.st _ _ _)

theorem reservation (reservation : Option Word) :
    permits.Covers (modifyHart fun hart => { hart with reservation := reservation }) :=
  fun m => permits.reserve m reservation

variable (insn : Insn)

theorem stepAmo : permits.Covers (stepAmo insn) := by
  refine .bind (.getX _) fun addr => .bind (.getX _) fun src => .bind (.orIllegal _ _) fun is64 =>
    ?_
  split
  · exact .bind (.aload _ _) fun _ => .bind (permits.reservation _) fun _ => permits.writeX _ _
  · refine .bind (.bind .get fun _ => .ite ?_ (.pure _)) fun _ =>
      .bind (permits.writeX _ _) fun _ => permits.reservation _
    exact .bind (permits.astore _ _ _) fun _ => .pure _
  · exact .bind (.aload _ _) fun _ => .bind (.orIllegal _ _) fun _ =>
      .bind (permits.astore _ _ _) fun _ => permits.writeX _ _

theorem stepLoadFp : permits.Covers (stepLoadFp insn) := by
  refine .bind (.fpCheck _) fun _ => .bind .dirty fun _ => .bind (.getX _) fun _ => ?_
  split
  · exact .bind (.ld _ _) fun _ => permits.assignF _ _
  · exact .bind (.ld _ _) fun _ => permits.assignF _ _
  · exact .throw _

theorem stepStoreFp : permits.Covers (stepStoreFp insn) := by
  refine .bind (.fpCheck _) fun _ => .bind (.getX _) fun _ => .bind (.getF _) fun _ => ?_
  split
  · exact permits.st _ _ _
  · exact permits.st _ _ _
  · exact .throw _

theorem fpWrites {m : Machine β} {hart : Hart} (writes : m.hart.FpWrites hart) :
    R m { m with hart := hart } := by
  cases writes with
  | float d v fl =>
    exact permits.trans _ _ _ (permits.setF m d v)
      (permits.raise { m with hart := m.hart.setF d v } fl)
  | int d v fl =>
    exact permits.trans _ _ _ (permits.wr m d v)
      (permits.raise { m with hart := m.hart.wr d v } fl)

theorem tryHart {f : Hart → Option Hart} (writes : ∀ hart, Hart.FpResults hart (f hart)) :
    permits.Covers (tryHart insn f) := by
  intro m
  unfold Core.tryHart
  cases computed : f m.hart with
  | none => exact permits.refl m
  | some hart => exact permits.fpWrites (writes m.hart hart computed)

theorem stepFp {body : Hart → Insn → Option Hart}
    (writes : ∀ hart, Hart.FpResults hart (body hart insn)) : permits.Covers (stepFp insn body) :=
  .bind (.fpCheck _) fun _ => .bind .dirty fun _ =>
    permits.tryHart insn writes

variable {pc nextPc insnCount : Word}

theorem executeNext
    (system : opcode insn = 0x73#7 → permits.Covers (stepSystem insn pc nextPc insnCount)) :
    permits.Covers (executeNext units insn pc nextPc insnCount) := by
  unfold Core.executeNext
  simp only
  split
  case h_1 | h_2 | h_3 => exact permits.writes _ _ _
  case h_4 | h_8 => exact .bind (.getX _) fun _ => permits.writes _ _ _
  case h_5 =>
    exact .bind (.getX _) fun _ => .bind (.getX _) fun _ => .bind (.orIllegal _ _) fun _ => .pure _
  case h_6 =>
    exact .bind (.getX _) fun _ => .bind (.orIllegal _ _) fun _ =>
      .bind (.ld _ _) fun _ => permits.writes _ _ _
  case h_7 =>
    exact .bind (.getX _) fun _ => .bind (.getX _) fun _ =>
      .bind (.orIllegal _ _) fun _ => .bind (permits.st _ _ _) fun _ => .pure _
  case h_9 =>
    exact .bind (.getX _) fun _ => .bind (.orIllegal _ _) fun _ => permits.writes _ _ _
  case h_10 | h_11 =>
    exact .bind (.getX _) fun _ => .bind (.getX _) fun _ =>
      .bind (.orIllegal _ _) fun _ => permits.writes _ _ _
  case h_12 => exact .bind (permits.stepAmo insn) fun _ => .pure _
  case h_13 =>
    exact .ite (.bind (permits.vectorMemory _ _) fun _ => .pure _)
      (.bind (permits.stepLoadFp insn) fun _ => .pure _)
  case h_14 =>
    exact .ite (.bind (permits.vectorMemory _ _) fun _ => .pure _)
      (.bind (permits.stepStoreFp insn) fun _ => .pure _)
  case h_15 => exact .bind (permits.vectorArithmetic insn) fun _ => .pure _
  case h_16 | h_17 | h_18 | h_19 =>
    exact .bind (permits.stepFp insn fun hart => hart.fma_writes _ insn) fun _ => .pure _
  case h_20 =>
    exact .bind (permits.stepFp insn fun hart => hart.opFp_writes _ insn) fun _ => .pure _
  case h_21 => exact .pure _
  case h_22 code => exact system code
  case h_23 => exact .throw _

end PermitsUser

namespace Permits

variable {units : Units β} {R : Machine β → Machine β → Prop} (permits : Permits units R)
    (insn : Insn)

include permits

theorem stepXret {allowed : SysCsrs → Bool} {ret : SysCsrs → SysCsrs} {epc : SysCsrs → Word}
    (returns : ∀ m : Machine β, R m { m with hart := (m.hart.xret allowed ret epc).2 }) :
    permits.Covers (stepXret insn allowed ret epc) :=
  .bind (fun m => permits.pollNow m) fun _ => .bind (fun m => returns m) fun _ => .orIllegal _ _

theorem stepWfi (nextPc : Word) : permits.Covers (stepWfi insn nextPc) := by
  refine .bind .get fun m => ?_
  cases m.hart.sys with
  | none => exact .pure _
  | some sys => exact .ite (.throw _) (.pure _)

theorem stepSfence (nextPc : Word) : permits.Covers (stepSfence insn nextPc) := by
  intro m
  unfold Core.stepSfence
  rw [Fallible.get_bind]
  by_cases traps : m.hart.sfenceTraps
  · rw [if_pos traps]
    exact permits.refl m
  · rw [if_neg traps]
    exact permits.fence m insn (by simpa using traps)

theorem stepCsr (nextPc insnCount : Word) : permits.Covers (stepCsr insn nextPc insnCount) :=
  permits.toReads.stepCsr permits.wr permits.csrWrite insn nextPc insnCount

variable {pc insnCount : Word}

theorem stepSystem {nextPc : Word} (ecall : insn = ECALL → ∀ m : Machine β,
      R m { m with hart := (stepEcall m.hart pc nextPc insnCount).1 }) :
    permits.Covers (stepSystem insn pc nextPc insnCount) := by
  unfold Core.stepSystem
  by_cases call : insn = 0x00000073#32
  · rw [if_pos call]
    exact fun m => ecall call m
  rw [if_neg call]
  refine .ite ?_ (.ite ?_ (.ite ?_ (.ite ?_ (.ite ?_ (.ite ?_ (.throw _))))))
  · exact .bind .inSystem fun _ => .ite (.throw _) (.pure _)
  · exact permits.stepXret _ permits.mret
  · exact permits.stepXret _ permits.sret
  · exact permits.stepWfi insn nextPc
  · exact permits.stepSfence insn nextPc
  · exact permits.stepCsr insn nextPc insnCount

theorem body {fetched : Fetched} (ecall : fetched = .full ECALL → ∀ m : Machine β,
      R m { m with hart := (stepEcall m.hart pc (pc + 4) insnCount).1 }) :
    permits.Covers (body units pc insnCount fetched) := by
  cases fetched with
  | compressed instruction =>
    exact .bind (permits.stepCompressed instruction pc) fun _ => .pure _
  | full insn => exact permits.executeNext insn fun _ =>
      permits.stepSystem insn fun call => ecall (congrArg Fetched.full call)

end Permits

end Rv64Js.Core
