import Rv64Js.Core.CompressedExpands
import Rv64Js.Core.Permits

/-! # Exceptions are precise

A step that raises leaves registers, pc, count and CSRs as they were, `mstatus.FS` aside. On the bus
it has read, set A and D bits, and, if it was a page-crossing store or atomic, stored the bytes
below the one that failed. -/

set_option autoImplicit false

namespace Rv64Js.Core

open Fallible

/-! ## What a failed step leaves -/

/-- The hart as before, but for translations, the poll countdown and `mstatus.FS`. -/
structure Hart.Undone (hart hart' : Hart) : Prop where
  x : hart'.x = hart.x
  f : hart'.f = hart.f
  fcsr : hart'.fcsr = hart.fcsr
  vector : hart'.vector = hart.vector
  reservation : hart'.reservation = hart.reservation
  sys : hart'.sys = hart.sys ∨
    hart'.sys = hart.sys.map fun sys => { sys with mstatus := sys.mstatus ||| MSTATUS_FS }

namespace Hart.Undone

theorem refl (hart : Hart) : hart.Undone hart := ⟨rfl, rfl, rfl, rfl, rfl, .inl rfl⟩

theorem trans {a b c : Hart} (first : a.Undone b) (second : b.Undone c) : a.Undone c where
  x := second.x.trans first.x
  f := second.f.trans first.f
  fcsr := second.fcsr.trans first.fcsr
  vector := second.vector.trans first.vector
  reservation := second.reservation.trans first.reservation
  sys := by
    rcases second.sys with same | dirty
    · rw [same]
      exact first.sys
    · rcases first.sys with same' | dirty'
      · rw [dirty, same']
        exact .inr rfl
      · rw [dirty, dirty']
        refine .inr ?_
        cases a.sys with
        | none => rfl
        | some sys => simp [BitVec.or_assoc]

end Hart.Undone

variable {β : Type} [Bus β]

/-- The parts of a step that store nothing: reads, refused writes, translations with the A and D
bits they set in the hart's own page table, and the updates a failed instruction may have made. -/
inductive Part : Machine β → Machine β → Prop
  | read (m : Machine β) (width : Width) (pa : Word) :
      Part m { m with bus := finalState (Bus.read width pa m.bus) }
  | refused {m : Machine β} {e : Exception} {bus : β} (width : Width) (pa : Word)
      (val : BitVec width.bits) (write : Bus.write width pa val m.bus = .error e bus) :
      Part m { m with bus := bus }
  | fetch (m : Machine β) (row : Row) (va : Word) :
      Part m { m with bus := finalState (translateIn row m.hart va .fetch m.bus) }
  | translate (m : Machine β) (va : Word) (store : Bool) :
    Part m (finalState (translate va store m))
  | fill {m m' : Machine β} {va pa : Word} {store : Bool}
    (translated : Core.translate va store m = .ok pa m') :
      Part m' { m' with hart := m'.hart.fillJtlb m'.bus va pa store }
  | fpDirty (m : Machine β) : Part m { m with hart := m.hart.fpDirty }
  | poll (m : Machine β) : Part m { m with hart := { m.hart with irqPollCd := 0#32 } }

def Quiet : Machine β → Machine β → Prop := Relation.ReflTransGen Part

/-- Width, address and value of a store. -/
abbrev Operand := Option (Width × Word × Word)

/-- A page-crossing store has failed after `n` bytes, each stored at the address it translates
to. -/
def Cut (width : Width) (va val : Word) (m m' : Machine β) : Prop :=
  m.hart.splits width va ∧ ∃ n < width.bytes, ∃ m₀ m₁, Quiet m m₀ ∧
    stBytes va val n 0 m₀ = .ok () m₁ ∧ Quiet m₁ m'

/-- What a failed step has done: quiet parts, and the lower bytes of a page-crossing operand. -/
def Residue (operand : Operand) (m m' : Machine β) : Prop :=
  Quiet m m' ∨ ∃ width va val, operand = some (width, va, val) ∧ Cut width va val m m'

/-! ## Loads and stores -/

namespace Hart.Undone

variable {hart hart' : Hart}

theorem of_registers (same : hart'.registers = hart.registers) : hart.Undone hart' := by
  simp only [registers, Prod.mk.injEq] at same
  obtain ⟨x, f, fcsr, vector, reservation, sys⟩ := same
  exact ⟨x, f, fcsr, vector, reservation, .inl sys⟩

theorem splits (undone : hart.Undone hart') (width : Width) (va : Word) :
    hart'.splits width va = hart.splits width va := by
  have system : hart'.sys.isSome = hart.sys.isSome := by
    rcases undone.sys with same | dirty
    · rw [same]
    · rw [dirty, Option.isSome_map]
  unfold Hart.splits
  rw [system]

end Hart.Undone

namespace Quiet

variable {m m' : Machine β}

theorem undone (quiet : Quiet m m') : m.hart.Undone m'.hart := by
  induction quiet with
  | refl => exact .refl _
  | tail _ part ih =>
    refine ih.trans ?_
    cases part with
    | translate => exact .of_registers (Accesses.translate _ _ _).2
    | fill => exact .of_registers (Hart.registers_fillJtlb _ _ _ _ _)
    | fpDirty => exact ⟨rfl, rfl, rfl, rfl, rfl, .inr rfl⟩
    | _ => exact ⟨rfl, rfl, rfl, rfl, rfl, .inl rfl⟩

theorem refl (m : Machine β) : Quiet m m := Relation.ReflTransGen.refl

theorem trans (a b c : Machine β) (first : Quiet a b) (second : Quiet b c) : Quiet a c :=
  Relation.ReflTransGen.trans first second

end Quiet

theorem Residue.undone {operand : Operand} {m m' : Machine β} (residue : Residue operand m m') :
    m.hart.Undone m'.hart := by
  rcases residue with quiet | ⟨width, va, val, -, -, n, -, m₀, m₁, before, stored, after⟩
  · exact quiet.undone
  · have kept := Along.of_ok (Accesses.stores.stBytes va val n 0) stored
    exact (before.undone.trans (.of_registers kept.2)).trans after.undone

theorem Residue.after (operand : Operand) (a b c : Machine β) (first : Quiet a b)
    (second : Residue operand b c) : Residue operand a c := by
  rcases second with quiet | ⟨width, va, val, found, splits, n, below, m₀, m₁, before, rest⟩
  · exact .inl (first.trans _ _ _ quiet)
  · rw [first.undone.splits] at splits
    exact .inr ⟨width, va, val, found, splits, n, below, m₀, m₁, first.trans _ _ _ before, rest⟩

namespace Quiet

theorem translate (va : Word) (store : Bool) : Along Quiet (translate va store : Exec β Word) :=
  fun m => .single (.translate m va store)

theorem read (width : Width) (pa : Word) : Along Quiet (liftBus (Bus.read width pa) : Exec β _) :=
  Along.zoom (R := fun bus bus' => bus' = finalState (Bus.read width pa bus))
    (fun m _ same => same ▸ .single (.read m width pa)) fun _ => rfl

theorem loads : Loads (Quiet (β := β)) where
  refl := refl
  trans := trans
  read := read
  walk := translate
  fill {_ _ va _ store} run := .tail (Along.of_ok (translate va store) run) (.fill run)

theorem reads : Reads (Quiet (β := β)) where
  refl := refl
  trans := trans
  fpDirty m := .single (.fpDirty m)
  ld := loads.ld

end Quiet

abbrev Passes {α : Type} (op : Exec β α) : Prop := Quiet.reads.Covers op

/-- A run of byte stores that fails has stored the bytes below some byte. -/
theorem stBytes_cut (va val : Word) (n i : Nat) {m m' : Machine β} {e : Exception}
    (raised : stBytes va val n i m = .error e m') :
    ∃ j < n, ∃ m₁, stBytes va val j i m = .ok () m₁ ∧ Quiet m₁ m' := by
  induction n generalizing i m with
  | zero => cases raised
  | succ n ih =>
    have translated := Quiet.translate (β := β) (va + BitVec.ofNat 64 i) true m
    cases first : translate (va + BitVec.ofNat 64 i) true m with
    | error e' m₁ =>
      rw [stBytes, bind_error _ first] at raised
      rw [first] at translated
      cases raised
      exact ⟨0, by omega, m, rfl, translated⟩
    | ok pa m₁ =>
      rw [stBytes, bind_ok _ first] at raised
      rw [first] at translated
      cases write : Bus.write .byte pa ((val >>> (8 * i)).setWidth 8) m₁.bus with
      | error e' bus₂ =>
        have lifted : liftBus (Bus.write .byte pa ((val >>> (8 * i)).setWidth 8)) m₁ =
            .error e' { m₁ with bus := bus₂ } := zoom_error write
        rw [bind_error _ lifted] at raised
        cases raised
        exact ⟨0, by omega, m, rfl, translated.tail (.refused _ _ _ write)⟩
      | ok done bus₂ =>
        have lifted : liftBus (Bus.write .byte pa ((val >>> (8 * i)).setWidth 8)) m₁ =
            .ok done { m₁ with bus := bus₂ } := zoom_ok write
        rw [bind_ok _ lifted] at raised
        obtain ⟨j, below, m₂, stored, quiet⟩ := ih (i + 1) raised
        refine ⟨j + 1, by omega, m₂, ?_, quiet⟩
        rw [stBytes, bind_ok _ first, bind_ok _ lifted]
        exact stored

variable (width : Width)

theorem write_undoes (pa : Word) (val : BitVec width.bits) :
    Undoes Quiet (liftBus (Bus.write width pa val) : Exec β Unit) := by
  intro m e m' raised
  unfold liftBus zoom at raised
  cases write : Bus.write width pa val m.bus with
  | ok done bus => rw [write] at raised; cases raised
  | error e' bus =>
    rw [write] at raised
    cases raised
    exact .single (.refused _ _ _ write)

theorem stSlow_undoes (va val : Word) :
    Undoes (Residue (some (width, va, val))) (stSlow width va val : Exec β Unit) := by
  intro m e m' raised
  unfold stSlow at raised
  rw [get_bind] at raised
  by_cases splits : m.hart.splits width va
  · rw [if_pos splits] at raised
    obtain ⟨j, below, m₁, stored, quiet⟩ := stBytes_cut va val width.bytes 0 raised
    exact .inr ⟨width, va, val, rfl, splits, j, below, m, m₁, .refl m, stored, quiet⟩
  · rw [if_neg splits] at raised
    cases run : translate va true m with
    | error e' m₁ =>
      rw [bind_error _ run] at raised
      cases raised
      exact .inl (Undoes.of_along (Quiet.translate va true) m e _ run)
    | ok pa m₁ =>
      rw [bind_ok _ run] at raised
      exact .inl (.trans _ _ _ (Quiet.loads.fill run) (write_undoes width pa _ _ e m' raised))

theorem st_undoes (va val : Word) :
    Undoes (Residue (some (width, va, val))) (st width va val : Exec β Unit) := by
  intro m e m' raised
  unfold st at raised
  by_cases splits : m.hart.splits width va
  · rw [if_pos splits] at raised
    exact stSlow_undoes width va val m e m' raised
  · rw [if_neg splits] at raised
    cases pointer : m.hart.interpreterFusedPtr va true with
    | none =>
      rw [pointer] at raised
      exact stSlow_undoes width va val m e m' raised
    | some address => rw [pointer] at raised; cases raised

/-! ## Instructions -/

omit [Bus β] in
theorem finishes_modifyHart (update : Hart → Hart) : Finishes (modifyHart update : Exec β Unit) :=
  fun _ => ⟨_, _, rfl⟩

omit [Bus β] in
theorem finishes_writeX (rd : Reg) (val : Word) : Finishes (writeX rd val : Exec β Unit) :=
  finishes_modifyHart _

def Undo {α : Type} (m : Exec β α) : Prop := Undoes Quiet m

namespace Undo

variable {α γ : Type} {m : Exec β α}

theorem after {k : α → Exec β γ} (first : Passes m) (rest : ∀ a, Undo (k a)) : Undo (m >>= k) :=
  Undoes.after Quiet.trans (fun _ _ quiet => quiet) first rest

theorem of_passes (passes : Passes m) : Undo m := .of_along passes

theorem of_finishes (finishes : Finishes m) : Undo m := Undoes.of_finishes finishes

theorem ite {p : Prop} [Decidable p] {n : Exec β α} (yes : Undo m) (no : Undo n) :
    Undo (if p then m else n) :=
  Undoes.ite yes no

theorem throw (e : Exception) : Undo (throw e : Exec β α) := of_passes (.throw e)

theorem pure (a : α) : Undo (Pure.pure a : Exec β α) := of_passes (.pure a)

theorem modifyHart (update : Hart → Hart) : Undo (modifyHart update : Exec β Unit) :=
  of_finishes (finishes_modifyHart update)

theorem writeX (rd : Reg) (val : Word) (a : α) :
    Undo (Core.writeX rd val >>= fun _ => Pure.pure a : Exec β α) :=
  of_finishes (.bind (finishes_writeX rd val) fun _ => .pure a)

theorem next {m : Exec β Unit} (undo : Undo m) (a : α) : Undo (m >>= fun _ => Pure.pure a) :=
  .before undo fun _ => .pure a

theorem fails (undo : Undo m) (operand : Operand) : Undoes (Residue operand) m :=
  fun m e m' raised => .inl (undo m e m' raised)

end Undo

/-- A failure leaves the residue of the operand the machine before it gives. -/
def Fails {α : Type} (operand : Machine β → Operand) (op : Exec β α) : Prop :=
  Undoes (fun m m' => Residue (operand m) m m') op

theorem fpCheck_undoes {α : Type} {operand : Machine β → Operand} {insn : Insn} {k : Exec β α}
    (rest : Fails operand k) : Fails operand (fpCheck insn >>= fun _ => k) := by
  intro m e m' raised
  by_cases enabled : m.hart.fpEnabled
  · have checked : fpCheck insn m = .ok () m := if_pos enabled
    rw [bind_ok _ checked] at raised
    exact rest m e m' raised
  · have refused : fpCheck insn m = .error (.illegalInstruction insn) m := if_neg enabled
    rw [bind_error _ refused] at raised
    cases raised
    exact .inl (.refl _)

variable (insn : Insn)

theorem loadFp_undoes : Undo (stepLoadFp insn : Exec β Unit) := by
  refine .after (.fpCheck _) fun _ => .after .dirty fun _ => .after (.getX _) fun _ => ?_
  split
  · exact .after (.ld _ _) fun _ => .modifyHart _
  · exact .after (.ld _ _) fun _ => .modifyHart _
  · exact .throw _

theorem tryHart_undoes (f : Hart → Option Hart) : Undo (tryHart insn f : Exec β Unit) := by
  intro m e m' raised
  unfold tryHart at raised
  cases computed : f m.hart with
  | none =>
    rw [computed] at raised
    cases raised
    exact .refl m
  | some hart => rw [computed] at raised; cases raised

theorem stepFp_undoes (body : Hart → Insn → Option Hart) : Undo (stepFp insn body : Exec β Unit) :=
  .after (.fpCheck _) fun _ => .after .dirty fun _ => tryHart_undoes _ _

theorem stepXret_undoes (allowed : SysCsrs → Bool) (ret : SysCsrs → SysCsrs)
    (epc : SysCsrs → Word) : Undo (stepXret insn allowed ret epc : Exec β Outcome) := by
  refine .after (fun m => .single (.poll m)) fun _ => ?_
  intro m e m' raised
  have unchanged : (Hart.xret allowed ret epc m.hart).1 = none →
      (Hart.xret allowed ret epc m.hart).2 = m.hart := by
    unfold Hart.xret
    cases m.hart.sys with
    | none => exact fun _ => rfl
    | some sys =>
      simp only
      split
      · exact fun absurd => nomatch absurd
      · exact fun _ => rfl
  have returned : updateHart (Hart.xret allowed ret epc) m =
      .ok (Hart.xret allowed ret epc m.hart).1
        { m with hart := (Hart.xret allowed ret epc m.hart).2 } := rfl
  rw [bind_ok _ returned] at raised
  cases outcome : (Hart.xret allowed ret epc m.hart).1 with
  | some outcome => rw [outcome] at raised; cases raised
  | none =>
    rw [outcome, unchanged outcome] at raised
    cases raised
    exact .refl m

theorem Hart.csrWrite_rejected {hart : Hart} {insnCount : Word} {csr : CsrAddr} {v : Word}
    (rejected : (hart.csrWrite insnCount csr v).accepted = false) :
    (hart.csrWrite insnCount csr v).hart = { hart with irqPollCd := 0#32 } := by
  have effect := hart.csrWrite_effect insnCount csr v
  generalize hart.csrWrite insnCount csr v = written at effect rejected
  cases effect with
  | reject => rfl
  | _ => cases rejected

theorem stepCsr_undoes (nextPc insnCount : Word) :
    Undo (stepCsr insn nextPc insnCount : Exec β Outcome) := by
  refine .after (.ite (.bind (.fpCheck _) fun _ => .dirty) (.pure _)) fun _ => ?_
  refine .after (.ite (.pure _) (.getX _)) fun src => ?_
  refine .after .get fun m => .after (.orIllegal _ _) fun old => ?_
  cases csrSource insn old src with
  | none => exact .writeX _ _ _
  | some v =>
    intro m e m' raised
    have written : (writeCsr insnCount (insn.extractLsb' 20 12) v : Exec β _) m =
        .ok ((m.hart.csrWrite insnCount (insn.extractLsb' 20 12) v).accepted,
            (m.hart.csrWrite insnCount (insn.extractLsb' 20 12) v).fetch)
          { m with hart := (m.hart.csrWrite insnCount (insn.extractLsb' 20 12) v).hart } := rfl
    simp only at raised
    rw [bind_ok _ written] at raised
    cases accepted : (m.hart.csrWrite insnCount (insn.extractLsb' 20 12) v).accepted with
    | true => simp only [accepted, if_true] at raised; cases raised
    | false =>
      simp only [accepted, Bool.false_eq_true, if_false] at raised
      cases raised
      rw [Hart.csrWrite_rejected accepted]
      exact .single (.poll m)

theorem stepSystem_undoes (pc nextPc insnCount : Word) :
    Undo (stepSystem insn pc nextPc insnCount : Exec β Outcome) := by
  unfold stepSystem
  refine .ite (.of_finishes fun _ => ⟨_, _, rfl⟩) (.ite ?_ (.ite ?_ (.ite ?_ (.ite ?_ (.ite ?_
    (.ite ?_ (.throw _)))))))
  · exact .after .inSystem fun _ => .ite (.throw _) (.pure _)
  · exact stepXret_undoes _ _ _ _
  · exact stepXret_undoes _ _ _ _
  · refine .after .get fun m => ?_
    cases m.hart.sys with
    | none => exact .pure _
    | some sys => exact .ite (.throw _) (.pure _)
  · exact .after .get fun m => .ite (.throw _) (.of_finishes fun _ => ⟨_, _, rfl⟩)
  · exact stepCsr_undoes insn nextPc insnCount

/-! ## Stores and atomics -/

/-- What an atomic stores; the loaded value is part of it but for SC. -/
def amoOperand (funct5 : BitVec 5) (is64 : Bool) (addr src : Word) (m : Machine β) : Operand :=
  let width : Width := if is64 then .dword else .word
  if funct5 = 0x02#5 then none
  else if funct5 = 0x03#5 then some (width, addr, src)
  else
    match aload is64 addr m with
    | .ok old _ => (amoResult funct5 is64 old src).map fun new => (width, addr, new)
    | .error _ _ => none

def storeOperand (m : Machine β) (insn : Insn) : Operand :=
  let addr := m.hart.x (rs1 insn) + immS insn
  match opcode insn with
  | 0x23#7 => (storeForm (funct3 insn)).map fun width => (width, addr, m.hart.x (rs2 insn))
  | 0x27#7 =>
    match funct3 insn with
    | 2#3 => some (.word, addr, m.hart.f (rs2 insn))
    | 3#3 => some (.dword, addr, m.hart.f (rs2 insn))
    | _ => none
  | 0x2f#7 =>
    (amoIs64 (funct3 insn)).bind fun is64 =>
      amoOperand ((funct7 insn).extractLsb' 2 5) is64 (m.hart.x (rs1 insn)) (m.hart.x (rs2 insn)) m
  | _ => none

theorem storeFp_undoes (isStore : opcode insn = 0x27#7) :
    Fails (storeOperand · insn) (stepStoreFp insn : Exec β Unit) := by
  simp only [storeOperand, isStore]
  refine fpCheck_undoes ?_
  match funct3 insn with
  | 2#3 | 3#3 => exact fun m e m' raised => st_undoes _ _ _ m e m' raised
  | 0#3 | 1#3 | 4#3 | 5#3 | 6#3 | 7#3 => exact (Undo.throw _).fails none

theorem astore_undoes (is64 : Bool) (addr v : Word) :
    Undoes (Residue (some (if is64 then .dword else .word, addr, v)))
      (astore is64 addr v : Exec β Unit) := by
  cases is64 with
  | true => exact st_undoes _ _ _
  | false => exact st_undoes _ _ _

theorem stepSc_undoes (is64 : Bool) (addr src : Word) :
    Undoes (Residue (some (if is64 then .dword else .word, addr, src)))
      (stepSc insn is64 addr src : Exec β Unit) := by
  refine .before (.after (Residue.after _) (fun _ _ => .inl) Quiet.refl fun m => .ite ?_ ?_)
    fun failed =>
    .bind (finishes_writeX _ _) fun _ => finishes_modifyHart _
  · exact .before (astore_undoes is64 addr src) fun _ => .pure _
  · exact (Undo.pure _).fails _

theorem stepAmoOp_undoes {funct5 : BitVec 5} (reserve : funct5 ≠ 0x02#5)
    (conditional : funct5 ≠ 0x03#5) (is64 : Bool) (addr src : Word) :
    Fails (amoOperand funct5 is64 addr src)
      (stepAmoOp insn funct5 is64 addr src : Exec β Unit) := by
  intro m e m' raised
  have passes : Passes (aload is64 addr : Exec β Word) := .aload is64 addr
  replace passes := passes m
  unfold stepAmoOp at raised
  dsimp only [amoOperand]
  rw [if_neg reserve, if_neg conditional]
  cases loaded : aload is64 addr m with
  | error e' m₁ =>
    rw [bind_error _ loaded] at raised
    rw [loaded] at passes
    cases raised
    exact .inl passes
  | ok old m₁ =>
    rw [bind_ok _ loaded] at raised
    rw [loaded] at passes
    refine .after _ _ _ _ passes ?_
    dsimp only
    cases result : amoResult funct5 is64 old src with
    | none =>
      rw [result] at raised
      cases raised
      exact .inl (.refl _)
    | some new =>
      rw [result] at raised
      exact Undoes.before (astore_undoes is64 addr new) (fun _ => finishes_writeX _ _) m₁ e m'
        raised

theorem amo_choice {α : Type} (funct5 : BitVec 5) (lr sc other : α) : (match funct5 with
      | 0x02#5 => lr
      | 0x03#5 => sc
      | _ => other) = if funct5 = 0x02#5 then lr else if funct5 = 0x03#5 then sc else other := by
  split
  · rfl
  · rfl
  · rename_i reserve conditional
    rw [if_neg reserve, if_neg conditional]

theorem stepAmo_undoes (isAmo : opcode insn = 0x2f#7) :
    Fails (storeOperand · insn) (stepAmo insn : Exec β Unit) := by
  intro m e m' raised
  simp only [storeOperand, isAmo]
  unfold stepAmo at raised
  cases width : amoIs64 (funct3 insn) with
  | none =>
    rw [width] at raised
    cases raised
    exact .inl (.refl _)
  | some is64 =>
    rw [width] at raised
    dsimp only [Option.bind_some]
    generalize (funct7 insn).extractLsb' 2 5 = funct5 at raised ⊢
    have chosen := amo_choice funct5 (stepLr insn is64 (m.hart.x (rs1 insn)) : Exec β Unit)
      (stepSc insn is64 (m.hart.x (rs1 insn)) (m.hart.x (rs2 insn)))
      (stepAmoOp insn funct5 is64 (m.hart.x (rs1 insn)) (m.hart.x (rs2 insn)))
    replace raised := (congrFun chosen m).symm.trans raised
    by_cases reserve : funct5 = 0x02#5
    · rw [if_pos reserve] at raised
      have undo : Undo (stepLr insn is64 (m.hart.x (rs1 insn)) : Exec β Unit) :=
        .after (.aload _ _) fun _ => .of_finishes
          (.bind (finishes_modifyHart _) fun _ => finishes_writeX _ _)
      exact undo.fails _ m e m' raised
    · rw [if_neg reserve] at raised
      by_cases conditional : funct5 = 0x03#5
      · rw [if_pos conditional] at raised
        rw [amoOperand, if_neg reserve, if_pos conditional]
        exact stepSc_undoes insn is64 _ _ m e m' raised
      · rw [if_neg conditional] at raised
        exact stepAmoOp_undoes insn reserve conditional is64 _ _ m e m' raised

theorem store_undoes (isStore : opcode insn = 0x23#7) (nextPc : Word) :
    Fails (storeOperand · insn)
      (getX (rs1 insn) >>= fun base => getX (rs2 insn) >>= fun val =>
        orIllegal insn (storeForm (funct3 insn)) >>= fun width =>
          st width (base + immS insn) val >>= fun _ => pure (.goto nextPc) : Exec β Outcome) := by
  intro m e m' raised
  simp only [storeOperand, isStore]
  cases form : storeForm (funct3 insn) with
  | none =>
    rw [form] at raised
    cases raised
    exact .inl (.refl _)
  | some width =>
    rw [form] at raised
    exact Undoes.before (st_undoes width _ _) (fun _ => .pure _) m e m' raised

theorem executeNext_undoes (units : Units β) {insn : Insn} (scalar : isVector insn = false)
    (pc nextPc insnCount : Word) : Fails (storeOperand · insn)
      (executeNext units insn pc nextPc insnCount) := by
  have quiet : ∀ {m : Exec β Outcome}, Undo m →
      Fails (storeOperand · insn) m :=
    fun undo s e s' raised => undo.fails _ s e s' raised
  unfold executeNext
  simp only
  unfold isVector at scalar
  split
  case h_1 | h_2 | h_3 => exact quiet (.writeX _ _ _)
  case h_4 | h_8 => exact quiet (.after (.getX _) fun _ => .writeX _ _ _)
  case h_5 =>
    exact quiet
      (.after (.getX _) fun _ => .after (.getX _) fun _ => .after (.orIllegal _ _) fun _ => .pure _)
  case h_6 =>
    exact quiet
      (.after (.getX _) fun _ => .after (.orIllegal _ _) fun _ => .after (.ld _ _) fun _ =>
        .writeX _ _ _)
  case h_7 isStore => exact store_undoes insn isStore nextPc
  case h_9 =>
    exact quiet (.after (.getX _) fun _ => .after (.orIllegal _ _) fun _ => .writeX _ _ _)
  case h_10 | h_11 =>
    exact quiet
      (.after (.getX _) fun _ => .after (.getX _) fun _ => .after (.orIllegal _ _) fun _ =>
        .writeX _ _ _)
  case h_12 isAmo => exact .before (stepAmo_undoes insn isAmo) fun _ => .pure _
  case h_13 isLoad =>
    rw [isLoad] at scalar
    rw [if_neg (by simpa using scalar)]
    exact quiet (.next (loadFp_undoes insn) _)
  case h_14 isStore =>
    rw [isStore] at scalar
    rw [if_neg (by simpa using scalar)]
    exact .before (storeFp_undoes insn isStore) fun _ => .pure _
  case h_15 arithmetic =>
    rw [arithmetic] at scalar
    cases scalar
  case h_16 | h_17 | h_18 | h_19 | h_20 => exact quiet (.next (stepFp_undoes _ _) _)
  case h_21 => exact quiet (.pure _)
  case h_22 => exact quiet (stepSystem_undoes insn pc nextPc insnCount)
  case h_23 => exact quiet (.throw _)

/-! ## Steps -/

/-- A compressed store has the operand of its expansion. -/
def Fetched.operand (m : Machine β) : Fetched → Operand
  | .compressed instruction => (expand instruction).bind (storeOperand m)
  | .full insn => storeOperand m insn

/-- There are no compressed vector instructions. -/
def Fetched.scalar : Fetched → Bool
  | .compressed _ => true
  | .full insn => !isVector insn

namespace System

theorem fetch_quiet : Along (Fetches fun hart bus bus' => Quiet ⟨hart, bus⟩ ⟨hart, bus'⟩)
    (fetch : EStateM Exception (System β) Fetched) :=
  fetch_along (fun _ _ => .refl _) (fun _ _ _ _ => .trans _ _ _)
    (fun row hart va bus => .single (.fetch ⟨hart, bus⟩ row va)) fun hart pa bus =>
      .single (.read ⟨hart, bus⟩ .half pa)

def operand (s : System β) : Operand :=
  match fetch s with
  | .ok fetched s => fetched.operand s.machine
  | .error _ _ => none

def scalarNext (s : System β) : Bool :=
  match fetch s with
  | .ok fetched _ => fetched.scalar
  | .error _ _ => true

end System

theorem compressed_undoes (units : Units β) (instruction : CInsn) (pc insnCount : Word) :
    Fails (fun m => (expand instruction).bind (storeOperand m))
      (body units pc insnCount (.compressed instruction)) := by
  intro m e m' raised
  have runs := stepCompressed_runsAs units instruction pc insnCount
  have failed : stepCompressed instruction pc m = .error e m' := by
    dsimp only [body] at raised
    cases run : stepCompressed instruction pc m with
    | ok next m₁ => rw [bind_ok _ run] at raised; cases raised
    | error e' m₁ => rw [bind_error _ run] at raised; cases raised; rfl
  cases expanded : expand instruction with
  | none =>
    rw [expanded] at runs
    cases runs with
    | reserved raises =>
      rw [raises] at failed
      cases failed
      exact .inl (.refl _)
  | some insn =>
    rw [expanded] at runs
    cases runs with
    | runs _ same =>
      refine executeNext_undoes units (expand_memory expanded).2 pc (pc + 2) insnCount m e m' ?_
      rw [← same m (.inr ⟨e, m', failed⟩)]
      exact raised

theorem body_undoes (units : Units β) (pc insnCount : Word) {fetched : Fetched}
    (scalar : fetched.scalar = true) :
    Fails fetched.operand (body units pc insnCount fetched) := by
  cases fetched with
  | compressed instruction => exact compressed_undoes units instruction pc insnCount
  | full insn =>
    exact executeNext_undoes units (by simpa [Fetched.scalar] using scalar) pc (pc + 4) insnCount

/-- An exception leaves registers, pc, count and CSRs as they were but for `mstatus.FS`, and
on the bus nothing but A and D bits and the lower bytes of a page-crossing store. -/
theorem exception_is_precise (units : Units β) {s s' : System β} {e : Exception}
    (scalar : s.scalarNext = true) (raised : System.step units s = .error e s') :
    s.cpu.hart.Undone s'.cpu.hart ∧ s'.cpu.pc = s.cpu.pc ∧ s'.cpu.insnCount = s.cpu.insnCount ∧
      Residue s.operand s.machine s'.machine := by
  suffices rest : s'.cpu.pc = s.cpu.pc ∧ s'.cpu.insnCount = s.cpu.insnCount ∧
      Residue s.operand s.machine s'.machine from ⟨rest.2.2.undone, rest⟩
  have fetches := System.fetch_quiet s
  unfold System.step at raised
  unfold System.scalarNext at scalar
  unfold System.operand
  cases run : System.fetch s with
  | error e' s₁ =>
    rw [bind_error _ run] at raised
    rw [run] at fetches
    cases raised
    obtain ⟨hart, pc, count, quiet⟩ := fetches
    refine ⟨pc, count, .inl ?_⟩
    unfold System.machine
    exact hart ▸ quiet
  | ok fetched s₁ =>
    rw [bind_ok _ run, get_bind] at raised
    rw [run] at fetches scalar
    obtain ⟨hart, pc, count, quiet⟩ := fetches
    unfold System.commit at raised
    cases execute : body units s₁.cpu.pc s₁.cpu.insnCount fetched s₁.machine with
    | ok outcome m => rw [System.machine] at execute; rw [execute] at raised; cases raised
    | error e' m =>
      have failed := body_undoes units _ _ scalar _ _ _ execute
      rw [System.machine] at execute
      rw [execute] at raised
      cases raised
      refine ⟨pc, count, .after _ _ _ _ ?_ failed⟩
      unfold System.machine
      exact hart ▸ quiet

namespace RaggedRam

open Rv64Js.Board

def ragged : Layout where
  ramPtr := 0x10000#64
  ramLen := 0x1001
  fits := by decide

/-- `sd x2, 0(x1)` at the base of RAM, in machine mode; seven bytes of the operand are RAM. -/
def storing : System (SystemBus ragged NoDevices) where
  cpu :=
    { Cpu.new.enableSystem 0#64 with
      pc := 0x80000000#64
      hart :=
        { (Cpu.new.enableSystem 0#64).hart with
          x := fun r =>
            if r = 1#5 then 0x80000ffa#64 else if r = 2#5 then 0xffffffffffffffff#64 else 0#64 } }
  bus :=
    { ram := Ram.store (fun _ => 0) 0 4 0x0020b023
      jitPages := fun _ => false
      jitDirtyPages := []
      devices := {} }

/-- The exception and the byte on the second page. -/
def ending : Option (Exception × BitVec 8) :=
  match System.step Units.scalar storing with
  | .ok _ _ => none
  | .error e s' => some (e, s'.bus.ram 0x1000)

theorem storing_raises :
    ∃ s', System.step Units.scalar storing = .error (.storeAccessFault 0x80001001#64) s' ∧
      s'.bus.ram 0x1000 = 0xff#8 := by
  have ends : ending = some (.storeAccessFault 0x80001001#64, 0xff#8) := by decide +kernel
  unfold ending at ends
  cases run : System.step Units.scalar storing with
  | ok stop s' => rw [run] at ends; cases ends
  | error e s' =>
    rw [run] at ends
    simp only [Option.some.injEq, Prod.mk.injEq] at ends
    obtain ⟨rfl, stored⟩ := ends
    exact ⟨s', rfl, stored⟩

/-- The last of them lies on the second page and is stored before the fault. -/
theorem second_page_stored : storing.bus.ram 0x1000 = 0#8 ∧ ∃ s',
      System.step Units.scalar storing = .error (.storeAccessFault 0x80001001#64) s' ∧
        s'.bus.ram 0x1000 = 0xff#8 :=
  ⟨by decide, storing_raises⟩

theorem storing_undone : ∃ e s', System.step Units.scalar storing = .error e s' ∧
      storing.cpu.hart.Undone s'.cpu.hart ∧ s'.cpu.pc = 0x80000000#64 ∧
      Residue storing.operand storing.machine s'.machine := by
  obtain ⟨s', run, -⟩ := storing_raises
  have precise := exception_is_precise Units.scalar (by decide +kernel) run
  exact ⟨_, s', run, precise.1, precise.2.1, precise.2.2.2⟩

end RaggedRam

end Rv64Js.Core
