import Rv64Js.Core.Execute
import Rv64Js.Lib.Loop

/-! # Fetch, step and run

The split halfword fetch, one interpreter step, and the budgeted loop with its
interrupt polling (`step`, `run`). -/

set_option autoImplicit false

namespace Rv64Js.Core

open Fallible

def FetchCache.apply (cache : FetchCache) : FetchOp → FetchCache
  | .keep => cache
  | .flush =>
    { cache with
      row := cache.row.invalidate
      capability := { cache.capability with tag := TLB_INVALID } }
  | .flushPage va => { cache with row := cache.row.dropPage (tlbIndex va) (pageOf va) }

inductive Fetched where
  | compressed (instruction : CInsn)
  | full (insn : Insn)

def isCompressed (lo : BitVec 16) : Bool := lo &&& 3#16 ≠ 3#16

variable {β : Type} [Bus β]

def body (units : Units β) (pc insnCount : Word) : Fetched → Exec β Outcome
  | .compressed instruction => do
    let next ← stepCompressed instruction pc
    pure { next := next, fetch := .keep }
  | .full insn => execute units insn pc insnCount

namespace System

def translateFetch (va : Word) : EStateM Exception (System β) Word := fun s =>
  match translateIn s.cpu.fetch.row s.cpu.hart va .fetch s.bus with
  | .ok (pa, row) bus =>
    .ok pa { cpu := { s.cpu with fetch := { s.cpu.fetch with row := row } }, bus := bus }
  | .error e bus => .error e { s with bus := bus }

def fetch16 (pa : Word) : EStateM Exception (System β) (BitVec 16) :=
  zoom System.bus (fun bus s => { s with bus := bus }) (Bus.fetch16 pa)

def fetchLow : EStateM Exception (System β) (Word × BitVec 16) := do
  let pa ← translateFetch (← get).cpu.pc
  let lo ← fetch16 pa
  pure (pa, lo)

/-- Only at a page boundary does the second halfword need its own translation. -/
def highAddress (pa : Word) : EStateM Exception (System β) Word := do
  let pc2 := (← get).cpu.pc + 2
  if pc2 &&& 0xfff#64 = 0#64 then translateFetch pc2 else pure (pa + 2)

def fetchHigh (pa : Word) : EStateM Exception (System β) (BitVec 16) := do
  let pa2 ← highAddress pa
  fetch16 pa2

/-- Sixteen bits first: a compressed instruction may be the last halfword of a page. -/
def fetch : EStateM Exception (System β) Fetched := do
  let low ← fetchLow
  if isCompressed low.2 then pure (.compressed low.2)
  else
    let hi ← fetchHigh low.1
    pure (.full (hi ++ low.2))

/-- What a fetch changes: the bus, along `R`, and the row of fetch translations. -/
def Fetches (R : Hart → β → β → Prop) (s s' : System β) : Prop :=
  s'.cpu.hart = s.cpu.hart ∧ s'.cpu.pc = s.cpu.pc ∧ s'.cpu.insnCount = s.cpu.insnCount ∧
    R s.cpu.hart s.bus s'.bus

theorem fetch_along {R : Hart → β → β → Prop} (busRefl : ∀ hart bus, R hart bus bus)
    (busTrans : ∀ hart a b c, R hart a b → R hart b c → R hart a c) (walks : ∀ row hart va,
      Along (R hart) (translateIn row hart va .fetch : EStateM Exception β (Word × Row)))
    (halves : ∀ hart pa, Along (R hart) (Bus.read .half pa : EStateM Exception β _)) :
    Along (Fetches R) (fetch : EStateM Exception (System β) Fetched) := by
  have refl (s : System β) : Fetches R s s := ⟨rfl, rfl, rfl, busRefl _ _⟩
  have trans (a b c : System β) (first : Fetches R a b) (second : Fetches R b c) :
      Fetches R a c := by
    obtain ⟨hart, pc, count, moved⟩ := second
    rw [first.1] at hart moved
    exact ⟨hart, pc.trans first.2.1, count.trans first.2.2.1, busTrans _ _ _ _ first.2.2.2 moved⟩
  have translates (va : Word) :
      Along (Fetches R) (translateFetch va : EStateM Exception (System β) Word) := by
    intro s
    have walked := walks s.cpu.fetch.row s.cpu.hart va s.bus
    unfold translateFetch
    cases run : translateIn s.cpu.fetch.row s.cpu.hart va .fetch s.bus <;> rw [run] at walked <;>
      exact ⟨rfl, rfl, rfl, walked⟩
  have reads (pa : Word) :
      Along (Fetches R) (fetch16 pa : EStateM Exception (System β) (BitVec 16)) := by
    intro s
    have seen := halves s.cpu.hart pa s.bus
    unfold fetch16 zoom Bus.fetch16
    cases read : Bus.read .half pa s.bus <;> rw [read] at seen <;> exact ⟨rfl, rfl, rfl, seen⟩
  have low : Along (Fetches R) (fetchLow : EStateM Exception (System β) _) :=
    .bind trans (.get refl) fun _ => .bind trans (translates _) fun pa =>
      .bind trans (reads pa) fun _ => .pure refl _
  have high : ∀ pa, Along (Fetches R) (fetchHigh pa : EStateM Exception (System β) _) := fun pa =>
    .bind trans (.bind trans (.get refl) fun _ => .ite (translates _) (.pure refl _)) reads
  exact .bind trans low fun half => .ite (.pure refl _) (.bind trans (high _) fun _ => .pure refl _)

/-- Run an instruction body and retire it; a failed body leaves pc and count alone. -/
def commit (body : Exec β Outcome) : EStateM Exception (System β) (Option StopReason) := fun s =>
  match body { hart := s.cpu.hart, bus := s.bus } with
  | .ok outcome m =>
    .ok outcome.next.stop
      { cpu :=
          { hart := m.hart
            pc := outcome.next.pc
            insnCount := s.cpu.insnCount + 1
            fetch := s.cpu.fetch.apply outcome.fetch }
        bus := m.bus }
  | .error e m => .error e { cpu := { s.cpu with hart := m.hart }, bus := m.bus }

def step (units : Units β) : EStateM Exception (System β) (Option StopReason) := do
  let fetched ← fetch
  let cpu := (← get).cpu
  commit (body units cpu.pc cpu.insnCount fetched)

def redirect (s : System β) (target : Redirect) : System β :=
  { s with
    cpu :=
      { s.cpu with hart := target.hart, pc := target.pc, fetch := s.cpu.fetch.apply target.fetch } }

def trap (s : System β) (e : Exception) : System β :=
  s.redirect (exceptionToTrap s.cpu.hart s.cpu.pc s.cpu.insnCount e)

/-- `check_interrupts` on the whole system, with whether a trap was taken. -/
def checkInterrupts (s : System β) : Bool × System β :=
  match Core.checkInterrupts s.cpu.hart s.cpu.pc s.cpu.insnCount s.bus with
  | (none, hart, bus) => (false, { cpu := { s.cpu with hart := hart }, bus := bus })
  | (some target, hart, bus) =>
    (true, redirect { cpu := { s.cpu with hart := hart }, bus := bus } target)

def poll (s : System β) : System β :=
  let hart := s.cpu.hart
  if hart.irqPollCd = 0#32 then
    (checkInterrupts
      { s with cpu := { s.cpu with hart := { hart with irqPollCd := IRQ_POLL_INTERVAL } } }).2
  else { s with cpu := { s.cpu with hart := { hart with irqPollCd := hart.irqPollCd - 1 } } }

/-- One round of `run`: leave with a stop reason, or go on. -/
def runRound (units : Units β) (system : Bool) (s : System β) :
    (StopReason × System β) ⊕ System β :=
  match step units (if system then s.poll else s) with
  | .ok none s => .inr s
  | .ok (some stop) s => .inl (stop, s)
  | .error e s => if system then .inr (s.trap e) else .inl (.trap e, s)

def run (units : Units β) (budget : Nat) (s : System β) : StopReason × System β :=
  match Loop.iterate (runRound units s.cpu.hart.sys.isSome) budget s with
  | .inl stopped => stopped
  | .inr s => (.budget, s)

/-- The interrupt lines sampled. -/
def sampled (s : System β) (mip : Word) : System β where
  cpu := { s.cpu with hart := s.cpu.hart.modifySys fun sys => { sys with mip := mip } }
  bus := (Bus.irqLines s.bus).2

/-- An interrupt check does nothing, or it samples the lines and may then take a trap. -/
theorem checkInterrupts_rule {P : System β → Prop} {s : System β} (user : P s)
    (quiet : ∀ mip, P (s.sampled mip)) (taken : ∀ mip irq, P ((s.sampled mip).redirect
      (takeTrap (s.sampled mip).cpu.hart s.cpu.pc s.cpu.insnCount irq 0#64 true))) :
    P s.checkInterrupts.2 := by
  unfold checkInterrupts Core.checkInterrupts
  cases system : s.cpu.hart.sys with
  | none => exact user
  | some sys =>
    simp only [sampled, Hart.modifySys, system, Option.map_some] at quiet taken ⊢
    by_cases none : ((sys.mip &&& ~~~IRQ_HW) ||| ((Bus.irqLines s.bus).1 &&& IRQ_HW)) &&& sys.mie =
        0#64
    · simp only [if_pos none]
      exact quiet _
    · simp only [if_neg none]
      cases irqPriority.find? _ with
      | none => exact quiet _
      | some irq => exact taken _ irq

/-- What polling, a step and a trap keep, a round keeps. -/
theorem runRound_rule {units : Units β} {P Q : System β → Prop} {system : Bool} {s : System β}
    (polled : P (if system then s.poll else s)) (stepped : ∀ s, P s → Q (finalState (step units s)))
    (trapped : ∀ s e, Q s → Q (s.trap e)) :
    Sum.elim (fun stopped => Q stopped.2) Q (runRound units system s) := by
  have after := stepped _ polled
  unfold runRound
  cases run : step units (if system then s.poll else s) with
  | ok stop s' =>
    rw [run] at after
    cases stop <;> exact after
  | error e s' =>
    rw [run] at after
    cases system with
    | false => exact after
    | true => exact trapped s' e after

theorem run_rule {units : Units β} {P : System β → Prop} {s : System β} (budget : Nat) (holds : P s)
    (round : ∀ s', P s' →
      Sum.elim (fun stopped => P stopped.2) P (runRound units s.cpu.hart.sys.isSome s')) :
    P (s.run units budget).2 := by
  have whole := Loop.iterate_keeps round budget s holds
  unfold run
  cases ran : Loop.iterate (runRound units s.cpu.hart.sys.isSome) budget s <;> rw [ran] at whole <;>
    exact whole

end System

end Rv64Js.Core
