import Rv64Js.Core.ScalarT0

/-! # A hart that caches no instruction translation

The abstract machine both drivers are compared with: every fetch walks the page table. It carries
the translations its fetches have used since the last covering fence; `Disciplined` says that such a
translation is still what the page table gives whenever it is used again. -/

set_option autoImplicit false

namespace Rv64Js.Core

open Fallible (finalState)

def History := Word → Word → Prop

namespace History

def learn (seen : History) (tag diff : Word) : History := fun t d =>
  seen t d ∨ (t = tag ∧ d = diff)

def apply (seen : History) : FetchOp → History
  | .keep => seen
  | .flush => fun _ _ => False
  | .flushPage va => fun t d => seen t d ∧ pageOf t ≠ pageOf va

end History

structure Uncached (β : Type) where
  hart : Hart
  pc : Word
  insnCount : Word
  bus : β
  seen : History

variable {β : Type} [Bus β]

def fetchWalk (hart : Hart) (va : Word) : EStateM Exception β Word := fun bus =>
  match hart.sys with
  | none => .ok va bus
  | some sys =>
    match walk sys va .fetch bus with
    | .ok result bus => .ok result.pa bus
    | .error e bus => .error e bus

namespace Uncached

def translateFetch (va : Word) : EStateM Exception (Uncached β) Word := fun u =>
  match fetchWalk u.hart va u.bus with
  | .ok pa bus =>
    .ok pa { u with
      bus := bus
      seen := u.seen.learn (u.hart.translationTag va .fetch) (pa - va) }
  | .error e bus => .error e { u with bus := bus }

def fetch16 (pa : Word) : EStateM Exception (Uncached β) (BitVec 16) :=
  Fallible.zoom Uncached.bus (fun bus u => { u with bus := bus }) (Bus.fetch16 pa)

def fetchLow : EStateM Exception (Uncached β) (Word × BitVec 16) := do
  let pa ← translateFetch (← get).pc
  let lo ← fetch16 pa
  pure (pa, lo)

/-- Only at a page boundary does the second halfword need its own translation. -/
def highAddress (pa : Word) : EStateM Exception (Uncached β) Word := do
  let pc2 := (← get).pc + 2
  if pc2 &&& 0xfff#64 = 0#64 then translateFetch pc2 else pure (pa + 2)

def fetchHigh (pa : Word) : EStateM Exception (Uncached β) (BitVec 16) := do
  let pa2 ← highAddress pa
  fetch16 pa2

def fetch : EStateM Exception (Uncached β) Fetched := do
  let low ← fetchLow
  if isCompressed low.2 then pure (.compressed low.2)
  else
    let hi ← fetchHigh low.1
    pure (.full (hi ++ low.2))

def commit (body : Exec β Outcome) : EStateM Exception (Uncached β) (Option StopReason) := fun u =>
  match body { hart := u.hart, bus := u.bus } with
  | .ok outcome m =>
    .ok outcome.next.stop
      { hart := m.hart
        pc := outcome.next.pc
        insnCount := u.insnCount + 1
        bus := m.bus
        seen := u.seen.apply outcome.fetch }
  | .error e m => .error e { u with hart := m.hart, bus := m.bus }

def step (units : Units β) : EStateM Exception (Uncached β) (Option StopReason) := do
  let fetched ← fetch
  let u ← get
  commit (body units u.pc u.insnCount fetched)

def redirect (u : Uncached β) (target : Redirect) : Uncached β :=
  { u with hart := target.hart, pc := target.pc, seen := u.seen.apply target.fetch }

def trap (u : Uncached β) (e : Exception) : Uncached β :=
  u.redirect (exceptionToTrap u.hart u.pc u.insnCount e)

def checkInterrupts (u : Uncached β) : Bool × Uncached β :=
  match Core.checkInterrupts u.hart u.pc u.insnCount u.bus with
  | (none, hart, bus) => (false, { u with hart := hart, bus := bus })
  | (some target, hart, bus) => (true, redirect { u with hart := hart, bus := bus } target)

def poll (u : Uncached β) : Uncached β :=
  if u.hart.irqPollCd = 0#32 then
    (checkInterrupts { u with hart := { u.hart with irqPollCd := IRQ_POLL_INTERVAL } }).2
  else { u with hart := { u.hart with irqPollCd := u.hart.irqPollCd - 1 } }

def pollIf (system : Bool) (u : Uncached β) : Uncached β := if system then u.poll else u

def advance (units : Units β) (system : Bool) (u : Uncached β) :
    (StopReason × Uncached β) ⊕ Uncached β :=
  match step units u with
  | .ok none u => .inr u
  | .ok (some stop) u => .inl (stop, u)
  | .error e u => if system then .inr (u.trap e) else .inl (.trap e, u)

def round (units : Units β) (system : Bool) (u : Uncached β) :
    (StopReason × Uncached β) ⊕ Uncached β :=
  advance units system (u.pollIf system)

/-! ## Disciplined runs -/

/-- A translation used before for this page is what a walk gives now, and the
walk has nothing left to update. -/
def Fresh (u : Uncached β) (va : Word) : Prop :=
  ∀ diff, u.seen (u.hart.translationTag va .fetch) diff →
    fetchWalk u.hart va u.bus = .ok (va + diff) u.bus

/-- Both translations an instruction fetch can need are fresh when it needs them. -/
structure FreshFetch (u : Uncached β) : Prop where
  low : u.Fresh u.pc
  high : ∀ low u₁, fetchLow u = .ok low u₁ → isCompressed low.2 = false →
    (u.pc + 2) &&& 0xfff#64 = 0#64 → u₁.Fresh (u.pc + 2)

/-- What the fetch at `u` may rely on: an even address, fresh translations, and code that reads the
same when it is fetched once more. -/
structure FetchDiscipline (u : Uncached β) : Prop where
  even : u.pc.getLsbD 0 = false
  fresh : FreshFetch u
  repeats : ∀ fetched u₁, fetch u = .ok fetched u₁ → FreshFetch u₁ ∧ fetch u₁ = .ok fetched u₁

/-- Every fetch of the first `n` rounds keeps to the discipline. -/
def Disciplined (units : Units β) (system : Bool) : Nat → Uncached β → Prop
  | 0, _ => True
  | n + 1, u =>
    FetchDiscipline (u.pollIf system) ∧
      ∀ next, round units system u = .inr next → Disciplined units system n next

end Uncached

end Rv64Js.Core
