import Rv64Js.Core.InterpreterRefines
import Rv64Js.Core.ScalarT0Inline
import Rv64Js.Core.Evolution

/-! # The integrated scalar driver refines the uncached hart

The page capability of the driver is a seen translation together with an offset the bus handed out
for it; under the `jit_fast_off` contract a halfword read through it is the one the bus gives. -/

set_option autoImplicit false

namespace Rv64Js.Core

open Loop BitVec Uncached Hart Driver
open Fallible

/-! ## Halfwords and pages -/

variable {va : Word}

theorem toNat_even (even : va.getLsbD 0 = false) : va.toNat % 2 = 0 := by
  have bit : va.toNat.testBit 0 = false := even
  simpa [Nat.testBit_zero] using bit

theorem inPage_half_of_even (even : va.getLsbD 0 = false) : InPage .half va := by
  have halved := toNat_even even
  unfold InPage
  rw [toNat_pageOffset]
  simp only [Width.bytes]
  omega

theorem inPage_half_of_boundary (boundary : va &&& 0xfff#64 = 0#64) : InPage .half va := by
  unfold InPage
  rw [boundary]
  decide

theorem second_half_same_page (even : va.getLsbD 0 = false)
    (inside : (va + 2) &&& 0xfff#64 ≠ 0#64) :
    pageOf (va + 2) = pageOf va ∧ InPage .half (va + 2) := by
  have halved := toNat_even even
  have sum : (va + 2).toNat = (va.toNat + 2) % 2 ^ 64 := by simp [toNat_add]
  have offset : (va + 2).toNat % 4096 ≠ 0 := by
    intro zero
    apply inside
    apply eq_of_toNat_eq
    rw [toNat_pageOffset, zero]
    rfl
  constructor
  · apply eq_of_toNat_eq
    rw [toNat_pageOf, toNat_pageOf, sum]
    omega
  · unfold InPage
    rw [toNat_pageOffset, sum]
    simp only [Width.bytes]
    omega

theorem add_sub_self (va pa : Word) : va + (pa - va) = pa := by
  rw [add_comm, sub_add_cancel]

theorem add_two_comm (va d : Word) : va + 2 + d = va + d + 2 := by
  rw [add_assoc, add_comm 2 d, ← add_assoc]

variable (hart : Hart)

theorem Hart.translationTag_fetch (va : Word) :
    hart.translationTag va .fetch = pageOf va ||| hart.fetchContext := by
  unfold translationTag translationContext fetchContext
  cases hart.sys with
  | none => rfl
  | some sys => simp [SysCsrs.effMode]

theorem Hart.fetchContext_of_mode {hart hart' : Hart} (same : hart'.mode? = hart.mode?) :
    hart'.fetchContext = hart.fetchContext := by
  have byMode : ∀ h : Hart, h.fetchContext = (h.mode?.map Mode.bits).getD 0#64 := by
    intro h
    unfold fetchContext mode?
    cases h.sys <;> rfl
  rw [byMode, byMode, same]

theorem isContext_fetch : IsContext hart.fetchContext := by
  unfold fetchContext
  cases hart.sys with
  | none => exact isContext_zero
  | some sys => exact isContext_bits sys.mode

variable {β : Type} [Bus β]

/-! ## Capabilities -/

/-- The bus once handed out `off` for this page and this `pa - va`, and has lived
on since. -/
def Granted (bus : β) (page diff off : Word) : Prop :=
  ∃ (origin : β) (va pa : Word), pageOf va = page ∧ pa - va = diff ∧
    Bus.jitFastOff origin va pa false = some off ∧ Bus.Evolves origin bus

namespace Granted

variable {bus bus' : β} {page diff off : Word}

theorem later (granted : Granted bus page diff off) (moved : Bus.Evolves bus bus') :
    Granted bus' page diff off := by
  obtain ⟨origin, va, pa, samePage, sameDiff, handed, since⟩ := granted
  exact ⟨origin, va, pa, samePage, sameDiff, handed, since.trans moved⟩

theorem fetch16 (contract : Bus.DirectContract β) {va : Word}
    (granted : Granted bus (pageOf va) diff off) (inPage : InPage .half va) :
    Bus.fetch16 (va + diff) bus = .ok (Bus.peek .half bus (va + off)) bus := by
  obtain ⟨origin, va₀, pa₀, samePage, sameDiff, handed, since⟩ := granted
  have read := contract origin va₀ pa₀ off false handed bus since .half va samePage.symm inPage
  rw [sameDiff] at read
  simp only [Bus.fetch16, read]

end Granted

def FetchCapability.Holds (capability : FetchCapability) (seen : History) (bus : β) : Prop :=
  capability.tag = TLB_INVALID ∨
    (seen capability.tag capability.paDiff ∧
      Granted bus (pageOf capability.tag) capability.paDiff capability.linearOff)

theorem FetchCapability.Holds.later {capability : FetchCapability} {seen seen' : History}
    {bus bus' : β} (holds : capability.Holds seen bus) (more : ∀ t d, seen t d → seen' t d)
    (moved : Bus.Evolves bus bus') : capability.Holds seen' bus' :=
  holds.imp id fun ⟨known, granted⟩ => ⟨more _ _ known, granted.later moved⟩

/-! ## The fetch of the integrated decoder -/

/-- The decoder's view and the uncached hart it stands for. -/
structure T0By (t : T0 β) (u : Uncached β) : Prop where
  hart : t.hart = u.hart
  bus : t.bus = u.bus
  row : t.row.Within u.seen
  capability : t.capability.Holds u.seen u.bus

def Uncached.fetchHalf (va : Word) : EStateM Exception (Uncached β) (Word × BitVec 16) := do
  let pa ← Uncached.translateFetch va
  let half ← Uncached.fetch16 pa
  pure (pa, half)

namespace Uncached

variable {va : Word} {u : Uncached β}

theorem translateFetch_ok {pa : Word} {bus : β} (walked : fetchWalk u.hart va u.bus = .ok pa bus) :
    translateFetch va u = .ok pa
      { u with bus := bus, seen := u.seen.learn (u.hart.translationTag va .fetch) (pa - va) } := by
  simp only [Uncached.translateFetch, walked]

theorem fetchHalf_ok {pa : Word} {half : BitVec 16} {bus bus' : β}
    (walked : fetchWalk u.hart va u.bus = .ok pa bus) (read : Bus.fetch16 pa bus = .ok half bus') :
    fetchHalf va u = .ok (pa, half)
      { u with bus := bus', seen := u.seen.learn (u.hart.translationTag va .fetch) (pa - va) } := by
  rw [fetchHalf, bind_ok _ (translateFetch_ok walked)]
  exact bind_ok _ (zoom_ok read)

theorem fetchHalf_bus_error {pa : Word} {e : Exception} {bus bus' : β}
    (walked : fetchWalk u.hart va u.bus = .ok pa bus) (read : Bus.fetch16 pa bus = .error e bus') :
    fetchHalf va u = .error e
      { u with bus := bus', seen := u.seen.learn (u.hart.translationTag va .fetch) (pa - va) } := by
  rw [fetchHalf, bind_ok _ (translateFetch_ok walked)]
  exact bind_error _ (zoom_error read)

theorem fetchHalf_walk_error {e : Exception} {bus : β}
    (walked : fetchWalk u.hart va u.bus = .error e bus) :
    fetchHalf va u = .error e { u with bus := bus } := by
  have first : translateFetch va u = .error e { u with bus := bus } := by
    simp only [Uncached.translateFetch, walked]
  exact bind_error _ first

end Uncached

def SameHalf (half : FetchedHalf) (low : Word × BitVec 16) : Prop :=
  half.pa = low.1 ∧ half.bits = low.2

namespace T0By

variable {t : T0 β} {u : Uncached β}

theorem scalarFetch16Slow (related : T0By t u) (contract : Bus.DirectContract β) {va : Word}
    (fresh : u.Fresh va) (inPage : InPage .half va) : Matches SameHalf T0By
      (Core.scalarFetch16Slow va (u.hart.translationTag va .fetch) t)
        (Uncached.fetchHalf va u) := by
  have same := translateIn_fetch related.row fresh
  have moved := translateIn_moves t.row u.hart va .fetch u.bus
  unfold Core.scalarFetch16Slow
  rw [related.hart, related.bus]
  cases walked : fetchWalk u.hart va u.bus with
  | error e bus =>
    rw [walked] at same
    rw [same] at moved
    rw [same, Uncached.fetchHalf_walk_error walked]
    exact .error
      ⟨rfl, rfl, related.row, related.capability.later (fun _ _ h => h) moved⟩
  | ok pa bus =>
    rw [walked] at same
    obtain ⟨row, run, within⟩ := same
    rw [run] at moved
    rw [run]
    have kept : ∀ bus', Bus.Evolves bus bus' → t.capability.Holds
        (u.seen.learn (u.hart.translationTag va .fetch) (pa - va)) bus' := fun bus' more =>
      related.capability.later (fun _ _ h => .inl h) (moved.trans more)
    cases handed : Bus.jitFastOff bus va pa false with
    | some off =>
      have granted : Granted bus (pageOf va) (pa - va) off :=
        ⟨bus, va, pa, rfl, rfl, handed, .refl bus⟩
      have read : Bus.fetch16 pa bus = .ok (Bus.peek .half bus (va + off)) bus := by
        have direct := granted.fetch16 contract inPage
        rwa [add_sub_self] at direct
      rw [Uncached.fetchHalf_ok walked read]
      simp only [handed]
      refine .ok ⟨rfl, rfl⟩ ⟨rfl, rfl, within, .inr ⟨.inr ⟨rfl, rfl⟩, ?_⟩⟩
      rwa [translationTag_fetch, pageOf_tag (isContext_fetch u.hart)]
    | none =>
      have stepped := Bus.Evolves.fetch16 bus pa
      cases read : Bus.fetch16 pa bus with
      | ok half bus' =>
        rw [read] at stepped
        rw [Uncached.fetchHalf_ok walked read]
        simp only [handed, read]
        exact .ok ⟨rfl, rfl⟩ ⟨rfl, rfl, within, kept bus' stepped⟩
      | error e bus' =>
        rw [read] at stepped
        rw [Uncached.fetchHalf_bus_error walked read]
        simp only [handed, read]
        exact .error ⟨rfl, rfl, within, kept bus' stepped⟩

theorem scalarFetch16 (related : T0By t u) (contract : Bus.DirectContract β) {va : Word}
    (fresh : u.Fresh va) (inPage : InPage .half va) :
    Matches SameHalf T0By (Core.scalarFetch16 va u.hart.fetchContext t)
      (Uncached.fetchHalf va u) := by
  unfold Core.scalarFetch16
  simp only [← translationTag_fetch]
  by_cases hit : t.capability.tag = u.hart.translationTag va .fetch
  · rw [if_pos hit]
    rcases related.capability with invalid | ⟨known, granted⟩
    · exact absurd (hit.symm.trans invalid) (translationTag_ne_invalid _ _ _)
    · -- the capability is a seen translation, so the walk finds the same address
      rw [hit] at known granted
      rw [translationTag_fetch, pageOf_tag (isContext_fetch u.hart)] at granted
      rw [Uncached.fetchHalf_ok (fresh _ known) (granted.fetch16 contract inPage), related.bus]
      exact .ok ⟨rfl, rfl⟩ ⟨related.hart, related.bus, related.row.learn _ _,
        related.capability.later (fun _ _ h => .inl h) (.refl _)⟩
  · rw [if_neg hit]
    exact related.scalarFetch16Slow contract fresh inPage

end T0By

theorem scalarFetch16_address {context : Word} {t t' : T0 β} {half : FetchedHalf} {address : Word}
    (run : Core.scalarFetch16 va context t = .ok half t') (direct : half.address = some address) :
    t'.capability.tag = pageOf va ||| context ∧ address = va + t'.capability.linearOff ∧
      half.pa = va + t'.capability.paDiff := by
  unfold Core.scalarFetch16 at run
  by_cases hit : t.capability.tag = pageOf va ||| context
  · simp only [if_pos hit] at run
    cases run
    cases direct
    exact ⟨hit, rfl, rfl⟩
  · simp only [if_neg hit, Core.scalarFetch16Slow] at run
    cases walked : translateIn t.row t.hart va .fetch t.bus with
    | error e bus =>
      rw [walked] at run
      cases run
    | ok translated bus =>
      obtain ⟨pa, row⟩ := translated
      simp only [walked] at run
      cases handed : Bus.jitFastOff bus va pa false with
      | some off =>
        simp only [handed] at run
        cases run
        cases direct
        exact ⟨rfl, rfl, (add_sub_self va pa).symm⟩
      | none =>
        simp only [handed] at run
        cases read : Bus.fetch16 pa bus with
        | ok bits bus' =>
          simp only [read] at run
          cases run
          cases direct
        | error e bus' =>
          simp only [read] at run
          cases run

namespace Uncached

theorem fetchHigh_crossing {u : Uncached β} (pa : Word) (crosses : (u.pc + 2) &&& 0xfff#64 = 0#64) :
    fetchHigh pa u = (fetchHalf (u.pc + 2) >>= fun half => pure half.2) u := by
  have address : highAddress pa u = translateFetch (u.pc + 2) u := by
    rw [highAddress, get_bind, if_pos crosses]
  cases run : translateFetch (u.pc + 2) u with
  | error e u₁ =>
    rw [run] at address
    rw [fetchHigh, bind_error _ address]
    exact (bind_error _ (bind_error _ run)).symm
  | ok pa2 u₁ =>
    rw [run] at address
    rw [fetchHigh, bind_ok _ address]
    cases read : fetch16 pa2 u₁ with
    | ok half u₂ =>
      have whole : fetchHalf (u.pc + 2) u = .ok (pa2, half) u₂ := by
        rw [fetchHalf, bind_ok _ run, bind_ok _ read]
        rfl
      rw [bind_ok _ whole]
      rfl
    | error e u₂ =>
      have whole : fetchHalf (u.pc + 2) u = .error e u₂ := by
        rw [fetchHalf, bind_ok _ run, bind_error _ read]
      exact (bind_error _ whole).symm

theorem fetchHigh_inside {u : Uncached β} (pa : Word)
    (inside : (u.pc + 2) &&& 0xfff#64 ≠ 0#64) : fetchHigh pa u = fetch16 (pa + 2) u := by
  have address : highAddress pa u = .ok (pa + 2) u := by
    rw [highAddress, get_bind, if_neg inside]
    rfl
  exact bind_ok _ address

end Uncached

namespace T0By

variable {t : T0 β} {u : Uncached β}

theorem t0Fetch16 (related : T0By t u) (pa : Word) :
    Matches Eq T0By (Core.t0Fetch16 pa t) (Uncached.fetch16 pa u) := by
  have stepped := Bus.Evolves.fetch16 u.bus pa
  unfold Core.t0Fetch16 Uncached.fetch16 zoom
  rw [related.bus]
  cases read : Bus.fetch16 pa u.bus with
  | ok half bus =>
    rw [read] at stepped
    exact .ok rfl
      ⟨related.hart, rfl, related.row, related.capability.later (fun _ _ h => h) stepped⟩
  | error e bus =>
    rw [read] at stepped
    exact .error ⟨related.hart, rfl, related.row, related.capability.later (fun _ _ h => h) stepped⟩

theorem second_half (related : T0By t u) (contract : Bus.DirectContract β)
    (even : u.pc.getLsbD 0 = false) (inside : (u.pc + 2) &&& 0xfff#64 ≠ 0#64)
    (tag : t.capability.tag = pageOf u.pc ||| u.hart.fetchContext) :
    Bus.fetch16 (u.pc + t.capability.paDiff + 2) u.bus =
      .ok (Bus.peek .half u.bus (u.pc + t.capability.linearOff + 2)) u.bus := by
  obtain ⟨samePage, inPage⟩ := second_half_same_page even inside
  rcases related.capability with invalid | ⟨-, granted⟩
  · exact absurd (tag.symm.trans invalid) (tag_ne_invalid (isContext_fetch u.hart) _)
  · rw [tag, pageOf_tag (isContext_fetch u.hart), ← samePage] at granted
    have read := granted.fetch16 contract inPage
    rwa [add_two_comm, add_two_comm] at read

theorem scalarFetch (related : T0By t u) (contract : Bus.DirectContract β)
    (even : u.pc.getLsbD 0 = false) (fresh : u.FreshFetch) :
    Matches Eq T0By (Core.scalarFetch u.pc u.hart.fetchContext t) u.fetch := by
  refine Matches.bind (related.scalarFetch16 contract fresh.low (inPage_half_of_even even)) ?_
  rintro half low t₁ u₁ run run' ⟨samePa, sameBits⟩ related₁
  obtain ⟨sameHart, samePc, -⟩ := fetchLow_sameCpu.of_ok run'
  rw [sameBits]
  by_cases short : isCompressed low.2
  · rw [if_pos short, if_pos short]
    exact .pure rfl related₁
  · rw [if_neg short, if_neg short]
    by_cases crosses : (u.pc + 2) &&& 0xfff#64 = 0#64
    · have freshHigh := fresh.high low u₁ run' (by simpa using short) crosses
      have second := related₁.scalarFetch16 contract freshHigh (inPage_half_of_boundary crosses)
      rw [sameHart] at second
      rw [if_pos crosses]
      rw [← samePc] at crosses
      have high : Matches (fun a b => a.bits = b) T0By
          (Core.scalarFetch16 (u.pc + 2) u.hart.fetchContext t₁) (Uncached.fetchHigh low.1 u₁) := by
        rw [Uncached.fetchHigh_crossing low.1 crosses, samePc]
        exact second.mapRight fun _ _ same => same.2
      refine .bind high ?_
      rintro half₂ bits t₂ u₂ - - rfl related₂
      exact .pure rfl related₂
    · rw [if_neg crosses]
      have inside : Uncached.fetchHigh low.1 u₁ = Uncached.fetch16 (low.1 + 2) u₁ :=
        Uncached.fetchHigh_inside low.1 (by rwa [samePc])
      cases direct : half.address with
      | none =>
        have high : Matches Eq T0By (Core.t0Fetch16 (half.pa + 2) t₁)
            (Uncached.fetchHigh low.1 u₁) := by
          rw [inside, samePa]
          exact related₁.t0Fetch16 (low.1 + 2)
        refine .bind high ?_
        rintro hi _ t₂ u₂ - - rfl related₂
        exact .pure rfl related₂
      | some address =>
        obtain ⟨tag, at_address, at_pa⟩ := scalarFetch16_address run direct
        rw [← samePc, ← sameHart] at tag
        have read := related₁.second_half contract (by rwa [samePc]) (by rwa [samePc]) tag
        have high : Uncached.fetchHigh low.1 u₁ = .ok (Bus.peek .half u₁.bus (address + 2)) u₁ := by
          rw [inside, ← samePa, at_pa, at_address, ← samePc]
          exact zoom_ok read
        rw [bind_ok _ high, ← related₁.bus]
        exact .ok rfl related₁

end T0By

/-! ## One round of the driver -/

/-- The driver's locals and committed CPU, and the uncached hart they stand for. -/
structure DrivenBy (d : Driver β) (u : Uncached β) : Prop where
  hart : d.sys.cpu.hart = u.hart
  pc : d.pc = u.pc
  insnCount : d.sys.cpu.insnCount + d.retired = u.insnCount
  bus : d.sys.bus = u.bus
  row : d.sys.cpu.fetch.row.Within u.seen
  context : d.context = u.hart.fetchContext
  capability : d.capability.Holds u.seen u.bus

/-- How a round ends: same reason and matching states, or both go on. -/
abbrev RoundMatches (a : (StopReason × System β) ⊕ Driver β)
    (b : (StopReason × Uncached β) ⊕ Uncached β) : Prop :=
  Sum.LiftRel (fun a b => a.1 = b.1 ∧ CachedBy a.2 b.2) DrivenBy a b

variable {s : System β}

variable {u : Uncached β}

omit [Bus β] in
theorem CachedBy.publish (related : CachedBy s u) (capability : FetchCapability) :
    CachedBy (publish s capability) u :=
  ⟨related.hart, related.pc, related.insnCount, related.bus, related.row⟩

theorem CachedBy.resume (related : CachedBy s u) (capability : FetchCapability) :
    DrivenBy (resume s capability) u where
  hart := related.hart
  pc := related.pc
  insnCount := by simpa [Driver.resume] using related.insnCount
  bus := related.bus
  row := related.row
  context := by rw [← related.hart]; rfl
  capability := .inl rfl

theorem CachedBy.raise (related : CachedBy s u) (system : Bool) (capability : FetchCapability)
    (e : Exception) :
    RoundMatches (raise system s capability e)
      (if system then .inr (u.trap e) else .inl (.trap e, u)) := by
  cases system with
  | true => exact .inr ((related.trap e).resume capability)
  | false => exact .inl ⟨rfl, related⟩

theorem T0By.committed {t : T0 β} (decoder : T0By t u) (d : Driver β) {pc retired : Word}
    (samePc : pc = u.pc) (sameCount : d.sys.cpu.insnCount + retired = u.insnCount) :
    CachedBy (commitState (d.stateAfter t) pc retired) u :=
  ⟨decoder.hart, samePc, sameCount, decoder.bus, decoder.row⟩

theorem T0By.ran {t : T0 β} (decoder : T0By t u) {m : Machine β} (moved : Bus.Evolves u.bus m.bus) :
    T0By (t.withMachine m) { u with hart := m.hart, bus := m.bus } :=
  ⟨rfl, rfl, decoder.row, decoder.capability.later (fun _ _ h => h) moved⟩

namespace DrivenBy

variable {d : Driver β} {u : Uncached β}

theorem committed (related : DrivenBy d u) : CachedBy (commitState d.sys d.pc d.retired) u :=
  ⟨related.hart, related.pc, related.insnCount, related.bus, related.row⟩

end DrivenBy

theorem checkInterrupts_evolves (pc insnCount : Word) (bus : β) :
    Bus.Evolves bus (checkInterrupts hart pc insnCount bus).2.2 ∧
      (checkInterrupts hart pc insnCount bus).2.1.mode? = hart.mode? := by
  unfold checkInterrupts
  cases system : hart.sys with
  | none => exact ⟨.refl bus, rfl⟩
  | some sys =>
    have sampled : Bus.Evolves bus (Bus.irqLines bus).2 := Bus.Evolves.op bus .irqLines
    simp only [mode?, system]
    split
    · exact ⟨sampled, rfl⟩
    · split <;> exact ⟨sampled, rfl⟩

theorem Uncached.checkInterrupts_untaken (untaken : u.checkInterrupts.1 = false) :
    u.checkInterrupts.2.seen = u.seen ∧ Bus.Evolves u.bus u.checkInterrupts.2.bus ∧
      u.checkInterrupts.2.hart.mode? = u.hart.mode? := by
  have evolves := checkInterrupts_evolves u.hart u.pc u.insnCount u.bus
  unfold Uncached.checkInterrupts at untaken ⊢
  rcases sampled : Core.checkInterrupts u.hart u.pc u.insnCount u.bus with ⟨target, hart, bus⟩
  rw [sampled] at evolves untaken
  cases target with
  | none => exact ⟨rfl, evolves⟩
  | some target => cases untaken

namespace DrivenBy

variable {d : Driver β} {u : Uncached β}

section

variable (related : DrivenBy d u)
include related

theorem poll : DrivenBy d.poll u.poll := by
  unfold Driver.poll Uncached.poll
  simp only [related.hart]
  by_cases due : u.hart.irqPollCd = 0#32
  · rw [if_pos due, if_pos due]
    have reset : CachedBy
        { commitState d.sys d.pc d.retired with
          cpu := { (commitState d.sys d.pc d.retired).cpu with
            hart := { u.hart with irqPollCd := IRQ_POLL_INTERVAL } } }
        { u with hart := { u.hart with irqPollCd := IRQ_POLL_INTERVAL } } :=
      ⟨rfl, related.pc, related.insnCount, related.bus, related.row⟩
    obtain ⟨sameTaken, checked⟩ := reset.checkInterrupts
    refine ⟨checked.hart, checked.pc, ?_, checked.bus, checked.row, ?_, ?_⟩
    · simpa using checked.insnCount
    · -- the context follows a taken trap and survives an untaken one
      rw [sameTaken]
      cases taken : (Uncached.checkInterrupts
          { u with hart := { u.hart with irqPollCd := IRQ_POLL_INTERVAL } }).1 with
      | true => rw [if_pos rfl, checked.hart]
      | false =>
        rw [if_neg Bool.false_ne_true, related.context]
        exact (fetchContext_of_mode (checkInterrupts_untaken taken).2.2).symm
    · rw [sameTaken]
      cases taken : (Uncached.checkInterrupts
          { u with hart := { u.hart with irqPollCd := IRQ_POLL_INTERVAL } }).1 with
      | true => exact .inl rfl
      | false =>
        obtain ⟨sameSeen, moved, -⟩ := checkInterrupts_untaken taken
        rw [if_neg Bool.false_ne_true, sameSeen]
        exact related.capability.later (fun _ _ h => h) moved
  · rw [if_neg due, if_neg due]
    exact ⟨rfl, related.pc, related.insnCount, related.bus, related.row, related.context,
      related.capability⟩

theorem pollIf (system : Bool) : DrivenBy (if system then d.poll else d) (u.pollIf system) := by
  cases system with
  | true => exact related.poll
  | false => exact related

theorem view : T0By d.view u :=
  ⟨related.hart, related.bus, related.row, related.capability⟩

theorem advance_inline {units : Units β} (system : Bool) {fetched : Fetched} {t₁ : T0 β}
    {u₁ : Uncached β} (decoder : T0By t₁ u₁)
    (fetchRun : scalarFetch d.pc d.context d.view = .ok fetched t₁)
    (fetchRun' : u.fetch = .ok fetched u₁) (runs : RunsLike Inlined (t0Body units d.pc fetched)
      (body units d.pc u₁.insnCount fetched)) : RoundMatches (d.advance units system)
      (u.advance units system) := by
  obtain ⟨sameHart, samePc, sameCount⟩ := fetch_sameCpu.of_ok fetchRun'
  have step : u.step units = commit (body units d.pc u₁.insnCount fetched) u₁ := by
    rw [Uncached.step, bind_ok _ fetchRun', get_bind, samePc, ← related.pc]
  have drives := t0Body_drives units d.pc fetched { hart := u₁.hart, bus := u₁.bus }
  have matched := runs { hart := u₁.hart, bus := u₁.bus }
  have sameMachine : t₁.machine = { hart := u₁.hart, bus := u₁.bus } := by
    rw [T0.machine, decoder.hart, decoder.bus]
  unfold Driver.advance Uncached.advance
  rw [step, commit, scalarT0Step, bind_ok _ fetchRun]
  cases bodyRun : body units d.pc u₁.insnCount fetched { hart := u₁.hart, bus := u₁.bus } with
  | error e m =>
    rw [bodyRun] at matched
    obtain ⟨_, run, rfl⟩ := matched.error_right
    rw [run] at drives
    rw [← sameMachine] at run
    rw [zoom_error run]
    have ran := decoder.ran drives.1
    exact (ran.committed d (related.pc.trans samePc.symm)
      (related.insnCount.trans sameCount.symm)).raise system _ e
  | ok outcome m =>
    rw [bodyRun] at matched
    obtain ⟨step, _, run, inlined, rfl⟩ := matched.ok_right
    rw [run] at drives
    rw [← sameMachine] at run
    rw [zoom_ok run]
    have ran := decoder.ran drives.1
    have count : d.sys.cpu.insnCount + (d.retired + 1) = u₁.insnCount + 1 := by
      rw [sameCount, ← related.insnCount, add_assoc]
    cases inlined with
    | retired pc =>
      refine .inr ⟨rfl, rfl, count, rfl, ran.row, ?_, ran.capability⟩
      rw [related.context, ← sameHart]
      exact (fetchContext_of_mode drives.2).symm
    | stop pc reason =>
      refine .inl ⟨rfl, .publish ?_ _⟩
      exact ⟨rfl, rfl, count, rfl, ran.row⟩

theorem advance_slow {units : Units β} (system : Bool) {fetched : Fetched} {t₁ : T0 β}
    {u₁ : Uncached β} (decoder : T0By t₁ u₁)
    (fetchRun : scalarFetch d.pc d.context d.view = .ok fetched t₁)
    (fetchRun' : u.fetch = .ok fetched u₁) (fresh : u₁.FreshFetch)
    (again : u₁.fetch = .ok fetched u₁) (slow : t0Body units d.pc fetched = pure .slow) :
    RoundMatches (d.advance units system) (u.advance units system) := by
  obtain ⟨sameHart, samePc, sameCount⟩ := fetch_sameCpu.of_ok fetchRun'
  have sameStep : u.step units = u₁.step units := by
    unfold Uncached.step
    rw [bind_ok _ fetchRun', bind_ok _ again]
  have cached : CachedBy (commitState (d.stateAfter t₁) d.pc d.retired) u₁ :=
    decoder.committed d (related.pc.trans samePc.symm) (related.insnCount.trans sameCount.symm)
  have matched := cached.step fresh units
  have handedBack : scalarT0Step units d.pc d.context d.view = .ok .slow t₁ := by
    rw [scalarT0Step, bind_ok _ fetchRun, slow]
    rfl
  unfold Driver.advance Uncached.advance
  rw [sameStep, handedBack]
  cases run : u₁.step units with
  | error e u₂ =>
    rw [run] at matched
    obtain ⟨s₂, run', related₂⟩ := matched.error_right
    simp only [run']
    exact related₂.raise system _ e
  | ok stop u₂ =>
    rw [run] at matched
    obtain ⟨stop', s₂, run', same, related₂⟩ := matched.ok_right
    subst same
    simp only [run']
    cases stop' with
    | none => exact .inr (related₂.resume _)
    | some reason => exact .inl ⟨rfl, related₂⟩

theorem advance (contract : Bus.DirectContract β) (discipline : u.FetchDiscipline) (units : Units β)
    (system : Bool) : RoundMatches (d.advance units system) (u.advance units system) := by
  have fetches := related.view.scalarFetch contract discipline.even discipline.fresh
  rw [← related.pc, ← related.context] at fetches
  cases fetchRun' : u.fetch with
  | error e u₁ =>
    obtain ⟨-, samePc, sameCount⟩ : SameCpu u u₁ := by
      simpa [fetchRun'] using fetch_sameCpu u
    rw [fetchRun'] at fetches
    obtain ⟨t₁, fetchRun, decoder⟩ := fetches.error_right
    have step : u.step units = .error e u₁ := bind_error _ fetchRun'
    unfold Driver.advance Uncached.advance
    rw [step, scalarT0Step, bind_error _ fetchRun]
    exact (decoder.committed d (related.pc.trans samePc.symm)
      (related.insnCount.trans sameCount.symm)).raise system _ e
  | ok fetched u₁ =>
    obtain ⟨fresh, again⟩ := discipline.repeats fetched u₁ fetchRun'
    rw [fetchRun'] at fetches
    obtain ⟨fetched', t₁, fetchRun, same, decoder⟩ := fetches.ok_right
    subst same
    rcases t0Body_inlines units d.pc u₁.insnCount fetched' with slow | runs
    · exact related.advance_slow system decoder fetchRun fetchRun' fresh again slow
    · exact related.advance_inline system decoder fetchRun fetchRun' runs

end

/-- In a disciplined run of the uncached hart, the driver keeps up with it. -/
theorem iterate (contract : Bus.DirectContract β) (units : Units β) (system : Bool) (budget : Nat)
    (related : DrivenBy d u) (disciplined : Disciplined units system budget u) :
    RoundMatches (iterate (Driver.round units system) budget d)
      (iterate (round units system) budget u) := by
  refine iterate_sim (G := Disciplined units system) ?_ ?_ budget d u related
    disciplined
  · rintro n d u related ⟨fetches, -⟩
    exact (related.pollIf system).advance contract fetches units system
  · rintro n u u' ⟨-, rest⟩ next
    exact rest u' next

end DrivenBy

end Rv64Js.Core
