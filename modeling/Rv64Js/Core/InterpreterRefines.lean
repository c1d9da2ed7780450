import Rv64Js.Core.Uncached
import Rv64Js.Core.Tags

/-! # The interpreter refines the uncached hart

In a disciplined run a hit in the fetch row is what the walk would have given,
so `run` and the uncached hart agree round by round. -/

set_option autoImplicit false

namespace Rv64Js.Core

open Loop
open Fallible

def Row.Within (row : Row) (seen : History) : Prop :=
  ∀ i, tlbIndex (row.tag i) = i → row.tag i = TLB_INVALID ∨ seen (row.tag i) (row.val i)

namespace Row.Within

variable {row : Row} {seen : History}

theorem learn (within : row.Within seen) (tag diff : Word) : row.Within (seen.learn tag diff) := by
  intro i home
  exact (within i home).imp id Or.inl

theorem fill (within : row.Within seen) (index : BitVec 12) (tag diff : Word) :
    (row.fill index tag diff).Within (seen.learn tag diff) := by
  intro i home
  by_cases at_index : i = index
  · right
    right
    simp [Row.fill, at_index]
  · have kept := within.learn tag diff i
    simp only [Row.fill, at_index, if_false] at home ⊢
    exact kept home

theorem invalidate (row : Row) (seen : History) : row.invalidate.Within seen :=
  fun _ _ => .inl rfl

theorem dropPage (within : row.Within seen) (va : Word) :
    (row.dropPage (tlbIndex va) (pageOf va)).Within (seen.apply (.flushPage va)) := by
  intro i home
  by_cases dropped : i = tlbIndex va ∧ pageOf (row.tag i) = pageOf va
  · left
    simp only [Row.dropPage, if_pos dropped]
  · simp only [Row.dropPage, if_neg dropped] at home ⊢
    refine (within i home).imp id fun known => ⟨known, ?_⟩
    intro samePage
    -- an entry of the fenced page in its own slot would have been dropped
    exact dropped ⟨home.symm.trans (tlbIndex_of_page samePage), samePage⟩

end Row.Within

theorem FetchCache.apply_within {cache : FetchCache} {seen : History}
    (within : cache.row.Within seen) (op : FetchOp) :
    (cache.apply op).row.Within (seen.apply op) := by
  cases op with
  | keep => exact within
  | flush => exact .invalidate _ _
  | flushPage va => exact within.dropPage va

variable {β : Type} [Bus β]

/-- A translation through the fetch row, when the row holds seen translations
only and the one for `va` is fresh, is the walk. -/
theorem translateIn_fetch {row : Row} {u : Uncached β} (within : row.Within u.seen) {va : Word}
    (fresh : u.Fresh va) : match fetchWalk u.hart va u.bus with
    | .ok pa bus => ∃ row', translateIn row u.hart va .fetch u.bus = .ok (pa, row') bus ∧
        row'.Within (u.seen.learn (u.hart.translationTag va .fetch) (pa - va))
    | .error e bus => translateIn row u.hart va .fetch u.bus = .error e bus := by
  cases system : u.hart.sys with
  | none =>
    simp only [fetchWalk, translateIn, system]
    exact ⟨row, rfl, within.learn _ _⟩
  | some sys =>
    by_cases hit : row.tag (tlbIndex va) = u.hart.translationTag va .fetch
    · -- a hit is a seen translation, and those are fresh
      have home : tlbIndex (row.tag (tlbIndex va)) = tlbIndex va := by
        rw [hit, tlbIndex_translationTag]
      have seen : u.seen (u.hart.translationTag va .fetch) (row.val (tlbIndex va)) := by
        rcases within _ home with invalid | known
        · exact absurd (hit.symm.trans invalid) (translationTag_ne_invalid _ _ _)
        · rwa [hit] at known
      rw [fresh _ seen]
      refine ⟨row, ?_, within.learn _ _⟩
      simp only [translateIn, system, hit, if_true]
      rfl
    · cases walked : walk sys va .fetch u.bus with
      | ok result bus =>
        have direct : fetchWalk u.hart va u.bus = .ok result.pa bus := by
          simp only [fetchWalk, system, walked]
        rw [direct]
        refine ⟨if result.cached then
            row.fill (tlbIndex va) (u.hart.translationTag va .fetch) (result.pa - va)
          else row, ?_, ?_⟩
        · simp only [translateIn, system, if_neg hit]
          exact bind_ok _ walked
        · by_cases cached : result.cached
          · rw [if_pos cached]
            exact within.fill _ _ _
          · rw [if_neg cached]
            exact within.learn _ _
      | error e bus =>
        have direct : fetchWalk u.hart va u.bus = .error e bus := by
          simp only [fetchWalk, system, walked]
        rw [direct]
        simp only [translateIn, system, if_neg hit]
        exact bind_error _ walked

/-- The system is the uncached hart plus a fetch row of seen translations. -/
structure CachedBy (s : System β) (u : Uncached β) : Prop where
  hart : s.cpu.hart = u.hart
  pc : s.cpu.pc = u.pc
  insnCount : s.cpu.insnCount = u.insnCount
  bus : s.bus = u.bus
  row : s.cpu.fetch.row.Within u.seen

namespace CachedBy

variable {s : System β} {u : Uncached β}

theorem translateFetch (related : CachedBy s u) {va : Word} (fresh : u.Fresh va) :
    Matches Eq CachedBy (s.translateFetch va) (u.translateFetch va) := by
  have same := translateIn_fetch related.row fresh
  unfold System.translateFetch Uncached.translateFetch
  rw [related.hart, related.bus]
  cases walked : fetchWalk u.hart va u.bus with
  | ok pa bus =>
    rw [walked] at same
    obtain ⟨row, run, within⟩ := same
    rw [run]
    exact .ok rfl ⟨related.hart, related.pc, related.insnCount, rfl, within⟩
  | error e bus =>
    rw [walked] at same
    rw [same]
    exact .error ⟨related.hart, related.pc, related.insnCount, rfl, related.row⟩

theorem fetch16 (related : CachedBy s u) (pa : Word) :
    Matches Eq CachedBy (System.fetch16 pa s) (Uncached.fetch16 pa u) :=
  .zoom _ related.bus fun _ =>
    ⟨related.hart, related.pc, related.insnCount, rfl, related.row⟩

omit [Bus β] in
theorem commit (related : CachedBy s u) (instr : Exec β Outcome) :
    Matches Eq CachedBy (s.commit instr) (u.commit instr) := by
  unfold System.commit Uncached.commit
  rw [related.hart, related.bus]
  cases instr { hart := u.hart, bus := u.bus } with
  | ok outcome m =>
    refine Matches.ok rfl ⟨rfl, rfl, ?_, rfl, FetchCache.apply_within related.row _⟩
    simp only [related.insnCount]
  | error e m => exact .error ⟨rfl, related.pc, related.insnCount, rfl, related.row⟩

omit [Bus β] in
theorem redirect (related : CachedBy s u) (target : Redirect) :
    CachedBy (s.redirect target) (u.redirect target) :=
  ⟨rfl, rfl, related.insnCount, related.bus, FetchCache.apply_within related.row _⟩

omit [Bus β] in
theorem trap (related : CachedBy s u) (e : Exception) : CachedBy (s.trap e) (u.trap e) := by
  unfold System.trap Uncached.trap
  rw [related.hart, related.pc, related.insnCount]
  exact related.redirect _

omit [Bus β] in
theorem withHart (related : CachedBy s u) (hart : Hart) (bus : β) :
    CachedBy { cpu := { s.cpu with hart := hart }, bus := bus }
      { u with hart := hart, bus := bus } :=
  ⟨rfl, related.pc, related.insnCount, rfl, related.row⟩

theorem checkInterrupts (related : CachedBy s u) : s.checkInterrupts.1 = u.checkInterrupts.1 ∧
      CachedBy s.checkInterrupts.2 u.checkInterrupts.2 := by
  unfold System.checkInterrupts Uncached.checkInterrupts
  rw [related.hart, related.pc, related.insnCount, related.bus]
  rcases Core.checkInterrupts u.hart u.pc u.insnCount u.bus with ⟨target, hart, bus⟩
  cases target with
  | none => exact ⟨rfl, related.withHart hart bus⟩
  | some target => exact ⟨rfl, (related.withHart hart bus).redirect target⟩

theorem poll (related : CachedBy s u) : CachedBy s.poll u.poll := by
  have withCountdown : ∀ hart : Hart,
      CachedBy { s with cpu := { s.cpu with hart := hart } } { u with hart := hart } := fun _ =>
    ⟨rfl, related.pc, related.insnCount, related.bus, related.row⟩
  unfold System.poll Uncached.poll
  rw [related.hart]
  by_cases due : u.hart.irqPollCd = 0#32
  · simp only [if_pos due]
    exact (withCountdown _).checkInterrupts.2
  · simp only [if_neg due]
    exact withCountdown _

theorem fetchLow (related : CachedBy s u) (fresh : u.Fresh u.pc) :
    Matches Eq CachedBy s.fetchLow u.fetchLow := by
  have first : Matches Eq CachedBy (s.translateFetch s.cpu.pc) (u.translateFetch u.pc) := by
    rw [related.pc]
    exact related.translateFetch fresh
  rw [System.fetchLow, Uncached.fetchLow, get_bind, get_bind]
  refine .bind first ?_
  rintro pa _ s₁ u₁ - - rfl related₁
  refine Matches.bind (related₁.fetch16 pa) ?_
  rintro lo _ s₂ u₂ - - rfl related₂
  exact .pure rfl related₂

theorem fetchHigh (related : CachedBy s u) (pa : Word)
    (fresh : (u.pc + 2) &&& 0xfff#64 = 0#64 → u.Fresh (u.pc + 2)) :
    Matches Eq CachedBy (System.fetchHigh pa s) (Uncached.fetchHigh pa u) := by
  have address : Matches Eq CachedBy (System.highAddress pa s) (Uncached.highAddress pa u) := by
    rw [System.highAddress, Uncached.highAddress, get_bind, get_bind, related.pc]
    by_cases crosses : (u.pc + 2) &&& 0xfff#64 = 0#64
    · rw [if_pos crosses, if_pos crosses]
      exact related.translateFetch (fresh crosses)
    · rw [if_neg crosses, if_neg crosses]
      exact .pure rfl related
  refine .bind address ?_
  rintro pa2 _ s₁ u₁ - - rfl related₁
  exact related₁.fetch16 pa2

end CachedBy

/-! ## Fetching leaves hart, pc and count alone -/

namespace Uncached

def SameCpu (u u' : Uncached β) : Prop :=
  u'.hart = u.hart ∧ u'.pc = u.pc ∧ u'.insnCount = u.insnCount

omit [Bus β] in
theorem SameCpu.refl (u : Uncached β) : SameCpu u u := ⟨rfl, rfl, rfl⟩

omit [Bus β] in
theorem SameCpu.trans (a b c : Uncached β) (first : SameCpu a b) (second : SameCpu b c) :
    SameCpu a c :=
  ⟨second.1.trans first.1, second.2.1.trans first.2.1, second.2.2.trans first.2.2⟩

theorem translateFetch_sameCpu (va : Word) :
    Along SameCpu (translateFetch va : EStateM Exception (Uncached β) Word) := by
  intro u
  unfold Uncached.translateFetch
  cases fetchWalk u.hart va u.bus <;> exact .refl u

theorem fetch16_sameCpu (pa : Word) :
    Along SameCpu (fetch16 pa : EStateM Exception (Uncached β) (BitVec 16)) :=
  .zoom (R := fun _ _ => True) (fun _ _ _ => ⟨rfl, rfl, rfl⟩) fun _ => trivial

theorem fetchLow_sameCpu : Along SameCpu (fetchLow : EStateM Exception (Uncached β) _) := by
  refine .bind SameCpu.trans (.get SameCpu.refl) fun u => ?_
  refine .bind SameCpu.trans (translateFetch_sameCpu u.pc) fun pa => ?_
  exact .bind SameCpu.trans (fetch16_sameCpu pa) fun lo => .pure SameCpu.refl _

theorem fetchHigh_sameCpu (pa : Word) :
    Along SameCpu (fetchHigh pa : EStateM Exception (Uncached β) _) := by
  refine .bind SameCpu.trans ?_ fun pa2 => fetch16_sameCpu pa2
  refine .bind SameCpu.trans (.get SameCpu.refl) fun u => ?_
  exact .ite (translateFetch_sameCpu _) (.pure SameCpu.refl _)

theorem fetch_sameCpu : Along SameCpu (fetch : EStateM Exception (Uncached β) _) := by
  refine .bind SameCpu.trans fetchLow_sameCpu fun low => ?_
  refine .ite (.pure SameCpu.refl _) ?_
  exact .bind SameCpu.trans (fetchHigh_sameCpu _) fun hi => .pure SameCpu.refl _

end Uncached

/-! ## One round, and the whole run -/

namespace CachedBy

variable {s : System β} {u : Uncached β}

theorem fetch (related : CachedBy s u) (fresh : u.FreshFetch) :
    Matches Eq CachedBy s.fetch u.fetch := by
  refine .bind (related.fetchLow fresh.low) ?_
  rintro low _ s₁ u₁ - run rfl related₁
  by_cases short : isCompressed low.2
  · rw [if_pos short, if_pos short]
    exact .pure rfl related₁
  · rw [if_neg short, if_neg short]
    have samePc := (Uncached.fetchLow_sameCpu.of_ok run).2.1
    have freshHigh : (u₁.pc + 2) &&& 0xfff#64 = 0#64 → u₁.Fresh (u₁.pc + 2) := by
      rw [samePc]
      exact fresh.high low u₁ run (by simpa using short)
    refine .bind (related₁.fetchHigh low.1 freshHigh) ?_
    rintro hi _ s₂ u₂ - - rfl related₂
    exact .pure rfl related₂

theorem step (related : CachedBy s u) (fresh : u.FreshFetch) (units : Units β) :
    Matches Eq CachedBy (s.step units) (u.step units) := by
  refine .bind (related.fetch fresh) ?_
  rintro fetched _ s₁ u₁ - - rfl related₁
  rw [get_bind, get_bind, related₁.pc, related₁.insnCount]
  exact related₁.commit _

theorem advance (related : CachedBy s u) (fresh : u.FreshFetch) (units : Units β) (system : Bool) :
    Sum.LiftRel (fun a b => a.1 = b.1 ∧ CachedBy a.2 b.2) CachedBy (match s.step units with
        | .ok none s => .inr s
        | .ok (some stop) s => .inl (stop, s)
        | .error e s => if system then .inr (s.trap e) else .inl (.trap e, s))
      (u.advance units system) := by
  have matched := related.step fresh units
  unfold Uncached.advance
  cases stepped : u.step units with
  | ok stop u₁ =>
    rw [stepped] at matched
    obtain ⟨stop', s₁, run, same, related₁⟩ := matched.ok_right
    subst same
    rw [run]
    cases stop' with
    | none => exact .inr related₁
    | some stop => exact .inl ⟨rfl, related₁⟩
  | error e u₁ =>
    rw [stepped] at matched
    obtain ⟨s₁, run, related₁⟩ := matched.error_right
    rw [run]
    cases system with
    | true => exact .inr (related₁.trap e)
    | false => exact .inl ⟨rfl, related₁⟩

theorem pollIf (related : CachedBy s u) (system : Bool) :
    CachedBy (if system then s.poll else s) (u.pollIf system) := by
  cases system with
  | true => exact related.poll
  | false => exact related

/-- In a disciplined run of the uncached hart, `run` keeps up with it. -/
theorem iterate (units : Units β) (system : Bool) (budget : Nat) (related : CachedBy s u)
    (disciplined : Uncached.Disciplined units system budget u) :
    Sum.LiftRel (fun a b => a.1 = b.1 ∧ CachedBy a.2 b.2) CachedBy
      (iterate (System.runRound units system) budget s)
      (iterate (Uncached.round units system) budget u) := by
  refine iterate_sim (G := Uncached.Disciplined units system) ?_ ?_ budget s u related
    disciplined
  · rintro n s u related ⟨fetches, -⟩
    exact (related.pollIf system).advance fetches.fresh units system
  · rintro n u u' ⟨-, rest⟩ next
    exact rest u' next

end CachedBy

end Rv64Js.Core
