import Rv64Js.Jit.Engine
import Rv64Js.Board.CodePages

/-! # The page index covers the code cache

A dirty page drops the entries listed for it, so every entry has to be listed under the page of its
first instruction and each page of its function. Installation keeps that if a pc that has an entry
is already listed where the new function needs it. -/

set_option autoImplicit false

namespace Rv64Js.Jit

open Rv64Js.Core Rv64Js.Board BitVec Engine Function List

/-! ## Page indices -/

theorem toNat_sub_base_mod (pp : Word) : (pp - RAM_BASE).toNat % 4096 = pp.toNat % 4096 := by
  rw [toNat_sub, show RAM_BASE.toNat = 0x80000000 from rfl]
  omega

theorem CodePage.index_add (page : CodePage) {off : Word} (small : off.toNat < 4096) :
    pageIndex (page.pp + off) = pageIndex page.pp := by
  have aligned := toNat_sub_base_mod page.pp
  rw [page.toNat_mod] at aligned
  have moved : page.pp + off - RAM_BASE = (page.pp - RAM_BASE) + off := by grind
  rw [pageIndex_eq, pageIndex_eq, moved, toNat_add, Nat.mod_eq_of_lt (by omega)]
  omega

theorem pageOffset_lt (va : Word) : (va &&& 0xfff#64).toNat < 4096 := by
  rw [toNat_pageOffset]
  exact Nat.mod_lt _ (by decide)

theorem pageIndex_pageOf (pa : Word) : pageIndex (pageOf pa) = pageIndex pa := by
  have whole := (CodePage.of 0 pa).index_add (pageOffset_lt pa)
  rw [show (CodePage.of 0 pa).pp + (pa &&& 0xfff#64) = pa from pageOf_add_offset pa] at whole
  exact whole.symm

/-! ## Registration -/

namespace JitState

theorem mem_register {jit : JitState} {pc pp x : Word} {page : Nat} :
    x ∈ (jit.register pc pp).pageBlocks page ↔
      x ∈ jit.pageBlocks page ∨ page = pageIndex pp ∧ x = pc := by
  by_cases same : page = pageIndex pp
  · subst same
    simp [register]
  · simp [register, same]

theorem mem_registerAll {jit : JitState} {pc x : Word} {pages : List CodePage} {page : Nat} :
    x ∈ (jit.registerAll pc pages).pageBlocks page ↔
      x ∈ jit.pageBlocks page ∨ (∃ p ∈ pages, page = pageIndex p.pp) ∧ x = pc := by
  induction pages generalizing jit with
  | nil => simp [registerAll]
  | cons first pages ih =>
    change x ∈ ((jit.register pc first.pp).registerAll pc pages).pageBlocks page ↔ _
    rw [ih, mem_register, exists_mem_cons_iff]
    tauto

theorem registerAll_cache (jit : JitState) (pc : Word) (pages : List CodePage) :
    (jit.registerAll pc pages).cache = jit.cache ∧
    (jit.registerAll pc pages).regions = jit.regions := by
  induction pages generalizing jit with
  | nil => exact ⟨rfl, rfl⟩
  | cons first pages ih => exact ih (jit.register pc first.pp)

theorem registerLanded_eq (jit : JitState) (e : Word) (fresh : Bool) (pi : Nat)
    (pages : List CodePage) :
    jit.registerLanded e fresh pi pages =
      jit.registerAll e ((pages.zipIdx.filter fun page => page.2 ≠ pi || fresh).map Prod.fst) := by
  unfold registerLanded registerAll
  generalize pages.zipIdx = numbered
  induction numbered generalizing jit with
  | nil => rfl
  | cons page rest ih =>
    rw [foldl_cons, ih]
    by_cases skip : page.2 = pi ∧ ¬ fresh = true
    · simp [skip]
    · have kept : (decide (page.2 ≠ pi) || fresh) = true := by
        cases fresh <;> simp_all
      rw [if_neg skip, filter_cons, if_pos kept]
      rfl

end JitState

/-! ## The invariant -/

/-- Every entry is listed under the page of its code and under each page of its function. -/
structure Indexed (jit : JitState) : Prop where
  entry : ∀ pc b, jit.cache pc = some (some b) → pc ∈ jit.pageBlocks (pageIndex b.pa)
  region : ∀ pc b pages, jit.cache pc = some (some b) → jit.regions b.idx = some pages →
    ∀ page ∈ pages, pc ∈ jit.pageBlocks (pageIndex page.pp)

/-- The pages an entry has to be listed under. -/
def JitState.Spans (jit : JitState) (b : JitBlock) (page : Nat) : Prop :=
  page = pageIndex b.pa ∨
    ∃ pages, jit.regions b.idx = some pages ∧ ∃ p ∈ pages, page = pageIndex p.pp

/-- Entries are listed under their pages, and no entry or region uses the index, or one above it. -/
structure Covers (jit : JitState) (next : Int) : Prop where
  listed : ∀ pc b page, jit.cache pc = some (some b) → jit.Spans b page → pc ∈ jit.pageBlocks page
  entry : ∀ pc b, jit.cache pc = some (some b) → b.idx < next
  region : ∀ idx pages, jit.regions idx = some pages → 0 ≤ idx ∧ idx < next

def Listed (jit : JitState) (pc : Word) (pages : List CodePage) : Prop :=
  ∀ page ∈ pages, pc ∈ jit.pageBlocks (pageIndex page.pp)

theorem update_found {κ α : Type} [DecidableEq κ] {table : κ → Option α} {key key' : κ}
    {v : Option α} {a : α} (found : update table key v key' = some a) :
    key' = key ∧ v = some a ∨ key' ≠ key ∧ table key' = some a := by
  rw [update_apply] at found
  split_ifs at found with same
  · exact .inl ⟨same, found⟩
  · exact .inr ⟨same, found⟩

namespace Covers

variable {jit jit' : JitState} {next next' : Int}

theorem indexed (covers : Covers jit next) : Indexed jit where
  entry pc b found := covers.listed pc b _ found (.inl rfl)
  region pc b pages found region page mem :=
    covers.listed pc b _ found (.inr ⟨pages, region, page, mem, rfl⟩)

theorem mono (covers : Covers jit next) (le : next ≤ next') : Covers jit next' where
  listed := covers.listed
  entry pc b found := (covers.entry pc b found).trans_le le
  region idx pages found := ⟨(covers.region idx pages found).1,
    (covers.region idx pages found).2.trans_le le⟩

/-- A new entry is covered when it is listed under its pages, and only then does the index grow. -/
theorem insert (covers : Covers jit next) {pc : Word} {b : JitBlock}
    (cache : jit'.cache = update jit.cache pc (some (some b)))
    (grows : ∀ x page, x ∈ jit.pageBlocks page → x ∈ jit'.pageBlocks page)
    (old : ∀ pc' b' page, jit.cache pc' = some (some b') → jit'.Spans b' page → jit.Spans b' page)
    (own : ∀ page, jit'.Spans b page → pc ∈ jit'.pageBlocks page)
    (le : next ≤ next') (used : b.idx < next')
    (region : ∀ idx pages, jit'.regions idx = some pages → 0 ≤ idx ∧ idx < next') :
    Covers jit' next' := by
  refine ⟨fun pc' b' page found spans => ?_, fun pc' b' found => ?_, region⟩
  · rw [cache] at found
    rcases update_found found with ⟨rfl, ⟨⟩⟩ | ⟨-, there⟩
    · exact own page spans
    · exact grows _ _ (covers.listed pc' b' page there (old pc' b' page there spans))
  · rw [cache] at found
    rcases update_found found with ⟨-, ⟨⟩⟩ | ⟨-, there⟩
    · exact used
    · exact (covers.entry pc' b' there).trans_le le

end Covers

/-! ## Installed blocks -/

namespace JitState

variable (jit : JitState) (pc : Word) (b : JitBlock) (spanned : List CodePage)

theorem recordRegion_cache (idx : Int) : (jit.recordRegion idx spanned).cache = jit.cache ∧
      (jit.recordRegion idx spanned).pageBlocks = jit.pageBlocks := by
  unfold recordRegion
  split <;> exact ⟨rfl, rfl⟩

theorem recordRegion_regions {idx idx' : Int} {pages : List CodePage}
    (found : (jit.recordRegion idx spanned).regions idx' = some pages) :
    idx' = idx ∧ pages = spanned ∨ jit.regions idx' = some pages := by
  unfold recordRegion at found
  split at found
  · rcases update_found found with ⟨same, ⟨⟩⟩ | ⟨-, old⟩
    · exact .inl ⟨same, rfl⟩
    · exact .inr old
  · exact .inr found

theorem install_cache : (jit.install pc b spanned).cache = update jit.cache pc (some (some b)) := by
  unfold install
  have recorded := (jit.recordRegion_cache spanned b.idx).1
  cases (jit.cache pc).isNone with
  | true =>
    change (registerAll _ pc spanned).cache = _
    rw [(registerAll_cache _ pc spanned).1, insert, recorded]
  | false =>
    change (insert _ pc b).cache = _
    rw [insert, recorded]

theorem install_regions :
    (jit.install pc b spanned).regions = (jit.recordRegion b.idx spanned).regions := by
  unfold install
  cases (jit.cache pc).isNone with
  | true => exact (registerAll_cache _ pc spanned).2
  | false => rfl

theorem mem_install {x : Word} {page : Nat} : x ∈ (jit.install pc b spanned).pageBlocks page ↔
      x ∈ jit.pageBlocks page ∨ jit.cache pc = none ∧ (∃ p ∈ spanned, page = pageIndex p.pp) ∧
      x = pc := by
  have recorded := (jit.recordRegion_cache spanned b.idx).2
  unfold install
  cases found : jit.cache pc with
  | none =>
    change x ∈ (registerAll _ pc spanned).pageBlocks page ↔ _
    rw [mem_registerAll, insert, recorded]
    simp
  | some entry =>
    change x ∈ (insert _ pc b).pageBlocks page ↔ _
    rw [insert, recorded]
    simp

end JitState

section Install

variable {jit : JitState} {pc : Word} {b : JitBlock} {spanned : List CodePage} {next : Int}

theorem listed_install (listed : jit.cache pc ≠ none → Listed jit pc spanned) :
    Listed (jit.install pc b spanned) pc spanned := by
  intro page mem
  rw [JitState.mem_install]
  by_cases fresh : jit.cache pc = none
  · exact .inr ⟨fresh, ⟨page, mem, rfl⟩, rfl⟩
  · exact .inl (listed fresh page mem)

theorem Covers.spans_record (covers : Covers jit next) {pc' : Word} {b' : JitBlock}
    (found : jit.cache pc' = some (some b')) {jit' : JitState}
    (regions : jit'.regions = (jit.recordRegion next spanned).regions) {page : Nat}
    (spans : jit'.Spans b' page) : jit.Spans b' page := by
  refine spans.imp_right fun ⟨pages, region, inPages⟩ => ⟨pages, ?_, inPages⟩
  rw [regions] at region
  rcases jit.recordRegion_regions spanned region with ⟨same, -⟩ | old
  · exact absurd (covers.entry pc' b' found) (by omega)
  · exact old

theorem Covers.region_record (covers : Covers jit next) (nonneg : 0 ≤ next) {jit' : JitState}
    (regions : jit'.regions = (jit.recordRegion next spanned).regions) (idx : Int)
    (pages : List CodePage) (region : jit'.regions idx = some pages) :
    0 ≤ idx ∧ idx < next + 1 ∧ (idx = next → pages = spanned) := by
  rw [regions] at region
  rcases jit.recordRegion_regions spanned region with ⟨rfl, rfl⟩ | old
  · exact ⟨nonneg, Int.lt_succ _, fun _ => rfl⟩
  · have := covers.region idx pages old
    omega

theorem Covers.install (covers : Covers jit b.idx) (nonneg : 0 ≤ b.idx)
    (own : ∃ page ∈ spanned, pageIndex page.pp = pageIndex b.pa)
    (listed : jit.cache pc ≠ none → Listed jit pc spanned) :
    Covers (jit.install pc b spanned) (b.idx + 1) := by
  have after := listed_install (b := b) listed
  have regions := jit.install_regions pc b spanned
  have recorded := covers.region_record nonneg regions
  refine covers.insert (jit.install_cache pc b spanned)
    (fun x page old => (jit.mem_install pc b spanned).mpr (.inl old))
    (fun pc' b' page found spans => covers.spans_record found regions spans) ?_
    (Int.le_add_one (Int.le_refl _)) (Int.lt_succ _)
    fun idx pages region => ⟨(recorded idx pages region).1, (recorded idx pages region).2.1⟩
  rintro page (rfl | ⟨pages, region, p, mem, rfl⟩)
  · obtain ⟨page, mem, same⟩ := own
    exact same ▸ after page mem
  · exact after p ((recorded _ pages region).2.2 rfl ▸ mem)

theorem JitState.blacklist_eq {pa : Word} (fresh : jit.cache pc = none) : jit.blacklist pc pa =
    (jit.insert pc { fp := false, idx := -1, n := 0, pa := pa }).register pc pa := by
  rw [JitState.blacklist, fresh]
  rfl

theorem Covers.blacklist (covers : Covers jit next) (some_index : 0 ≤ next) {pa : Word}
    (fresh : jit.cache pc = none) : Covers (jit.blacklist pc pa) next := by
  rw [JitState.blacklist_eq fresh]
  refine covers.insert rfl (fun x page old => JitState.mem_register.mpr (.inl old))
    (fun _ _ _ _ spans => spans) ?_ (Int.le_refl _)
    (lt_of_lt_of_le (show (-1 : Int) < 0 by decide) some_index) covers.region
  rintro page (rfl | ⟨pages, region, -⟩)
  · exact JitState.mem_register.mpr (.inr ⟨rfl, rfl⟩)
  · exact absurd (covers.region (-1) pages region).1 (by decide)

end Install

/-! ## Landed regions -/

/-- An entry that already has a block is listed under the page it lies in. -/
def LandsListed (jit : JitState) (keepMin : Nat) (pages : List CodePage) (e : Word) : Prop :=
  jit.cache e ≠ none → jit.keepsTrace keepMin e = false →
    ∀ page ∈ pages, page.va = pageOf e → e ∈ jit.pageBlocks (pageIndex page.pp)

namespace JitState

variable (jit : JitState) (keepMin : Nat) (idx : Int) (pages : List CodePage)

/-- What landing an entry does: nothing, or a block whose pages are registered. -/
theorem landEntry_cases (e : Word) : landEntry keepMin idx pages jit e = jit ∨
      ∃ pi, ∃ bound : pi < pages.length, (pages.get ⟨pi, bound⟩).va = pageOf e ∧
      jit.keepsTrace keepMin e = false ∧
        (landEntry keepMin idx pages jit e).cache = update jit.cache e
          (some (some { fp := false, idx := idx, n := 0,
                        pa := (pages.get ⟨pi, bound⟩).pp + (e &&& 0xfff#64) })) ∧
        (landEntry keepMin idx pages jit e).regions = jit.regions ∧
        ∀ x page, x ∈ (landEntry keepMin idx pages jit e).pageBlocks page ↔
          x ∈ jit.pageBlocks page ∨ x = e ∧ ∃ k, ∃ inside : k < pages.length,
            (k ≠ pi ∨ jit.cache e = none) ∧ page = pageIndex (pages.get ⟨k, inside⟩).pp := by
  unfold landEntry
  cases search : pages.findIdx? fun page => page.va = pageOf e with
  | none => exact .inl rfl
  | some pi =>
    obtain ⟨bound, here, -⟩ := findIdx?_eq_some_iff_getElem.mp search
    simp only
    cases keeps : jit.keepsTrace keepMin e with
    | true => exact .inl (if_pos rfl)
    | false =>
      refine .inr ⟨pi, bound, by simpa using here, rfl, ?_⟩
      rw [if_neg Bool.false_ne_true, registerLanded_eq]
      refine ⟨?_, (registerAll_cache _ _ _).2, ?_⟩
      · rw [(registerAll_cache _ _ _).1, insert]
        simp [bound]
      · intro x page
        change x ∈ (registerAll _ e _).pageBlocks page ↔ _
        rw [mem_registerAll, insert]
        refine or_congr Iff.rfl ⟨?_, ?_⟩
        · rintro ⟨⟨p, mem, rfl⟩, rfl⟩
          obtain ⟨⟨p', k⟩, numbered, rfl⟩ := mem_map.mp mem
          obtain ⟨member, kept⟩ := List.mem_filter.mp numbered
          obtain ⟨inside, rfl⟩ :=
            List.getElem?_eq_some_iff.mp (List.mk_mem_zipIdx_iff_getElem?.mp member)
          exact ⟨rfl, k, inside, by simpa using kept, rfl⟩
        · rintro ⟨rfl, k, inside, kept, rfl⟩
          refine ⟨⟨pages.get ⟨k, inside⟩, ?_, rfl⟩, rfl⟩
          refine mem_map.mpr ⟨(pages.get ⟨k, inside⟩, k), mem_filter.mpr ⟨?_, ?_⟩, rfl⟩
          · exact mk_mem_zipIdx_iff_getElem?.mpr (getElem?_eq_getElem inside)
          · simpa using kept

end JitState

section Landing

variable {jit : JitState} {keepMin : Nat} {idx : Int} {pages : List CodePage} {entries : List Word}

/-- What holds while the entries of a region land one after the other. -/
structure Landing (jit : JitState) (keepMin : Nat) (idx : Int) (pages : List CodePage)
    (entries : List Word) : Prop where
  covers : Covers jit (idx + 1)
  region : ∀ found, jit.regions idx = some found → found = pages
  ready : ∀ e ∈ entries, LandsListed jit keepMin pages e

theorem Landing.start (covers : Covers jit idx) (nonneg : 0 ≤ idx)
    (ready : ∀ e ∈ entries, LandsListed jit keepMin pages e) (exits : Int → Option (List Word)) :
    Landing { jit.recordRegion idx pages with regionExits := exits } keepMin idx pages entries := by
  obtain ⟨cache, blocks⟩ := jit.recordRegion_cache pages idx
  have recorded := covers.region_record nonneg (rfl : (jit.recordRegion idx pages).regions = _)
  refine ⟨⟨fun pc b page found spans => ?_, fun pc b found => ?_, fun idx' found region => ?_⟩,
    fun found region => (recorded idx found region).2.2 rfl, fun e mem => ?_⟩
  · dsimp only at found ⊢
    rw [cache] at found
    rw [blocks]
    exact covers.listed pc b page found (covers.spans_record found rfl spans)
  · dsimp only at found
    rw [cache] at found
    exact (covers.entry pc b found).trans (Int.lt_succ idx)
  · exact ⟨(recorded idx' found region).1, (recorded idx' found region).2.1⟩
  · have listed := ready e mem
    unfold LandsListed JitState.keepsTrace at listed ⊢
    rwa [cache, blocks]

theorem Landing.entry (landing : Landing jit keepMin idx pages entries) {e : Word}
    (mem : e ∈ entries) :
    Landing (.landEntry keepMin idx pages jit e) keepMin idx pages entries := by
  rcases jit.landEntry_cases keepMin idx pages e with same
    | ⟨pi, bound, here, replaces, cache, regions, blocks⟩
  · rw [same]
    exact landing
  generalize JitState.landEntry keepMin idx pages jit e = jit' at cache regions blocks
  have grows : ∀ x page, x ∈ jit.pageBlocks page → x ∈ jit'.pageBlocks page :=
    fun x page old => (blocks x page).mpr (.inl old)
  -- the entry is registered under every page but its own, and there too unless it is listed
  have listed : Listed jit' e pages := by
    intro page inPages
    obtain ⟨k, inside, rfl⟩ := getElem_of_mem inPages
    rw [blocks]
    by_cases own : k ≠ pi ∨ jit.cache e = none
    · exact .inr ⟨rfl, k, inside, own, rfl⟩
    · push Not at own
      obtain ⟨rfl, occupied⟩ := own
      exact .inl (landing.ready e mem occupied replaces _ inPages here)
  refine ⟨landing.covers.insert cache grows ?_ ?_ (Int.le_refl _) (Int.lt_succ idx) ?_, ?_, ?_⟩
  · exact fun pc' b' page _ spans => by rwa [JitState.Spans, regions] at spans
  · rintro page (rfl | ⟨found, region, p, inPages, rfl⟩)
    · rw [CodePage.index_add _ (pageOffset_lt e)]
      exact listed _ (get_mem pages ⟨pi, bound⟩)
    · rw [regions] at region
      exact listed p (landing.region found region ▸ inPages)
  · rw [regions]
    exact landing.covers.region
  · rw [regions]
    exact landing.region
  · intro e' mem' occupied replaced page inPages at_page
    by_cases self : e' = e
    · subst self
      exact listed page inPages
    · unfold JitState.keepsTrace at replaced
      rw [cache, update_of_ne self] at occupied replaced
      exact grows _ _ (landing.ready e' mem' occupied replaced page inPages at_page)

theorem Landing.all (landing : Landing jit keepMin idx pages entries) {rest : List Word}
    (sub : ∀ e ∈ rest, e ∈ entries) :
    Landing (rest.foldl (.landEntry keepMin idx pages) jit) keepMin idx pages entries := by
  induction rest generalizing jit with
  | nil => exact landing
  | cons e rest ih =>
    exact ih (landing.entry (sub e mem_cons_self))
      fun e' mem => sub e' (mem_cons_of_mem _ mem)

theorem Landing.land (covers : Covers jit idx) (nonneg : 0 ≤ idx)
    (ready : ∀ e ∈ entries, LandsListed jit keepMin pages e) :
    Landing (jit.land keepMin idx pages entries) keepMin idx pages entries :=
  (Landing.start covers nonneg ready _).all fun _ mem => mem

end Landing

/-! ## Removed entries -/

structure Shrinks (jit jit' : JitState) : Prop where
  cache : ∀ pc b, jit'.cache pc = some (some b) → jit.cache pc = some (some b)
  blocks : jit'.pageBlocks = jit.pageBlocks
  regions : ∀ idx pages, jit'.regions idx = some pages → jit.regions idx = some pages

namespace Shrinks

theorem of_eq {jit jit' : JitState} (cache : jit'.cache = jit.cache)
    (blocks : jit'.pageBlocks = jit.pageBlocks) (regions : jit'.regions = jit.regions) :
    Shrinks jit jit' :=
  ⟨fun _ _ found => cache ▸ found, blocks, fun _ _ found => regions ▸ found⟩

variable (jit : JitState)

theorem refl : Shrinks jit jit := of_eq rfl rfl rfl

theorem trans {a b c : JitState} (first : Shrinks a b) (second : Shrinks b c) : Shrinks a c :=
  ⟨fun pc x found => first.cache pc x (second.cache pc x found), second.blocks.trans first.blocks,
    fun idx pages found => first.regions idx pages (second.regions idx pages found)⟩

theorem remove (pc : Word) : Shrinks jit (jit.remove pc) := by
  refine ⟨fun pc' b found => ?_, rfl, fun _ _ found => found⟩
  obtain ⟨-, ⟨⟩⟩ | ⟨-, old⟩ := update_found found
  exact old

theorem invalidateLine (pc : Word) : Shrinks jit (jit.invalidateLine pc) := by
  unfold JitState.invalidateLine
  split
  · exact of_eq rfl rfl rfl
  · exact refl jit

theorem drop (pc : Word) : Shrinks jit (jit.drop pc) :=
  (remove jit pc).trans (of_eq rfl rfl rfl)

theorem demoteEntry (idx : Int) (jit : JitState) (e : Word) :
    Shrinks jit (.demoteEntry idx jit e) := by
  unfold JitState.demoteEntry
  split
  · split
    · exact (remove jit e).trans (invalidateLine _ e)
    · exact refl jit
  · exact refl jit

theorem demoteEntries (idx : Int) (entries : List Word) (jit : JitState) :
    Shrinks jit (entries.foldl (.demoteEntry idx) jit) := by
  induction entries generalizing jit with
  | nil => exact refl jit
  | cons e entries ih => exact (demoteEntry idx jit e).trans (ih _)

theorem demoteRegion (idx : Int) : Shrinks jit (jit.demoteRegion idx) := by
  unfold JitState.demoteRegion
  split
  · exact refl jit
  · rename_i entries _
    have dropped := demoteEntries idx entries
      { jit with regionExits := update jit.regionExits idx none }
    refine ⟨dropped.cache, dropped.blocks, fun idx' pages found => dropped.regions idx' pages ?_⟩
    obtain ⟨-, ⟨⟩⟩ | ⟨-, old⟩ := update_found found
    exact old

theorem dispatchAt (map : FetchMap) (aspace : Word) (gen : BitVec 32) (jit : JitState) (pc : Word) :
    Shrinks jit (jit.dispatchAt (m := Id) map.probe aspace gen pc).2 := by
  unfold JitState.dispatchAt
  simp only
  split
  · exact refl jit
  · split
    · simp only [bind, pure]
      split
      · exact of_eq rfl rfl rfl
      · exact drop jit pc
    · exact refl jit

end Shrinks

theorem Shrinks.spans {jit jit' : JitState} (shrinks : Shrinks jit jit') {b : JitBlock} {page : Nat}
    (spans : jit'.Spans b page) : jit.Spans b page :=
  spans.imp_right fun ⟨pages, region, inPages⟩ => ⟨pages, shrinks.regions _ _ region, inPages⟩

theorem Covers.shrinks {jit jit' : JitState} {next : Int} (covers : Covers jit next)
    (shrinks : Shrinks jit jit') : Covers jit' next where
  listed pc b page found spans := by
    rw [shrinks.blocks]
    exact covers.listed pc b page (shrinks.cache pc b found) (shrinks.spans spans)
  entry pc b found := covers.entry pc b (shrinks.cache pc b found)
  region idx pages found := covers.region idx pages (shrinks.regions idx pages found)

/-! ## Drained pages -/

theorem dropDirty_shrinks (jit : JitState) (pc : Word) :
    Shrinks jit (jit.dropDirty pc) ∧ (jit.dropDirty pc).cache pc = none := by
  have counters : Shrinks (jit.remove pc) ((jit.remove pc).invalidateZeroRetirePc pc) :=
    .of_eq rfl rfl rfl
  refine ⟨((Shrinks.remove jit pc).trans counters).trans (.invalidateLine _ pc), ?_⟩
  have gone : ((jit.remove pc).invalidateZeroRetirePc pc).cache pc = none := by
    change update jit.cache pc none pc = none
    rw [update_self]
  unfold JitState.dropDirty JitState.invalidateLine
  split
  · exact gone
  · exact gone

theorem dropDirty_all (pcs : List Word) (jit : JitState) :
    Shrinks jit (pcs.foldl JitState.dropDirty jit) ∧
      ∀ pc ∈ pcs, ∀ b, (pcs.foldl JitState.dropDirty jit).cache pc ≠ some (some b) := by
  induction pcs generalizing jit with
  | nil => exact ⟨.refl jit, fun _ mem => absurd mem not_mem_nil⟩
  | cons first pcs ih =>
    obtain ⟨one, gone⟩ := dropDirty_shrinks jit first
    obtain ⟨rest, none⟩ := ih (jit.dropDirty first)
    refine ⟨one.trans rest, fun pc mem b found => ?_⟩
    rcases mem_cons.mp mem with rfl | later
    · have before := rest.cache pc b found
      rw [gone] at before
      simp at before
    · exact none pc later b found

theorem drainPage_spec (jit : JitState) (page : Nat) :
    Shrinks { jit with pageBlocks := update jit.pageBlocks page [] } (jit.drainPage page) ∧
      ∀ pc ∈ jit.pageBlocks page, ∀ b, (jit.drainPage page).cache pc ≠ some (some b) :=
  dropDirty_all (jit.pageBlocks page) { jit with pageBlocks := update jit.pageBlocks page [] }

theorem Covers.drainPage {jit : JitState} {next : Int} (covers : Covers jit next) (page : Nat) :
    Covers (jit.drainPage page) next := by
  obtain ⟨shrinks, gone⟩ := drainPage_spec jit page
  refine ⟨fun pc b key found spans => ?_,
    fun pc b found => covers.entry pc b (shrinks.cache pc b found),
    fun idx pages found => covers.region idx pages (shrinks.regions idx pages found)⟩
  have listed := covers.listed pc b key (shrinks.cache pc b found) (shrinks.spans spans)
  have other : key ≠ page := fun same => gone pc (same ▸ listed) b found
  simpa [shrinks.blocks, other] using listed

/-! ## Pages of a compile -/

theorem mem_virtualPages {first last va : Word} (low : pageOf first ≤ pageOf va)
    (high : pageOf va ≤ pageOf last) : pageOf va ∈ virtualPages (pageOf first) (pageOf last) := by
  rw [le_def] at low high
  have ordered : pageOf first ≤ pageOf last := le_def.mpr (low.trans high)
  have firstMod : (pageOf first).toNat % 4096 = 0 := by rw [toNat_pageOf]; omega
  have vaMod : (pageOf va).toNat % 4096 = 0 := by rw [toNat_pageOf]; omega
  have lastMod : (pageOf last).toNat % 4096 = 0 := by rw [toNat_pageOf]; omega
  rw [virtualPages, if_pos ordered, mem_map]
  refine ⟨((pageOf va).toNat - (pageOf first).toNat) / 4096, mem_range.mpr ?_, ?_⟩
  · rw [toNat_sub_of_le ordered]
    omega
  · apply eq_of_toNat_eq
    rw [toNat_add, toNat_ofNat, Nat.mod_eq_of_lt (b := 2 ^ 64) (by omega),
      Nat.mod_eq_of_lt (by omega)]
    omega

variable {pages : List CodePage} {spanned : List CodePage}

theorem mem_spanPages {lo hi : Word} (found : spanPages pages lo hi = some spanned) {va : Word}
    (mem : va ∈ virtualPages (pageOf lo) (pageOf (hi - 1))) :
    ∃ page ∈ spanned, page ∈ pages ∧ page.va = va := by
  unfold spanPages at found
  generalize virtualPages (pageOf lo) (pageOf (hi - 1)) = vas at found mem
  induction vas generalizing spanned with
  | nil => exact absurd mem not_mem_nil
  | cons first vas ih =>
    simp only [mapM_cons, Option.bind_eq_bind, Option.bind_eq_some_iff, Option.pure_def] at found
    obtain ⟨page, search, rest, others, result⟩ := found
    obtain rfl := Option.some.inj result
    rcases mem_cons.mp mem with rfl | later
    · exact ⟨page, mem_cons_self, mem_of_find?_eq_some search,
        by simpa using find?_some search⟩
    · obtain ⟨page', mem', inPages, same⟩ := ih others later
      exact ⟨page', mem_cons_of_mem _ mem', inPages, same⟩

theorem Translated.bounds_cover (blk : Translated) {len : Word} (some_len : 2 ≤ len.toNat)
    (short : len.toNat ≤ max blk.len.toNat 2) :
    pageOf blk.pc ∈ virtualPages (pageOf (blk.bounds len).1) (pageOf ((blk.bounds len).2 - 1)) := by
  have cover : (blk.bounds len).1.toNat ≤ blk.pc.toNat ∧
      blk.pc.toNat ≤ ((blk.bounds len).2 - 1).toNat := by
    rcases blk.covers with ⟨zero, fits⟩ | ⟨low, high⟩
    · have last : blk.pc + len - 1 = blk.pc + (len - 1) := by grind
      have lenPred : (len - 1).toNat = len.toNat - 1 :=
        toNat_sub_of_le (le_def.mpr (by simpa using by omega))
      rw [Translated.bounds, if_pos zero, last, toNat_add, lenPred,
        Nat.mod_eq_of_lt (by omega)]
      exact ⟨Nat.le_refl _, by omega⟩
    · have nonzero : blk.span ≠ (0, 0) := by
        intro zero
        rw [zero] at high
        exact absurd high (not_lt_zero)
      rw [le_def] at low
      rw [lt_def] at high
      have pred : (blk.span.2 - 1).toNat = blk.span.2.toNat - 1 :=
        toNat_sub_of_le (le_def.mpr (by simpa using by omega))
      rw [Translated.bounds, if_neg nonzero, pred]
      omega
  apply mem_virtualPages
  · rw [le_def, toNat_pageOf, toNat_pageOf]
    omega
  · rw [le_def, toNat_pageOf, toNat_pageOf]
    omega

theorem Engine.memberPages_own {w : TraceWin} {member : Translated} {mpa : Word}
    (found : memberPages w member = some (mpa, spanned)) :
    ∃ page ∈ spanned, pageIndex page.pp = pageIndex mpa := by
  unfold memberPages at found
  simp only at found
  split at found
  · simp at found
  · split at found
    · simp at found
    · rename_i page search
      split at found
      · simp at found
      · obtain ⟨rfl, rfl⟩ := Prod.mk.inj (Option.some.inj found)
        exact ⟨page, mem_of_find?_eq_some search, (page.index_add (pageOffset_lt _)).symm⟩

variable {map : FetchMap} {layout : Layout}

theorem capturePages_spec {wanted : List Word}
    (captured : capturePages layout map wanted = some pages) :
    ∀ page ∈ pages, ∃ va ∈ wanted, ∃ p, map.probe va = some p ∧ page = .of va p := by
  induction wanted generalizing pages with
  | nil =>
    obtain rfl := Option.some.inj captured
    exact fun _ mem => absurd mem not_mem_nil
  | cons va wanted ih =>
    have later : ∀ {pages}, capturePages layout map wanted = some pages → ∀ page ∈ pages,
        ∃ va' ∈ va :: wanted, ∃ p, map.probe va' = some p ∧ page = .of va' p := by
      intro pages captured page mem
      obtain ⟨va', mem', rest⟩ := ih captured page mem
      exact ⟨va', mem_cons_of_mem _ mem', rest⟩
    unfold capturePages at captured
    split at captured
    · exact later captured
    · rename_i p probed
      split at captured
      · exact later captured
      · split at captured
        · simp at captured
        · split at captured
          · exact later captured
          · obtain ⟨rest, others, rfl⟩ := Option.map_eq_some_iff.mp captured
            intro page mem
            rcases mem_cons.mp mem with rfl | mem
            · exact ⟨va, mem_cons_self, p, probed, rfl⟩
            · exact later others page mem

theorem capturePicPages_own {pc pa : Word} {targets : List Word} (probed : map.probe pc = some pa)
    (captured : capturePicPages layout map pc targets = some pages) :
    ∃ page ∈ pages, page.pp = pageOf pa := by
  unfold capturePicPages at captured
  simp only at captured
  split at captured
  · simp at captured
  · rename_i found search
    split at captured
    · rename_i present
      obtain rfl := Option.some.inj captured
      obtain ⟨page, mem, here⟩ := any_eq_true.mp present
      have here : page.va = pageOf pc := by simpa using here
      obtain ⟨va, wanted, p, probed', rfl⟩ := capturePages_spec search page mem
      have aligned : pageOf va = va := by
        rw [mem_dedup, mem_mergeSort] at wanted
        obtain ⟨t, -, rfl⟩ := mem_map.mp wanted
        exact pageOf_pageOf t
      have source : va = pageOf pc := aligned.symm.trans here
      have whole := map.wholePage pc pa probed
      rw [← source, probed'] at whole
      exact ⟨_, mem, Option.some.inj whole⟩
    · simp at captured

theorem pageOf_window {firstVa : Word} (aligned : pageOf firstVa = firstVa) (k : Nat) :
    pageOf (firstVa + BitVec.ofNat 64 (4096 * k)) = firstVa + BitVec.ofNat 64 (4096 * k) := by
  have base := congrArg BitVec.toNat aligned
  rw [toNat_pageOf] at base
  apply eq_of_toNat_eq
  rw [toNat_pageOf, toNat_add, toNat_ofNat]
  apply Nat.div_mul_cancel
  refine (Nat.dvd_mod_iff (by decide)).mpr (Nat.dvd_add ⟨firstVa.toNat / 4096, ?_⟩ ?_)
  · rw [Nat.mul_comm]
    exact base.symm
  · exact (Nat.dvd_mod_iff (by decide)).mpr (Nat.dvd_mul_right 4096 k)

theorem gather_own {pc pa firstVa : Word} {count : Nat} (aligned : pageOf firstVa = firstVa)
    (probed : map.probe pc = some pa) :
    ∀ page ∈ gather layout map firstVa count, page.va = pageOf pc → page.pp = pageOf pa := by
  intro page mem here
  obtain ⟨k, -, found⟩ := mem_filterMap.mp mem
  unfold gatherPage at found
  split at found
  · simp at found
  · rename_i p probed'
    split at found
    · obtain rfl := Option.some.inj found
      have source : firstVa + BitVec.ofNat 64 (4096 * k) = pageOf pc := by
        rw [← here]
        exact (pageOf_window aligned k).symm
      have whole := map.wholePage pc pa probed
      rw [← source, probed'] at whole
      exact Option.some.inj whole
    · simp at found

theorem Compile.firstVa_aligned (c : Compile) : pageOf c.firstVa = c.firstVa := by
  unfold Compile.firstVa
  split
  · exact pageOf_pageOf c.pc
  · have wider : ~~~0x3ffff#64 &&& pageMask = ~~~0x3ffff#64 := by decide
    change (pageOf c.pc &&& ~~~0x3ffff#64) &&& pageMask = _
    rw [BitVec.and_assoc, wider]

/-! ## The condition on events -/

/-- A pc whose entry is replaced is listed already under the pages it would be registered under, and
a window found again maps the page of the hot pc as fetches do now. -/
def Registers {δ : Type} (engine : Engine layout δ) : Event δ → Prop
  | .compile c =>
    (∀ members, Engine.batchOf c (engine.window c) = some members → ∀ member ∈ members,
      ∀ mpa spanned, Engine.memberPages (engine.window c) member = some (mpa, spanned) →
        engine.jit.cache member.pc ≠ none → Listed engine.jit member.pc spanned) ∧
    ∀ w ∈ engine.liveWindows, c.finds engine.bootGen w → ∀ page ∈ w.pages,
      page.va = pageOf c.pc → some page.pp = (c.map.probe c.pc).map pageOf
  | .ready ticket built =>
    ∀ region, engine.installable ticket built = some region → ∀ e ∈ region.entries,
      LandsListed engine.jit engine.keepMin region.pages e
  | _ => True

section Engine

variable {layout : Layout} {δ : Type}

abbrev IndexInv (engine : Engine layout δ) : Prop := Covers engine.jit engine.tableNext

variable {engine : Engine layout δ} {c : Compile}

theorem window_own (registers : Registers engine (.compile c)) {pa : Word}
    (probed : c.map.probe c.pc = some pa) :
    ∀ page ∈ (engine.window c).pages, page.va = pageOf c.pc → page.pp = pageOf pa := by
  unfold window
  cases search : engine.liveWindows.find? (c.finds engine.bootGen) with
  | none => exact gather_own c.firstVa_aligned probed
  | some w =>
    intro page mem here
    have agrees := registers.2 w (mem_of_find?_eq_some search) (find?_some search) page mem here
    rw [probed] at agrees
    exact Option.some.inj agrees

theorem tracePages_own (registers : Registers engine (.compile c)) {pa : Word}
    (probed : c.map.probe c.pc = some pa) {blk : Translated} (entry : blk.pc = c.pc)
    {spanned : List CodePage} (found : tracePages layout c (engine.window c) blk = some spanned) :
    ∃ page ∈ spanned, pageIndex page.pp = pageIndex pa := by
  unfold tracePages at found
  split at found
  · rename_i pages captured
    obtain rfl := Option.some.inj found
    obtain ⟨targets, -, captured⟩ := Option.bind_eq_some_iff.mp captured
    split at captured
    · obtain ⟨page, mem, same⟩ := capturePicPages_own probed captured
      exact ⟨page, mem, by rw [same, pageIndex_pageOf]⟩
    · simp at captured
  · have cover : pageOf blk.pc ∈ virtualPages
        (pageOf (blk.bounds (if blk.len ≤ 2 then 2 else blk.len)).1)
        (pageOf ((blk.bounds (if blk.len ≤ 2 then 2 else blk.len)).2 - 1)) := by
      apply blk.bounds_cover
      · split
        · decide
        · rename_i long
          rw [BitVec.not_le, BitVec.lt_def] at long
          exact long.le
      · split
        · exact le_max_right _ _
        · exact le_max_left _ _
    obtain ⟨page, mem, inWindow, here⟩ := mem_spanPages found cover
    rw [entry] at here
    exact ⟨page, mem, by rw [window_own registers probed page inWindow here, pageIndex_pageOf]⟩

/-! ## Steps -/

def MemberListed (jit : JitState) (w : TraceWin) (member : Translated) : Prop :=
  ∀ mpa spanned, Engine.memberPages w member = some (mpa, spanned) → jit.cache member.pc ≠ none →
    Listed jit member.pc spanned

variable {base k : Nat} {w : TraceWin}

theorem IndexInv.member {member : Translated} (covers : Covers engine.jit (base + k))
    (listed : MemberListed engine.jit w member) :
    Covers (installMember base w engine (member, k)).jit (base + (k + 1 : Nat)) := by
  unfold installMember
  cases found : memberPages w member with
  | none => exact covers.mono (by omega)
  | some pages =>
    obtain ⟨mpa, spanned⟩ := pages
    refine (Covers.install covers ?_ (memberPages_own found) (listed mpa spanned found)).mono ?_
    · change (0 : Int) ≤ base + k
      omega
    · change (base + k + 1 : Int) ≤ base + (k + 1 : Nat)
      omega

theorem MemberListed.after {member other : Translated} (different : other.pc ≠ member.pc)
    (listed : MemberListed engine.jit w other) :
    MemberListed (installMember base w engine (member, k)).jit w other := by
  intro mpa spanned found
  unfold installMember
  cases installed : memberPages w member with
  | none => exact listed mpa spanned found
  | some pages =>
    intro occupied page mem
    change JitState.cache (.install _ _ _ _) _ ≠ none at occupied
    rw [JitState.install_cache, update_of_ne different] at occupied
    exact (JitState.mem_install _ _ _ _).mpr (.inl (listed mpa spanned found occupied page mem))

theorem IndexInv.members {members : List Translated} (engine : Engine layout δ)
    (covers : Covers engine.jit (base + k)) (distinct : (members.map Translated.pc).Nodup)
    (listed : ∀ member ∈ members, MemberListed engine.jit w member) :
    Covers ((members.zipIdx k).foldl (installMember base w) engine).jit
      (base + (k + members.length : Nat)) := by
  induction members generalizing engine k with
  | nil => exact covers
  | cons member members ih =>
    obtain ⟨fresh, distinct⟩ := nodup_cons.mp distinct
    rw [zipIdx_cons, foldl_cons]
    refine (ih _ (IndexInv.member covers (listed member mem_cons_self)) distinct fun other mem =>
      (listed other (mem_cons_of_mem _ mem)).after fun same =>
        fresh (mem_map.mpr ⟨other, mem, same⟩)).mono ?_
    simp only [length_cons]
    omega

theorem installMember_tableNext (base : Nat) (w : TraceWin) (members : List (Translated × Nat))
    (engine : Engine layout δ) :
    (members.foldl (installMember base w) engine).tableNext = engine.tableNext := by
  induction members generalizing engine with
  | nil => rfl
  | cons member members ih =>
    rw [foldl_cons, ih]
    unfold installMember
    split <;> rfl

theorem IndexInv.compile (inv : IndexInv engine)
    (registers : Registers engine (.compile c)) : IndexInv (engine.compile c) := by
  unfold Engine.compile
  split
  · exact inv
  · rename_i hot
    have fresh : engine.jit.cache c.pc = none := by simpa using hot
    split
    · exact inv
    · rename_i pa probed
      split
      · exact inv
      · cases batch : batchOf c (engine.window c) with
        | some members =>
          have distinct : (members.map Translated.pc).Nodup := by
            unfold batchOf at batch
            split at batch
            · simp at batch
            · rename_i found _
              split at batch
              · obtain rfl := Option.some.inj batch
                exact found.2
              · simp at batch
          have installed := IndexInv.members
            { engine.gatherWindow c with tableNext := engine.tableNext + members.length }
            (w := engine.window c) (inv.mono (by omega : _ ≤ (engine.tableNext : Int) + (0 : Nat)))
            distinct fun member mem mpa spanned found =>
              registers.1 members batch member mem mpa spanned found
          change Covers _ (Engine.tableNext (foldl _ _ _))
          rw [installMember_tableNext]
          exact installed.mono (by simp [gatherWindow])
        | none =>
          simp only
          unfold installTrace
          split
          · rename_i blk spanned found
            obtain ⟨⟨blk', entry⟩, -, found⟩ := Option.bind_eq_some_iff.mp found
            obtain ⟨pages, traced, same⟩ := Option.map_eq_some_iff.mp found
            obtain ⟨rfl, rfl⟩ := Prod.mk.inj same
            have own := tracePages_own registers probed entry traced
            exact Covers.install inv (Int.natCast_nonneg _) own (absurd fresh)
          · exact inv.blacklist (Int.natCast_nonneg _) fresh

theorem IndexInv.ready (inv : IndexInv engine) {ticket : Nat} {built : Bool}
    (registers : Registers engine (.ready ticket built)) :
    IndexInv (engine.sysSbReady ticket built) := by
  have next : (engine.tableNext : Int) ≤ (engine.sysSbReady ticket built).tableNext := by
    change (engine.tableNext : Int) ≤ (if built then engine.tableNext + 1
      else engine.tableNext : Nat)
    split <;> omega
  cases found : engine.installable ticket built with
  | none =>
    have same : (engine.sysSbReady ticket built).jit = engine.jit := by
      simp only [sysSbReady, found]
    rw [IndexInv, same]
    exact inv.mono next
  | some region =>
    have landed : (engine.sysSbReady ticket built).jit =
        engine.jit.land engine.keepMin engine.tableNext region.pages region.entries := by
      simp only [sysSbReady, found]
    have finished : built = true := by
      unfold installable at found
      split at found
      · simp at found
      · split at found
        · simp at found
        · split at found
          · simp at found
          · simpa using ‹¬ built = false›
    have landing := Landing.land inv (Int.natCast_nonneg _) (registers region found)
    rw [IndexInv, landed]
    refine landing.covers.mono ?_
    change _ ≤ ((if built then engine.tableNext + 1 else engine.tableNext : Nat) : Int)
    rw [if_pos finished]
    omega

theorem drainPages_index (pages : List Nat) (inv : IndexInv engine) :
    IndexInv (pages.foldl drainPage engine) ∧ ∀ page, page ∈ pages ∨
    engine.jit.pageBlocks page = [] →
        (pages.foldl drainPage engine).jit.pageBlocks page = [] := by
  induction pages generalizing engine with
  | nil => exact ⟨inv, fun page empty => empty.elim (fun mem => absurd mem not_mem_nil) id⟩
  | cons first pages ih =>
    have one : IndexInv (engine.drainPage first) := inv.drainPage first
    obtain ⟨rest, emptied⟩ := ih one
    refine ⟨rest, fun page empty => emptied page ?_⟩
    have blocks : (engine.drainPage first).jit.pageBlocks = update _ first [] :=
      (drainPage_spec engine.jit first).1.blocks
    by_cases same : page = first
    · subst same
      exact .inr (by rw [blocks, update_self])
    · rcases empty with mem | empty
      · exact .inl ((mem_cons.mp mem).resolve_left same)
      · exact .inr (by rw [blocks, update_of_ne same, empty])

theorem IndexInv.drain (inv : IndexInv engine) : IndexInv engine.drainDirty ∧
      ∀ page ∈ engine.bus.jitDirtyPages, engine.drainDirty.jit.pageBlocks page = [] := by
  unfold drainDirty
  split
  · rename_i clean
    rw [isEmpty_iff.mp clean]
    exact ⟨inv, fun _ mem => absurd mem not_mem_nil⟩
  · have taken : IndexInv { engine with bus := engine.bus.jitTakeDirty.2, traceWin := [] } := inv
    obtain ⟨drained, emptied⟩ := drainPages_index engine.bus.jitDirtyPages taken
    exact ⟨drained, fun page mem => emptied page (.inl mem)⟩

theorem IndexInv.empty (cache : ∀ pc, engine.jit.cache pc = none)
    (regions : ∀ idx, engine.jit.regions idx = none) : IndexInv engine := by
  constructor <;> intros <;> simp_all

theorem IndexInv.step [Peripherals δ] (inv : IndexInv engine) {event : Event δ}
    (registers : Registers engine event) : IndexInv (engine.step event) := by
  have shrunk : ∀ {jit}, Shrinks engine.jit jit → IndexInv { engine with jit := jit } :=
    fun shrinks => inv.shrinks shrinks
  cases event with
  | store width addr val => exact inv
  | devices devices => exact inv
  | drain => exact inv.drain.1
  | compile c => exact inv.compile registers
  | issue pages entries => exact inv
  | ready ticket built => exact inv.ready registers
  | dispatch map aspace gen pc => exact shrunk (.dispatchAt map aspace gen engine.jit pc)
  | extendTargets owner => exact shrunk (.drop engine.jit owner)
  | demote idx => exact shrunk (.demoteRegion engine.jit idx)
  | reset unmarked newGen => exact .empty (fun _ => rfl) fun _ => rfl

/-- Along every run whose installations register what they replace, every entry is listed under each
page of its code, and a drain leaves no entry compiled from a dirty page. -/
theorem cache_entries_indexed [Peripherals δ] {bus : SystemBus layout δ} {keepMin : Nat}
    {events : List (Event δ)}
    (admitted : Events.Admitted Engine.step Registers (Engine.boot bus keepMin) events) :
    Indexed (Events.run Engine.step (Engine.boot bus keepMin) events).jit ∧
      ∀ page ∈ (Events.run Engine.step (Engine.boot bus keepMin) events).bus.jitDirtyPages,
        ∀ pc b, (Events.run Engine.step (Engine.boot bus keepMin) events).drainDirty.jit.cache pc =
          some (some b) →
          pageIndex b.pa ≠ page ∧
            ∀ pages,
            (Events.run Engine.step (Engine.boot bus keepMin) events).drainDirty.jit.regions
                b.idx = some pages → ∀ p ∈ pages, pageIndex p.pp ≠ page := by
  have inv : IndexInv (Events.run Engine.step (Engine.boot bus keepMin) events) :=
    admitted.keeps (fun _ _ registers inv => inv.step registers)
      (.empty (fun _ => rfl) fun _ => rfl)
  generalize Events.run Engine.step (Engine.boot bus keepMin) events = engine at inv
  obtain ⟨drained, emptied⟩ := inv.drain
  have away : ∀ page ∈ engine.bus.jitDirtyPages, ∀ pc b,
      engine.drainDirty.jit.cache pc = some (some b) → ¬engine.drainDirty.jit.Spans b page := by
    intro page dirty pc b found spans
    have listed := drained.listed pc b page found spans
    rw [emptied page dirty] at listed
    exact List.not_mem_nil listed
  refine ⟨inv.indexed, fun page dirty pc b found =>
    ⟨fun same => ?_, fun pages region p mem same => ?_⟩⟩
  · exact away page dirty pc b found (.inl same.symm)
  · exact away page dirty pc b found (.inr ⟨pages, region, p, mem, same.symm⟩)

end Engine

/-! ## One pc in two address spaces -/

def FetchMap.onePage (page : CodePage) : FetchMap where
  probe va := if pageOf va = page.va then some (page.pp + (va &&& 0xfff#64)) else none
  wholePage va pa found := by
    have inside : ∀ off : Word, off.toNat < 4096 → pageOf (page.pp + off) = page.pp := by
      intro off small
      have aligned := page.toNat_mod
      have bound := page.pp.isLt
      apply BitVec.eq_of_toNat_eq
      rw [toNat_pageOf, BitVec.toNat_add, Nat.mod_eq_of_lt (by omega)]
      omega
    split at found
    · rename_i here
      obtain rfl := Option.some.inj found
      rw [pageOf_pageOf, if_pos here, Option.map_some, inside _ (pageOffset_lt _),
        inside _ (pageOffset_lt va)]
    · simp at found

namespace TwoSpaces

def board : Layout where
  ramPtr := 0x10000#64
  ramLen := 0x2000
  fits := TwoPages.twoPages.fits

def boot : Engine board NoDevices :=
  .boot { ram := fun _ => 0, jitPages := fun _ => false, jitDirtyPages := [], devices := {} } 0

def inFirst : CodePage := .of 0x10000#64 0x80000000#64

def inSecond : CodePage := .of 0x10000#64 0x80001000#64

def trace : Compile where
  pc := 0x10000#64
  aspace := 1
  mapGen := 0
  map := .onePage inFirst
  singlePage := true
  batch := none
  picTargets := none
  block := some ⟨{ pc := 0x10000#64, span := (0, 0), len := 12, nInsns := 3, usesFp := false,
                   covers := .inl ⟨rfl, by decide⟩ }, rfl⟩

/-- A region of the second space lands on the pc of the trace. -/
def landed : List (Event NoDevices) :=
  [.compile trace, .issue [inSecond] [0x10000#64], .ready 0 true]

/-- The landed entry is not listed under its page, and outlives a store to that page and the drain
that follows. -/
theorem landed_entry_unlisted : (Events.run Engine.step boot landed).jit.cache 0x10000#64 =
        some (some { fp := false, idx := 1, n := 0, pa := 0x80001000#64 }) ∧
      0x10000#64 ∉ (Events.run Engine.step boot landed).jit.pageBlocks (pageIndex 0x80001000#64) ∧
      (Events.run Engine.step boot (landed ++ [.store .byte 0x80001000#64 1#8, .drain])).jit.cache
        0x10000#64 =
        some (some { fp := false, idx := 1, n := 0, pa := 0x80001000#64 }) := by
  decide

/-- The region lands in the address space of the trace. -/
def relanded : List (Event NoDevices) :=
  [.compile trace, .issue [inFirst] [0x10000#64], .ready 0 true]

theorem relanded_registers : Events.Admitted step Registers boot relanded := by
  refine ⟨⟨fun _ batch => by simp [batchOf, trace] at batch, fun _ live => absurd live not_mem_nil⟩,
    trivial, ?_, trivial⟩
  intro region found e mem _ _ page inPages _
  obtain rfl := Option.some.inj found
  obtain rfl := mem_singleton.mp mem
  obtain rfl := mem_singleton.mp inPages
  decide

theorem relanded_indexed : (Events.run Engine.step boot relanded).jit.cache 0x10000#64 =
        some (some { fp := false, idx := 1, n := 0, pa := 0x80000000#64 }) ∧
      Indexed (Events.run Engine.step boot relanded).jit :=
  ⟨by decide, (cache_entries_indexed relanded_registers).1⟩

end TwoSpaces

end Rv64Js.Jit
