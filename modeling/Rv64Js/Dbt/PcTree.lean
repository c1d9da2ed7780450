import Rv64Js.Core.Decode

/-! # Lookup trees over guest pcs

`emit_cached_index_tree` and `emit_cached_dispatch_tree` of `rv64-dbt/src/wasm.rs` emit nested
comparisons of the guest pc with the members' entry pcs. A member the second one runs changes the pc
the next comparison reads. -/

set_option autoImplicit false

namespace Rv64Js.Dbt

open Rv64Js.Core BitVec List

/-- The members of a module, whose code runs at its own addresses or, of one page, relative
to the page `guest_base` that the module imports. -/
structure Members where
  entry : Nat → Word
  order : List Nat
  picCodeBase : Option Word
  guestBase : Word
  ascending : order.Pairwise fun i j => entry i < entry j
  onePage : ∀ codeBase ∈ picCodeBase, codeBase.toNat % 4096 = 0 ∧ guestBase.toNat % 4096 = 0 ∧
    ∀ i ∈ order, (entry i - codeBase).toNat < 4096

namespace Members

/-- The value of what `emit_guest_pc` emits. -/
def guestPc (m : Members) (pc : Word) : Word :=
  match m.picCodeBase with
  | some codeBase => m.guestBase + (pc - codeBase)
  | none => pc

def address (m : Members) (i : Nat) : Word := m.guestPc (m.entry i)

theorem address_ascending (m : Members) :
    m.order.Pairwise fun i j => m.address i < m.address j := by
  refine m.ascending.imp_of_mem fun {i j} memI memJ lt => ?_
  unfold address guestPc
  cases pic : m.picCodeBase with
  | none => exact lt
  | some codeBase =>
    obtain ⟨code, base, offset⟩ := m.onePage codeBase pic
    have offI := offset i memI
    have offJ := offset j memJ
    have top := m.guestBase.isLt
    rw [lt_def] at lt ⊢
    rw [toNat_add, toNat_add, Nat.mod_eq_of_lt (by omega), Nat.mod_eq_of_lt (by omega)]
    rw [toNat_sub] at offI offJ ⊢
    rw [toNat_sub]
    have := (m.entry i).isLt
    have := (m.entry j).isLt
    have := codeBase.isLt
    omega

end Members

inductive PcTree where
  | members (order : List Nat)
  | split (pivot : Nat) (below others : PcTree)

/-- At most three members are compared one after the other. -/
def emitTree (order : List Nat) : PcTree :=
  if small : order.length ≤ 3 then .members order
  else .split (order.get ⟨order.length / 2, by omega⟩) (emitTree (order.take (order.length / 2)))
    (emitTree (order.drop (order.length / 2)))
termination_by order.length
decreasing_by all_goals simp; omega

section Run

variable {σ : Type} (address : Nat → Word) (pc : σ → Word) (act : Nat → σ → Except σ σ)

/-- What is done for the members behind one another in a leaf; `act` may leave the function. -/
def runMembers : List Nat → σ → Except σ σ
  | [], s => .ok s
  | i :: rest, s => do
    runMembers rest (← if pc s = address i then act i s else .ok s)

def PcTree.run : PcTree → σ → Except σ σ
  | .members order, s => runMembers address pc act order s
  | .split pivot below others, s => if pc s < address pivot then below.run s else others.run s

end Run

structure Lookup where
  pc : Word
  selector : BitVec 32

def Lookup.select (i : Nat) (s : Lookup) : Lookup := { s with selector := BitVec.ofNat 32 i }

/-- The index tree sets the selector. -/
def runIndexTree (address : Nat → Word) (order : List Nat) : Lookup → Except Lookup Lookup :=
  (emitTree order).run address Lookup.pc fun i s => .ok (s.select i)

/-- The locals of a dispatch; `ran` is no local: the members run, each with the pc it found. -/
structure Dispatch (σ : Type) where
  state : σ
  matched : Bool
  ran : List (Word × Nat)

/-- A body, which may leave the function, and the report of the match. -/
def Dispatch.act {σ : Type} (pc : σ → Word) (body : Nat → σ → Except σ σ) (i : Nat)
    (d : Dispatch σ) : Except (Dispatch σ) (Dispatch σ) :=
  match body i d.state with
  | .ok s => .ok ⟨s, true, d.ran ++ [(pc d.state, i)]⟩
  | .error s => .error ⟨s, d.matched, d.ran ++ [(pc d.state, i)]⟩

def runDispatchTree {σ : Type} (address : Nat → Word) (pc : σ → Word) (body : Nat → σ → Except σ σ)
    (order : List Nat) : Dispatch σ → Except (Dispatch σ) (Dispatch σ) :=
  (emitTree order).run address (pc ·.state) (Dispatch.act pc body)

section Select

variable {address : Nat → Word} {order : List Nat} {s r : Lookup}

/-- `r` has the member at the pc selected, and is `s` if there is none. -/
structure Lookup.Selects (address : Nat → Word) (order : List Nat) (s r : Lookup) : Prop where
  hit : ∀ i ∈ order, s.pc = address i → r = s.select i
  miss : (∀ i ∈ order, s.pc ≠ address i) → r = s

/-- A part of the members decides when the others are elsewhere. -/
theorem Lookup.Selects.mono {part : List Nat} (selects : s.Selects address part r)
    (sub : ∀ i ∈ part, i ∈ order) (others : ∀ i ∈ order, s.pc = address i → i ∈ part) :
    s.Selects address order r :=
  ⟨fun i mem here => selects.hit i (others i mem here) here,
    fun missed => selects.miss fun i mem => missed i (sub i mem)⟩

theorem runMembers_selects (ascending : order.Pairwise fun i j => address i < address j)
    (s : Lookup) : ∃ r, runMembers address Lookup.pc (fun i s => .ok (s.select i)) order s = .ok r ∧
      s.Selects address order r := by
  induction order generalizing s with
  | nil => exact ⟨s, rfl, by simp, fun _ => rfl⟩
  | cons i rest ih =>
    obtain ⟨first, later⟩ := pairwise_cons.mp ascending
    rw [runMembers]
    by_cases here : s.pc = address i
    · have missed : ∀ j ∈ rest, s.pc ≠ address j := fun j mem same =>
        absurd (first j mem) (by rw [← here, same]; exact BitVec.lt_irrefl _)
      obtain ⟨r, ran, selects⟩ := ih later (s.select i)
      obtain rfl := selects.miss missed
      rw [if_pos here]
      refine ⟨_, ran, ?_, fun missed => absurd here (missed i mem_cons_self)⟩
      intro j mem at'
      rcases mem_cons.mp mem with rfl | mem
      · rfl
      · exact absurd at' (missed j mem)
    · obtain ⟨r, ran, selects⟩ := ih later s
      rw [if_neg here]
      refine ⟨r, ran, selects.mono (fun j => mem_cons_of_mem i) fun j mem at' => ?_⟩
      exact (mem_cons.mp mem).resolve_left fun same => here (same ▸ at')

theorem runIndexTree_selects (ascending : order.Pairwise fun i j => address i < address j)
    (s : Lookup) : ∃ r, runIndexTree address order s = .ok r ∧ s.Selects address order r := by
  unfold runIndexTree
  induction order using emitTree.induct with
  | case1 order small =>
    rw [emitTree, dif_pos small]
    exact runMembers_selects ascending s
  | case2 order large ihBelow ihOthers =>
    have halves := take_append_drop (order.length / 2) order
    obtain ⟨below, others, across⟩ := pairwise_append.mp (halves.symm ▸ ascending)
    have pivot := drop_eq_getElem_cons (show order.length / 2 < order.length by omega)
    rw [emitTree, dif_neg large, PcTree.run]
    split
    · rename_i less
      obtain ⟨r, ran, selects⟩ := ihBelow below
      refine ⟨r, ran, selects.mono (fun _ => mem_of_mem_take) fun j mem here => ?_⟩
      rw [← halves] at mem
      refine (mem_append.mp mem).resolve_right fun above => ?_
      rw [pivot] at above others
      rw [here, lt_def] at less
      rcases mem_cons.mp above with rfl | later
      · exact Nat.lt_irrefl _ less
      · exact Nat.lt_asymm less (lt_def.mp (rel_of_pairwise_cons others later))
    · rename_i notLess
      obtain ⟨r, ran, selects⟩ := ihOthers others
      refine ⟨r, ran, selects.mono (fun _ => mem_of_mem_drop) fun j mem here => ?_⟩
      rw [← halves] at mem
      refine (mem_append.mp mem).resolve_left fun low => notLess ?_
      rw [here]
      exact across j low _ (pivot ▸ mem_cons_self)

end Select

section Dispatch

variable {σ : Type} {address : Nat → Word} {pc : σ → Word} {act : Nat → σ → Except σ σ}

/-- How a tree is left: by falling through, or out of the function. -/
def Leaves (P E : σ → Prop) : Except σ σ → Prop
  | .ok s => P s
  | .error s => E s

variable {P E : σ → Prop} {order : List Nat}
  (step : ∀ i ∈ order, ∀ s, pc s = address i → P s → Leaves P E (act i s))
include step

theorem runMembers_leaves {s : σ} (start : P s) :
    Leaves P E (runMembers address pc act order s) := by
  induction order generalizing s with
  | nil => exact start
  | cons i rest ih =>
    have later {s : σ} := @ih (fun j mem => step j (mem_cons_of_mem _ mem)) s
    rw [runMembers]
    by_cases here : pc s = address i
    · rw [if_pos here]
      have acted := step i mem_cons_self s here start
      cases ran : act i s with
      | ok s' => exact later (by rwa [ran] at acted)
      | error s' => rwa [ran] at acted
    · rw [if_neg here]
      exact later start

theorem emitTree_leaves {s : σ} (start : P s) :
    Leaves P E ((emitTree order).run address pc act s) := by
  induction order using emitTree.induct with
  | case1 order small =>
    rw [emitTree, dif_pos small]
    exact runMembers_leaves step start
  | case2 order large ihBelow ihOthers =>
    rw [emitTree, dif_neg large, PcTree.run]
    split
    · exact ihBelow fun i mem => step i (mem_of_mem_take mem)
    · exact ihOthers fun i mem => step i (mem_of_mem_drop mem)

end Dispatch

/-- The members that ran are among `order`, and each was at the pc it found. -/
def Dispatch.Entered {σ : Type} (address : Nat → Word) (order : List Nat) (d : Dispatch σ) : Prop :=
  ∀ r ∈ d.ran, r.2 ∈ order ∧ r.1 = address r.2

/-- The index tree selects the member at the pc and changes nothing else; the dispatch tree runs
members only at the pc they find, and falls through with a match exactly if one ran. -/
theorem pc_trees_select (m : Members) :
    (∀ s, ∃ r, runIndexTree m.address m.order s = .ok r ∧ s.Selects m.address m.order r) ∧
    ∀ {σ : Type} (pc : σ → Word) (body : Nat → σ → Except σ σ) (s : σ),
      Leaves (fun d => d.Entered m.address m.order ∧ (d.matched = true ↔ d.ran ≠ []))
        (Dispatch.Entered m.address m.order)
          (runDispatchTree m.address pc body m.order ⟨s, false, []⟩) := by
  refine ⟨runIndexTree_selects m.address_ascending, fun pc body s => ?_⟩
  refine emitTree_leaves (fun i mem d here kept => ?_) (by simp [Dispatch.Entered])
  have entered : ∀ r ∈ d.ran ++ [(pc d.state, i)], r.2 ∈ m.order ∧ r.1 = m.address r.2 :=
    List.forall_mem_append.mpr ⟨kept.1, by simpa using ⟨mem, here⟩⟩
  unfold Dispatch.act
  cases body i d.state with
  | ok s => exact ⟨entered, by simp⟩
  | error s => exact entered

/-- Five members, compiled at one page and run at another. -/
def relocatedFive : Members where
  entry i := 0x10000#64 + BitVec.ofNat 64 (16 * i)
  order := [0, 1, 2, 3, 4]
  picCodeBase := some 0x10000#64
  guestBase := 0x7f000#64
  ascending := by decide
  onePage := by simp

theorem relocatedFive_selected :
    runIndexTree relocatedFive.address relocatedFive.order ⟨0x7f030#64, 9#32⟩ =
      .ok ⟨0x7f030#64, 3#32⟩ := by
  obtain ⟨r, run, selects⟩ := (pc_trees_select relocatedFive).1 ⟨0x7f030#64, 9#32⟩
  rw [run, selects.hit 3 (by decide) (by decide)]
  rfl

end Rv64Js.Dbt
