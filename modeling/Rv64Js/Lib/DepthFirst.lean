import Mathlib.Logic.Relation
import Mathlib.Data.List.Nodup
import Mathlib.Order.BooleanAlgebra.Set
import Mathlib.Data.List.Induction

/-! # Depth-first walks of a finite graph

A graph is a successor function `succ : α → List α`. `walk` is the recursive depth-first search; it
lists the nodes in the order of entering (`post = false`) or of leaving (`post = true`), with one
unit of fuel per nesting level. `Explored` says what a walk has covered; `FinishOrder` is what
the two-pass search for strongly connected components rests on. -/

set_option autoImplicit false

namespace DepthFirst

open Relation List

section Paths
variable {α : Type}

def Edge (succ : α → List α) (a b : α) : Prop := b ∈ succ a

def Reach (succ : α → List α) : α → α → Prop := Relation.ReflTransGen (Edge succ)

def ReachIn (succ : α → List α) (inside : Set α) : α → α → Prop :=
  Relation.ReflTransGen fun a b => b ∈ succ a ∧ b ∈ inside

variable {succ : α → List α}

theorem ReachIn.mono {s t : Set α} (sub : s ⊆ t) {a b : α} (path : ReachIn succ s a b) :
    ReachIn succ t a b := by
  refine ReflTransGen.mono ?_ a b path
  intro x y edge
  exact ⟨edge.1, sub edge.2⟩

theorem ReachIn.reach {s : Set α} {a b : α} (path : ReachIn succ s a b) : Reach succ a b := by
  refine .mono ?_ a b path
  intro x y edge
  exact edge.1

theorem ReachIn.mem_of_closed {inside kept : Set α}
    (closed : ∀ a ∈ kept, ∀ b ∈ succ a, b ∈ inside → b ∈ kept) {a b : α}
    (path : ReachIn succ inside a b) (start : a ∈ kept) : b ∈ kept := by
  induction path with
  | refl => exact start
  | tail _ edge ih => exact closed _ ih _ edge.1 edge.2

theorem ReachIn.flip {pred : α → List α} (reversed : ∀ a b, b ∈ pred a ↔ a ∈ succ b)
    {inside : Set α} {a b : α} (path : ReachIn pred inside a b) (start : a ∈ inside) :
    b ∈ inside ∧ ReachIn succ inside b a := by
  induction path with
  | refl => exact ⟨start, .refl⟩
  | tail _ edge ih => exact ⟨edge.2, .head ⟨(reversed _ _).mp edge.1, ih.1⟩ ih.2⟩

/-! ## What a walk covers -/

/-- A walk from `roots` that starts with the nodes `seen` adds the nodes `added`. -/
structure Explored (succ : α → List α) (roots : List α) (seen : Set α) (added : List α) : Prop where
  nodup : added.Nodup
  fresh : ∀ a ∈ added, a ∉ seen
  covers : ∀ a ∈ roots, a ∈ seen ∨ a ∈ added
  closed : ∀ a ∈ added, ∀ b ∈ succ a, b ∈ seen ∨ b ∈ added
  reached : ∀ a ∈ added, ∃ root ∈ roots, root ∉ seen ∧ ReachIn succ seenᶜ root a

namespace Explored
variable {succ : α → List α} {roots rest added later : List α} {seen : Set α} {node : α}

theorem nothing (covers : ∀ a ∈ roots, a ∈ seen) : Explored succ roots seen [] :=
  ⟨nodup_nil, by simp, fun a member => Or.inl (covers a member), by simp, by simp⟩

theorem mem_append_of_mem_union {a : α} (known : a ∈ seen ∪ {b | b ∈ added} ∨ a ∈ later) :
    a ∈ seen ∨ a ∈ added ++ later := by
  simpa [or_assoc] using known

theorem append (first : Explored succ [node] seen added)
    (second : Explored succ rest (seen ∪ {a | a ∈ added}) later) :
    Explored succ (node :: rest) seen (added ++ later) where
  nodup := .append first.nodup second.nodup
    fun a inFirst inSecond => second.fresh a inSecond (.inr inFirst)
  fresh :=
    forall_mem_append.mpr ⟨first.fresh, fun a member old => second.fresh a member (Or.inl old)⟩
  covers := forall_mem_cons.mpr ⟨(first.covers node (by simp)).imp_right (mem_append_left _),
    fun a member => mem_append_of_mem_union (second.covers a member)⟩
  closed := forall_mem_append.mpr
    ⟨fun a member b edge => (first.closed a member b edge).imp_right (mem_append_left _),
      fun a member b edge => mem_append_of_mem_union (second.closed a member b edge)⟩
  reached a member := by
    rcases mem_append.mp member with member | member
    · obtain ⟨root, inRoots, unseen, path⟩ := first.reached a member
      rw [mem_singleton] at inRoots
      exact ⟨root, by simp [inRoots], unseen, path⟩
    · obtain ⟨root, inRoots, unseen, path⟩ := second.reached a member
      refine ⟨root, mem_cons_of_mem _ inRoots, fun old => unseen (Or.inl old), ?_⟩
      exact path.mono (Set.compl_subset_compl.mpr Set.subset_union_left)

/-- Entering a node lists it before or after the nodes its successors add. -/
theorem enter (unseen : node ∉ seen) (inner : Explored succ (succ node) (insert node seen) added)
    (listed : later.Perm (node :: added)) : Explored succ [node] seen later where
  nodup := by
    rw [listed.nodup_iff, nodup_cons]
    exact ⟨fun member => inner.fresh node member (Set.mem_insert node seen), inner.nodup⟩
  fresh a member := by
    rcases mem_cons.mp (listed.subset member) with rfl | member
    · exact unseen
    · exact fun old => inner.fresh a member (Set.mem_insert_of_mem node old)
  covers a member := by
    rw [mem_singleton] at member
    exact .inr (listed.symm.subset (by simp [member]))
  closed a member b edge := by
    have covered : b ∈ insert node seen ∨ b ∈ added := by
      rcases mem_cons.mp (listed.subset member) with rfl | member
      · exact inner.covers b edge
      · exact inner.closed a member b edge
    rcases covered with (rfl | old) | inAdded
    · exact .inr (listed.symm.subset (by simp))
    · exact .inl old
    · exact Or.inr (listed.symm.subset (mem_cons_of_mem _ inAdded))
  reached a member := by
    refine ⟨node, by simp, unseen, ?_⟩
    rcases mem_cons.mp (listed.subset member) with rfl | member
    · exact .refl
    · obtain ⟨root, edge, fresh, path⟩ := inner.reached a member
      have outside : (insert node seen)ᶜ ⊆ seenᶜ :=
        Set.compl_subset_compl.mpr (Set.subset_insert node seen)
      exact .head ⟨edge, outside fresh⟩ (path.mono outside)

end Explored

/-! ## The leaving order -/

/-- Every node that reaches `node` through nodes left no later than `node` is
reached from `node`. -/
inductive FinishOrder (succ : α → List α) : List α → Prop
  | nil : FinishOrder succ []
  | snoc {left : List α} {node : α} : FinishOrder succ left →
      (∀ a ∈ left, ReachIn succ {b | b ∈ left ∨ b = node} a node → Reach succ node a) →
      FinishOrder succ (left ++ [node])

/-- The state of a leaving-order walk between two visits: the listed nodes are
seen together with their successors. -/
structure Settled (succ : α → List α) (seen : Set α) (left : List α) : Prop where
  listed : ∀ a ∈ left, a ∈ seen
  closed : ∀ a ∈ left, ∀ b ∈ succ a, b ∈ seen
  order : FinishOrder succ left

theorem FinishOrder.of_append {left right : List α} (order : FinishOrder succ (left ++ right)) :
    FinishOrder succ left := by
  induction right using reverseRecOn with
  | nil => simpa using order
  | append_singleton right node ih =>
    rw [← append_assoc] at order
    generalize whole : left ++ right ++ [node] = list at order
    cases order with
    | nil => simp at whole
    | snoc before _ =>
      obtain ⟨sameLeft, -⟩ := append_inj' whole rfl
      exact ih (sameLeft ▸ before)

theorem FinishOrder.reach {left right : List α} {node a : α}
    (order : FinishOrder succ (left ++ node :: right)) (member : a ∈ left)
    (path : ReachIn succ {b | b ∈ left ∨ b = node} a node) : Reach succ node a := by
  rw [← singleton_append, ← append_assoc] at order
  generalize whole : left ++ [node] = list at order
  have before := order.of_append
  cases before with
  | nil => simp at whole
  | snoc _ property =>
    obtain ⟨sameLeft, sameNode⟩ := append_inj' whole rfl
    cases sameNode
    subst sameLeft
    exact property a member path

/-- A node left after its successors keeps the leaving order: a path into it from an older node
would enter it from a settled node. -/
theorem Settled.leave {seen : Set α} {left added : List α} {node : α}
    (before : Settled succ seen left) (unseen : node ∉ seen)
    (inner : Explored succ (succ node) (insert node seen) added)
    (after : Settled succ (insert node seen ∪ {a | a ∈ added}) (left ++ added)) :
    Settled succ (insert node seen ∪ {a | a ∈ added}) (left ++ added ++ [node]) where
  listed := forall_mem_append.mpr ⟨after.listed, forall_mem_singleton.mpr (by simp)⟩
  closed := forall_mem_append.mpr ⟨after.closed, forall_mem_singleton.mpr inner.covers⟩
  order := by
    refine .snoc after.order fun a member path => ?_
    rcases mem_append.mp member with old | new
    · have stays : ∀ x ∈ {x | x ∈ left}, ∀ b ∈ succ x,
          b ∈ {b | b ∈ left ++ added ∨ b = node} → b ∈ {x | x ∈ left} := by
        intro x inLeft b edge inside
        have seenB := before.closed x inLeft b edge
        rcases inside with inside | rfl
        · rcases mem_append.mp inside with inside | inside
          · exact inside
          · exact absurd (Set.mem_insert_of_mem node seenB) (inner.fresh b inside)
        · exact absurd seenB unseen
      exact absurd (before.listed node (path.mem_of_closed stays old)) unseen
    · obtain ⟨root, edge, -, tail⟩ := inner.reached a new
      exact .head edge tail.reach

/-- What a returning walk did: the nodes it added, in its listing order. -/
def Walked (succ : α → List α) (post : Bool) (roots : List α) (state final : List α × List α) :
    Prop :=
  ∃ added, final.2 = state.2 ++ added ∧
    {a | a ∈ final.1} = {a | a ∈ state.1} ∪ {a | a ∈ added} ∧
    Explored succ roots {a | a ∈ state.1} added ∧
    (post = true → Settled succ {a | a ∈ state.1} state.2 → Settled succ {a | a ∈ final.1} final.2)

theorem Walked.enter {post : Bool} {node : α} {state next : List α × List α}
    (unseen : node ∉ state.1) (inner : Walked succ post (succ node)
      (node :: state.1, if post then state.2 else state.2 ++ [node]) next) :
    Walked succ post [node] state (next.1, if post then next.2 ++ [node] else next.2) := by
  obtain ⟨added, listed, seen, explored, settled⟩ := inner
  have start : {a | a ∈ node :: state.1} = insert node {a | a ∈ state.1} := by
    ext a; simp
  simp only [start] at seen explored settled
  have whole : insert node {a | a ∈ state.1} ∪ {a | a ∈ added} =
      {a | a ∈ state.1} ∪ {a | a ∈ node :: added} := by
    ext a; simp only [Set.mem_union, Set.mem_insert_iff, Set.mem_ofPred_eq, mem_cons]; tauto
  cases post with
  | false =>
    refine ⟨node :: added, by simp_all, seen.trans whole, ?_, by simp⟩
    exact explored.enter unseen (.refl _)
  | true =>
    simp only [if_true] at listed settled ⊢
    refine ⟨added ++ [node], by simp [listed], ?_, ?_, ?_⟩
    · rw [seen, whole]
      ext a; simp [or_comm]
    · exact explored.enter unseen (perm_append_singleton node added)
    · intro _ before
      have grown : Settled succ (insert node {a | a ∈ state.1}) state.2 :=
        ⟨fun a member => .inr (before.listed a member),
          fun a member b edge => .inr (before.closed a member b edge), before.order⟩
      have after := settled trivial grown
      rw [listed, seen] at after
      rw [listed, seen]
      exact before.leave unseen explored after

end Paths

variable {α : Type} [DecidableEq α]

/-- Depth-first search from `node`.  The state is the set of seen nodes and the
nodes listed so far. -/
def walk (succ : α → List α) (post : Bool) : Nat → α → List α × List α → Option (List α × List α)
  | 0, _, _ => none
  | fuel + 1, node, state =>
    if node ∈ state.1 then some state
    else do
      let listed := if post then state.2 else state.2 ++ [node]
      let next ← (succ node).foldlM (fun state target => walk succ post fuel target state)
        (node :: state.1, listed)
      some (next.1, if post then next.2 ++ [node] else next.2)

/-- Depth-first search from each root in turn. -/
def walkAll (succ : α → List α) (post : Bool) (fuel : Nat) (roots : List α)
    (state : List α × List α) : Option (List α × List α) :=
  roots.foldlM (fun state root => walk succ post fuel root state) state

variable {succ : α → List α} {post : Bool} {state : List α × List α} {fuel : Nat}

theorem walk_seen {node : α} (seen : node ∈ state.1) :
    walk succ post (fuel + 1) node state = some state := by
  simp [walk, seen]

theorem walk_unseen {node : α} (unseen : node ∉ state.1) : walk succ post (fuel + 1) node state =
      (walkAll succ post fuel (succ node)
        (node :: state.1, if post then state.2 else state.2 ++ [node])).map
        fun next => (next.1, if post then next.2 ++ [node] else next.2) := by
  simp only [walk, if_neg unseen, walkAll]
  cases (succ node).foldlM (fun state target => walk succ post fuel target state)
    (node :: state.1, if post then state.2 else state.2 ++ [node]) <;> rfl

/-- Induction rule: what holds of skipping a seen node, of entering an unseen
one, and of the loop over successors, holds of every returning walk. -/
theorem walk_rule {P : List α → List α × List α → List α × List α → Prop}
    (nil : ∀ state, P [] state state)
    (cons : ∀ {node rest state middle final}, P [node] state middle → P rest middle final →
      P (node :: rest) state final) (seen : ∀ {node state}, node ∈ state.1 → P [node] state state)
    (enter : ∀ {node state next}, node ∉ state.1 →
      P (succ node) (node :: state.1, if post then state.2 else state.2 ++ [node]) next →
      P [node] state (next.1, if post then next.2 ++ [node] else next.2)) (fuel : Nat)
    (roots : List α) (state final : List α × List α)
    (run : walkAll succ post fuel roots state = some final) : P roots state final := by
  induction fuel generalizing roots state final with
  | zero =>
    cases roots with
    | nil => cases Option.some.inj run; exact nil _
    | cons node rest => simp [walkAll, walk] at run
  | succ fuel ih =>
    induction roots generalizing state with
    | nil => cases Option.some.inj run; exact nil _
    | cons node rest ihRest =>
      simp only [walkAll, foldlM_cons] at run
      obtain ⟨middle, first, later⟩ := Option.bind_eq_some_iff.mp run
      refine cons ?_ (ihRest middle later)
      by_cases member : node ∈ state.1
      · rw [walk_seen member] at first
        cases Option.some.inj first
        exact seen member
      · rw [walk_unseen member] at first
        obtain ⟨next, inner, result⟩ := Option.map_eq_some_iff.mp first
        cases result
        exact enter member (ih _ _ _ inner)

theorem walkAll_walked {roots : List α} {final : List α × List α}
    (run : walkAll succ post fuel roots state = some final) :
    Walked succ post roots state final := by
  refine walk_rule ?_ ?_ ?_ ?_ fuel roots state final run
  · exact fun state => ⟨[], by simp, by simp, .nothing (by simp), fun _ settled => settled⟩
  · rintro node rest state middle final ⟨first, listed, seen, explored, settled⟩
      ⟨second, listed', seen', explored', settled'⟩
    refine ⟨first ++ second, by simp [listed', listed], ?_, ?_, ?_⟩
    · rw [seen', seen]
      ext a; simp [or_assoc]
    · rw [seen] at explored'
      exact explored.append explored'
    · exact fun isPost before => settled' isPost (settled isPost before)
  · exact fun {node state} member =>
      ⟨[], by simp, by simp, .nothing (by simpa using member), fun _ settled => settled⟩
  · exact fun unseen inner => .enter unseen inner

/-! ## Enough fuel -/

def unseen (nodes : List α) (seen : List α) : Nat :=
  (nodes.filter fun a => a ∉ seen).length

theorem unseen_cons_lt {nodes seen : List α} {node : α} (member : node ∈ nodes)
    (fresh : node ∉ seen) : unseen nodes (node :: seen) < unseen nodes seen := by
  have split : (nodes.filter fun a => a ∉ node :: seen) =
      (nodes.filter fun a => a ∉ seen).filter fun a => a ≠ node := by
    rw [filter_filter]
    congr 1
    funext a
    simp [not_or]
  rw [unseen, split, unseen, length_filter_lt_length_iff_exists]
  exact ⟨node, by simp [member, fresh], by simp⟩

theorem unseen_le {nodes seen seen' : List α} (grows : ∀ a ∈ seen, a ∈ seen') :
    unseen nodes seen' ≤ unseen nodes seen := by
  refine Sublist.length_le (monotone_filter_right nodes ?_)
  intro a absent
  simp only [decide_eq_true_eq] at absent ⊢
  exact fun old => absent (grows a old)

theorem walkAll_some (post : Bool) {nodes : List α} (closed : ∀ a ∈ nodes, ∀ b ∈ succ a, b ∈ nodes)
    (fuel : Nat) (roots : List α) (state : List α × List α) (inside : ∀ root ∈ roots, root ∈ nodes)
    (enough : unseen nodes state.1 < fuel) :
    ∃ final, walkAll succ post fuel roots state = some final := by
  induction fuel generalizing roots state with
  | zero => omega
  | succ fuel ih =>
    induction roots generalizing state with
    | nil => exact ⟨state, rfl⟩
    | cons node rest ihRest =>
      have first : ∃ middle, walk succ post (fuel + 1) node state = some middle := by
        by_cases member : node ∈ state.1
        · exact ⟨state, walk_seen member⟩
        · have smaller := unseen_cons_lt (inside node (by simp)) member
          obtain ⟨next, run⟩ := ih (succ node)
            (node :: state.1, if post then state.2 else state.2 ++ [node])
            (closed node (inside node (by simp))) (Nat.lt_of_lt_of_le smaller (by omega))
          rw [walk_unseen member, run]
          exact ⟨_, rfl⟩
      obtain ⟨middle, run⟩ := first
      have alone : walkAll succ post (fuel + 1) [node] state = some middle := by
        simp [walkAll, run]
      obtain ⟨added, -, seen, -⟩ := walkAll_walked alone
      have grows : ∀ a ∈ state.1, a ∈ middle.1 := by
        intro a member
        have inUnion : a ∈ {a | a ∈ state.1} ∪ {a | a ∈ added} := .inl member
        rwa [← seen] at inUnion
      obtain ⟨final, later⟩ := ihRest middle (fun root member => inside root (by simp [member]))
        (Nat.lt_of_le_of_lt (unseen_le grows) enough)
      refine ⟨final, ?_⟩
      rw [walkAll, foldlM_cons, run]
      exact later

end DepthFirst
