import Rv64Js.Dbt.Structure

/-! # The components in topological order

`stronglyConnectedComponents` returns the components of every closed graph, each once, sources
first. The argument: the assigned nodes are closed under predecessors, and a node that
reaches the next root outside them was left no later than it, so the root reaches it. -/

set_option autoImplicit false

namespace Rv64Js.Dbt

open DepthFirst List

/-- What the list of components says about its graph. -/
structure Components (graph : Graph) (groups : List (List Node)) : Prop where
  nodup : groups.flatten.Nodup
  covers : ∀ a, a ∈ groups.flatten ↔ a ∈ graph.keys
  nonempty : ∀ group ∈ groups, group ≠ []
  strong : ∀ group ∈ groups, ∀ a ∈ group, ∀ b ∈ group, Reach graph.targets a b
  ordered : groups.Pairwise fun earlier later =>
    ∀ b ∈ later, ∀ a ∈ earlier, a ∉ graph.targets b

theorem mem_reverse_iff (graph : Graph) (a b : Node) :
    b ∈ (reverse graph).targets a ↔ a ∈ graph.targets b := mem_reverse

variable {graph : Graph} {node : Node}

theorem Graph.mem_keys_of_mem_targets {target : Node} (edge : target ∈ graph.targets node) :
    node ∈ graph.keys := by
  obtain ⟨row, member, rfl, -⟩ := Graph.exists_row_of_mem_targets edge
  exact mem_map_of_mem member

/-! ## First pass -/

theorem visitAll_finishes (closed : graph.Closed) : ∃ visited, graph.keys.foldlM
        (fun state node => visit graph (graph.rows.length + 1) node state) ([], []) = some visited ∧
      FinishOrder graph.targets visited.2 ∧ ∀ a, a ∈ visited.2 ↔ a ∈ graph.keys := by
  obtain ⟨visited, run⟩ := walkAll_some true closed (graph.rows.length + 1) graph.keys
    ([], []) (fun _ member => member) (by simp [unseen, Graph.keys])
  obtain ⟨added, listed, seen, explored, settled⟩ := walkAll_walked run
  have start : Settled graph.targets {a | a ∈ ([] : List Node)} [] :=
    ⟨by simp, by simp, .nil⟩
  have finished : visited.2 = added := by simpa using listed
  refine ⟨visited, run, (settled rfl start).order, fun a => ?_⟩
  rw [finished]
  constructor
  · intro member
    obtain ⟨root, inKeys, -, path⟩ := explored.reached a member
    exact path.mem_of_closed (fun node inside target edge _ => closed node inside target edge)
      inKeys
  · intro member
    exact (explored.covers a member).resolve_left (by simp)

/-! ## Second pass -/

structure Assigned (graph : Graph) (processed : List Node)
    (state : List Node × List (List Node)) : Prop where
  processed : ∀ a ∈ processed, a ∈ state.1
  assigned : ∀ a, a ∈ state.1 ↔ a ∈ state.2.flatten
  inKeys : ∀ a ∈ state.1, a ∈ graph.keys
  closed : ∀ a ∈ state.1, ∀ b, a ∈ graph.targets b → b ∈ state.1
  nodup : state.2.flatten.Nodup
  nonempty : ∀ group ∈ state.2, group ≠ []
  strong : ∀ group ∈ state.2, ∀ a ∈ group, ∀ b ∈ group, Reach graph.targets a b
  ordered : state.2.Pairwise fun earlier later =>
    ∀ b ∈ later, ∀ a ∈ earlier, a ∉ graph.targets b

variable {finished : List Node}

theorem reach_of_explored (closed : graph.Closed) {processed rest : List Node} {a : Node}
    {assigned : Set Node} {added : List Node} (order : FinishOrder graph.targets finished)
    (covers : ∀ a, a ∈ finished ↔ a ∈ graph.keys)
    (split : finished.reverse = processed ++ node :: rest) (earlier : ∀ a ∈ processed, a ∈ assigned)
    (explored : Explored (reverse graph).targets [node] assigned added) (member : a ∈ added) :
    Reach graph.targets node a ∧ Reach graph.targets a node := by
  obtain ⟨root, isNode, unassigned, path⟩ := explored.reached a member
  rw [mem_singleton] at isNode
  subst isNode
  obtain ⟨fresh, back⟩ := path.flip (mem_reverse_iff graph) unassigned
  have whole : finished = rest.reverse ++ root :: processed.reverse := by
    rw [← reverse_reverse finished, split]
    simp
  -- a node of the path is listed, and not among the processed ones
  have listed : ∀ b, b ∈ graph.keys → b ∉ assigned → b ∈ rest.reverse ∨ b = root := by
    intro b inKeys outside
    have inFinished := (covers b).mpr inKeys
    rw [whole, mem_append, mem_cons] at inFinished
    rcases inFinished with before | here | after
    · exact .inl before
    · exact .inr here
    · exact absurd (earlier b (List.mem_reverse.mp after)) outside
  have inside : ReachIn graph.targets {b | b ∈ rest.reverse ∨ b = root} a root := by
    refine Relation.ReflTransGen.mono ?_ a root back
    intro c b edge
    exact ⟨edge.1, listed b (closed c (Graph.mem_keys_of_mem_targets edge.1) b edge.1) edge.2⟩
  refine ⟨?_, back.reach⟩
  rcases Relation.ReflTransGen.cases_head back with rfl | ⟨next, edge, -⟩
  · exact .refl
  · rcases listed a (Graph.mem_keys_of_mem_targets edge.1) fresh with before | rfl
    · rw [whole] at order
      exact order.reach before inside
    · exact .refl

theorem assignGroup_assigned (closed : graph.Closed) {processed rest : List Node}
    {state next : List Node × List (List Node)} {fuel : Nat}
    (order : FinishOrder graph.targets finished) (covers : ∀ a, a ∈ finished ↔ a ∈ graph.keys)
    (split : finished.reverse = processed ++ node :: rest) (before : Assigned graph processed state)
    (run : assignGroup (reverse graph) fuel state node = some next) :
    Assigned graph (processed ++ [node]) next := by
  obtain ⟨walked, walk, result⟩ := Option.bind_eq_some_iff.mp run
  have alone : walkAll (reverse graph).targets false fuel [node] (state.1, []) = some walked := by
    simpa [walkAll, assign] using walk
  obtain ⟨added, listed, seen, explored, -⟩ := walkAll_walked alone
  have mem : ∀ a, a ∈ walked.1 ↔ a ∈ state.1 ∨ a ∈ added := fun a => by
    have := Set.ext_iff.mp seen a
    simpa using this
  have group : walked.2 = added := by simpa using listed
  have inKeys : node ∈ graph.keys := by
    rw [← covers, ← List.mem_reverse, split]
    simp
  have nodeAssigned : node ∈ walked.1 := by
    rw [mem]
    simpa using explored.covers node (by simp)
  have connected : ∀ a ∈ added, Reach graph.targets node a ∧ Reach graph.targets a node :=
    fun a member => reach_of_explored closed order covers split before.processed explored member
  have addedKeys : ∀ a ∈ added, a ∈ graph.keys := fun a member => by
    rcases Relation.ReflTransGen.cases_head (connected a member).2 with rfl | ⟨_, edge, -⟩
    · exact inKeys
    · exact Graph.mem_keys_of_mem_targets edge
  have processedAssigned : ∀ a ∈ processed ++ [node], a ∈ walked.1 :=
    forall_mem_append.mpr ⟨fun a old => (mem a).mpr (Or.inl (before.processed a old)),
      forall_mem_singleton.mpr nodeAssigned⟩
  rw [group] at result
  cases added with
  | nil =>
    obtain rfl : next = (walked.1, state.2) := by simpa using result.symm
    have same : ∀ a, a ∈ walked.1 ↔ a ∈ state.1 := fun a => by simpa using mem a
    exact ⟨processedAssigned, fun a => (same a).trans (before.assigned a),
      fun a member => before.inKeys a ((same a).mp member),
      fun a member b edge => (same b).mpr (before.closed a ((same a).mp member) b edge),
      before.nodup, before.nonempty, before.strong, before.ordered⟩
  | cons first others =>
    obtain rfl : next = (walked.1, state.2 ++ [first :: others]) := by simpa using result.symm
    refine ⟨processedAssigned, fun a => ?_, fun a member => ?_, fun a member b edge => ?_, ?_, ?_,
      ?_, ?_⟩
    · rw [mem a, before.assigned a]; simp
    · rcases (mem a).mp member with old | new
      exacts [before.inKeys a old, addedKeys a new]
    · rcases (mem a).mp member with old | new
      · exact (mem b).mpr (.inl (before.closed a old b edge))
      · exact (mem b).mpr (explored.closed a new b (mem_reverse.mpr edge))
    · rw [flatten_append, flatten_singleton]
      exact .append before.nodup explored.nodup fun a old new =>
        explored.fresh a new ((before.assigned a).mpr old)
    · exact forall_mem_append.mpr ⟨before.nonempty, forall_mem_singleton.mpr (cons_ne_nil _ _)⟩
    · refine forall_mem_append.mpr ⟨before.strong, forall_mem_singleton.mpr fun a inA b inB => ?_⟩
      exact (connected a inA).2.trans (connected b inB).1
    · refine pairwise_append.mpr ⟨before.ordered, pairwise_singleton _ _, fun earlier inGroups =>
        forall_mem_singleton.mpr fun b inB a inA edge => ?_⟩
      have old : a ∈ state.1 := (before.assigned a).mpr (mem_flatten.mpr ⟨earlier, inGroups, inA⟩)
      exact explored.fresh b inB (before.closed a old b edge)

theorem assignGroup_some (state : List Node × List (List Node)) (inKeys : node ∈ graph.keys) :
    ∃ next, assignGroup (reverse graph) (graph.rows.length + 1) state node = some next := by
  have closed : ∀ a ∈ graph.keys, ∀ b ∈ (reverse graph).targets a, b ∈ graph.keys :=
    fun a _ b edge => Graph.mem_keys_of_mem_targets (mem_reverse.mp edge)
  have enough : unseen graph.keys state.1 < graph.rows.length + 1 := by
    refine Nat.lt_succ_of_le (Nat.le_trans (length_filter_le _ _) ?_)
    simp [Graph.keys]
  obtain ⟨final, run⟩ := walkAll_some false closed (graph.rows.length + 1) [node] (state.1, [])
    (by simpa using inKeys) enough
  have alone : assign (reverse graph) (graph.rows.length + 1) node (state.1, []) = some final := by
    simpa [walkAll, assign] using run
  simp [assignGroup, alone]

theorem assignGroups_assigned (closed : graph.Closed) (order : FinishOrder graph.targets finished)
    (covers : ∀ a, a ∈ finished ↔ a ∈ graph.keys) (rest processed : List Node)
    (state : List Node × List (List Node)) (split : finished.reverse = processed ++ rest)
    (before : Assigned graph processed state) :
    ∃ final, rest.foldlM (assignGroup (reverse graph) (graph.rows.length + 1)) state = some final ∧
      Assigned graph (processed ++ rest) final := by
  induction rest generalizing processed state with
  | nil => exact ⟨state, rfl, by simpa using before⟩
  | cons node rest ih =>
    have inKeys : node ∈ graph.keys := by
      rw [← covers, ← List.mem_reverse, split]
      simp
    obtain ⟨next, run⟩ := assignGroup_some state inKeys
    obtain ⟨final, later, after⟩ := ih (processed ++ [node]) next (by simpa using split)
      (assignGroup_assigned closed order covers split before run)
    refine ⟨final, ?_, by simpa using after⟩
    rw [foldlM_cons, run]
    exact later

/-- Every closed graph has its components listed, sources first. -/
theorem stronglyConnectedComponents_components (closed : graph.Closed) :
    ∃ groups, stronglyConnectedComponents graph (reverse graph) = some groups ∧
    Components graph groups := by
  obtain ⟨visited, run, order, covers⟩ := visitAll_finishes closed
  have start : Assigned graph [] ([], []) := by
    constructor <;> simp
  obtain ⟨final, later, after⟩ := assignGroups_assigned closed order covers visited.2.reverse []
    ([], []) rfl start
  refine ⟨final.2, ?_, ⟨after.nodup, fun a => ?_, after.nonempty, after.strong, after.ordered⟩⟩
  · simp only [stronglyConnectedComponents, run, Option.bind_eq_bind, Option.bind_some, later]
  · rw [← after.assigned]
    refine ⟨after.inKeys a, fun member => after.processed a ?_⟩
    simpa using (covers a).mpr member

/-! ## What the list says about paths -/

namespace Components
variable {before after : List (List Node)} {group : List Node}

theorem target_later (closed : graph.Closed) (groups : Components graph (before ++ group :: after))
    {u v : Node} (inGroup : u ∈ group) (edge : v ∈ graph.targets u) :
    v ∈ group ∨ v ∈ after.flatten := by
  have inKeys := closed u (Graph.mem_keys_of_mem_targets edge) v edge
  rw [← groups.covers] at inKeys
  simp only [flatten_append, flatten_cons, mem_append] at inKeys
  rcases inKeys with inBefore | inside
  · obtain ⟨earlier, member, inEarlier⟩ := mem_flatten.mp inBefore
    have ordered := (pairwise_append.mp groups.ordered).2.2 earlier member group (by simp)
    exact absurd edge (ordered u inGroup v inEarlier)
  · exact inside

theorem after_closed (closed : graph.Closed) (groups : Components graph (before ++ group :: after))
    {u v : Node} (inAfter : u ∈ after.flatten) (edge : v ∈ graph.targets u) :
    v ∈ after.flatten := by
  obtain ⟨later, member, inLater⟩ := mem_flatten.mp inAfter
  obtain ⟨front, back, rfl⟩ := append_of_mem member
  have shifted : before ++ group :: (front ++ later :: back) =
      (before ++ group :: front) ++ later :: back := by simp
  rw [shifted] at groups
  have found := groups.target_later closed inLater edge
  simp only [flatten_append, flatten_cons, mem_append]
  tauto

section
variable (closed : graph.Closed) (groups : Components graph (before ++ group :: after)) {a b : Node}
include closed groups

theorem reach_after (path : Reach graph.targets a b) (inAfter : a ∈ after.flatten) :
    b ∈ after.flatten := by
  induction path with
  | refl => exact inAfter
  | tail _ edge ih => exact groups.after_closed closed ih edge

/-- A path from a component stays in it and the components after it. -/
theorem reach_later (path : Reach graph.targets a b) (start : a ∈ group ∨ a ∈ after.flatten) :
    b ∈ group ∨ b ∈ after.flatten := by
  induction path with
  | refl => exact start
  | tail _ edge ih =>
    rcases ih with here | later
    · exact groups.target_later closed here edge
    · exact .inr (groups.after_closed closed later edge)

omit closed in
theorem not_after (inGroup : a ∈ group) : a ∉ after.flatten := by
  have nodup := groups.nodup
  simp only [flatten_append, flatten_cons] at nodup
  exact (nodup_append'.mp (nodup_append'.mp nodup).2.1).2.2 inGroup

theorem mem_group_iff (inA : a ∈ group) :
    b ∈ group ↔ Reach graph.targets a b ∧ Reach graph.targets b a := by
  constructor
  · intro inB
    exact ⟨groups.strong group (by simp) a inA b inB, groups.strong group (by simp) b inB a inA⟩
  · rintro ⟨there, back⟩
    rcases groups.reach_later closed there (.inl inA) with inB | later
    · exact inB
    · exact absurd (groups.reach_after closed back later) (groups.not_after inA)

end

end Components

/-- A finite directed graph: its nodes are the keys, and every edge ends in one of them. -/
structure Digraph where
  graph : Graph
  closed : graph.Closed

/-- The nodes are listed once each, in classes of mutual reachability, and no edge leads from a
later
class to an earlier one. -/
theorem components_partition (g : Digraph) : ∃ groups,
    stronglyConnectedComponents g.graph (reverse g.graph) = some groups ∧ groups.flatten.Nodup ∧
      (∀ a, a ∈ groups.flatten ↔ a ∈ g.graph.keys) ∧
      (∀ group ∈ groups, group ≠ [] ∧ ∀ a ∈ group, ∀ b,
        b ∈ group ↔ Reach g.graph.targets a b ∧ Reach g.graph.targets b a) ∧
      groups.Pairwise fun earlier later => ∀ b ∈ later, ∀ a ∈ earlier, a ∉ g.graph.targets b := by
  obtain ⟨groups, returned, components⟩ := stronglyConnectedComponents_components g.closed
  refine ⟨groups, returned, components.nodup, components.covers, fun group member => ?_,
    components.ordered⟩
  refine ⟨components.nonempty group member, fun a inA b => ?_⟩
  obtain ⟨before, after, rfl⟩ := List.append_of_mem member
  exact components.mem_group_iff g.closed inA

section

attribute [local instance] wasm

/-- A loop of three members, left from the middle one. -/
def loopGraph : Digraph :=
  ⟨memberGraph [[1], [2, 3], [0], []] [0], by unfold Graph.Closed; decide +kernel⟩

theorem loopGraph_components :
    stronglyConnectedComponents loopGraph.graph (reverse loopGraph.graph) =
        some [[entryNode], [0, 2, 1], [3]] ∧
      Reach loopGraph.graph.targets 2 1 ∧ ¬Reach loopGraph.graph.targets 3 1 := by
  have listed : stronglyConnectedComponents loopGraph.graph (reverse loopGraph.graph) =
      some [[entryNode], [0, 2, 1], [3]] := by decide +kernel
  obtain ⟨groups, returned, -, -, classes, -⟩ := components_partition loopGraph
  cases listed.symm.trans returned
  have loop := (classes [0, 2, 1] (by simp)).2
  have last := (classes [3] (by simp)).2 3 (by simp) 1
  refine ⟨listed, ((loop 2 (by simp) 1).mp (by simp)).1, fun back => ?_⟩
  have out : Reach loopGraph.graph.targets 1 3 :=
    .single (show 3 ∈ loopGraph.graph.targets 1 by decide +kernel)
  exact absurd (last.mpr ⟨back, out⟩) (by simp)

end

end Rv64Js.Dbt
