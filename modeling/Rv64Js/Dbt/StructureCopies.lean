import Mathlib.Algebra.Order.BigOperators.Group.List
import Mathlib.Algebra.Order.Ring.Nat
import Rv64Js.Dbt.StructureScopes

/-! # What duplication costs

`loopify` compares the entries of a component times its members with the limit, and does so again in
each of the copies.  All the copies together are as many as that product exactly when nothing in
them is duplicated again at the limit. -/

set_option autoImplicit false

namespace Rv64Js.Dbt

open DepthFirst List

mutual

/-- Occurrences of basic blocks. -/
def Structure.copies : Structure → Nat
  | .basic _ => 1
  | .dispatcher _ => 0
  | .loop children => copiesOf children
  | .block children => copiesOf children

def copiesOf : List Structure → Nat
  | [] => 0
  | child :: rest => child.copies + copiesOf rest

end

/-- Every component has at most one entry, and so has every component left when the edges into that
entry are cut. -/
inductive Reducible : Graph → Prop
  | intro {graph : Graph} {groups : List (List Node)}
    (found : stronglyConnectedComponents graph (reverse graph) = some groups)
    (single : ∀ group ∈ groups, group.length ≠ 1 → (entriesOf graph group).length ≤ 1)
    (inner : ∀ group ∈ groups, group.length ≠ 1 →
      Reducible (cutAt graph group (entriesOf graph group))) : Reducible graph

/-- Nothing is duplicated at the limit: each component has at most one entry or is too large, and so
is every component left when the edges into its entries are cut. -/
inductive Undivided [HostWord] (limit : Nat) : Graph → Prop
  | intro {graph : Graph} {groups : List (List Node)}
    (found : stronglyConnectedComponents graph (reverse graph) = some groups)
    (kept : ∀ group ∈ groups, group.length ≠ 1 → (entriesOf graph group).length ≤ 1 ∨
      limit < min ((entriesOf graph group).length * group.length) entryNode)
    (inner : ∀ group ∈ groups, group.length ≠ 1 →
      Undivided limit (cutAt graph group (entriesOf graph group))) : Undivided limit graph

/-! ## Counting -/

theorem copiesOf_eq_sum : copiesOf = fun structures => (structures.map Structure.copies).sum := by
  funext structures
  induction structures with
  | nil => rfl
  | cons child rest ih => rw [copiesOf, ih, map_cons, sum_cons]

def cost (returned : Option (List Structure)) : Nat := (returned.map copiesOf).getD 0

theorem sum_of_mapM {α β : Type} {f : α → Option β} {as : List α} {bs : List β} (weight : β → Nat)
    (run : as.mapM f = some bs) :
    (bs.map weight).sum = (as.map fun a => ((f a).map weight).getD 0).sum := by
  have each := mapM_forall₂ run
  clear run
  induction each with
  | nil => rfl
  | cons here _ ih => simp [here, ih]

/-- What is spent on some members: as much as they are exactly when they are `plain`. -/
structure Costs (plain : Prop) (members spent : Nat) : Prop where
  least : members ≤ spent
  once : spent = members ↔ plain

theorem Costs.sum {α : Type} {l : List α} {plain : α → Prop} {members spent : α → Nat}
    (each : ∀ a ∈ l, Costs (plain a) (members a) (spent a)) :
    Costs (∀ a ∈ l, plain a) (l.map members).sum (l.map spent).sum := by
  induction l with
  | nil => exact ⟨le_rfl, by simp⟩
  | cons a l ih =>
    obtain ⟨⟨least, once⟩, others⟩ := forall_mem_cons.mp each
    obtain ⟨leastRest, onceRest⟩ := ih others
    simp only [map_cons, sum_cons, forall_mem_cons, ← once, ← onceRest]
    exact ⟨Nat.add_le_add least leastRest, by omega⟩

variable {graph : Graph} {groups : List (List Node)} {group heads : List Node} {entry : Node}
  {limit fuel : Nat}

theorem length_keys (nodup : group.Nodup) (same : ∀ a, a ∈ graph.keys ↔ a ∈ group) :
    graph.keys.length = group.length :=
  ((perm_ext_iff_of_nodup ((pairwise_map.mpr graph.sorted).imp Nat.ne_of_lt) nodup).mpr
    same).length_eq

theorem blockifyNext_copies (graph : Graph) (done : List Structure) (next : Structure) :
    copiesOf (blockifyNext graph done next) = copiesOf done + next.copies := by
  unfold blockifyNext
  split
  · simp [copiesOf_eq_sum]
  · split_ifs
    · simp [copiesOf_eq_sum]
    · simp [copiesOf_eq_sum, Structure.copies, ← Nat.add_assoc, sum_take_add_sum_drop]

mutual

theorem blockifyChildren_copies (graph : Graph) (child : Structure) :
    (child.blockifyChildren graph).copies = child.copies := by
  cases child with
  | loop children | block children =>
    simp [Structure.blockifyChildren, Structure.copies, copiesOf,
      blockifyFrom_copies graph [] children]
  | _ => rfl

theorem blockifyFrom_copies (graph : Graph) (done rest : List Structure) :
    copiesOf (blockifyFrom graph done rest) = copiesOf done + copiesOf rest := by
  cases rest with
  | nil => simp [blockifyFrom, copiesOf]
  | cons next rest =>
    rw [blockifyFrom, blockifyFrom_copies graph _ rest, blockifyNext_copies,
      blockifyChildren_copies graph next, copiesOf, Nat.add_assoc]

end

theorem eq_singleton_of_mem {α : Type} {l : List α} {a : α} (member : a ∈ l)
    (short : l.length ≤ 1) : l = [a] := by
  match l, member, short with
  | [b], member, _ => rw [mem_singleton.mp member]
  | _ :: _ :: _, _, short => simp at short

section Host

variable [HostWord]

abbrev groupCost (limit fuel : Nat) (graph : Graph) (group : List Node) : Nat :=
  cost (partOf limit fuel graph group)

theorem loopify_cost (closed : graph.Closed) (enough : (entered graph).card < fuel + 1)
    (found : stronglyConnectedComponents graph (reverse graph) = some groups) :
    cost (loopify limit (fuel + 1) graph) = (groups.map (groupCost limit fuel graph)).sum := by
  obtain ⟨result, run⟩ := loopify_some limit (fuel + 1) graph closed enough
  rw [run]
  simp only [loopify, found, Option.bind_eq_bind, Option.bind_some] at run
  obtain ⟨parts, each, result⟩ := Option.bind_eq_some_iff.mp run
  cases result
  calc copiesOf parts.flatten = (parts.map copiesOf).sum := by
        simp [copiesOf_eq_sum, map_flatten, sum_flatten, Function.comp_def]
    _ = (groups.map (groupCost limit fuel graph)).sum := sum_of_mapM copiesOf each

/-! ## Components of several members -/

structure Component (graph : Graph) (groups : List (List Node)) (group : List Node) : Prop where
  closed : graph.Closed
  components : Components graph groups
  member : group ∈ groups
  outside : entryNode ∉ group
  many : group.length ≠ 1

/-- Every node is reached from one that is not entered. -/
structure Rooted (graph : Graph) : Prop where
  closed : graph.Closed
  outside : entryNode ∉ graph.keys
  reached : ∀ b ∈ graph.keys, ∃ a, (∀ u, a ∉ graph.targets u) ∧ Reach graph.targets a b

namespace Component

variable (c : Component graph groups group) (enough : (entered graph).card < fuel + 1)

include c in
theorem entered_by
    (reached : ∀ b ∈ graph.keys, ∃ a, (∀ u, a ∉ graph.targets u) ∧ Reach graph.targets a b) :
    ∃ entry, entry ∈ entriesOf graph group := by
  obtain ⟨b, inB⟩ := exists_mem_of_ne_nil group (c.components.nonempty group c.member)
  obtain ⟨a, source, path⟩ := reached b
    ((c.components.covers b).mp (mem_flatten.mpr ⟨group, c.member, inB⟩))
  have outside : a ∉ group :=
    fun inA => c.many (by rw [c.components.source_group c.member inA source]; rfl)
  induction path with
  | refl => exact absurd inB outside
  | @tail u v _ edge ih =>
    by_cases inU : u ∈ group
    · exact ih inU
    · exact ⟨v, mem_groupEntries.mpr ⟨inB, u, edge, inU⟩⟩

include c in
theorem rooted (isHead : entry ∈ heads) (isEntry : entry ∈ entriesOf graph group) :
    Rooted (cutAt graph group heads) := by
  refine ⟨cut_closed fun t kept => (keepOutside_iff.mp kept).1,
    fun inCut => c.outside (mem_keys_cut.mp inCut),
    fun b inCut => ?_⟩
  obtain ⟨before, after, rfl⟩ := append_of_mem c.member
  have inGroup := groupEntries_subset isEntry
  have path := c.components.reach_within c.closed inGroup (mem_keys_cut.mp inCut)
  obtain ⟨-, a, head, -, reached⟩ := cut_rooted isHead inGroup path
  exact ⟨a, cut_source graph group head, reached⟩

include c enough

theorem fueled (isHead : entry ∈ heads) (isEntry : entry ∈ entriesOf graph group) :
    (entered (cutAt graph group heads)).card < fuel := by
  have := entered_cut_lt c.components c.member isHead isEntry
  omega

theorem returns (limit : Nat) : ∃ part, partOf limit fuel graph group = some part :=
  loopifyGroup_some fun _ _ isHead isEntry =>
    loopify_some limit fuel _ (c.rooted isHead isEntry).closed (c.fueled enough isHead isEntry)

theorem groupCost_eq (limit : Nat) : groupCost limit fuel graph group =
    if min ((entriesOf graph group).length * group.length) entryNode > limit then
      cost (loopify limit fuel (cutAt graph group (entriesOf graph group)))
    else ((entriesOf graph group).map fun entry =>
      cost (loopify limit fuel (cutAt graph group [entry]))).sum := by
  obtain ⟨part, run⟩ := c.returns enough limit
  rw [groupCost, run]
  rw [partOf, loopifyGroup_many c.many] at run
  by_cases large : min ((entriesOf graph group).length * group.length) entryNode > limit
  · simp only [if_pos large] at run ⊢
    obtain ⟨children, inner, rfl⟩ := Option.map_eq_some_iff.mp run
    rw [inner]
    split_ifs <;> simp [cost, copiesOf, Structure.copies]
  · simp only [if_neg large] at run ⊢
    have total := sum_of_mapM Structure.copies run
    have inside : Structure.copies ∘ Structure.loop = copiesOf := by
      funext children
      rw [Function.comp, Structure.copies]
    simp only [Option.map_map, inside] at total
    exact (congrFun copiesOf_eq_sum part).trans total

end Component

theorem Reducible.undivided (reducible : Reducible graph) (limit : Nat) :
    Undivided limit graph := by
  induction reducible with
  | intro found single _ ih =>
    exact .intro found (fun group member many => .inl (single group member many)) ih

/-- At the largest limit no component is too large. -/
theorem Undivided.reducible (undivided : Undivided entryNode graph) : Reducible graph := by
  induction undivided with
  | intro found kept _ ih =>
    refine .intro found (fun group member many => (kept group member many).resolve_right ?_) ih
    exact not_lt.mpr (min_le_right _ _)

theorem undivided_iff (found : stronglyConnectedComponents graph (reverse graph) = some groups) :
    Undivided limit graph ↔ ∀ group ∈ groups, group.length ≠ 1 →
      ((entriesOf graph group).length ≤ 1 ∨
        limit < min ((entriesOf graph group).length * group.length) entryNode) ∧
      Undivided limit (cutAt graph group (entriesOf graph group)) := by
  constructor
  · rintro ⟨listed, kept, inner⟩ group member many
    cases found.symm.trans listed
    exact ⟨kept group member many, inner group member many⟩
  · intro all
    exact .intro found (fun group member many => (all group member many).1)
      fun group member many => (all group member many).2

/-- What is spent on a graph with a root for each node. -/
def Spends (limit fuel : Nat) : Prop := ∀ graph :
    Graph, Rooted graph → (entered graph).card < fuel →
  Costs (Undivided limit graph) graph.keys.length (cost (loopify limit fuel graph))

theorem Component.copy_costs (c : Component graph groups group) (spends : Spends limit fuel)
    (enough : (entered graph).card < fuel + 1) (isHead : entry ∈ heads)
    (isEntry : entry ∈ entriesOf graph group) : Costs (Undivided limit (cutAt graph group heads))
      group.length (cost (loopify limit fuel (cutAt graph group heads))) := by
  have nodup := (nodup_flatten.mp c.components.nodup).1 group c.member
  rw [← length_keys nodup fun _ => mem_keys_cut]
  exact spends _ (c.rooted isHead isEntry) (c.fueled enough isHead isEntry)

theorem Component.copies_costs (c : Component graph groups group) (spends : Spends limit fuel)
    (enough : (entered graph).card < fuel + 1) :
    Costs (∀ entry ∈ entriesOf graph group, Undivided limit (cutAt graph group [entry]))
      ((entriesOf graph group).length * group.length) ((entriesOf graph group).map fun entry =>
        cost (loopify limit fuel (cutAt graph group [entry]))).sum := by
  have copies := Costs.sum fun entry isEntry =>
    c.copy_costs spends enough (mem_singleton_self entry) isEntry
  simpa only [map_const', sum_replicate_nat] using copies

theorem Component.costs (c : Component graph groups group) (spends : Spends limit fuel)
    (reached : ∀ b ∈ graph.keys, ∃ a, (∀ u, a ∉ graph.targets u) ∧ Reach graph.targets a b)
    (enough : (entered graph).card < fuel + 1) : Costs (((entriesOf graph group).length ≤ 1 ∨
        limit < min ((entriesOf graph group).length * group.length) entryNode) ∧
        Undivided limit (cutAt graph group (entriesOf graph group)))
      group.length (groupCost limit fuel graph group) := by
  obtain ⟨entry, isEntry⟩ := c.entered_by reached
  have pos := length_pos_iff.mpr (c.components.nonempty group c.member)
  have together := c.copy_costs spends enough isEntry isEntry
  rw [c.groupCost_eq enough]
  by_cases few : (entriesOf graph group).length ≤ 1
  · have alone := eq_singleton_of_mem isEntry few
    simpa [alone] using together
  · split_ifs with large
    · simpa [few, large] using together
    · -- two copies are more than the members
      have copies := (c.copies_costs spends enough).least
      have twice := Nat.mul_le_mul_right group.length (not_le.mp few)
      refine ⟨by omega, iff_of_false (by omega) fun plain => ?_⟩
      exact plain.1.elim few large

theorem Components.costs (components : Components graph groups) (closed : graph.Closed)
    (spends : Spends limit fuel)
    (reached : ∀ b ∈ graph.keys, ∃ a, (∀ u, a ∉ graph.targets u) ∧ Reach graph.targets a b)
    (enough : (entered graph).card < fuel + 1) (member : group ∈ groups)
    (outside : entryNode ∉ group) :
    Costs (group.length ≠ 1 → ((entriesOf graph group).length ≤ 1 ∨
        limit < min ((entriesOf graph group).length * group.length) entryNode) ∧
      Undivided limit (cutAt graph group (entriesOf graph group)))
      group.length (groupCost limit fuel graph group) := by
  by_cases many : group.length = 1
  · obtain ⟨node, rfl⟩ := length_eq_one_iff.mp many
    have once : groupCost limit fuel graph [node] = 1 := by
      simp only [groupCost, partOf, loopifyGroup,
        if_neg (show node ≠ entryNode by simpa [eq_comm] using outside)]
      split_ifs <;> rfl
    rw [once]
    exact ⟨le_rfl, by simp⟩
  · simpa [many] using
      (Component.mk closed components member outside many).costs spends reached enough

theorem spends (limit fuel : Nat) : Spends limit fuel := by
  induction fuel with
  | zero => exact fun _ _ enough => absurd enough (Nat.not_lt_zero _)
  | succ fuel ih =>
    intro graph rooted enough
    obtain ⟨groups, found, components⟩ := stronglyConnectedComponents_components rooted.closed
    rw [loopify_cost rooted.closed enough found, undivided_iff found,
      length_keys components.nodup fun a => (components.covers a).symm, length_flatten]
    refine Costs.sum fun group member =>
      components.costs rooted.closed ih rooted.reached enough member ?_
    exact fun inGroup => rooted.outside
      ((components.covers _).mp (mem_flatten.mpr ⟨group, member, inGroup⟩))

/-! ## One component -/

/-- A component with several entries, of a graph as `stackify` builds it or cuts it out of one. -/
structure Irreducible where
  graph : Graph
  wf : graph.WellFormed
  groups : List (List Node)
  found : stronglyConnectedComponents graph (reverse graph) = some groups
  group : List Node
  member : group ∈ groups
  several : 1 < (entriesOf graph group).length

namespace Irreducible

variable (c : Irreducible)

abbrev entries : List Node := entriesOf c.graph c.group

/-- What `loopify` makes of the component. -/
def eliminate (limit : Nat) : Option (List Structure) :=
  partOf limit c.graph.rows.length c.graph c.group

theorem component : Component c.graph c.groups c.group := by
  obtain ⟨listed, returned, components⟩ := stronglyConnectedComponents_components c.wf.closed
  cases c.found.symm.trans returned
  have many : c.group.length ≠ 1 := by
    have short : c.entries.length ≤ c.group.length := length_filter_le _ _
    have several : 1 < c.entries.length := c.several
    omega
  refine ⟨c.wf.closed, components, c.member, fun inside => many ?_, many⟩
  rw [components.source_group c.member inside c.wf.noEntry]
  rfl

/-- At a limit at which the component is duplicated, its blocks are as many as the product that was
compared with it exactly when nothing in a copy is duplicated at that limit; they are within the
limit then, unless the product saturates. -/
theorem copies_within {limit : Nat}
    (duplicated : min (c.entries.length * c.group.length) entryNode ≤ limit) :
    ∃ structures, c.eliminate limit = some structures ∧
      c.entries.length * c.group.length ≤ copiesOf structures ∧
      (copiesOf structures = c.entries.length * c.group.length ↔
        ∀ entry ∈ c.entries, Undivided limit (cutAt c.graph c.group [entry])) ∧
      (c.entries.length * c.group.length ≤ entryNode →
        (∀ entry ∈ c.entries, Undivided limit (cutAt c.graph c.group [entry])) →
          copiesOf structures ≤ limit) := by
  have component := c.component
  have enough : (entered c.graph).card < c.graph.rows.length + 1 := by
    refine Nat.lt_succ_of_le
      ((Finset.card_filter_le _ _).trans ((List.toFinset_card_le _).trans ?_))
    simp [Graph.keys]
  obtain ⟨structures, run⟩ := component.returns enough limit
  obtain ⟨least, once⟩ := component.copies_costs (spends limit _) enough
  have total := component.groupCost_eq enough limit
  rw [if_neg (not_lt.mpr duplicated), groupCost, run] at total
  rw [← total] at least once
  refine ⟨structures, run, least, once, fun exact undivided => ?_⟩
  have same : copiesOf structures = c.entries.length * c.group.length := once.mpr undivided
  rwa [same, ← min_eq_left exact]

end Irreducible

/-! ## The whole pass -/

/-- `stackify` emits no more blocks than there are members, whatever the limit, exactly if the graph
is
reducible. -/
theorem stackify_once_iff_reducible {successors : List (List Node)} {entries : List Node}
    (fits : successors.length ≤ entryNode) (reachable : AllReachable successors entries) :
    (∀ limit, (stackify successors entries limit).map copiesOf = some successors.length) ↔
      Reducible (memberGraph successors entries) := by
  have wf : (memberGraph successors entries).WellFormed := memberGraph_wellFormed fits
  have rooted := memberGraph_rooted fits reachable
  have members : (memberGraph successors entries).keys.length =
      (entryNode :: range successors.length).length :=
    length_keys (nodup_cons.mpr ⟨by simpa using fits, nodup_range⟩) fun a => by
      simp [mem_keys_memberGraph]
  have inKeys : entryNode ∈ (memberGraph successors entries).keys :=
    mem_keys_memberGraph.mpr (.inl rfl)
  simp only [stackify]
  generalize memberGraph successors entries = graph at *
  obtain ⟨groups, found, components⟩ := stronglyConnectedComponents_components wf.closed
  have enough : (entered graph).card < graph.rows.length + 1 := by
    refine Nat.lt_succ_of_le ((Finset.card_filter_le _ _).trans ((toFinset_card_le _).trans ?_))
    simp [Graph.keys]
  have total (limit : Nat) : cost (loopify limit _ graph) = _ := loopify_cost wf.closed enough found
  rw [length_keys components.nodup fun a => (components.covers a).symm] at members
  obtain ⟨rest, rfl⟩ := components.source_first wf.closed inKeys wf.noEntry rooted
  have nodup := components.nodup
  rw [flatten_cons, singleton_append, nodup_cons, mem_flatten] at nodup
  have costs (limit : Nat) := Costs.sum fun group (member : group ∈ rest) =>
    components.costs wf.closed (spends limit _) (fun b inB => ⟨entryNode, wf.noEntry, rooted b inB⟩)
      enough (mem_cons_of_mem _ member) fun inGroup => nodup.1 ⟨group, member, inGroup⟩
  have count : successors.length = (rest.map length).sum := by simpa using members.symm
  have emitted (limit : Nat) : ((loopify limit (graph.rows.length + 1) graph).bind fun result =>
      some (blockify result graph)).map copiesOf =
        some (rest.map (groupCost limit graph.rows.length graph)).sum := by
    have entry : groupCost limit graph.rows.length graph [entryNode] = 0 := by
      simp [groupCost, partOf, loopifyGroup, cost, copiesOf, Structure.copies]
    obtain ⟨result, run⟩ := loopify_some limit _ graph wf.closed enough
    have value := total limit
    rw [run, map_cons, sum_cons, entry, Nat.zero_add] at value
    simpa [run, cost, blockify, blockifyFrom_copies, copiesOf] using value
  have once (limit : Nat) : (rest.map (groupCost limit graph.rows.length graph)).sum =
      (rest.map length).sum ↔ Undivided limit graph := by
    rw [(costs limit).once, undivided_iff found, forall_mem_cons]
    exact ⟨fun all => ⟨fun many => absurd rfl many, all⟩, And.right⟩
  simp only [Option.bind_eq_bind, emitted, count, Option.some.injEq, once]
  exact ⟨fun all => (all entryNode).reducible, fun reducible limit => reducible.undivided limit⟩

end Host

section

attribute [local instance] wasm

/-- Four nodes, each a successor of the others, with two entries. -/
def fullFour : Irreducible where
  graph := memberGraph [[1, 2, 3], [0, 2, 3], [0, 1, 3], [0, 1, 2]] [0, 1]
  wf := memberGraph_wellFormed (by decide)
  groups := [[entryNode], [0, 1, 2, 3]]
  found := by decide +kernel
  group := [0, 1, 2, 3]
  member := by decide
  several := by decide +kernel

/-- With a limit of eight each entry gets its copy; in a copy the other three nodes are all entered,
and nine is too many. -/
theorem fullFour_copied : ∃ structures, fullFour.eliminate 8 = some structures ∧
    copiesOf structures = 8 ∧ copiesOf structures ≤ 8 := by
  have undivided : ∀ entry ∈ fullFour.entries,
      Undivided 8 (cutAt fullFour.graph fullFour.group [entry]) := by
    have nested : ∀ row ∈ [(0, [1, 2, 3]), (1, [0, 2, 3])],
        Undivided 8 (cutAt fullFour.graph fullFour.group [row.1]) := by
      intro row member
      refine @Undivided.intro _ 8 _ [[row.1], row.2] (by decide +kernel +revert)
        (by decide +kernel +revert) fun group inGroups many => ?_
      obtain rfl : group = row.2 := by
        refine (mem_pair.mp inGroups).resolve_left fun alone => many ?_
        rw [alone, length_singleton]
      refine @Undivided.intro _ 8 _ (row.2.reverse.map ([·])) (by decide +kernel +revert) ?_ ?_ <;>
        simp
    have listed : fullFour.entries = [0, 1] := by decide +kernel
    rw [listed]
    simpa using nested
  have duplicated : min (fullFour.entries.length * fullFour.group.length) entryNode ≤ 8 := by
    decide +kernel
  obtain ⟨structures, run, -, once, within⟩ := fullFour.copies_within duplicated
  exact ⟨structures, run, (once.mpr undivided).trans (by decide +kernel),
    within (by decide +kernel) undivided⟩

/-- Three nodes, all of them entered and each a successor of the others, with a limit of nine. -/
theorem nested_copies_exceed :
    (stackify [[1, 2], [0, 2], [0, 1]] [0, 1, 2] 9).map copiesOf = some 15 := by
  decide +kernel

def nestedLoops : List (List Node) := [[1], [2, 1], [0, 3], []]

/-- A loop in a loop, and the way out of both. -/
theorem nestedLoops_emitted_once : Reducible (memberGraph nestedLoops [0]) ∧
    AllReachable nestedLoops [0] ∧ (stackify nestedLoops [0] 8).map copiesOf = some 4 := by
  have reducible : Reducible (memberGraph nestedLoops [0]) := by
    refine @Reducible.intro _ [[entryNode], [0, 2, 1], [3]] (by decide +kernel)
      (by decide +kernel) fun group member many => ?_
    obtain rfl : group = [0, 2, 1] := by revert many; decide +revert
    exact @Reducible.intro _ [[0], [1], [2]] (by decide +kernel) (by simp) (by simp)
  have first : MemberEdge nestedLoops 0 1 := ⟨[1], rfl, by decide, by decide⟩
  have second : MemberEdge nestedLoops 1 2 := ⟨[2, 1], rfl, by decide, by decide⟩
  have third : MemberEdge nestedLoops 2 3 := ⟨[0, 3], rfl, by decide, by decide⟩
  have reachable : AllReachable nestedLoops [0] := by
    intro member bound
    refine ⟨0, by decide, by decide, ?_⟩
    match member, bound with
    | 0, _ => exact .refl
    | 1, _ => exact .single first
    | 2, _ => exact .tail (.single first) second
    | 3, _ => exact .tail (.tail (.single first) second) third
  exact ⟨reducible, reachable,
    (stackify_once_iff_reducible (by decide) reachable).mpr reducible 8⟩

end

end Rv64Js.Dbt
