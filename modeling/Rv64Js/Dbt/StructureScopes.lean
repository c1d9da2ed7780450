import Rv64Js.Dbt.StructureLoops

/-! # Scopes

After `blockify` every edge has a target in scope: at each copy of a member a successor heads the
next structure, an enclosing loop, or the structure behind an enclosing block; at each dispatcher an
entry heads the next structure or one behind a block inside the same loop. -/

set_option autoImplicit false

namespace Rv64Js.Dbt

open List

mutual

/-- `labels` holds the members with a branch target in scope, `blocks` those whose target ends a
block inside the innermost loop, `next` the heads of the structure control falls through to. -/
def Structure.Scoped (graph : Graph) (labels blocks : Set Node) (next : List Node) :
    Structure → Prop
  | .basic node => ∀ target ∈ graph.targets node, target ∈ next ∨ target ∈ labels
  | .dispatcher entries => entries.Nodup ∧ ∀ entry ∈ entries, entry ∈ next ∨ entry ∈ blocks
  | .loop children => (Structure.loop children).head ≠ [] ∧
      ScopedFrom graph (labels ∪ {n | n ∈ (Structure.loop children).head}) ∅ next children
  | .block children => ScopedFrom graph (labels ∪ {n | n ∈ next}) (blocks ∪ {n | n ∈ next})
      next children

def ScopedFrom (graph : Graph) (labels blocks : Set Node) (next : List Node) : List Structure → Prop
  | [] => True
  | child :: rest => child.Scoped graph labels blocks (nextHeads rest next) ∧
      ScopedFrom graph labels blocks next rest

end

theorem nextHeads_append (front back : List Structure) (next : List Node) :
    nextHeads (front ++ back) next = nextHeads front (nextHeads back next) := by
  cases front <;> rfl

variable {graph : Graph}

theorem scopedFrom_append {labels blocks : Set Node} {next : List Node}
    (front back : List Structure) :
    ScopedFrom graph labels blocks next (front ++ back) ↔
      ScopedFrom graph labels blocks (nextHeads back next) front ∧
      ScopedFrom graph labels blocks next back := by
  induction front with
  | nil => simp [ScopedFrom]
  | cons child rest ih => simp only [cons_append, ScopedFrom, nextHeads_append, ih, and_assoc]

/-! ## Scopes that a structure does not use -/

/-- Every target among `used` that has a place in the first scope has it in the second. -/
structure Covers (used : List Node) (labels blocks : Set Node) (next : List Node)
    (labels' blocks' : Set Node) (next' : List Node) : Prop where
  labels : ∀ n ∈ used, n ∈ labels → n ∈ labels'
  blocks : ∀ n ∈ used, n ∈ blocks → n ∈ blocks'
  next : ∀ n ∈ used, n ∈ next → n ∈ next'

theorem Covers.sub {used small : List Node} {labels blocks labels' blocks' : Set Node}
    {next next' : List Node} (covers : Covers used labels blocks next labels' blocks' next')
    (sub : ∀ n ∈ small, n ∈ used) : Covers small labels blocks next labels' blocks' next' :=
  ⟨fun n m => covers.labels n (sub n m), fun n m => covers.blocks n (sub n m),
    fun n m => covers.next n (sub n m)⟩

mutual

theorem Structure.Scoped.weaken {graph : Graph} (child : Structure)
    {labels blocks labels' blocks' : Set Node} {next next' : List Node}
    (inScope : child.Scoped graph labels blocks next)
    (covers : Covers (child.branches graph) labels blocks next labels' blocks' next') :
    child.Scoped graph labels' blocks' next' := by
  cases child with
  | basic node =>
    intro target edge
    exact (inScope target edge).imp (covers.next target edge) (covers.labels target edge)
  | dispatcher entries =>
    refine ⟨inScope.1, fun entry member => ?_⟩
    exact (inScope.2 entry member).imp (covers.next entry member) (covers.blocks entry member)
  | loop children =>
    refine ⟨inScope.1, .weaken children inScope.2 ⟨?_, by simp, covers.next⟩⟩
    exact fun n used => .imp_left (covers.labels n used)
  | block children =>
    refine ScopedFrom.weaken children inScope ⟨?_, ?_, covers.next⟩
    · exact fun n used => .imp (covers.labels n used) (covers.next n used)
    · exact fun n used => .imp (covers.blocks n used) (covers.next n used)

theorem ScopedFrom.weaken {graph : Graph} (children : List Structure)
    {labels blocks labels' blocks' : Set Node} {next next' : List Node}
    (inScope : ScopedFrom graph labels blocks next children)
    (covers : Covers (Structure.branchesOf graph children) labels blocks next labels' blocks'
      next') : ScopedFrom graph labels' blocks' next' children := by
  match children with
  | [] => trivial
  | [child] =>
    refine ⟨.weaken child inScope.1 (covers.sub ?_), trivial⟩
    exact fun n used => by simpa [Structure.branchesOf] using used
  | child :: second :: rest =>
    refine ⟨.weaken child inScope.1 ⟨?_, ?_, fun _ _ => id⟩,
      ScopedFrom.weaken (second :: rest) inScope.2 (covers.sub ?_)⟩
    · exact fun n used => covers.labels n (mem_append_left _ used)
    · exact fun n used => covers.blocks n (mem_append_left _ used)
    · exact fun n used => mem_append_right _ used

end

/-! ## One turn of `blockify` -/

variable {children : List Structure}

theorem Structure.mem_branchesOf {node : Node} :
    node ∈ branchesOf graph children ↔ ∃ child ∈ children, node ∈ child.branches graph := by
  induction children with
  | nil => simp [branchesOf]
  | cons child rest ih => simp [branchesOf, ih]

variable {done : List Structure}

theorem ScopedFrom.drop_heads {outer later : Set Node} {heads next next' : List Node}
    (inScope : ScopedFrom graph (outer ∪ ({n | n ∈ heads} ∪ later)) ({n | n ∈ heads} ∪ later)
      next done) (wider : ∀ n ∈ next, n ∈ next')
    (unused : ∀ child ∈ done, (child.branches graph).any heads.contains = false) :
    ScopedFrom graph (outer ∪ later) later next' done := by
  have free : ∀ n ∈ Structure.branchesOf graph done, n ∉ heads := by
    intro n used isHead
    obtain ⟨child, member, branch⟩ := Structure.mem_branchesOf.mp used
    have hit := unused child member
    rw [any_eq_false] at hit
    exact hit n branch (by simpa using isHead)
  refine .weaken done inScope ⟨?_, ?_, fun n _ => wider n⟩
  · rintro n used (inOuter | isHead | inLater)
    exacts [Or.inl inOuter, absurd isHead (free n used), Or.inr inLater]
  · rintro n used (isHead | inLater)
    exacts [absurd isHead (free n used), inLater]

/-- Wrapped in a block before `next`, structures reach its heads by leaving the block. -/
theorem ScopedFrom.wrap {outer later : Set Node} {heads : List Node}
    (inScope : ScopedFrom graph (outer ∪ ({n | n ∈ heads} ∪ later)) ({n | n ∈ heads} ∪ later)
      [] done) : (Structure.block done).Scoped graph (outer ∪ later) later heads := by
  refine ScopedFrom.weaken done inScope ⟨?_, ?_, by simp⟩
  · rintro n - (inOuter | isHead | inLater)
    exacts [Or.inl (Or.inl inOuter), Or.inr isHead, Or.inl (Or.inr inLater)]
  · rintro n - (isHead | inLater)
    exacts [Or.inr isHead, Or.inl inLater]

theorem blockifyNext_inScope {outer later : Set Node} {next : Structure}
    (doneScope : ScopedFrom graph (outer ∪ ({n | n ∈ next.head} ∪ later))
      ({n | n ∈ next.head} ∪ later) [] done)
    (nextScope : next.Scoped graph (outer ∪ later) later []) :
    ScopedFrom graph (outer ∪ later) later [] (blockifyNext graph done next) := by
  unfold blockifyNext
  split
  case h_1 none =>
    rw [findIdx?_eq_none_iff] at none
    exact (scopedFrom_append _ _).mpr ⟨doneScope.drop_heads (by simp) none, nextScope, trivial⟩
  case h_2 source found =>
    obtain ⟨bound, -, earlier⟩ := findIdx?_eq_some_iff_getElem.mp found
    have unused : ∀ child ∈ done.take source,
        (child.branches graph).any next.head.contains = false := by
      intro child member
      obtain ⟨j, inTake, rfl⟩ := getElem_of_mem member
      rw [length_take] at inTake
      rw [getElem_take]
      simpa using earlier j (by omega)
    rw [← take_append_drop source done, scopedFrom_append] at doneScope
    split_ifs with fallthrough
    · -- the last structure is a basic block and falls through to `next`
      obtain ⟨last, isBasic⟩ := fallthrough
      obtain ⟨node, single⟩ : ∃ node, done.drop source = [.basic node] := by
        have tail : done.drop source = [done[source]] := by
          rw [drop_eq_getElem_cons bound, drop_eq_nil_of_le (by omega)]
        rw [getElem?_eq_getElem bound] at isBasic
        cases basic : done[source] <;> simp_all [Structure.isBasic]
      have whole : done = done.take source ++ [.basic node] := by
        rw [← single, take_append_drop]
      rw [single] at doneScope
      rw [whole, append_assoc, scopedFrom_append]
      refine ⟨doneScope.1.drop_heads (fun _ => id) unused, fun target edge => ?_, nextScope,
        trivial⟩
      rcases doneScope.2.1 target edge with none | inOuter | isHead | inLater
      · simp [nextHeads] at none
      · exact .inr (.inl inOuter)
      · exact .inl isHead
      · exact .inr (.inr inLater)
    · have sameHead : nextHeads (done.drop source) [] =
          nextHeads [Structure.block (done.drop source), next] [] := by
        rw [drop_eq_getElem_cons bound]
        rfl
      rw [scopedFrom_append]
      refine ⟨doneScope.1.drop_heads (fun _ => ?_) unused, doneScope.2.wrap, nextScope, trivial⟩
      rw [sameHead]
      exact id

theorem blockifyNext_heads (graph : Graph) (done : List Structure) (next : Structure)
    (after : List Node) :
    nextHeads (blockifyNext graph done next) after = nextHeads (done ++ [next]) after := by
  unfold blockifyNext
  split
  case h_1 => rfl
  case h_2 source found =>
    obtain ⟨bound, -, -⟩ := findIdx?_eq_some_iff_getElem.mp found
    split_ifs
    · rfl
    · cases done with
      | nil => simp at bound
      | cons first rest =>
        cases source with
        | zero => rfl
        | succ source => rfl

/-! ## The whole pass -/

theorem headsOf_cons (child : Structure) (rest : List Structure) :
    headsOf (child :: rest) = {n | n ∈ child.head} ∪ headsOf rest := by
  ext node
  simp [headsOf]

variable (children : List Structure)

theorem head_loop : (Structure.loop children).head = nextHeads children [] := by
  cases children <;> rfl

theorem head_block : (Structure.block children).head = nextHeads children [] := by
  cases children <;> rfl

mutual

theorem blockifyChildren_head (graph : Graph) (child : Structure) :
    (child.blockifyChildren graph).head = child.head := by
  cases child with
  | basic node => rfl
  | dispatcher entries => rfl
  | loop children =>
    rw [Structure.blockifyChildren, head_loop, head_loop, blockifyFrom_heads graph [] children,
      nil_append]
  | block children =>
    rw [Structure.blockifyChildren, head_block, head_block, blockifyFrom_heads graph [] children,
      nil_append]

theorem blockifyFrom_heads (graph : Graph) (done rest : List Structure) :
    nextHeads (blockifyFrom graph done rest) [] = nextHeads (done ++ rest) [] := by
  cases rest with
  | nil => simp [blockifyFrom]
  | cons next rest =>
    have sameHead := blockifyChildren_head graph next
    rw [blockifyFrom, blockifyFrom_heads graph _ rest, nextHeads_append, blockifyNext_heads]
    cases done with
    | nil => exact sameHead
    | cons first others => rfl

end

mutual

theorem blockifyChildren_inScope (graph : Graph) (child : Structure) {outer later : Set Node}
    (resolved : child.Resolved graph outer later) :
    (child.blockifyChildren graph).Scoped graph (outer ∪ later) later [] := by
  cases child with
  | basic node => exact fun target edge => .inr (resolved target edge)
  | dispatcher entries => exact ⟨resolved.1, fun entry member => .inr (resolved.2 entry member)⟩
  | loop children =>
    have sameHead := blockifyChildren_head graph (.loop children)
    rw [Structure.blockifyChildren] at sameHead ⊢
    refine ⟨sameHead ▸ resolved.1, ?_⟩
    rw [sameHead]
    have inner := blockifyFrom_inScope graph [] children resolved.2 trivial
    exact inner
  | block children => exact resolved.elim

theorem blockifyFrom_inScope (graph : Graph) (done rest : List Structure) {outer : Set Node}
    (resolved : ResolvedFrom graph outer ∅ rest)
    (doneScope : ScopedFrom graph (outer ∪ headsOf rest) (headsOf rest) [] done) :
    ScopedFrom graph outer ∅ [] (blockifyFrom graph done rest) := by
  cases rest with
  | nil =>
    have empty : headsOf [] = ∅ := by simp [headsOf]
    rw [empty, Set.union_empty] at doneScope
    exact doneScope
  | cons next rest =>
    have nextScope := blockifyChildren_inScope graph next resolved.1
    rw [Set.empty_union] at nextScope
    rw [headsOf_cons, ← blockifyChildren_head graph next] at doneScope
    exact blockifyFrom_inScope graph _ rest resolved.2 (blockifyNext_inScope doneScope nextScope)

end

/-! ## Dispatchers with one entry -/

theorem blockifyNext_isEmpty (graph : Graph) (done : List Structure) (next : Structure) :
    (blockifyNext graph done next).isEmpty = false := by
  unfold blockifyNext
  split
  · simp
  · split_ifs <;> simp

theorem blockifyNext_plain {first : Bool} {next : Structure} (donePlain : PlainFrom first done)
    (nextPlain : next.Plain (first && done.isEmpty)) :
    PlainFrom first (blockifyNext graph done next) := by
  unfold blockifyNext
  split
  case h_1 => exact plainFrom_append.mpr ⟨donePlain, nextPlain, trivial⟩
  case h_2 source found =>
    obtain ⟨bound, -, -⟩ := findIdx?_eq_some_iff_getElem.mp found
    split_ifs
    · exact plainFrom_append.mpr ⟨donePlain, nextPlain, trivial⟩
    · have nonempty : done.isEmpty = false := by
        cases done with
        | nil => simp at bound
        | cons => rfl
      rw [nonempty, Bool.and_false] at nextPlain
      rw [← take_append_drop source done, plainFrom_append] at donePlain
      exact plainFrom_append.mpr ⟨donePlain.1, donePlain.2, nextPlain, trivial⟩

mutual

theorem blockifyChildren_plain (graph : Graph) (first : Bool) (child : Structure)
    (plain : child.Plain first) : (child.blockifyChildren graph).Plain first := by
  cases child with
  | basic node => trivial
  | dispatcher entries => exact plain
  | loop children => exact blockifyFrom_plain graph false [] children trivial plain
  | block children =>
    refine blockifyFrom_plain graph first [] children trivial ?_
    rw [isEmpty_nil, Bool.and_true]
    exact plain

theorem blockifyFrom_plain (graph : Graph) (first : Bool) (done rest : List Structure)
    (donePlain : PlainFrom first done) (restPlain : PlainFrom (first && done.isEmpty) rest) :
    PlainFrom first (blockifyFrom graph done rest) := by
  cases rest with
  | nil => exact donePlain
  | cons next rest =>
    have nextPlain := blockifyChildren_plain graph _ next restPlain.1
    refine blockifyFrom_plain graph first _ rest (blockifyNext_plain donePlain nextPlain) ?_
    rw [blockifyNext_isEmpty, Bool.and_false]
    exact restPlain.2

end

/-! ## The member graph -/

def MemberEdge (successors : List (List Node)) (u v : Node) : Prop :=
  ∃ outgoing, successors[u]? = some outgoing ∧ v ∈ outgoing ∧ v < successors.length

def AllReachable (successors : List (List Node)) (entries : List Node) : Prop :=
  ∀ member < successors.length, ∃ entry ∈ entries, entry < successors.length ∧
    Relation.ReflTransGen (MemberEdge successors) entry member

theorem get_insertRows (inRange : List Node → NodeSet) (table : List (List Node)) (first : Nat)
    (graph : Graph) (node : Nat) :
    ((table.zipIdx first).foldl (fun graph row => graph.insert row.2 (inRange row.1)) graph).get
      node =
      if first ≤ node then (table[node - first]?.map inRange).or (graph.get node)
        else graph.get node := by
  induction table generalizing first graph with
  | nil => simp
  | cons outgoing rest ih =>
    rw [zipIdx_cons, foldl_cons, ih, Graph.get_insert]
    by_cases here : node = first
    · subst here; simp
    · by_cases above : first ≤ node
      · have index : node - first = node - (first + 1) + 1 := by omega
        rw [if_pos (by omega : first + 1 ≤ node), if_pos above, if_neg here, index,
          getElem?_cons_succ]
      · rw [if_neg (by omega : ¬ first + 1 ≤ node), if_neg above, if_neg here]

variable [HostWord]

theorem get_memberGraph (successors : List (List Node)) (entries : List Node) (node : Node) :
    (memberGraph successors entries).get node = if node = entryNode then
        some (collectNodes (entries.filter (· < successors.length)))
          else successors[node]?.map fun outgoing =>
        collectNodes (outgoing.filter (· < successors.length)) := by
  simp only [memberGraph, Graph.get_insert]
  split_ifs
  · rfl
  · have rows := get_insertRows
      (fun targets => collectNodes (targets.filter (· < successors.length))) successors 0
      Graph.empty node
    simp only [Nat.zero_le, if_true, Nat.sub_zero] at rows
    rw [rows]
    cases successors[node]? <;> rfl

section MemberGraph
variable {successors : List (List Node)} {entries : List Node}

theorem mem_targets_member {u v : Node} (member : u ≠ entryNode) :
    v ∈ (memberGraph successors entries).targets u ↔ MemberEdge successors u v := by
  rw [Graph.targets, get_memberGraph, if_neg member]
  cases row : successors[u]? with
  | none => simp [MemberEdge, row]
  | some outgoing => simp [MemberEdge, row]

theorem mem_targets_entryNode {v : Node} : v ∈ (memberGraph successors entries).targets entryNode ↔
      v ∈ entries ∧ v < successors.length := by
  rw [Graph.targets, get_memberGraph, if_pos rfl]
  simp

theorem mem_keys_memberGraph {node : Node} :
    node ∈ (memberGraph successors entries).keys ↔ node = entryNode ∨ node < successors.length := by
  rw [Graph.mem_keys_iff, get_memberGraph]
  by_cases here : node = entryNode
  · simp [here]
  · simp only [here, if_false, false_or, Option.map_eq_some_iff]
    refine ⟨fun ⟨_, _, row, _⟩ => (List.getElem?_eq_some_iff.mp row).1, fun bound => ?_⟩
    exact ⟨_, _, List.getElem?_eq_getElem bound, rfl⟩

theorem target_lt {u v : Node} (edge : v ∈ (memberGraph successors entries).targets u) :
    v < successors.length := by
  rw [Graph.targets, get_memberGraph] at edge
  split_ifs at edge with isEntry
  · simp at edge; exact edge.2
  · cases row : successors[u]? with
    | none => simp [row] at edge
    | some outgoing => simp [row] at edge; exact edge.2

theorem memberGraph_wellFormed (fits : successors.length ≤ entryNode) :
    (memberGraph successors entries).WellFormed where
  closed _ _ target edge := mem_keys_memberGraph.mpr (.inr (target_lt edge))
  noEntry _ edge := Nat.lt_irrefl _ (Nat.lt_of_lt_of_le (target_lt edge) fits)
  nodup u := by
    rw [Graph.targets, get_memberGraph]
    split_ifs
    · exact collectNodes_nodup _
    · cases successors[u]? with
      | none => exact nodup_nil
      | some outgoing => exact collectNodes_nodup _

theorem memberGraph_rooted (fits : successors.length ≤ entryNode)
    (reachable : AllReachable successors entries) :
    ∀ b ∈ (memberGraph successors entries).keys,
      DepthFirst.Reach (memberGraph successors entries).targets entryNode b := by
  intro b inKeys
  rcases mem_keys_memberGraph.mp inKeys with rfl | member
  · exact .refl
  · obtain ⟨entry, isEntry, bound, path⟩ := reachable b member
    refine .head (mem_targets_entryNode.mpr ⟨isEntry, bound⟩) ?_
    refine .mono ?_ entry b path
    intro u v edge
    obtain ⟨outgoing, row, -⟩ := id edge
    have inTable : u < successors.length := (List.getElem?_eq_some_iff.mp row).1
    exact (mem_targets_member (Nat.ne_of_lt (Nat.lt_of_lt_of_le inTable fits))).mpr edge

/-- `stackify` returns, starts with the dispatcher on the entries, has several entries at every
other, and every edge has a target in scope. -/
theorem stackify_inScope (fits : successors.length ≤ entryNode)
    (reachable : AllReachable successors entries) (limit : Nat) :
    ∃ result, stackify successors entries limit = some result ∧
      ScopedFrom (memberGraph successors entries) ∅ ∅ [] result ∧
      nextHeads result [] = (memberGraph successors entries).targets entryNode ∧
      PlainFrom true result := by
  have wf : (memberGraph successors entries).WellFormed := memberGraph_wellFormed fits
  generalize graphEq : memberGraph successors entries = graph at wf
  have enough : (entered graph).card < graph.rows.length + 1 := by
    refine Nat.lt_succ_of_le ((Finset.card_filter_le _ _).trans ?_)
    simpa [Graph.keys] using toFinset_card_le graph.keys
  obtain ⟨result, run⟩ := loopify_some limit (graph.rows.length + 1) graph wf.closed enough
  have covered : Covered graph graph ∅ := fun _ _ _ edge => .inl edge
  have resolved := (loopify_resolved wf covered run).1
  obtain ⟨groups, parts, components, rfl, each⟩ := loopify_parts wf.closed run
  have inKeys : entryNode ∈ graph.keys := by
    rw [← graphEq]
    exact mem_keys_memberGraph.mpr (.inl rfl)
  have rooted := memberGraph_rooted fits reachable
  rw [graphEq] at rooted
  obtain ⟨rest, rfl⟩ := components.source_first wf.closed inKeys wf.noEntry rooted
  obtain ⟨part, parts, partRun, eachRest, rfl⟩ := forall₂_cons_left_iff.mp each
  simp only [loopifyGroup, if_true, Option.some.injEq] at partRun
  subst partRun
  refine ⟨_, by simp only [stackify, graphEq, run]; rfl, ?_, ?_, ?_⟩
  · exact blockifyFrom_inScope graph [] _ resolved trivial
  · rw [blockify, blockifyFrom_heads]
    rfl
  · refine blockifyFrom_plain graph true [] _ trivial ⟨.inl rfl, ?_⟩
    refine (groups_resolved loopify_resolved wf covered components [[entryNode]] rfl eachRest).2 ?_
    have nodup := components.nodup
    rw [flatten_cons, singleton_append, nodup_cons] at nodup
    exact nodup.1

end MemberGraph

end Rv64Js.Dbt
