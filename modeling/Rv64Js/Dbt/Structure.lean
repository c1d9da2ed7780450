import Mathlib.Algebra.Group.Nat.Defs
import Mathlib.Data.List.Basic
import Rv64Js.Lib.DepthFirst
import Rv64Js.Lib.OrderedMap

/-! # Structured-control reconstruction

`rv64-dbt/src/structure.rs`: the member graph, its strongly connected components, `loopify` and
`blockify`. A `BTreeSet` is an ascending list and a `BTreeMap` an ascending list of rows. Recursion
spends one unit of fuel per nesting level; `none` stands for exhausted fuel only. -/

set_option autoImplicit false

namespace Rv64Js.Dbt

open List

abbrev Node := Nat

/-- The host the pass runs on, by the bits of its `usize`. -/
class HostWord where
  bits : Nat

/-- A browser. -/
@[reducible] def wasm : HostWord := ⟨32⟩

/-- `usize::MAX`, the source of the edges into the callable members. -/
def entryNode [HostWord] : Node := 2 ^ HostWord.bits - 1

/-! ## Ordered sets and maps -/

abbrev NodeSet := List Node

def insertNode (node : Node) : NodeSet → NodeSet
  | [] => [node]
  | head :: rest =>
    if node < head then node :: head :: rest
    else if node = head then head :: rest
    else head :: insertNode node rest

def collectNodes (nodes : List Node) : NodeSet :=
  nodes.foldl (fun set node => insertNode node set) []

variable {node a : Node}

@[simp] theorem mem_insertNode {set : NodeSet} : a ∈ insertNode node set ↔ a = node ∨ a ∈ set := by
  induction set with
  | nil => simp [insertNode]
  | cons head rest ih =>
    simp only [insertNode]
    split_ifs with below same
    · simp
    · subst same; simp
    · simp only [mem_cons, ih]; tauto

@[simp] theorem mem_collectNodes {nodes : List Node} : a ∈ collectNodes nodes ↔ a ∈ nodes := by
  have general : ∀ (nodes : List Node) (set : NodeSet),
      a ∈ nodes.foldl (fun set node => insertNode node set) set ↔ a ∈ set ∨ a ∈ nodes := by
    intro nodes
    induction nodes with
    | nil => simp
    | cons head rest ih => intro set; simp only [foldl_cons, ih, mem_insertNode, mem_cons]; tauto
  simpa [collectNodes] using general nodes []

theorem insertNode_sorted {set : NodeSet} (sorted : set.Pairwise (· < ·)) :
    (insertNode node set).Pairwise (· < ·) := by
  induction set with
  | nil => simp [insertNode]
  | cons head rest ih =>
    obtain ⟨above, tail⟩ := pairwise_cons.mp sorted
    simp only [insertNode]
    split_ifs with below same
    · refine pairwise_cons.mpr ⟨forall_mem_cons.mpr ⟨below, fun a member => ?_⟩, sorted⟩
      exact Nat.lt_trans below (above a member)
    · exact sorted
    · refine pairwise_cons.mpr ⟨fun a member => ?_, ih tail⟩
      rcases mem_insertNode.mp member with rfl | member
      · exact Nat.lt_of_le_of_ne (Nat.le_of_not_lt below) (Ne.symm same)
      · exact above a member

theorem collectNodes_nodup (nodes : List Node) : (collectNodes nodes).Nodup := by
  have sorted : (collectNodes nodes).Pairwise (· < ·) :=
    foldlRecOn nodes _ Pairwise.nil fun _ sorted _ _ => insertNode_sorted sorted
  exact sorted.imp Nat.ne_of_lt

/-- `BTreeMap<Node, Set>`: rows in ascending key order, one per key. -/
structure Graph where
  rows : List (Node × NodeSet)
  sorted : rows.Pairwise fun a b => a.1 < b.1

namespace Graph

def empty : Graph := ⟨[], List.Pairwise.nil⟩

def insertRow (node : Node) (targets : NodeSet) : List (Node × NodeSet) → List (Node × NodeSet)
  | [] => [(node, targets)]
  | row :: rest =>
    if node < row.1 then (node, targets) :: row :: rest
    else if node = row.1 then (node, targets) :: rest
    else row :: insertRow node targets rest

variable {node : Node} {rows : List (Node × NodeSet)} {row : Node × NodeSet}

theorem insertRow_eq (targets : NodeSet) :
    insertRow node targets rows = OrderedMap.insert node targets rows := by
  induction rows with
  | nil => rfl
  | cons row rest ih =>
    rw [insertRow, OrderedMap.insert, ih]
    split_ifs <;> grind

theorem insertRow_sorted {targets : NodeSet} (sorted : rows.Pairwise fun a b => a.1 < b.1) :
    (insertRow node targets rows).Pairwise fun a b => a.1 < b.1 := by
  induction rows with
  | nil => simp [insertRow]
  | cons head rest ih =>
    obtain ⟨above, tail⟩ := pairwise_cons.mp sorted
    simp only [insertRow]
    split_ifs with below same
    · refine pairwise_cons.mpr ⟨forall_mem_cons.mpr ⟨below, fun row member => ?_⟩, sorted⟩
      exact Nat.lt_trans below (above row member)
    · exact pairwise_cons.mpr ⟨fun row member => same ▸ above row member, tail⟩
    · refine pairwise_cons.mpr ⟨fun row member => ?_, ih tail⟩
      rcases OrderedMap.mem_insert (insertRow_eq targets ▸ member) with rfl | member
      · exact Nat.lt_of_le_of_ne (Nat.le_of_not_lt below) (Ne.symm same)
      · exact above row member

def insert (graph : Graph) (node : Node) (targets : NodeSet) : Graph :=
  ⟨insertRow node targets graph.rows, insertRow_sorted graph.sorted⟩

def findRow (node : Node) : List (Node × NodeSet) → Option NodeSet
  | [] => none
  | row :: rest => if row.1 = node then some row.2 else findRow node rest

def get (graph : Graph) (node : Node) : Option NodeSet := findRow node graph.rows

def keys (graph : Graph) : List Node := graph.rows.map Prod.fst

def targets (graph : Graph) (node : Node) : NodeSet := (graph.get node).getD []

theorem findRow_eq (a : Node) : findRow a rows = OrderedMap.get rows a := by
  induction rows with
  | nil => rfl
  | cons row rest ih => rw [findRow, OrderedMap.get, ih]

@[simp] theorem get_insert (graph : Graph) (node a : Node) (targets : NodeSet) :
    (graph.insert node targets).get a = if a = node then some targets else graph.get a := by
  simp only [get, insert, insertRow_eq, findRow_eq, OrderedMap.get_insert]

variable {graph : Graph}

theorem mem_keys_iff : node ∈ graph.keys ↔ ∃ targets, graph.get node = some targets := by
  unfold keys get
  induction graph.rows with
  | nil => simp [findRow]
  | cons row rest ih =>
    simp only [map_cons, mem_cons, ih, findRow]
    by_cases here : row.1 = node
    · simp [here]
    · simp [here, Ne.symm here]

theorem findRow_of_mem (sorted : rows.Pairwise fun a b => a.1 < b.1) (member : row ∈ rows) :
    findRow row.1 rows = some row.2 := by
  induction rows with
  | nil => simp at member
  | cons head rest ih =>
    obtain ⟨above, tail⟩ := pairwise_cons.mp sorted
    rcases mem_cons.mp member with rfl | member
    · simp [findRow]
    · have lower := above row member
      rw [findRow, if_neg (Nat.ne_of_lt lower)]
      exact ih tail member

theorem get_of_mem_rows (member : row ∈ graph.rows) : graph.get row.1 = some row.2 :=
  findRow_of_mem graph.sorted member

theorem exists_row_of_mem_targets {a : Node}
    (member : a ∈ graph.targets node) : ∃ row ∈ graph.rows, row.1 = node ∧ a ∈ row.2 := by
  cases found : graph.get node with
  | none => simp [targets, found] at member
  | some row =>
    exact ⟨(node, row), OrderedMap.mem_of_get (findRow_eq node ▸ found),
      rfl, by simpa [targets, found] using member⟩

theorem mem_targets_iff {a : Node} :
    a ∈ graph.targets node ↔ ∃ row ∈ graph.rows, row.1 = node ∧ a ∈ row.2 := by
  refine ⟨exists_row_of_mem_targets, ?_⟩
  rintro ⟨row, member, rfl, target⟩
  simpa [targets, get_of_mem_rows member] using target

def Closed (graph : Graph) : Prop :=
  ∀ node ∈ graph.keys, ∀ target ∈ graph.targets node, target ∈ graph.keys

end Graph

/-! ## The reversed graph -/

/-- `reversed.entry(target).or_default().insert(source)`. -/
def Graph.addSource (reversed : Graph) (target source : Node) : Graph :=
  reversed.insert target (insertNode source (reversed.targets target))

def Graph.isolated (graph : Graph) : Graph :=
  ⟨graph.rows.map fun row => (row.1, []), List.pairwise_map.mpr graph.sorted⟩

def reverse (graph : Graph) : Graph :=
  graph.rows.foldl
    (fun reversed row =>
      row.2.foldl (fun reversed target => reversed.addSource target row.1) reversed)
    graph.isolated

theorem Graph.mem_targets_addSource {reversed : Graph} {target source : Node} :
    a ∈ (reversed.addSource target source).targets node ↔
      a ∈ reversed.targets node ∨ (node = target ∧ a = source) := by
  unfold Graph.addSource
  by_cases here : node = target
  · subst here; simp [Graph.targets, or_comm]
  · simp [Graph.targets, here]

theorem Graph.mem_targets_addSources {source : Node} (targets : NodeSet) (reversed : Graph) :
    a ∈ (targets.foldl (fun reversed target => reversed.addSource target source)
        reversed).targets node ↔ a ∈ reversed.targets node ∨ (node ∈ targets ∧ a = source) := by
  induction targets generalizing reversed with
  | nil => simp
  | cons target rest ih =>
    simp only [foldl_cons, ih, Graph.mem_targets_addSource, mem_cons]
    tauto

theorem mem_reverse {graph : Graph} :
    a ∈ (reverse graph).targets node ↔ node ∈ graph.targets a := by
  have general : ∀ (rows : List (Node × NodeSet)) (reversed : Graph),
      a ∈ (rows.foldl (fun reversed row => row.2.foldl
          (fun reversed target => reversed.addSource target row.1) reversed) reversed).targets
            node ↔
        a ∈ reversed.targets node ∨ ∃ row ∈ rows, row.1 = a ∧ node ∈ row.2 := by
    intro rows
    induction rows with
    | nil => simp
    | cons row rest ih =>
      intro reversed
      simp only [foldl_cons, ih, Graph.mem_targets_addSources, mem_cons, exists_eq_or_imp]
      tauto
  have none : a ∉ graph.isolated.targets node := by
    intro member
    obtain ⟨row, inRows, -, target⟩ := Graph.exists_row_of_mem_targets member
    obtain ⟨_, -, rfl⟩ := mem_map.mp inRows
    simp at target
  rw [reverse, general, or_iff_right none, Graph.mem_targets_iff]

/-! ## Strongly connected components -/

/-- First pass: list each node after its successors. -/
def visit (graph : Graph) (fuel : Nat) (node : Node) (state : List Node × List Node) :
    Option (List Node × List Node) :=
  DepthFirst.walk graph.targets true fuel node state

/-- Second pass: list each unassigned node before its predecessors. -/
def assign (reversed : Graph) (fuel : Nat) (node : Node) (state : List Node × List Node) :
    Option (List Node × List Node) :=
  DepthFirst.walk reversed.targets false fuel node state

def assignGroup (reversed : Graph) (fuel : Nat) (state : List Node × List (List Node))
    (node : Node) : Option (List Node × List (List Node)) := do
  let next ← assign reversed fuel node (state.1, [])
  some (next.1, if next.2.isEmpty then state.2 else state.2 ++ [next.2])

def stronglyConnectedComponents (graph reversed : Graph) : Option (List (List Node)) := do
  let fuel := graph.rows.length + 1
  let visited ← graph.keys.foldlM (fun state node => visit graph fuel node state) ([], [])
  let grouped ← visited.2.reverse.foldlM (assignGroup reversed fuel) ([], [])
  some grouped.2

/-! ## Structures -/

inductive Structure where
  | basic (node : Node)
  | dispatcher (entries : List Node)
  | loop (children : List Structure)
  | block (children : List Structure)
  deriving Repr

namespace Structure

def isBasic : Structure → Bool
  | .basic _ => true
  | _ => false

def head : Structure → List Node
  | .basic node => [node]
  | .dispatcher entries => entries
  | .loop [] => []
  | .loop (first :: _) => first.head
  | .block [] => []
  | .block (first :: _) => first.head

mutual

def branches (graph : Graph) : Structure → List Node
  | .basic node => graph.targets node
  | .dispatcher entries => entries
  | .loop children => branchesOf graph children
  | .block children => branchesOf graph children

def branchesOf (graph : Graph) : List Structure → List Node
  | [] => []
  | child :: rest => child.branches graph ++ branchesOf graph rest

end

end Structure

/-- The heads of the first of `rest`, or `next` where nothing is left in the list. -/
def nextHeads (rest : List Structure) (next : List Node) : List Node :=
  match rest with
  | [] => next
  | child :: _ => child.head

/-- The rows of `group`, with the targets that `keep` retains. -/
def cut (graph : Graph) (group : List Node) (keep : Node → Bool) : Graph :=
  group.foldl
    (fun subgroup node => subgroup.insert node (collectNodes ((graph.targets node).filter keep)))
    Graph.empty

/-- The members of a group with a predecessor outside it. -/
def groupEntries (reversed : Graph) (group : List Node) : List Node :=
  group.filter fun node => (reversed.targets node).any fun incoming => !group.contains incoming

variable [HostWord]

/-- One turn of the loop of `loopify`; `recurse` is the recursive call. -/
def loopifyGroup (recurse : Graph → Option (List Structure)) (graph reversed : Graph)
    (duplicationLimit : Nat) (group : List Node) : Option (List Structure) :=
  match group with
  | [node] =>
    if node = entryNode then some [.dispatcher (graph.targets entryNode)]
    else if node ∈ graph.targets node then some [.loop [.basic node]]
    else some [.basic node]
  | _ =>
    let entries := groupEntries reversed group
    -- `saturating_mul` on `usize`
    if min (entries.length * group.length) entryNode > duplicationLimit then
      (recurse (cut graph group fun target =>
          group.contains target && !entries.contains target)).map fun children =>
        [.loop (if entries.length > 1 then .dispatcher entries :: children else children)]
    else
      entries.mapM fun entry =>
        (recurse (cut graph group fun target => group.contains target && target != entry)).map
          Structure.loop

def loopify (duplicationLimit : Nat) : Nat → Graph → Option (List Structure)
  | 0, _ => none
  | fuel + 1, graph => do
    let reversed := reverse graph
    let groups ← stronglyConnectedComponents graph reversed
    let parts ← groups.mapM
      (loopifyGroup (loopify duplicationLimit fuel) graph reversed duplicationLimit)
    some parts.flatten

/-! ## Blocks -/

/-- One turn of the loop of `blockify` at `structures[index]`: `done` is `structures[..index]`, and
`next` has its children already blockified. -/
def blockifyNext (graph : Graph) (done : List Structure) (next : Structure) : List Structure :=
  match done.findIdx? fun candidate => (candidate.branches graph).any next.head.contains with
  | none => done ++ [next]
  | some source =>
    -- an immediately preceding basic block falls through
    if source + 1 = done.length ∧ (done[source]?.any Structure.isBasic) then done ++ [next]
    else done.take source ++ [.block (done.drop source), next]

mutual

def Structure.blockifyChildren (graph : Graph) : Structure → Structure
  | .basic node => .basic node
  | .dispatcher entries => .dispatcher entries
  | .loop children => .loop (blockifyFrom graph [] children)
  | .block children => .block (blockifyFrom graph [] children)

def blockifyFrom (graph : Graph) (done : List Structure) : List Structure → List Structure
  | [] => done
  | next :: rest => blockifyFrom graph (blockifyNext graph done (next.blockifyChildren graph)) rest

end

def blockify (structures : List Structure) (graph : Graph) : List Structure :=
  blockifyFrom graph [] structures

/-! ## The whole pass -/

/-- One row per member, and one for the entry node; targets out of range are dropped. -/
def memberGraph (successors : List (List Node)) (entries : List Node) : Graph :=
  let inRange := fun targets : List Node => collectNodes (targets.filter (· < successors.length))
  (successors.zipIdx.foldl (fun graph row => graph.insert row.2 (inRange row.1)) Graph.empty).insert
    entryNode (inRange entries)

def stackify (successors : List (List Node)) (entries : List Node) (duplicationLimit : Nat) :
    Option (List Structure) := do
  let graph := memberGraph successors entries
  let result ← loopify duplicationLimit (graph.rows.length + 1) graph
  some (blockify result graph)

end Rv64Js.Dbt
