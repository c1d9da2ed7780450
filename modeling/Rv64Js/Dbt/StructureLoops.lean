import Mathlib.Data.Finset.Card
import Mathlib.Data.Finset.Filter
import Rv64Js.Dbt.StructureComponents

/-! # Loops

`loopify` returns for every closed graph and resolves every edge: at each copy of a member, a
successor heads an enclosing loop or a later structure of an enclosing list; at each dispatcher, an
entry heads a later structure of the same list. -/

set_option autoImplicit false

namespace Rv64Js.Dbt

open DepthFirst Relation List

/-! ## Paths and components -/

namespace Components
variable {graph : Graph} {before after : List (List Node)} {group : List Node}

theorem reach_within (closed : graph.Closed) (groups : Components graph (before ++ group :: after))
    {a b : Node} (inA : a ∈ group) (inB : b ∈ group) :
    ReachIn graph.targets {n | n ∈ group} a b := by
  have path := groups.strong group (by simp) a inA b inB
  induction path using ReflTransGen.head_induction_on with
  | refl => exact .refl
  | head edge tail ih =>
    rename_i x y
    rcases groups.target_later closed inA edge with inside | later
    · exact .head ⟨edge, inside⟩ (ih inside)
    · exfalso
      exact groups.not_after inB (groups.reach_after closed tail later)

variable {groups : List (List Node)}

theorem source_group (components : Components graph groups) (member : group ∈ groups) {node : Node}
    (inGroup : node ∈ group) (source : ∀ u, node ∉ graph.targets u) : group = [node] := by
  have only : ∀ b ∈ group, b = node := by
    intro b inB
    rcases ReflTransGen.cases_tail (components.strong group member b inB node inGroup) with
      same | ⟨u, -, edge⟩
    · exact same.symm
    · exact absurd edge (source u)
  have nodup : group.Nodup := (nodup_flatten.mp components.nodup).1 group member
  match group, inGroup, only, nodup with
  | [a], _, only, _ => rw [only a (by simp)]
  | a :: b :: rest, _, only, nodup =>
    have same : a = b := (only a (by simp)).trans (only b (by simp)).symm
    simp [same] at nodup

theorem source_alone (components : Components graph groups) {node : Node}
    (inKeys : node ∈ graph.keys) (source : ∀ u, node ∉ graph.targets u) : [node] ∈ groups := by
  obtain ⟨group, member, inGroup⟩ := mem_flatten.mp ((components.covers node).mpr inKeys)
  exact components.source_group member inGroup source ▸ member

/-- A source from which every node is reached is the first component. -/
theorem source_first (closed : graph.Closed) (components : Components graph groups) {node : Node}
    (inKeys : node ∈ graph.keys) (source : ∀ u, node ∉ graph.targets u)
    (rooted : ∀ b ∈ graph.keys, Reach graph.targets node b) : ∃ rest, groups = [node] :: rest := by
  obtain ⟨front, back, split⟩ := append_of_mem (components.source_alone inKeys source)
  cases front with
  | nil => exact ⟨back, split⟩
  | cons first others =>
    exfalso
    obtain ⟨b, inFirst⟩ := exists_mem_of_ne_nil first
      (components.nonempty first (by simp [split]))
    have cover : b ∈ graph.keys := by
      rw [← components.covers, split]
      simp [inFirst]
    rw [split] at components
    have nodup := components.nodup
    have stays := components.reach_later closed (rooted b cover) (.inl (by simp))
    simp only [cons_append, flatten_cons, flatten_append] at nodup
    refine (nodup_append'.mp nodup).2.2 inFirst (mem_append_right _ ?_)
    rcases stays with here | later
    · exact mem_cons.mpr (Or.inl (mem_singleton.mp here))
    · exact mem_cons_of_mem _ (by simpa using later)

end Components

/-! ## Cut subgraphs -/

variable {keep : Node → Bool} {graph : Graph}

theorem get_cut (group : List Node) (node : Node) : (cut graph group keep).get node =
      if node ∈ group then some (collectNodes ((graph.targets node).filter keep)) else none := by
  have general : ∀ (group : List Node) (sub : Graph),
      (group.foldl (fun sub node =>
        sub.insert node (collectNodes ((graph.targets node).filter keep))) sub).get node =
        if node ∈ group then some (collectNodes ((graph.targets node).filter keep))
        else sub.get node := by
    intro group
    induction group with
    | nil => simp
    | cons first rest ih =>
      intro sub
      rw [foldl_cons, ih, Graph.get_insert]
      by_cases inRest : node ∈ rest
      · simp [inRest]
      · by_cases here : node = first
        · simp [here]
        · simp [here, inRest]
  exact general group Graph.empty

variable {node : Node} {group : List Node}

theorem mem_keys_cut : node ∈ (cut graph group keep).keys ↔ node ∈ group := by
  rw [Graph.mem_keys_iff, get_cut]
  split_ifs with member <;> simp [member]

theorem mem_targets_cut {t : Node} : t ∈ (cut graph group keep).targets node ↔
      node ∈ group ∧ t ∈ graph.targets node ∧ keep t = true := by
  rw [Graph.targets, get_cut]
  split_ifs with member <;> simp [member]

theorem cut_closed (inside : ∀ t, keep t = true → t ∈ group) : (cut graph group keep).Closed := by
  intro node _ target edge
  exact mem_keys_cut.mpr (inside target (mem_targets_cut.mp edge).2.2)

variable {entry : Node}

abbrev entriesOf (graph : Graph) (group : List Node) :
    List Node := groupEntries (reverse graph) group

theorem mem_groupEntries : node ∈ entriesOf graph group ↔
      node ∈ group ∧ ∃ u, node ∈ graph.targets u ∧ u ∉ group := by
  simp [groupEntries, mem_reverse]

theorem mapM_forall₂ {α β : Type} {f : α → Option β} {as : List α} {bs : List β}
    (run : as.mapM f = some bs) : Forall₂ (fun a b => f a = some b) as bs := by
  induction as generalizing bs with
  | nil => cases run; exact .nil
  | cons a as ih =>
    rw [mapM_cons] at run
    obtain ⟨b, first, run⟩ := Option.bind_eq_some_iff.mp run
    obtain ⟨rest, later, result⟩ := Option.bind_eq_some_iff.mp run
    cases result
    exact .cons first (ih later)

theorem forall₂_split {α β : Type} {R : α → β → Prop} {before after : List α} {a : α} {bs : List β}
    (each : Forall₂ R (before ++ a :: after) bs) :
    ∃ front b back, bs = front ++ b :: back ∧ R a b ∧ Forall₂ R after back := by
  induction before generalizing bs with
  | nil =>
    obtain ⟨b, back, here, later, rfl⟩ := forall₂_cons_left_iff.mp each
    exact ⟨[], b, back, rfl, here, later⟩
  | cons first rest ih =>
    obtain ⟨c, tail, -, eachTail, rfl⟩ := forall₂_cons_left_iff.mp each
    obtain ⟨front, b, back, rfl, here, later⟩ := ih eachTail
    exact ⟨c :: front, b, back, rfl, here, later⟩

theorem mapM_some {α β : Type} {f : α → Option β} {as : List α}
    (each : ∀ a ∈ as, ∃ b, f a = some b) : ∃ bs, as.mapM f = some bs := by
  induction as with
  | nil => exact ⟨[], rfl⟩
  | cons a as ih =>
    obtain ⟨b, first⟩ := each a (by simp)
    obtain ⟨bs, later⟩ := ih fun a member => each a (by simp [member])
    exact ⟨b :: bs, by simp [mapM_cons, first, later]⟩

/-! ## Termination -/

/-- Edges of a component that stay inside it and miss every member of `heads`. -/
def keepOutside (group heads : List Node) (target : Node) : Bool :=
  group.contains target && !heads.contains target

variable {heads : List Node}

theorem keepOutside_iff {target : Node} :
    keepOutside group heads target = true ↔ target ∈ group ∧ target ∉ heads := by
  simp [keepOutside]

/-- A component by itself, without the edges into `heads`. -/
abbrev cutAt (graph : Graph) (group heads : List Node) :
    Graph := cut graph group (keepOutside group heads)

/-- A path within a component is cut at the last of the heads it meets. -/
theorem cut_rooted (isHead : entry ∈ heads) (inGroup : entry ∈ group) {b : Node}
    (path : ReachIn graph.targets {n | n ∈ group} entry b) : b ∈ group ∧ ∃ a ∈ heads, a ∈ group ∧
      Reach (cutAt graph group heads).targets a b := by
  induction path with
  | refl => exact ⟨inGroup, entry, isHead, inGroup, .refl⟩
  | @tail c d _ edge ih =>
    refine ⟨edge.2, ?_⟩
    by_cases again : d ∈ heads
    · exact ⟨d, again, edge.2, .refl⟩
    · obtain ⟨inC, a, head, inA, path⟩ := ih
      exact ⟨a, head, inA,
        path.tail (mem_targets_cut.mpr ⟨inC, edge.1, keepOutside_iff.mpr ⟨edge.2, again⟩⟩)⟩

variable (graph group) in
theorem cut_source (isHead : entry ∈ heads) (u : Node) :
    entry ∉ (cutAt graph group heads).targets u :=
  fun edge => (keepOutside_iff.mp (mem_targets_cut.mp edge).2.2).2 isHead

variable {limit : Nat} {recurse : Graph → Option (List Structure)} [HostWord]

theorem loopifyGroup_many {reversed : Graph} (many : group.length ≠ 1) :
    loopifyGroup recurse graph reversed limit group = let entries := groupEntries reversed group
      if min (entries.length * group.length) entryNode > limit then
        (recurse (cutAt graph group entries)).map fun children =>
          [.loop (if entries.length > 1 then .dispatcher entries :: children else children)]
      else
        entries.mapM fun entry =>
          (recurse (cutAt graph group [entry])).map Structure.loop := by
  have same : ∀ entry : Node, (fun target => group.contains target && target != entry) =
      keepOutside group [entry] := by
    intro entry
    funext target
    simp only [keepOutside, contains_cons, contains_nil, Bool.or_false]
    rfl
  match group, many with
  | [], _ => rfl
  | first :: second :: rest, _ =>
    simp only [loopifyGroup, same]
    rfl

def entered (graph : Graph) : Finset Node :=
  graph.keys.toFinset.filter fun node => ∃ u ∈ graph.keys, node ∈ graph.targets u

omit [HostWord] in
theorem mem_entered : node ∈ entered graph ↔ node ∈ graph.keys ∧ ∃ u, node ∈ graph.targets u := by
  simp only [entered, Finset.mem_filter, mem_toFinset]
  refine and_congr_right fun _ => ⟨fun ⟨u, _, edge⟩ => ⟨u, edge⟩, fun ⟨u, edge⟩ => ?_⟩
  exact ⟨u, Graph.mem_keys_of_mem_targets edge, edge⟩

omit [HostWord] in
/-- Cutting a component at one of its entries or more leaves fewer nodes with a predecessor. -/
theorem entered_cut_lt {groups : List (List Node)} (components : Components graph groups)
    (member : group ∈ groups) (isHead : entry ∈ heads) (isEntry : entry ∈ entriesOf graph group) :
    (entered (cutAt graph group heads)).card < (entered graph).card := by
  have inKeys : ∀ a ∈ group, a ∈ graph.keys := fun a inGroup =>
    (components.covers a).mp (mem_flatten.mpr ⟨group, member, inGroup⟩)
  obtain ⟨inGroup, u, edge, -⟩ := mem_groupEntries.mp isEntry
  refine Finset.card_lt_card (Finset.ssubset_iff_of_subset ?_ |>.mpr ⟨entry, ?_, ?_⟩)
  · intro node member
    obtain ⟨inCut, u, edge⟩ := mem_entered.mp member
    exact mem_entered.mpr ⟨inKeys node (mem_keys_cut.mp inCut), u, (mem_targets_cut.mp edge).2.1⟩
  · exact mem_entered.mpr ⟨inKeys entry inGroup, u, edge⟩
  · intro member
    obtain ⟨-, u, edge⟩ := mem_entered.mp member
    exact cut_source graph group isHead u edge

omit [HostWord] in
theorem groupEntries_subset {reversed : Graph} (member : entry ∈ groupEntries reversed group) :
    entry ∈ group :=
  (mem_filter.mp member).1

/-- What `loopify` makes of a component. -/
abbrev partOf (limit fuel : Nat) (graph : Graph) (group : List Node) : Option (List Structure) :=
  loopifyGroup (loopify limit fuel) graph (reverse graph) limit group

theorem loopifyGroup_some
    (inner : ∀ heads : List Node, ∀ entry ∈ heads, entry ∈ entriesOf graph group →
      ∃ result, recurse (cutAt graph group heads) = some result) :
    ∃ part, loopifyGroup recurse graph (reverse graph) limit group = some part := by
  by_cases many : group.length = 1
  · obtain ⟨node, rfl⟩ := length_eq_one_iff.mp many
    simp only [loopifyGroup]
    split_ifs <;> exact ⟨_, rfl⟩
  · rw [loopifyGroup_many many]
    dsimp only
    split
    case isTrue large =>
      have some : entriesOf graph group ≠ [] := by
        intro empty
        simp [empty] at large
      obtain ⟨entry, isEntry⟩ := exists_mem_of_ne_nil _ some
      obtain ⟨result, run⟩ := inner _ entry isEntry isEntry
      exact ⟨_, by rw [run]; rfl⟩
    case isFalse =>
      refine mapM_some fun entry isEntry => ?_
      obtain ⟨result, run⟩ := inner [entry] entry (by simp) isEntry
      exact ⟨_, by rw [run]; rfl⟩

theorem loopify_some (limit fuel : Nat) (graph : Graph) (closed : graph.Closed)
    (enough : (entered graph).card < fuel) : ∃ result, loopify limit fuel graph = some result := by
  induction fuel generalizing graph with
  | zero => omega
  | succ fuel ih =>
    obtain ⟨groups, found, components⟩ := stronglyConnectedComponents_components closed
    -- a recursive call cuts at least the edges into one entry of the component
    have inner : ∀ group ∈ groups, ∀ heads : List Node, ∀ entry ∈ heads,
        entry ∈ entriesOf graph group →
        ∃ result, loopify limit fuel (cutAt graph group heads) = some result := by
      intro group member heads entry isHead isEntry
      refine ih _ (cut_closed fun t kept => (keepOutside_iff.mp kept).1) ?_
      have smaller := entered_cut_lt components member isHead isEntry
      omega
    have each : ∀ group ∈ groups, ∃ part, partOf limit fuel graph group = some part :=
      fun group member => loopifyGroup_some (inner group member)
    obtain ⟨parts, run⟩ := mapM_some each
    exact ⟨parts.flatten, by simp [loopify, found, run]⟩

/-! ## Heads -/

structure Graph.WellFormed (graph : Graph) : Prop where
  closed : graph.Closed
  noEntry : ∀ u, entryNode ∉ graph.targets u
  nodup : ∀ u, (graph.targets u).Nodup

theorem Graph.WellFormed.cut (wf : graph.WellFormed) (group heads : List Node) :
    (cutAt graph group heads).WellFormed where
  closed := cut_closed fun _ kept => (keepOutside_iff.mp kept).1
  noEntry u edge := wf.noEntry u (mem_targets_cut.mp edge).2.1
  nodup u := by
    rw [Graph.targets, get_cut]
    split_ifs
    · exact collectNodes_nodup _
    · exact nodup_nil

def headsOf (structures : List Structure) : Set Node :=
  {node | ∃ child ∈ structures, node ∈ child.head}

variable {fuel : Nat} {result : List Structure}

/-- What each of the components becomes. -/
abbrev Parts (limit fuel : Nat) (graph : Graph) : List (List Node) → List (List Structure) → Prop :=
  List.Forall₂ fun group part => partOf limit fuel graph group = some part

theorem loopify_parts (closed : graph.Closed) (run : loopify limit (fuel + 1) graph = some result) :
    ∃ groups parts, Components graph groups ∧ result = parts.flatten ∧
    Parts limit fuel graph groups parts := by
  obtain ⟨groups, found, components⟩ := stronglyConnectedComponents_components closed
  simp only [loopify, found, Option.bind_eq_bind, Option.bind_some] at run
  obtain ⟨parts, each, result⟩ := Option.bind_eq_some_iff.mp run
  exact ⟨groups, parts, components, (Option.some.inj result).symm, mapM_forall₂ each⟩

variable {part : List Structure}

theorem loopifyGroup_source (member : node ≠ entryNode) (source : ∀ u, node ∉ graph.targets u)
    (run : loopifyGroup recurse graph (reverse graph) limit [node] = some part) :
    part = [.basic node] := by
  simp only [loopifyGroup, if_neg member, if_neg (source node)] at run
  exact (Option.some.inj run).symm

variable {children : List Structure}

section

variable {before after : List (List Node)} (wf : graph.WellFormed)
include wf

theorem basic_mem_of_cut (isHead : entry ∈ heads) (inGroup : entry ∈ group)
    (member : entry ≠ entryNode)
    (run : loopify limit fuel (cutAt graph group heads) = some children) :
    .basic entry ∈ children := by
  cases fuel with
  | zero => simp [loopify] at run
  | succ fuel =>
    have source := cut_source graph group isHead
    obtain ⟨groups, parts, components, rfl, each⟩ :=
      loopify_parts (wf.cut group heads).closed run
    have alone := components.source_alone (mem_keys_cut.mpr inGroup) source
    obtain ⟨before, after, rfl⟩ := append_of_mem alone
    obtain ⟨front, part, back, rfl, partRun, -⟩ := forall₂_split each
    rw [loopifyGroup_source member source partRun]
    simp

theorem basic_first_of_cut (components : Components graph (before ++ group :: after))
    (inGroup : entry ∈ group) (member : entry ≠ entryNode)
    (run : loopify limit fuel (cutAt graph group [entry]) = some children) :
    ∃ rest, children = .basic entry :: rest := by
  cases fuel with
  | zero => simp [loopify] at run
  | succ fuel =>
    have source := cut_source graph group (mem_singleton_self entry)
    have rooted : ∀ b ∈ (cutAt graph group [entry]).keys,
        Reach (cutAt graph group [entry]).targets entry b := by
      intro b inCut
      have path := components.reach_within wf.closed inGroup (mem_keys_cut.mp inCut)
      obtain ⟨-, a, isHead, -, reached⟩ := cut_rooted (mem_singleton_self entry) inGroup path
      rwa [mem_singleton.mp isHead] at reached
    obtain ⟨groups, parts, inner, rfl, each⟩ := loopify_parts (wf.cut group [entry]).closed run
    obtain ⟨rest, rfl⟩ := inner.source_first (wf.cut group [entry]).closed
      (mem_keys_cut.mpr inGroup) source rooted
    obtain ⟨part, parts, partRun, -, rfl⟩ := forall₂_cons_left_iff.mp each
    rw [loopifyGroup_source member source partRun]
    exact ⟨parts.flatten, by simp⟩

theorem entry_ne_entryNode (isEntry : entry ∈ entriesOf graph group) : entry ≠ entryNode := by
  rintro rfl
  obtain ⟨-, u, edge, -⟩ := mem_groupEntries.mp isEntry
  exact wf.noEntry u edge

/-- The loops of a component: one per entry, or one that dispatches on them. -/
theorem loopifyGroup_loops (components : Components graph (before ++ group :: after))
    (many : group.length ≠ 1) (run : partOf limit fuel graph group = some part) :
    (∃ children, 1 < (entriesOf graph group).length ∧
        loopify limit fuel (cutAt graph group (entriesOf graph group)) = some children ∧
      part = [.loop (.dispatcher (entriesOf graph group) :: children)]) ∨
    Forall₂ (fun entry copy => ∃ rest, loopify limit fuel (cutAt graph group [entry]) =
        some (.basic entry :: rest) ∧ copy = .loop (.basic entry :: rest))
      (entriesOf graph group) part := by
  have single : ∀ entry ∈ entriesOf graph group, ∀ children,
      loopify limit fuel (cutAt graph group [entry]) = some children →
      ∃ rest, children = .basic entry :: rest := fun entry isEntry children inner =>
    basic_first_of_cut wf components (groupEntries_subset isEntry)
      (entry_ne_entryNode wf isEntry) inner
  rw [partOf, loopifyGroup_many many] at run
  dsimp only at run
  unfold entriesOf at single ⊢
  generalize list : groupEntries (reverse graph) group = entries at run single
  split at run
  case isTrue large =>
    obtain ⟨children, inner, rfl⟩ := Option.map_eq_some_iff.mp run
    by_cases several : 1 < entries.length
    · exact .inl ⟨children, several, inner, by rw [if_pos several]⟩
    · rw [if_neg several]
      match entries, several with
      | [], _ => simp at large
      | [entry], _ =>
        obtain ⟨rest, rfl⟩ := single entry (by simp) children inner
        exact .inr (.cons ⟨rest, inner, rfl⟩ .nil)
      | _ :: _ :: _, several => simp at several
  case isFalse =>
    have paired := (forall₂_and_left _ _).mpr ⟨single, mapM_forall₂ run⟩
    refine .inr (paired.imp fun entry copy here => ?_)
    obtain ⟨children, inner, rfl⟩ := Option.map_eq_some_iff.mp here.2
    obtain ⟨rest, rfl⟩ := here.1 children inner
    exact ⟨rest, inner, rfl⟩

/-- A member with a predecessor in another component heads one of its own structures. -/
theorem loopifyGroup_heads {u v : Node} (components : Components graph (before ++ group :: after))
    (run : partOf limit fuel graph group = some part) (inGroup : v ∈ group)
    (edge : v ∈ graph.targets u) (outside : u ∉ group) : v ∈ headsOf part := by
  have isMember : v ≠ entryNode := fun same => wf.noEntry u (same ▸ edge)
  by_cases many : group.length = 1
  · obtain ⟨node, rfl⟩ := length_eq_one_iff.mp many
    rw [mem_singleton] at inGroup
    subst inGroup
    simp only [partOf, loopifyGroup, if_neg isMember] at run
    split_ifs at run <;> cases run <;> exact ⟨_, mem_singleton_self _, by simp [Structure.head]⟩
  · have isEntry := mem_groupEntries.mpr ⟨inGroup, u, edge, outside⟩
    rcases loopifyGroup_loops wf components many run with ⟨children, -, -, rfl⟩ | copies
    · exact ⟨_, mem_singleton_self _, by simpa [Structure.head] using isEntry⟩
    · obtain ⟨front, back, split⟩ := append_of_mem isEntry
      rw [split] at copies
      obtain ⟨_, copy, _, rfl, ⟨rest, -, rfl⟩, -⟩ := forall₂_split copies
      exact ⟨_, mem_append_right _ mem_cons_self, by simp [Structure.head]⟩

end

/-! ## Dispatchers with one entry -/

mutual

/-- Only the dispatcher at the very start (`first`) may have a single entry. -/
def Structure.Plain (first : Bool) : Structure → Prop
  | .basic _ => True
  | .dispatcher entries => first = true ∨ entries.length ≠ 1
  | .loop children => PlainFrom false children
  | .block children => PlainFrom first children

def PlainFrom (first : Bool) : List Structure → Prop
  | [] => True
  | child :: rest => child.Plain first ∧ PlainFrom false rest

end

omit [HostWord] in
theorem plainFrom_false_iff : PlainFrom false children ↔ ∀ child ∈ children, child.Plain false := by
  induction children with
  | nil => simp [PlainFrom]
  | cons child rest ih => simp [PlainFrom, ih]

omit [HostWord] in
theorem plainFrom_append {first : Bool} {front back : List Structure} :
    PlainFrom first (front ++ back) ↔
      PlainFrom first front ∧ PlainFrom (first && front.isEmpty) back := by
  cases front with
  | nil => simp [PlainFrom]
  | cons child rest =>
    simp only [cons_append, PlainFrom, plainFrom_false_iff, isEmpty_cons, Bool.and_false,
      mem_append]
    constructor
    · rintro ⟨here, others⟩
      exact ⟨⟨here, fun c m => others c (.inl m)⟩, fun c m => others c (.inr m)⟩
    · rintro ⟨⟨here, front⟩, back⟩
      exact ⟨here, fun c m => m.elim (front c) (back c)⟩

/-! ## Every edge is resolved -/

mutual

/-- `outer` holds the heads in scope outside the list of this structure and
`later` the heads of the structures after it. -/
def Structure.Resolved (full : Graph) (outer later : Set Node) : Structure → Prop
  | .basic node => ∀ target ∈ full.targets node, target ∈ outer ∨ target ∈ later
  | .dispatcher entries => entries.Nodup ∧ ∀ entry ∈ entries, entry ∈ later
  | .loop children => (Structure.loop children).head ≠ [] ∧
      ResolvedFrom full (outer ∪ later ∪ {n | n ∈ (Structure.loop children).head}) ∅ children
  | .block _ => False

def ResolvedFrom (full : Graph) (outer later : Set Node) : List Structure → Prop
  | [] => True
  | child :: rest => child.Resolved full outer (later ∪ headsOf rest) ∧
      ResolvedFrom full outer later rest

end

omit [HostWord] in
theorem headsOf_append (front back : List Structure) :
    headsOf (front ++ back) = headsOf front ∪ headsOf back := by
  ext node
  simp only [headsOf, mem_append, Set.mem_union, Set.mem_ofPred_eq]
  constructor
  · rintro ⟨child, inFront | inBack, head⟩
    exacts [Or.inl ⟨child, inFront, head⟩, Or.inr ⟨child, inBack, head⟩]
  · rintro (⟨child, inFront, head⟩ | ⟨child, inBack, head⟩)
    exacts [⟨child, Or.inl inFront, head⟩, ⟨child, Or.inr inBack, head⟩]

variable {full : Graph} {outer later : Set Node}

omit [HostWord] in
theorem resolvedFrom_append (front back : List Structure) :
    ResolvedFrom full outer later (front ++ back) ↔
      ResolvedFrom full outer (later ∪ headsOf back) front ∧
      ResolvedFrom full outer later back := by
  induction front with
  | nil => simp [ResolvedFrom]
  | cons child rest ih =>
    have same : later ∪ headsOf (rest ++ back) = later ∪ headsOf back ∪ headsOf rest := by
      rw [headsOf_append, Set.union_assoc, Set.union_comm (headsOf back)]
    simp only [cons_append, ResolvedFrom, ih, same, and_assoc]

/-- Every edge of the whole graph from a node of `graph` is an edge of `graph` or
leads to a head in scope. -/
def Covered (full graph : Graph) (outer : Set Node) : Prop :=
  ∀ u ∈ graph.keys, ∀ v ∈ full.targets u, v ∈ graph.targets u ∨ v ∈ outer

omit [HostWord] in
/-- Cutting a component at `heads` moves the cut edges, and those that leave the
component, to the heads in scope. -/
theorem Covered.cut (covered : Covered full graph outer) (inKeys : ∀ u ∈ group, u ∈ graph.keys)
    (leaves : ∀ u ∈ group, ∀ v ∈ graph.targets u, v ∈ group ∨ v ∈ later) :
    Covered full (cutAt graph group heads) (outer ∪ later ∪ {n | n ∈ heads}) := by
  intro u inCut v edge
  have inGroup := mem_keys_cut.mp inCut
  rcases covered u (inKeys u inGroup) v edge with inside | out
  · rcases leaves u inGroup v inside with stays | out
    · by_cases isHead : v ∈ heads
      · exact .inr (.inr isHead)
      · exact .inl (mem_targets_cut.mpr ⟨inGroup, inside, keepOutside_iff.mpr ⟨stays, isHead⟩⟩)
    · exact .inr (.inl (.inr out))
  · exact .inr (.inl (.inl out))

variable {before after : List (List Node)} {parts : List (List Structure)}

theorem leaves_to_heads {u v : Node} (wf : graph.WellFormed)
    (components : Components graph (before ++ group :: after))
    (each : Parts limit fuel graph after parts) (inGroup : u ∈ group)
    (edge : v ∈ graph.targets u) : v ∈ group ∨ v ∈ headsOf parts.flatten := by
  refine (components.target_later wf.closed inGroup edge).imp_right fun later => ?_
  obtain ⟨target, member, inTarget⟩ := mem_flatten.mp later
  obtain ⟨front, back, rfl⟩ := append_of_mem member
  obtain ⟨partsBefore, part, partsAfter, rfl, run, -⟩ := forall₂_split each
  have shifted : before ++ group :: (front ++ target :: back) =
      (before ++ group :: front) ++ target :: back := by simp
  rw [shifted] at components
  have outside : u ∉ target := by
    intro inside
    have nodup := components.nodup
    rw [flatten_append] at nodup
    have disjoint := (nodup_append'.mp nodup).2.2
    exact disjoint (mem_flatten.mpr ⟨group, by simp, inGroup⟩)
      (mem_flatten.mpr ⟨target, by simp, inside⟩)
  have isHead := loopifyGroup_heads wf components run inTarget edge outside
  rw [flatten_append, flatten_cons, headsOf_append, headsOf_append]
  exact .inr (.inl isHead)

section Induction

variable (ih : ∀ {sub : Graph} {outer : Set Node} {result : List Structure}, sub.WellFormed →
    Covered full sub outer → loopify limit fuel sub = some result →
    ResolvedFrom full outer ∅ result ∧ (entryNode ∉ sub.keys → PlainFrom false result))
  (wf : graph.WellFormed) (covered : Covered full graph outer)
include ih wf covered

theorem copies_resolved {entries : List Node} (inKeys : ∀ u ∈ group, u ∈ graph.keys)
    (leaves : ∀ u ∈ group, ∀ v ∈ graph.targets u, v ∈ group ∨ v ∈ later)
    (copies : Forall₂ (fun entry copy => ∃ rest,
      loopify limit fuel (cutAt graph group [entry]) =
        some (.basic entry :: rest) ∧ copy = .loop (.basic entry :: rest)) entries part) :
    ResolvedFrom full outer later part ∧ (entryNode ∉ group → PlainFrom false part) := by
  induction copies with
  | nil => exact ⟨trivial, fun _ => trivial⟩
  | @cons entry copy entries part here _ ihCopies =>
    obtain ⟨rest, run, rfl⟩ := here
    have wider : ∀ u ∈ group, ∀ v ∈ graph.targets u, v ∈ group ∨ v ∈ later ∪ headsOf part :=
      fun u inGroup v edge => (leaves u inGroup v edge).imp_right Or.inl
    obtain ⟨resolved, plain⟩ := ih (wf.cut group [entry]) (covered.cut inKeys wider) run
    rw [mem_keys_cut] at plain
    exact ⟨⟨⟨by simp [Structure.head], resolved⟩, ihCopies.1⟩,
      fun absent => ⟨plain absent, ihCopies.2 absent⟩⟩

theorem group_resolved (components : Components graph (before ++ group :: after))
    (leaves : ∀ u ∈ group, ∀ v ∈ graph.targets u, v ∈ group ∨ v ∈ later)
    (run : partOf limit fuel graph group = some part) :
    ResolvedFrom full outer later part ∧ (entryNode ∉ group → PlainFrom false part) := by
  have inKeys : ∀ u ∈ group, u ∈ graph.keys := fun u inGroup => by
    rw [← components.covers]
    simp [inGroup]
  have edges : ∀ u ∈ group, ∀ v ∈ full.targets u, v ∈ group ∨ v ∈ outer ∨ v ∈ later := by
    intro u inGroup v edge
    rcases covered u (inKeys u inGroup) v edge with inside | out
    · exact (leaves u inGroup v inside).imp_right Or.inr
    · exact .inr (.inl out)
  by_cases many : group.length = 1
  · obtain ⟨node, rfl⟩ := length_eq_one_iff.mp many
    simp only [partOf, loopifyGroup] at run
    split_ifs at run with isEntry self <;> cases run
    · subst isEntry
      refine ⟨⟨⟨wf.nodup _, fun entry edge => .inl ?_⟩, trivial⟩,
        fun absent => absurd (by simp) absent⟩
      refine (leaves entryNode (by simp) entry edge).resolve_left fun same => ?_
      exact wf.noEntry _ (mem_singleton.mp same ▸ edge)
    · refine ⟨⟨⟨by simp [Structure.head], ?_, trivial⟩, trivial⟩,
        fun _ => ⟨⟨trivial, trivial⟩, trivial⟩⟩
      intro v edge
      have := edges node (by simp) v edge
      simp only [Structure.head, Set.mem_union, Set.mem_ofPred_eq]
      tauto
    · refine ⟨⟨fun v edge => ?_, trivial⟩, fun _ => ⟨trivial, trivial⟩⟩
      rcases covered node (inKeys node (by simp)) v edge with inside | out
      · refine .inr (.inl ((leaves node (by simp) v inside).resolve_left fun same => ?_))
        exact self (mem_singleton.mp same ▸ inside)
      · exact .inl out
  · rcases loopifyGroup_loops wf components many run with ⟨children, several, inner, rfl⟩ | copies
    · have nodup : group.Nodup :=
        (nodup_flatten.mp components.nodup).1 group (by simp)
      have wider : ∀ u ∈ group, ∀ v ∈ graph.targets u, v ∈ group ∨ v ∈ later ∪ headsOf [] :=
        fun u inGroup v edge => (leaves u inGroup v edge).imp_right Or.inl
      obtain ⟨resolved, plain⟩ := ih (wf.cut group _) (covered.cut inKeys wider) inner
      rw [mem_keys_cut] at plain
      refine ⟨⟨⟨?_, ⟨nodup.filter _, fun entry isEntry => .inr ?_⟩, resolved⟩, trivial⟩,
        fun absent => ⟨⟨Or.inr (Nat.ne_of_gt several), plain absent⟩, trivial⟩⟩
      · simp only [Structure.head]
        intro empty
        simp [empty] at several
      · refine ⟨_, basic_mem_of_cut wf isEntry (groupEntries_subset isEntry)
          (entry_ne_entryNode wf isEntry) inner, by simp [Structure.head]⟩
    · exact copies_resolved ih wf covered inKeys leaves copies

theorem groups_resolved {groups : List (List Node)} (components : Components graph groups)
    (before : List (List Node)) (split : groups = before ++ after)
    (each : Parts limit fuel graph after parts) :
    ResolvedFrom full outer ∅ parts.flatten ∧
    (entryNode ∉ after.flatten → PlainFrom false parts.flatten) := by
  induction each generalizing before with
  | nil => exact ⟨trivial, fun _ => trivial⟩
  | @cons group part after parts run eachAfter ihAfter =>
    obtain ⟨resolved, plain⟩ := ihAfter (before ++ [group]) (by simpa using split)
    rw [split] at components
    obtain ⟨here, herePlain⟩ := group_resolved ih wf covered components (fun u inGroup v edge =>
      (leaves_to_heads wf components eachAfter inGroup edge).imp_right Or.inr) run
    rw [flatten_cons, flatten_cons, resolvedFrom_append, plainFrom_append, mem_append, not_or]
    exact ⟨⟨here, resolved⟩, fun absent => ⟨herePlain absent.1, plain absent.2⟩⟩

end Induction

theorem loopify_resolved (wf : graph.WellFormed) (covered : Covered full graph outer)
    (run : loopify limit fuel graph = some result) :
    ResolvedFrom full outer ∅ result ∧ (entryNode ∉ graph.keys → PlainFrom false result) := by
  induction fuel generalizing graph outer result with
  | zero => simp [loopify] at run
  | succ fuel ih =>
    obtain ⟨groups, parts, components, rfl, each⟩ := loopify_parts wf.closed run
    rw [← components.covers]
    exact groups_resolved ih wf covered components [] rfl each

end Rv64Js.Dbt
