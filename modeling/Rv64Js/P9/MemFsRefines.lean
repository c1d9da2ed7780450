import Rv64Js.P9.Posix

/-! # The in-memory backend against the tree of named files

Every method changes at most one edge of the node graph (`rename` two). Some change more than POSIX
allows, or something else; where a call is `Proper` none of that happens. -/

set_option autoImplicit false

namespace Rv64Js.P9.MemFs

open Fallible Function List
open Names

/-! ## Edges and objects after an update -/

def Leaf (fs : MemFs) (i : Nat) : Prop := ∀ n, fs.childIdx i n = none

variable {fs : MemFs} {i : Nat}

theorem leaf_of_notDir (notDir : (fs.body i).isDir = false) : fs.Leaf i := by
  intro n
  unfold childIdx
  cases body : fs.body i with
  | dir m => rw [body] at notDir; cases notDir
  | _ => rfl

theorem isDir_iff : (fs.body i).isDir = true ↔ ∃ m, fs.body i = .dir m := by
  cases fs.body i <;> simp [Body.isDir]

variable {d : Nat}

theorem childIdx_mapDir (isDir : (fs.body d).isDir = true) {n : Str} {v : Option Nat}
    {f : List (Str × Nat) → List (Str × Nat)}
    (get : ∀ m a, OrderedMap.get (f m) a = if a = n then v else OrderedMap.get m a) :
    (fs.mapDir d f).childIdx = setEdge fs.childIdx d n v := by
  obtain ⟨m, body⟩ := isDir_iff.mp isDir
  have inside : d < fs.nodes.length := body_lt (by simp [body])
  funext i a
  unfold mapDir setEdge childIdx
  rw [body]
  dsimp only
  rw [body_setBody inside]
  by_cases here : i = d
  · subst here
    simp only [if_true, true_and, get, body]
  · simp only [here, if_false, false_and]

theorem childIdx_linkChild (isDir : (fs.body d).isDir = true) (n : Str) (v : Nat) :
    (fs.linkChild d n v).childIdx = setEdge fs.childIdx d n (some v) :=
  childIdx_mapDir isDir (OrderedMap.get_insert n v)

theorem childIdx_unlinkChild (isDir : (fs.body d).isDir = true) (n : Str) :
    (fs.unlinkChild d n).childIdx = setEdge fs.childIdx d n none :=
  childIdx_mapDir isDir (OrderedMap.get_remove n)

theorem isDir_obj {b : Body} : b.isDir = true ↔ b.obj = .dir := by
  cases b <;> simp [Body.isDir, Body.obj]

theorem freed_obj {b : Body} : b = .freed ↔ b.obj = .gone := by cases b <;> simp [Body.obj]

theorem isDir_congr {b b' : Body} (same : b.obj = b'.obj) : b.isDir = b'.isDir := by
  rw [Bool.eq_iff_iff, isDir_obj, same, ← isDir_obj]

theorem live_congr {b b' : Body} (same : b.obj = b'.obj) (live : b' ≠ .freed) : b ≠ .freed := by
  rwa [Ne, freed_obj, same, ← freed_obj]

theorem obj_mapDir (fs : MemFs) (d : Nat) (f : List (Str × Nat) → List (Str × Nat)) (i : Nat) :
    ((fs.mapDir d f).body i).obj = (fs.body i).obj := by
  unfold mapDir
  cases body : fs.body d with
  | dir m =>
    dsimp only
    rw [body_setBody (body_lt (by simp [body]))]
    by_cases here : i = d
    · simp [here, body, Body.obj]
    · simp [here]
  | _ => rfl

theorem obj_linkChild (fs : MemFs) (d : Nat) (n : Str) (v i : Nat) :
    ((fs.linkChild d n v).body i).obj = (fs.body i).obj := fs.obj_mapDir d _ i

theorem obj_unlinkChild (fs : MemFs) (d : Nat) (n : Str) (i : Nat) :
    ((fs.unlinkChild d n).body i).obj = (fs.body i).obj := fs.obj_mapDir d _ i

theorem childIdx_setBody_leaf (inside : i < fs.nodes.length) (leaf : fs.Leaf i) {b : Body}
    (notDir : b.isDir = false) : (fs.setBody i b).childIdx = fs.childIdx := by
  funext j a
  by_cases here : j = i
  · subst here
    rw [leaf a]
    refine leaf_of_notDir ?_ a
    rw [body_setBody inside, if_pos rfl]
    exact notDir
  · unfold childIdx
    rw [body_setBody inside, if_neg here]

theorem childIdx_alloc (fs : MemFs) {b : Body} (empty : b = .dir [] ∨ b.isDir = false)
    (mode : BitVec 32) : (fs.alloc b mode).childIdx = fs.childIdx := by
  funext j a
  unfold childIdx
  rw [body_alloc]
  by_cases new : j = fs.nodes.length
  · subst new
    have nothing : fs.body fs.nodes.length = .freed := by simp [body]
    rw [if_pos rfl, nothing]
    rcases empty with rfl | notDir
    · rfl
    · cases b <;> first | rfl | cases notDir
  · rw [if_neg new]

/-! ## Names after an update -/

variable {pd : List Str}

theorem WellFormed.only (wf : fs.WellFormed) (at' : fs.node pd = some d)
    (isDir : (fs.body d).isDir = true) (p : List Str) : walk fs.childIdx 0 p = some d ↔ p = pd :=
  ⟨fun leads => wf.single p pd d leads at' isDir, fun same => same ▸ at'⟩

theorem node_congr {fs' : MemFs} (edges : fs'.childIdx = fs.childIdx) : fs'.node = fs.node := by
  funext p
  rw [node, node, edges]

section OneName

variable {fs fs' : MemFs} (wf : fs.WellFormed) {pd : List Str} {d : Nat} {n : Str}
  (at' : fs.node pd = some d) (isDir : (fs.body d).isDir = true)
include wf at' isDir

theorem node_setEdge {v : Option Nat} (edges : fs'.childIdx = setEdge fs.childIdx d n v)
    (leaf : ∀ j, v = some j → j ≠ d ∧ fs.Leaf j) (old : ∀ j, fs.childIdx d n = some j → fs.Leaf j) :
    fs'.node = update fs.node (pd ++ [n]) v := by
  have only := wf.only at' isDir
  funext p
  rw [node, edges]
  by_cases below : pd ++ [n] <+: p
  · obtain ⟨rest, rfl⟩ := below
    rw [append_assoc, singleton_append, walk_setEdge_below only]
    cases rest with
    | nil => cases v <;> simp
    | cons a rest =>
      have longer : pd ++ n :: a :: rest ≠ pd ++ [n] := by simp
      have before : fs.node (pd ++ n :: a :: rest) = none := by
        rw [node, walk_append, show walk fs.childIdx 0 pd = some d from at', Option.bind_some,
          walk_cons]
        cases hit : fs.childIdx d n with
        | none => rfl
        | some j => exact walk_leaf (old j hit) (by simp)
      rw [update_of_ne longer, before]
      cases v with
      | none => rfl
      | some j =>
        obtain ⟨apart, leaf⟩ := leaf j rfl
        have still : ∀ b, setEdge fs.childIdx d n (some j) j b = none := fun b => by
          rw [setEdge, if_neg fun here => apart here.1, leaf b]
        exact walk_leaf still (by simp)
  · have elsewhere : p ≠ pd ++ [n] := fun same => below (same ▸ prefix_rfl)
    rw [update_of_ne elsewhere, walk_setEdge_elsewhere only below]
    rfl

end OneName

section Update

variable {fs fs' : MemFs} {here : List Str} {v : Option Nat}
  (names : fs'.node = Function.update fs.node here v)
include names

theorem tree_update
    (objects : ∀ p i, p ≠ here → fs.node p = some i → (fs'.body i).obj = (fs.body i).obj) :
    fs'.tree = update fs.tree here (v.map fun j => (j, (fs'.body j).obj)) := by
  funext p
  rw [tree, names]
  by_cases same : p = here
  · subst same
    simp
  · rw [update_of_ne same, update_of_ne same]
    cases found : fs.node p with
    | none => simp [tree, found]
    | some i => simp [tree, found, objects p i same found]

theorem WellFormed.update (wf : fs.WellFormed) (below : here ≠ [])
    (objects : ∀ p i, p ≠ here → fs.node p = some i → (fs'.body i).obj = (fs.body i).obj)
    (new : ∀ j, v = some j → fs'.body j ≠ .freed ∧
      ((fs'.body j).isDir = true → ∀ p, fs.node p ≠ some j)) : fs'.WellFormed := by
  have old {p : List Str} {i : Nat} (elsewhere : p ≠ here) (leads : fs'.node p = some i) :
      fs.node p = some i := by
    rwa [names, update_of_ne elsewhere] at leads
  have changed {i : Nat} (leads : fs'.node here = some i) : v = some i := by
    rwa [names, update_self] at leads
  refine ⟨?_, fun p i leads => ?_, fun p q i leads leads' isDir => ?_⟩
  · exact (isDir_congr (objects [] 0 (.symm below) rfl)).trans wf.root
  · by_cases same : p = here
    · exact (new i (changed (same ▸ leads))).1
    · exact live_congr (objects p i same (old same leads)) (wf.live p i (old same leads))
  · by_cases same : p = here
    · by_cases same' : q = here
      · rw [same, same']
      · exact absurd (old same' leads') ((new i (changed (same ▸ leads))).2 isDir q)
    · by_cases same' : q = here
      · exact absurd (old same leads) ((new i (changed (same' ▸ leads'))).2 isDir p)
      · exact wf.single p q i (old same leads) (old same' leads')
          ((isDir_congr (objects p i same (old same leads))).symm.trans isDir)

end Update

/-! ## Proper calls -/

def Complies {α : Type} (fs : MemFs) (effect : Tree → Prop) : EStateM.Result Fail MemFs α → Prop
  | .ok _ fs' => effect fs'.tree
  | .error (.errno _) fs' => fs'.tree = fs.tree
  | .error .panic _ => False

/-- The call does what POSIX says, or fails and leaves the tree alone. -/
def Refines (w : Nat) (fs : MemFs) (op : Op) :
    Prop := Complies fs (Effect fs.tree op) (call w op fs)

def place (fs : MemFs) (path : Str) : Option (Nat × Str) := (fs.split path).toOption

def OnlyName (fs : MemFs) (i : Nat) (p : List Str) : Prop := ∀ q, fs.node q = some i → q = p

/-- What a rename needs of the node that has the new name. -/
def Yields (fs : MemFs) (i : Nat) : Option Nat → Prop
  | none => True
  | some j => j ≠ i ∧ if (fs.body i).isDir then fs.body j = .dir [] else (fs.body j).isDir = false

instance (fs : MemFs) (i : Nat) : (taken : Option Nat) → Decidable (fs.Yields i taken)
  | none => inferInstanceAs (Decidable True)
  | some _ => inferInstanceAs (Decidable (_ ∧ ite _ _ _))

/-- What the code does not look at: the kind of a linked, removed or replaced node, that the parent
is a directory, that a directory stays out of itself, other names of a removed node, and offsets
`usize` cannot hold. -/
def Proper (w : Nat) (fs : MemFs) : Op → Prop
  | .hardlink existing new =>
    ∀ src ∈ fs.node (components existing), ∀ p ∈ fs.place new, fs.childIdx p.1 p.2 = none →
      (fs.body src).isDir = false ∧ (fs.body p.1).isDir = true
  | .remove path isDir =>
    ∀ i ∈ fs.node (components path), components path ≠ [] →
      (fs.body i).isFull = true ∨ fs.OnlyName i (components path) ∧ (fs.body i).isDir = isDir
  | .rename src dst =>
    ∀ i ∈ fs.node (components src), components src ≠ [] → ∀ p ∈ fs.place dst,
      (fs.body p.1).isDir = true ∧
        ¬(components src <+: components dst ∧ components src ≠ components dst) ∧
        (components src = components dst ∨ fs.Yields i (fs.childIdx p.1 p.2))
  | .write path offset data =>
    ∀ i ∈ fs.node (components path), ∀ d, fs.body i = .file d →
      if data = [] then offset.toNat % 2 ^ w ≤ d.length
        else offset.toNat + data.length < 2 ^ (w - 1)
  | .truncate path size =>
    ∀ i ∈ fs.node (components path), ∀ d, fs.body i = .file d → size.toNat < 2 ^ (w - 1)
  | _ => True

/-- No file is longer than a vector can be. -/
def Sized (w : Nat) (fs : MemFs) : Prop := fs.tree.Within (2 ^ (w - 1))

/-! ## Outcomes -/

/-- A success leads to a state of `P`; an errno leaves the state as it was. -/
def Outcome {α : Type} (fs : MemFs) (P : MemFs → Prop) : EStateM.Result Fail MemFs α → Prop
  | .ok _ fs' => P fs'
  | .error (.errno _) fs' => fs' = fs
  | .error .panic _ => False

/-- A success keeps the files well formed and changes the tree by `effect`. -/
abbrev Does {α : Type} (fs : MemFs) (effect : Tree → Prop) : EStateM.Result Fail MemFs α → Prop :=
  Outcome fs fun fs' => fs'.WellFormed ∧ effect fs'.tree

section Rules

variable {α β : Type} {fs : MemFs} {P : MemFs → Prop}

theorem Outcome.mono {Q : MemFs → Prop} {r : EStateM.Result Fail MemFs α} (outcome : Outcome fs P r)
    (weaken : ∀ fs', P fs' → Q fs') : Outcome fs Q r := by
  cases r with
  | ok a fs' => exact weaken fs' outcome
  | error e fs' =>
    cases e with
    | errno e => exact outcome
    | panic => exact outcome

theorem outcome_fail (e : Errno) : Outcome fs P ((fail e : M α) fs) := rfl

theorem outcome_lift {f : MemFs → Except Errno β} {k : β → M α}
    (rest : ∀ b, f fs = .ok b → Outcome fs P (k b fs)) : Outcome fs P ((lift f >>= k) fs) := by
  cases run : f fs with
  | error e =>
    have stop : (lift f : M β) fs = .error (.errno e) fs := by simp only [lift, run]
    rw [bind_error k stop]
    rfl
  | ok b =>
    have go : (lift f : M β) fs = .ok b fs := by simp only [lift, run]
    rw [bind_ok k go]
    exact rest b run

end Rules

variable {p : List Str}

theorem tree_dir (at' : fs.node p = some d) (isDir : (fs.body d).isDir = true) :
    fs.tree p = some (d, .dir) := by
  obtain ⟨m, body⟩ := isDir_iff.mp isDir
  simp [tree, at', body, Body.obj]

theorem tree_none : fs.tree p = none ↔ fs.node p = none := by
  simp [tree]

theorem node_snoc (at' : fs.node p = some d) (n : Str) : fs.node (p ++ [n]) = fs.childIdx d n := by
  rw [node, walk_snoc, show walk fs.childIdx 0 p = some d from at']
  rfl

variable {n : Str}

theorem tree_free (at' : fs.node p = some d) (isDir : (fs.body d).isDir = true)
    (free : fs.childIdx d n = none) : fs.tree.Free (p ++ [n]) := by
  refine ⟨by simp, ?_, d, ?_⟩
  · rw [tree_none, node_snoc at', free]
  · rw [dropLast_concat]
    exact tree_dir at' isDir

theorem WellFormed.node_lt (wf : fs.WellFormed) (at' : fs.node p = some i) :
    i < fs.nodes.length := body_lt (wf.live p i at')

theorem createAt_outcome (wf : fs.WellFormed) {b : Body} (live : b ≠ .freed)
    (empty : b = .dir [] ∨ b.isDir = false) (path : Str) (mode : BitVec 32) :
    Does fs (fs.tree.Creates (components path) b.obj) (createAt path b mode fs) := by
  refine outcome_lift fun found split => ?_
  obtain ⟨d, n⟩ := found
  obtain ⟨pd, parts, at'⟩ := split_ok.mp split
  change Outcome fs _ ((if (fs.childIdx d n).isSome then fail EEXIST else _ : M Attr) fs)
  cases free : fs.childIdx d n with
  | some j => exact outcome_fail EEXIST
  | none =>
    cases body : fs.body d with
    | dir m =>
      have isDir : (fs.body d).isDir = true := isDir_iff.mpr ⟨m, body⟩
      have inside := wf.node_lt at'
      have isDir' : ((fs.alloc b mode).body d).isDir = true := by
        rw [body_alloc, if_neg (Nat.ne_of_lt inside)]
        exact isDir
      have edges : ((fs.alloc b mode).linkChild d n fs.nodes.length).childIdx =
          setEdge fs.childIdx d n (some fs.nodes.length) := by
        rw [childIdx_linkChild isDir', childIdx_alloc fs empty]
      have names := node_setEdge wf at' isDir edges
        (fun j same => by
          cases same
          exact ⟨Nat.ne_of_gt inside, leaf_of_notDir (by simp [MemFs.body, Body.isDir])⟩)
        (fun j taken => by rw [free] at taken; cases taken)
      have unused (p : List Str) : fs.node p ≠ some fs.nodes.length := fun used =>
        Nat.lt_irrefl _ (wf.node_lt used)
      have objects : ∀ p i, p ≠ pd ++ [n] → fs.node p = some i →
          (((fs.alloc b mode).linkChild d n fs.nodes.length).body i).obj = (fs.body i).obj := by
        intro p i _ leads
        rw [obj_linkChild, body_alloc, if_neg (Nat.ne_of_lt (wf.node_lt leads))]
      have made : (((fs.alloc b mode).linkChild d n fs.nodes.length).body fs.nodes.length).obj =
          b.obj := by
        rw [obj_linkChild, body_alloc, if_pos rfl]
      refine ⟨wf.update names (by simp) objects ?_, ?_⟩
      · intro j same
        cases same
        exact ⟨live_congr made live, fun _ => unused⟩
      · rw [parts]
        refine ⟨tree_free at' isDir free, fs.nodes.length, fun q o used => ?_, ?_⟩
        · obtain ⟨i, leads, same⟩ := Option.map_eq_some_iff.mp used
          cases same
          exact unused q leads
        · rw [tree_update names objects, Option.map_some, made]
    | _ => exact outcome_fail ENOTDIR

variable {path : Str}

theorem place_some : (d, n) ∈ fs.place path ↔ fs.split path = .ok (d, n) := by
  unfold place
  cases fs.split path with
  | error e => simp [Except.toOption]
  | ok found => simp [Except.toOption]

theorem split_node (split : fs.split path = .ok (d, n)) :
    fs.node (components path) = fs.childIdx d n ∧ components path ≠ [] := by
  obtain ⟨pd, parts, at'⟩ := split_ok.mp split
  rw [parts]
  exact ⟨node_snoc at' n, by simp⟩

theorem file_obj {b : Body} {d : List Byte} : b.obj = .file d ↔ b = .file d := by
  cases b <;> simp [Body.obj]

theorem tree_some {o : Obj} :
    fs.tree p = some (i, o) ↔ fs.node p = some i ∧ (fs.body i).obj = o := by
  rw [tree]
  cases fs.node p with
  | none => simp
  | some j =>
    simp only [Option.map_some, Option.some.injEq, Prod.mk.injEq]
    exact and_congr_right fun same => by rw [same]

theorem tree_obj (leads : fs.node p = some i) : fs.tree p = some (i, (fs.body i).obj) := by
  rw [tree, leads]
  rfl

variable {w : Nat}

theorem hardlink_outcome (wf : fs.WellFormed) {existing new : Str}
    (proper : Proper w fs (.hardlink existing new)) :
    Does fs (Effect fs.tree (.hardlink existing new)) (hardlink existing new fs) := by
  refine outcome_lift fun src found => outcome_lift fun target split => ?_
  obtain ⟨d, n⟩ := target
  obtain ⟨pd, parts, at'⟩ := split_ok.mp split
  have source := lookup_ok.mp found
  change Outcome fs _
    ((if (fs.childIdx d n).isSome then fail EEXIST else set (fs.linkChild d n src) : M Unit) fs)
  cases free : fs.childIdx d n with
  | some j => exact outcome_fail EEXIST
  | none =>
    obtain ⟨notDir, isDir⟩ := proper src source (d, n) (place_some.mpr split) free
    have apart : src ≠ d := by
      rintro rfl
      rw [notDir] at isDir
      cases isDir
    have names := node_setEdge wf at' isDir (fs.childIdx_linkChild isDir n src)
      (fun j same => by
        cases same
        exact ⟨apart, leaf_of_notDir notDir⟩)
      (fun j taken => by rw [free] at taken; cases taken)
    have objects (p : List Str) (i : Nat) (_ : p ≠ pd ++ [n]) (_ : fs.node p = some i) :
        ((fs.linkChild d n src).body i).obj = (fs.body i).obj := obj_linkChild fs d n src i
    refine ⟨wf.update names (by simp) objects ?_, ?_⟩
    · intro j same
      cases same
      refine ⟨live_congr (obj_linkChild fs d n src src) (wf.live _ src source), fun linked => ?_⟩
      rw [isDir_congr (obj_linkChild fs d n src src), notDir] at linked
      cases linked
    · refine ⟨src, (fs.body src).obj, by simp [tree, source], ?_, ?_, ?_⟩
      · rw [Ne, ← isDir_obj, notDir]
        decide
      · rw [parts]
        exact tree_free at' isDir free
      · rw [parts, tree_update names objects, Option.map_some, obj_linkChild]

theorem isDir_of_child (hit : fs.childIdx d n = some i) : (fs.body d).isDir = true := by
  by_contra notDir
  rw [leaf_of_notDir (Bool.not_eq_true _ ▸ notDir) n] at hit
  cases hit

theorem WellFormed.child_new (wf : fs.WellFormed) (at' : fs.node pd = some d)
    (hit : fs.childIdx d n = some i) : i ≠ 0 ∧ i ≠ d := by
  have leads : fs.node (pd ++ [n]) = some i := by rw [node_snoc at', hit]
  constructor
  · rintro rfl
    exact absurd (wf.single _ [] 0 leads rfl wf.root) (by simp)
  · rintro rfl
    exact absurd (wf.single _ pd i leads at' (isDir_of_child hit)) (by simp)

theorem remove_node (wf : fs.WellFormed) (at' : fs.node pd = some d)
    (hit : fs.childIdx d n = some i) (only : fs.OnlyName i (pd ++ [n])) (leaf : fs.Leaf i) :
    ((fs.unlinkChild d n).setBody i .freed).WellFormed ∧
      ((fs.unlinkChild d n).setBody i .freed).tree = update fs.tree (pd ++ [n]) none := by
  have isDir := isDir_of_child hit
  have apart := (wf.child_new at' hit).2
  have leads : fs.node (pd ++ [n]) = some i := by rw [node_snoc at', hit]
  have unlinked := fs.childIdx_unlinkChild isDir n
  have inside : i < (fs.unlinkChild d n).nodes.length :=
    (fs.length_unlinkChild d n).symm ▸ wf.node_lt leads
  have leaf' : (fs.unlinkChild d n).Leaf i := by
    intro a
    rw [unlinked, setEdge, if_neg fun here => apart here.1, leaf a]
  have edges : ((fs.unlinkChild d n).setBody i .freed).childIdx = setEdge fs.childIdx d n none := by
    rw [childIdx_setBody_leaf inside leaf' rfl, unlinked]
  have names := node_setEdge wf at' isDir edges (fun j none => by cases none)
    (fun j same => by
      rw [hit] at same
      cases same
      exact leaf)
  have objects : ∀ p j, p ≠ pd ++ [n] → fs.node p = some j →
      (((fs.unlinkChild d n).setBody i .freed).body j).obj = (fs.body j).obj := by
    intro p j elsewhere leads'
    have other : j ≠ i := by
      rintro rfl
      exact elsewhere (only p leads')
    rw [body_setBody inside, if_neg other, obj_unlinkChild]
  exact ⟨wf.update names (by simp) objects (fun j none => by cases none), tree_update names objects⟩

theorem remove_outcome (wf : fs.WellFormed) {isDir : Bool}
    (proper : Proper w fs (.remove path isDir)) :
    Does fs (Effect fs.tree (.remove path isDir)) (remove path isDir fs) := by
  refine outcome_lift fun target split => ?_
  obtain ⟨d, n⟩ := target
  obtain ⟨pd, parts, at'⟩ := split_ok.mp split
  dsimp only
  rw [get_bind]
  cases hit : fs.childIdx d n with
  | none => exact outcome_fail ENOENT
  | some i =>
    have leads : fs.node (pd ++ [n]) = some i := by rw [node_snoc at', hit]
    have effect (ready : (fs.body i).isFull = false) (leaf : fs.Leaf i) :
      ((fs.unlinkChild d n).setBody i .freed).WellFormed ∧
        Effect fs.tree (.remove path isDir) ((fs.unlinkChild d n).setBody i .freed).tree := by
      have proper := proper i ((split_node split).1.trans hit) (split_node split).2
      rw [ready, parts] at proper
      obtain ⟨only, kind⟩ := proper.resolve_left (by decide)
      obtain ⟨wf', gone⟩ := remove_node wf at' hit only leaf
      refine ⟨wf', i, (fs.body i).obj, by simp [tree, parts, leads], by simp [parts],
        ?_, by rw [parts, gone]⟩
      cases isDir with
      | false => simp [← isDir_obj, kind]
      | true =>
        refine ⟨isDir_obj.mp kind, fun a => ?_⟩
        rw [parts, tree_none, node_snoc leads, leaf a]
    dsimp only
    cases body : fs.body i with
    | dir m =>
      cases m with
      | nil => exact effect (by rw [body]; rfl) fun a => by simp [childIdx, body]
      | cons e m => exact outcome_fail ENOTEMPTY
    | _ => exact effect (by rw [body]; rfl) (leaf_of_notDir (by rw [body]; rfl))

theorem parent_apart {qd : List Str} {fn tn : Str}
    (outside : ¬(pd ++ [fn] <+: qd ++ [tn] ∧ pd ++ [fn] ≠ qd ++ [tn])) : ¬pd ++ [fn] <+: qd := by
  intro above
  have whole : pd ++ [fn] <+: qd ++ [tn] := above.trans (prefix_append qd [tn])
  have same := not_not.mp fun differ => outside ⟨whole, differ⟩
  have le := above.length_le
  have len := congrArg List.length same
  simp only [length_append, length_singleton] at le len
  omega

section Rename

variable {fs : MemFs} (wf : fs.WellFormed) {pd qd : List Str} {fd td i : Nat} {fn tn : Str}
  (src : fs.node pd = some fd) (hit : fs.childIdx fd fn = some i)
  (dst : fs.node qd = some td) (isDir : (fs.body td).isDir = true)
  (outside : ¬(pd ++ [fn] <+: qd ++ [tn] ∧ pd ++ [fn] ≠ qd ++ [tn]))
include wf src hit

theorem node_unlink (r : List Str) :
    (fs.unlinkChild fd fn).node r = if pd ++ [fn] <+: r then none else fs.node r := by
  have only := wf.only src (isDir_of_child hit)
  rw [node, childIdx_unlinkChild (isDir_of_child hit)]
  by_cases below : pd ++ [fn] <+: r
  · rw [if_pos below]
    obtain ⟨rest, rfl⟩ := below
    rw [append_assoc, singleton_append, walk_setEdge_below only]
    rfl
  · rw [if_neg below, walk_setEdge_elsewhere only below]
    rfl

theorem walk_unlink (path : List Str) :
    walk (fs.unlinkChild fd fn).childIdx i path = fs.node (pd ++ fn :: path) := by
  have leads : walk fs.childIdx 0 (pd ++ [fn]) = some i := by
    rw [← node, node_snoc src, hit]
  have down (rest : List Str) : fs.node (pd ++ fn :: rest) = walk fs.childIdx i rest := by
    rw [← singleton_append, ← append_assoc, node, walk_append, leads]
    rfl
  rw [childIdx_unlinkChild (isDir_of_child hit), down]
  refine walk_setEdge_apart (fun rest up => ?_) path
  have same := wf.single _ pd fd ((down rest).trans up) src (isDir_of_child hit)
  simp at same

include dst isDir outside

theorem node_rename (r : List Str) : ((fs.unlinkChild fd fn).linkChild td tn i).node r =
      if qd ++ [tn] <+: r then fs.node (pd ++ [fn] ++ r.drop (qd ++ [tn]).length)
      else if pd ++ [fn] <+: r then none else fs.node r := by
  have apart := parent_apart outside
  have isDir' : ((fs.unlinkChild fd fn).body td).isDir = true :=
    (isDir_congr (obj_unlinkChild fs fd fn td)).trans isDir
  have only : ∀ r, walk (fs.unlinkChild fd fn).childIdx 0 r = some td ↔ r = qd := by
    intro r
    rw [← node, node_unlink wf src hit]
    constructor
    · intro leads
      split at leads
      · cases leads
      · exact wf.single r qd td leads dst isDir
    · rintro rfl
      rw [if_neg apart]
      exact dst
  rw [node, childIdx_linkChild isDir']
  by_cases below : qd ++ [tn] <+: r
  · rw [if_pos below]
    obtain ⟨rest, rfl⟩ := below
    rw [drop_left, append_assoc, singleton_append, walk_setEdge_below only,
      Option.bind_some, append_assoc, singleton_append, ← walk_unlink wf src hit]
    refine walk_setEdge_apart (fun path up => apart ?_) rest
    rw [walk_unlink wf src hit] at up
    have same := wf.single _ qd td up dst isDir
    rw [← same]
    exact ⟨path, by simp⟩
  · rw [if_neg below, walk_setEdge_elsewhere only below, ← node, node_unlink wf src hit]

theorem tree_rename :
    ((fs.unlinkChild fd fn).linkChild td tn i).tree = fs.tree.move (pd ++ [fn]) (qd ++ [tn]) := by
  funext r
  rw [tree, node_rename wf src hit dst isDir outside, Tree.move]
  simp only [obj_linkChild, obj_unlinkChild]
  split_ifs <;> rfl

theorem named_rename {r : List Str} {j : Nat}
    (leads : ((fs.unlinkChild fd fn).linkChild td tn i).node r = some j) :
    (∃ rest, r = qd ++ [tn] ++ rest ∧ fs.node (pd ++ [fn] ++ rest) = some j) ∨
      ¬pd ++ [fn] <+: r ∧ fs.node r = some j := by
  rw [node_rename wf src hit dst isDir outside] at leads
  split_ifs at leads with below old
  · obtain ⟨rest, rfl⟩ := below
    rw [drop_left] at leads
    exact .inl ⟨rest, rfl, leads⟩
  · exact .inr ⟨old, leads⟩

theorem WellFormed.rename : ((fs.unlinkChild fd fn).linkChild td tn i).WellFormed := by
  have named {r : List Str} {j : Nat} := named_rename wf src hit dst isDir outside (r := r) (j := j)
  have objects (j : Nat) : (((fs.unlinkChild fd fn).linkChild td tn i).body j).obj =
      (fs.body j).obj := by
    rw [obj_linkChild, obj_unlinkChild]
  refine ⟨?_, fun p j leads => ?_, fun p q j leads leads' dir => ?_⟩
  · exact (isDir_congr (objects 0)).trans wf.root
  · rcases named leads with ⟨_, _, old⟩ | ⟨_, old⟩ <;> exact live_congr (objects j)
      (wf.live _ j old)
  · rw [isDir_congr (objects j)] at dir
    rcases named leads with ⟨rest, rfl, old⟩ | ⟨apart, old⟩ <;>
      rcases named leads' with ⟨rest', rfl, old'⟩ | ⟨apart', old'⟩
    · rw [append_cancel_left (wf.single _ _ j old old' dir)]
    · exact absurd ⟨rest, wf.single _ _ j old old' dir⟩ apart'
    · exact absurd ⟨rest', wf.single _ _ j old' old dir⟩ apart
    · exact wf.single p q j old old' dir

end Rename

theorem move_self (t : Tree) (p : List Str) : t.move p p = t := by
  funext r
  unfold Tree.move
  split_ifs with below
  · obtain ⟨rest, rfl⟩ := below
    rw [drop_left]
  · rfl

theorem rename_outcome (wf : fs.WellFormed) {src dst : Str}
    (proper : Proper w fs (.rename src dst)) :
    Does fs (Effect fs.tree (.rename src dst)) (rename src dst fs) := by
  refine outcome_lift fun source split => ?_
  obtain ⟨fd, fn⟩ := source
  dsimp only
  rw [get_bind]
  cases hit : fs.childIdx fd fn with
  | none => exact outcome_fail ENOENT
  | some i =>
    refine outcome_lift fun target split' => ?_
    obtain ⟨td, tn⟩ := target
    obtain ⟨isDir, outside, ready⟩ := proper i ((split_node split).1.trans hit) (split_node split).2
      (td, tn) (place_some.mpr split')
    obtain ⟨pd, parts, src'⟩ := split_ok.mp split
    obtain ⟨qd, parts', dst'⟩ := split_ok.mp split'
    rw [parts, parts'] at outside
    have leads : fs.node (pd ++ [fn]) = some i := by rw [node_snoc src', hit]
    refine ⟨wf.rename src' hit dst' isDir outside, i, (fs.body i).obj, ?_⟩
    rw [tree_rename wf src' hit dst' isDir outside, parts, parts']
    refine ⟨by simp [tree, leads], by simp, by simp, ⟨td, ?_⟩, outside, ?_⟩
    · rw [dropLast_concat]
      exact tree_dir dst' isDir
    · rw [parts, parts'] at ready
      rcases ready with same | yields
      · refine .inl ⟨?_, ?_⟩
        · rw [← same]
          simp [tree, leads]
        · rw [← same, move_self]
      · refine .inr ⟨?_, rfl⟩
        have at' : fs.node (qd ++ [tn]) = fs.childIdx td tn := node_snoc dst' tn
        rw [tree, at']
        cases taken : fs.childIdx td tn with
        | none => trivial
        | some j =>
          rw [taken] at yields at'
          obtain ⟨other, kind⟩ := yields
          refine ⟨other, ?_⟩
          by_cases dir : (fs.body i).isDir = true
          · rw [if_pos dir] at kind
            rw [if_pos (isDir_obj.mp dir), kind]
            refine ⟨rfl, fun n => ?_⟩
            rw [tree_none, node_snoc at', childIdx, kind]
            rfl
          · rw [if_neg dir] at kind
            rw [if_neg (isDir_obj.not.mp dir), Ne, ← isDir_obj, kind]
            decide

/-! ## Contents -/

section Contents

variable {fs fs' : MemFs}

theorem WellFormed.same (wf : fs.WellFormed) (edges : fs'.childIdx = fs.childIdx)
    (dirs : ∀ i, (fs'.body i).isDir = (fs.body i).isDir)
    (live : ∀ i, fs.body i ≠ .freed → fs'.body i ≠ .freed) : fs'.WellFormed := by
  have names := node_congr edges
  refine ⟨by rw [dirs]; exact wf.root, fun p i leads => ?_, fun p q i leads leads' dir => ?_⟩
  · rw [names] at leads
    exact live i (wf.live p i leads)
  · rw [names] at leads leads'
    exact wf.single p q i leads leads' (dirs i ▸ dir)

theorem same_bodies (wf : fs.WellFormed) (bodies : fs'.body = fs.body) :
    fs'.WellFormed ∧ fs'.tree = fs.tree := by
  have edges := childIdx_congr bodies
  refine ⟨wf.same edges (fun i => by rw [bodies]) (fun i => by rw [bodies]; exact id), ?_⟩
  funext p
  rw [tree, tree, node_congr edges, bodies]

theorem set_file (wf : fs.WellFormed) {i : Nat} {d d' : List Byte} (file : fs.body i = .file d)
    (bodies : ∀ j, fs'.body j = if j = i then .file d' else fs.body j) :
    fs'.WellFormed ∧ fs'.tree = fs.tree.setFile i d' := by
  have edges := childIdx_setFile file bodies
  refine ⟨wf.same edges (fun j => ?_) (fun j live => ?_), ?_⟩
  · rw [bodies]
    by_cases here : j = i
    · simp [here, file, Body.isDir]
    · simp [here]
  · rw [bodies]
    by_cases here : j = i
    · simp [here]
    · simpa [here] using live
  · funext p
    rw [tree, node_congr edges, Tree.setFile, tree]
    cases fs.node p with
    | none => rfl
    | some j =>
      by_cases here : j = i
      · simp [here, bodies, Body.obj]
      · simp [here, bodies]

end Contents

theorem tree_file {d : List Byte} (found : fs.lookup path = .ok i) (file : fs.body i = .file d) :
    fs.tree (components path) = some (i, .file d) := by
  rw [tree, lookup_ok.mp found, Option.map_some, file]
  rfl

theorem writeFile_outcome (wf : fs.WellFormed) {start : Nat} {d data : List Byte}
    (file : fs.body i = .file d) (real : data ≠ [] ∨ start ≤ d.length)
    (fits : start + data.length < 2 ^ (w - 1)) :
    Does fs (· = fs.tree.setFile i (written d start data)) (writeFile w i d start data fs) := by
  obtain ⟨fs', run, bodies⟩ := writeFile_run file real fits
  rw [run]
  exact set_file wf file bodies

theorem Outcome.complies {α : Type} {t : Tree → Prop} {r : EStateM.Result Fail MemFs α}
    (outcome : Does fs t r) : Complies fs t r := by
  cases r with
  | ok a fs' => exact outcome.2
  | error e fs' =>
    cases e with
    | errno e => exact congrArg tree outcome
    | panic => exact outcome

section Calls

variable {fs : MemFs} (wf : fs.WellFormed) {w : Nat}
include wf

variable (path : Str)

theorem metadata_outcome {g : Node → Node} (keep : ∀ n, (g n).body = n.body) :
    Does fs (· = fs.tree)
      ((do let i ← lift (·.lookup path); modify fun fs => fs.modifyNode i g : M Unit) fs) :=
  outcome_lift fun i _ => same_bodies wf (body_modifyNode fs i keep)

theorem lstat_outcome : Does fs (· = fs.tree) (lstat path fs) := by
  unfold lstat lift
  split
  · exact ⟨wf, rfl⟩
  · rfl

theorem openFile_outcome (flags : BitVec 32) :
    Does fs (Effect fs.tree (.openFile path flags)) (openFile path flags fs) := by
  refine outcome_lift fun i found => ?_
  have named := tree_obj (lookup_ok.mp found)
  change (fs.openNode i flags).WellFormed ∧
    Effect fs.tree (.openFile path flags) (fs.openNode i flags).tree
  unfold openNode
  cases file : fs.body i with
  | file d =>
    rw [file] at named
    obtain ⟨wf', tree'⟩ := set_file wf file (body_setBody (body_lt (by simp [file])) (.file []))
    by_cases cuts : flags &&& O_TRUNC ≠ 0
    · dsimp only
      rw [if_pos cuts]
      exact ⟨wf', i, .file d, named, by rw [if_pos cuts]; exact tree'⟩
    · dsimp only
      rw [if_neg cuts]
      exact ⟨wf, i, .file d, named, (if_neg cuts).symm⟩
  | _ => exact ⟨wf, i, _, named, by rw [file]; rfl⟩

theorem truncate_outcome {path : Str} {size : BitVec 64}
    (proper : Proper w fs (.truncate path size)) :
    Does fs (Effect fs.tree (.truncate path size)) (truncate w path size fs) := by
  refine outcome_lift fun i found => ?_
  have leads := lookup_ok.mp found
  rw [get_bind]
  cases file : fs.body i with
  | file d =>
    have fits := proper i leads d file
    have whole : size.toNat % 2 ^ w = size.toNat :=
      Nat.mod_eq_of_lt (Nat.lt_of_lt_of_le fits (Nat.pow_le_pow_right (by decide) (Nat.sub_le w 1)))
    dsimp only
    rw [whole, resizeFile_run fs i d fits]
    obtain ⟨wf', tree'⟩ :=
      set_file wf file (body_setBody (body_lt (by simp [file])) (.file (resize d size.toNat)))
    exact ⟨wf', i, d, tree_file found file, tree'⟩
  | _ => exact outcome_fail EINVAL

theorem write_outcome (sized : fs.Sized w) {path : Str} {offset : BitVec 64} {data : List Byte}
    (proper : Proper w fs (.write path offset data)) :
    Does fs (Effect fs.tree (.write path offset data)) (write w path offset data fs) := by
  refine outcome_lift fun i found => ?_
  have leads := lookup_ok.mp found
  rw [get_bind]
  cases file : fs.body i with
  | file d =>
    have ready := proper i leads d file
    have short := sized _ i d (tree_file found file)
    have written' : written d (offset.toNat % 2 ^ w) data = written d offset.toNat data ∧
        (data ≠ [] ∨ offset.toNat % 2 ^ w ≤ d.length) ∧
        offset.toNat % 2 ^ w + data.length < 2 ^ (w - 1) := by
      by_cases empty : data = []
      · rw [if_pos empty] at ready
        refine ⟨by simp [written, empty], .inr ready, ?_⟩
        simp only [empty, length_nil]
        omega
      · rw [if_neg empty] at ready
        have whole : offset.toNat % 2 ^ w = offset.toNat := by
          refine Nat.mod_eq_of_lt
            (Nat.lt_of_lt_of_le ?_ (Nat.pow_le_pow_right (by decide) (Nat.sub_le w 1)))
          omega
        rw [whole]
        exact ⟨rfl, .inl empty, ready⟩
    obtain ⟨same, real, fits⟩ := written'
    have outcome := writeFile_outcome wf file real fits
    rw [same] at outcome
    exact outcome.mono fun fs' done => ⟨done.1, i, d, tree_file found file, done.2⟩
  | dir m => exact outcome_fail EISDIR
  | _ => exact outcome_fail EINVAL

theorem call_outcome (sized : fs.Sized w) {op : Op} (proper : Proper w fs op) :
    Does fs (Effect fs.tree op) (call w op fs) := by
  cases op with
  | statfs | close => exact ⟨wf, rfl⟩
  | lstat path => exact lstat_outcome wf path
  | openFile path flags => exact openFile_outcome wf path flags
  | readdir | read | readlink =>
    refine outcome_lift fun i _ => ?_
    rw [get_bind]
    cases fs.body i <;> first | exact ⟨wf, rfl⟩ | exact outcome_fail _
  | write path offset data => exact write_outcome wf sized proper
  | create | symlink | mknod => exact createAt_outcome wf (by simp) (.inr rfl) _ _
  | mkdir path mode => exact createAt_outcome wf (by simp) (.inl rfl) path _
  | hardlink existing new => exact hardlink_outcome wf proper
  | remove path isDir => exact remove_outcome wf proper
  | rename src dst => exact rename_outcome wf proper
  | setMode | setOwner | setTimes => exact metadata_outcome wf _ fun n => rfl
  | truncate path size => exact truncate_outcome wf proper

omit wf in
theorem written_length (d : List Byte) (start : Nat) (data : List Byte) :
    (written d start data).length = if data = [] then d.length
      else max d.length (start + data.length) := by
  unfold written
  split
  · rfl
  · simp only [overwrite, resize, length_append, length_take, length_drop, length_replicate]
    omega

omit wf in
theorem resize_length (d : List Byte) (n : Nat) : (resize d n).length = n := by
  simp only [resize, length_append, length_take, length_replicate]
  omega

omit wf in
theorem Sized.effect (sized : fs.Sized w) {op : Op} (proper : Proper w fs op) {t : Tree}
    (effect : Effect fs.tree op t) : t.Within (2 ^ (w - 1)) := by
  have room : 0 < 2 ^ (w - 1) := Nat.two_pow_pos _
  cases op with
  | create path flags mode =>
    refine .creates sized (fun d new => ?_) effect
    cases new
    exact room
  | mkdir | symlink | mknod => exact .creates sized (fun d new => by cases new) effect
  | hardlink existing new =>
    obtain ⟨i, o, old, -, -, rfl⟩ := effect
    exact .update sized _ fun j d same => sized (components existing) j d (old.trans same)
  | remove path isDir =>
    obtain ⟨i, o, -, -, -, rfl⟩ := effect
    exact .update sized _ fun j d none => by cases none
  | rename src dst =>
    obtain ⟨i, o, -, -, -, -, -, ⟨-, rfl⟩ | ⟨-, rfl⟩⟩ := effect
    · exact sized
    · exact .move sized _ _
  | write path offset data =>
    obtain ⟨i, d, old, rfl⟩ := effect
    obtain ⟨leads, file⟩ := tree_some.mp old
    have ready := proper i leads d (file_obj.mp file)
    have short := sized _ i d old
    refine .setFile sized i ?_
    rw [written_length]
    split_ifs at ready ⊢ <;> omega
  | truncate path size =>
    obtain ⟨i, d, old, rfl⟩ := effect
    obtain ⟨leads, file⟩ := tree_some.mp old
    refine .setFile sized i ?_
    rw [resize_length]
    exact proper i leads d (file_obj.mp file)
  | openFile path flags =>
    obtain ⟨i, o, old, change⟩ := effect
    cases o with
    | file d =>
      rw [change]
      split_ifs
      · exact .setFile sized i room
      · exact sized
    | _ => exact change ▸ sized
  | _ => exact effect ▸ sized

end Calls

/-! ## Runs of proper calls -/

def step (w : Nat) (fs : MemFs) (op : Op) : MemFs := finalState (call w op fs)

structure Good (w : Nat) (fs : MemFs) : Prop where
  wf : fs.WellFormed
  sized : fs.Sized w

theorem Good.step (good : fs.Good w) {op : Op} (proper : Proper w fs op) :
    (fs.step w op).Good w := by
  have outcome := call_outcome good.wf good.sized proper
  unfold MemFs.step
  cases run : call w op fs with
  | ok a fs' =>
    rw [run] at outcome
    exact ⟨outcome.1, good.sized.effect proper outcome.2⟩
  | error e fs' =>
    rw [run] at outcome
    cases e with
    | errno e => exact outcome ▸ good
    | panic => exact outcome.elim

theorem Good.refines (good : fs.Good w) {op : Op} (proper : Proper w fs op) :
    Refines w fs op := (call_outcome good.wf good.sized proper).complies

theorem good_new (w : Nat) : new.Good w := by
  have names : ∀ p i, new.node p = some i → p = [] ∧ i = 0 := by
    intro p i leads
    cases p with
    | nil => exact ⟨rfl, (Option.some.inj leads).symm⟩
    | cons n p => cases leads
  refine ⟨⟨rfl, fun p i leads => ?_, fun p q i leads leads' _ => ?_⟩, fun p i d leads => ?_⟩
  · rw [(names p i leads).2]
    decide
  · rw [(names p i leads).1, (names q i leads').1]
  · obtain ⟨leads, file⟩ := tree_some.mp leads
    rw [(names p i leads).2] at file
    cases file

/-! ## Nothing else refines -/

section Exact

variable {w : Nat} {fs : MemFs}

theorem hardlink_run {existing new : Str} {src d : Nat} {n : Str}
    (found : fs.lookup existing = .ok src) (split : fs.split new = .ok (d, n))
    (free : fs.childIdx d n = none) : hardlink existing new fs = .ok () (fs.linkChild d n src) := by
  unfold hardlink
  rw [bind_ok _ (lift_ok found), bind_ok _ (lift_ok split)]
  dsimp only
  rw [get_bind, free]
  rfl

variable {path : Str}

theorem remove_run {isDir : Bool} {d i : Nat} {n : Str} (split : fs.split path = .ok (d, n))
    (hit : fs.childIdx d n = some i) (empty : (fs.body i).isFull = false) :
    remove path isDir fs = .ok () ((fs.unlinkChild d n).setBody i .freed) := by
  unfold remove
  rw [bind_ok _ (lift_ok split)]
  dsimp only
  rw [get_bind, hit]
  dsimp only
  cases body : fs.body i with
  | dir m =>
    cases m with
    | nil => rfl
    | cons e m => rw [body] at empty; cases empty
  | _ => rfl

theorem rename_run {src dst : Str} {fd td i : Nat} {fn tn : Str}
    (split : fs.split src = .ok (fd, fn)) (hit : fs.childIdx fd fn = some i)
    (split' : fs.split dst = .ok (td, tn)) :
    rename src dst fs = .ok () ((fs.unlinkChild fd fn).linkChild td tn i) := by
  unfold rename
  rw [bind_ok _ (lift_ok split)]
  dsimp only
  rw [get_bind, hit]
  dsimp only
  rw [bind_ok _ (lift_ok split')]
  rfl

theorem split_of_node {i : Nat} (leads : fs.node (components path) = some i)
    (below : components path ≠ []) :
    ∃ d n, fs.split path = .ok (d, n) ∧ fs.childIdx d n = some i := by
  rcases eq_nil_or_concat (components path) with nil | ⟨pd, n, parts⟩
  · exact absurd nil below
  · rw [concat_eq_append] at parts
    rw [parts] at leads
    obtain ⟨d, at', -⟩ := walk_of_append leads
    have split : fs.split path = .ok (d, n) := split_ok.mpr ⟨pd, parts, at'⟩
    refine ⟨d, n, split, ?_⟩
    rw [← (split_node split).1, parts]
    exact leads

theorem isDir_of_tree {p : List Str} {d : Nat} (at' : fs.node p = some d)
    (isDir : fs.tree.IsDir p) : (fs.body d).isDir = true := by
  obtain ⟨j, named⟩ := isDir
  obtain ⟨leads, kind⟩ := tree_some.mp named
  obtain rfl : d = j := Option.some.inj (at'.symm.trans leads)
  exact isDir_obj.mpr kind

theorem proper_of_hardlink {existing new : Str} (refines : Refines w fs (.hardlink existing new)) :
    Proper w fs (.hardlink existing new) := by
  rintro src source ⟨d, n⟩ placed free
  have split := place_some.mp placed
  obtain ⟨pd, parts, at'⟩ := split_ok.mp split
  have run := hardlink_run (lookup_ok.mpr source) split free
  change Complies fs _ (hardlink existing new fs) at refines
  rw [run] at refines
  obtain ⟨i, o, named, notDir, ⟨-, -, isDir⟩, -⟩ := refines
  obtain ⟨leads, rfl⟩ := tree_some.mp named
  obtain rfl : src = i := Option.some.inj (source.symm.trans leads)
  constructor
  · rw [Ne, ← isDir_obj] at notDir
    simpa using notDir
  · rw [parts, dropLast_concat] at isDir
    exact isDir_of_tree at' isDir

theorem proper_of_remove (wf : fs.WellFormed) {isDir : Bool}
    (refines : Refines w fs (.remove path isDir)) : Proper w fs (.remove path isDir) := by
  intro i leads below
  obtain ⟨d, n, split, hit⟩ := split_of_node leads below
  cases full : (fs.body i).isFull with
  | true => exact .inl rfl
  | false =>
    refine .inr ?_
    change Complies fs _ (remove path isDir fs) at refines
    rw [remove_run split hit full] at refines
    obtain ⟨j, o, named, -, kind, removed⟩ := refines
    obtain ⟨leads', rfl⟩ := tree_some.mp named
    obtain rfl : i = j := Option.some.inj (leads.symm.trans leads')
    constructor
    · -- another name would now lead to a tombstone
      intro q other
      by_contra elsewhere
      have kept := congrFun removed q
      rw [update_of_ne elsewhere, tree_obj other] at kept
      have same := (tree_some.mp kept).2
      have inside : i < (fs.unlinkChild d n).nodes.length :=
        (fs.length_unlinkChild d n).symm ▸ wf.node_lt other
      rw [body_setBody inside, if_pos rfl] at same
      exact wf.live q i other (freed_obj.mpr same.symm)
    · cases isDir with
      | true => exact isDir_obj.mpr kind.1
      | false =>
        rw [if_neg (by decide), Ne, ← isDir_obj] at kind
        simpa using kind

theorem rename_same_file (wf : fs.WellFormed) {pd qd : List Str} {fd td i : Nat} {fn tn : Str}
    (src : fs.node pd = some fd) (hit : fs.childIdx fd fn = some i) (dst : fs.node qd = some td)
    (isDir : (fs.body td).isDir = true)
    (outside : ¬(pd ++ [fn] <+: qd ++ [tn] ∧ pd ++ [fn] ≠ qd ++ [tn]))
    (taken : fs.childIdx td tn = some i)
    (kept : ((fs.unlinkChild fd fn).linkChild td tn i).tree = fs.tree) :
    pd ++ [fn] = qd ++ [tn] := by
  have leads : fs.node (pd ++ [fn]) = some i := by rw [node_snoc src, hit]
  have leads' : fs.node (qd ++ [tn]) = some i := by rw [node_snoc dst, taken]
  have still := congrFun kept (pd ++ [fn])
  rw [tree_obj leads] at still
  have moved := (tree_some.mp still).1
  rw [node_rename wf src hit dst isDir outside] at moved
  split_ifs at moved with above here
  · obtain ⟨rest, parts⟩ := above
    cases rest with
    | nil => rw [← parts, append_nil]
    | cons a rest =>
      -- the node would lie below itself
      have down : fs.node (qd ++ [tn] ++ a :: rest) = some i := parts ▸ leads
      rw [node, walk_append, ← node, leads', Option.bind_some, walk_cons] at down
      obtain ⟨j, child, -⟩ := Option.bind_eq_some_iff.mp down
      exact wf.single _ _ i leads leads' (isDir_of_child child)
  · exact absurd prefix_rfl here

theorem proper_of_rename (wf : fs.WellFormed) {src dst : Str}
    (refines : Refines w fs (.rename src dst)) : Proper w fs (.rename src dst) := by
  rintro i leads below ⟨td, tn⟩ placed
  obtain ⟨fd, fn, split, hit⟩ := split_of_node leads below
  have split' := place_some.mp placed
  obtain ⟨pd, parts, src'⟩ := split_ok.mp split
  obtain ⟨qd, parts', dst'⟩ := split_ok.mp split'
  change Complies fs _ (rename src dst fs) at refines
  rw [rename_run split hit split'] at refines
  obtain ⟨j, o, named, -, -, dir, outside, change⟩ := refines
  obtain ⟨leads', rfl⟩ := tree_some.mp named
  obtain rfl : i = j := Option.some.inj (leads.symm.trans leads')
  have isDir : (fs.body td).isDir = true := by
    rw [parts', dropLast_concat] at dir
    exact isDir_of_tree dst' dir
  have at' : fs.node (components dst) = fs.childIdx td tn := (split_node split').1
  refine ⟨isDir, outside, ?_⟩
  rcases change with ⟨same, kept⟩ | ⟨replaces, -⟩
  · have taken : fs.childIdx td tn = some i := at'.symm.trans (tree_some.mp same).1
    rw [parts, parts'] at outside ⊢
    exact .inl (rename_same_file wf src' hit dst' isDir outside taken kept)
  · refine .inr ?_
    dsimp only
    cases taken : fs.childIdx td tn with
    | none => trivial
    | some j =>
      rw [taken] at at'
      rw [tree_obj at'] at replaces
      obtain ⟨other, kind⟩ := replaces
      refine ⟨other, ?_⟩
      by_cases moved : (fs.body i).isDir = true
      · rw [if_pos (isDir_obj.mp moved)] at kind
        rw [if_pos moved]
        obtain ⟨m, body⟩ := isDir_iff.mp (isDir_obj.mpr kind.1)
        rw [body]
        congr
        refine (OrderedMap.get_eq_none_iff m).mp fun n => ?_
        have none := tree_none.mp (kind.2 n)
        rw [node_snoc at', childIdx, body] at none
        exact none
      · rw [if_neg (isDir_obj.not.mp moved), Ne, ← isDir_obj] at kind
        rw [if_neg moved]
        simpa using kind

variable {fs' : MemFs} {d : List Byte}

theorem resizeFile_short {i n : Nat} (inside : i < fs.nodes.length) (short : d.length < 2 ^ (w - 1))
    (run : resizeFile w i d n fs = .ok () fs') :
    n < 2 ^ (w - 1) ∧ fs'.body i = .file (resize d n) := by
  unfold resizeFile at run
  split_ifs at run with big
  · cases run
  · cases run
    constructor
    · by_contra long
      exact big ⟨by omega, by omega⟩
    · change (fs.setBody i _).body i = _
      rw [body_setBody inside, if_pos rfl]

theorem resizeFile_panics {i n : Nat} {e : Fail} (run : resizeFile w i d n fs = .error e fs') :
    e = .panic := by
  unfold resizeFile at run
  split_ifs at run
  · cases run
    rfl
  · cases run

variable {data : List Byte}

theorem file_set {i j : Nat} {d' : List Byte} (leads : fs.node (components path) = some i)
    (file : fs.body i = .file d) (named : fs.tree (components path) = some (j, .file d'))
    (set : fs'.tree = fs.tree.setFile j data) : d' = d ∧ fs'.body i = .file data := by
  obtain ⟨leads', kind⟩ := tree_some.mp named
  obtain rfl : i = j := Option.some.inj (leads.symm.trans leads')
  rw [file] at kind
  have now := congrFun set (components path)
  rw [Tree.setFile, tree_obj leads, Option.map_some, if_pos rfl] at now
  exact ⟨(Obj.file.inj kind).symm, file_obj.mp (tree_some.mp now).2⟩

theorem proper_of_truncate (sized : fs.Sized w) {size : BitVec 64}
    (refines : Refines w fs (.truncate path size)) : Proper w fs (.truncate path size) := by
  intro i leads d file
  have found := lookup_ok.mpr leads
  have short := sized _ i d (tree_file found file)
  have inside : i < fs.nodes.length := body_lt (by simp [file])
  have call : truncate w path size fs = resizeFile w i d (size.toNat % 2 ^ w) fs := by
    unfold truncate
    rw [bind_ok _ (lift_ok found), get_bind, file]
  change Complies fs _ (truncate w path size fs) at refines
  rw [call] at refines
  cases run : resizeFile w i d (size.toNat % 2 ^ w) fs with
  | error e fs' =>
    rw [run, resizeFile_panics run] at refines
    exact refines.elim
  | ok u fs' =>
    obtain ⟨fits, body⟩ := resizeFile_short inside short run
    rw [run] at refines
    obtain ⟨j, d', named, set⟩ := refines
    obtain ⟨-, same⟩ := file_set leads file named set
    rw [body] at same
    have length := congrArg List.length (Body.file.inj same)
    rw [resize_length, resize_length] at length
    omega

theorem writeFile_short {i start n : Nat} (inside : i < fs.nodes.length)
    (short : d.length < 2 ^ (w - 1)) (run : writeFile w i d start data fs = .ok n fs') :
    ∃ d', fs'.body i = .file d' ∧ d'.length = max d.length (start + data.length) ∧
    d'.length < 2 ^ (w - 1) := by
  unfold writeFile at run
  obtain ⟨d₁, fs₁, grown, rest⟩ := bind_eq_ok run
  split_ifs at rest with wraps
  · cases rest
  · cases rest
    have whole := not_not.mp wraps
    have stays : d₁.length = max d.length (start + data.length) ∧ d₁.length < 2 ^ (w - 1) ∧
        i < fs₁.nodes.length := by
      unfold growFile at grown
      rw [whole] at grown
      split_ifs at grown with grows
      · obtain ⟨u, fs₂, resized, rest⟩ := bind_eq_ok grown
        obtain ⟨fits, body⟩ := resizeFile_short inside short resized
        cases rest
        rw [resize_length]
        exact ⟨by omega, fits, body_lt (by simp [body])⟩
      · cases grown
        exact ⟨by omega, short, inside⟩
    obtain ⟨length, fits, inside'⟩ := stays
    have same : (overwrite d₁ start data).length = d₁.length := by
      simp only [overwrite, length_append, length_take, length_drop]
      omega
    refine ⟨overwrite d₁ start data, ?_, same.trans length, same ▸ fits⟩
    change (fs₁.setBody i _).body i = _
    rw [body_setBody inside', if_pos rfl]

theorem writeFile_panics {i start : Nat} {e : Fail}
    (run : writeFile w i d start data fs = .error e fs') : e = .panic := by
  unfold writeFile at run
  cases grown : growFile w i d ((start + data.length) % 2 ^ w) fs with
  | ok d₁ fs₁ =>
    rw [bind_ok _ grown] at run
    split_ifs at run
    · cases run
      rfl
    · cases run
  | error e' fs₁ =>
    rw [bind_error _ grown] at run
    cases run
    unfold growFile at grown
    split_ifs at grown
    · cases resized : resizeFile w i d ((start + data.length) % 2 ^ w) fs with
      | ok u fs₂ =>
        rw [bind_ok _ resized] at grown
        cases grown
      | error e'' fs₂ =>
        rw [bind_error _ resized] at grown
        cases grown
        exact resizeFile_panics resized
    · cases grown

theorem proper_of_write (sized : fs.Sized w) {offset : BitVec 64}
    (refines : Refines w fs (.write path offset data)) : Proper w fs (.write path offset data) := by
  intro i leads d file
  have found := lookup_ok.mpr leads
  have short := sized _ i d (tree_file found file)
  have inside : i < fs.nodes.length := body_lt (by simp [file])
  have call : write w path offset data fs = writeFile w i d (offset.toNat % 2 ^ w) data fs := by
    unfold write
    rw [bind_ok _ (lift_ok found), get_bind, file]
  change Complies fs _ (write w path offset data fs) at refines
  rw [call] at refines
  cases run : writeFile w i d (offset.toNat % 2 ^ w) data fs with
  | error e fs' =>
    rw [run, writeFile_panics run] at refines
    exact refines.elim
  | ok n fs' =>
    obtain ⟨d', body, length, fits⟩ := writeFile_short inside short run
    rw [run] at refines
    obtain ⟨j, d₀, named, set⟩ := refines
    obtain ⟨rfl, same⟩ := file_set leads file named set
    rw [body] at same
    rw [Body.file.inj same, written_length] at length fits
    split_ifs at length fits ⊢ with empty
    · rw [empty, length_nil] at length
      omega
    · omega

theorem Good.refines_iff (good : fs.Good w) (op : Op) : Refines w fs op ↔ Proper w fs op := by
  refine ⟨fun refines => ?_, good.refines⟩
  cases op with
  | hardlink existing new => exact proper_of_hardlink refines
  | remove path isDir => exact proper_of_remove good.wf refines
  | rename src dst => exact proper_of_rename good.wf refines
  | write path offset data => exact proper_of_write good.sized refines
  | truncate path size => exact proper_of_truncate good.sized refines
  | _ => trivial

end Exact

namespace Lost

def a : Str := ['/', 'a']
def b : Str := ['/', 'b']
def c : Str := ['/', 'a', '/', 'c']

def after (ops : List Op) : MemFs := Events.run (step 64) new ops

theorem good_after {ops : List Op} (proper : Events.Admitted (step 64) (Proper 64) new ops) :
    (after ops).Good 64 := proper.keeps (fun _ _ ok good => .step good ok) (good_new 64)

end Lost

end Rv64Js.P9.MemFs
