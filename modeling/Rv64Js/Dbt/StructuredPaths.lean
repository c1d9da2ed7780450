import Rv64Js.Dbt.StructureScopes
import Rv64Js.Dbt.StructuredEmit
import Rv64Js.Lib.Fallible

/-! # Emitted control follows the member graph

On the result of `stackify` emission meets no error branch, and the emitted function executes
exactly the paths of the member graph. `Emitted` says which code stands for a structure, `Context`
which frames surround it, and `arrive` that control sent to a head reaches a copy of it: the weight
of a context bounds the code still ahead, and a dispatcher only branches forward. -/

set_option autoImplicit false

namespace Rv64Js.Dbt

open List Fallible

def Succeeds {ε α : Type} (run : Except ε α) : Prop := ∃ result, run = .ok result

theorem Succeeds.bind {ε α β : Type} {first : Except ε α} {rest : α → Except ε β}
    (begins : Succeeds first)
    (ends : ∀ value, first = .ok value → Succeeds (rest value)) : Succeeds (first >>= rest) := by
  obtain ⟨value, rfl⟩ := begins
  exact ends value rfl

/-! ## Labels -/

def setLabels (labels : Labels) (targets : List Nat) (scope : Nat) : Labels := fun node =>
  if node ∈ targets then some ⟨scope, if 1 < targets.length then some node else none⟩
  else labels node

variable {targets : List Nat}

theorem openScope_eq (scope : Nat) (nodup : targets.Nodup) (labels : Labels) :
    openScope scope targets labels = (setLabels labels targets scope, targets.map labels) := by
  have general : ∀ (rest : List Nat) (state : Labels × List (Option Destination)), rest.Nodup →
      rest.foldl (fun state target => (Function.update state.1 target
          (some ⟨scope, if 1 < targets.length then some target else none⟩),
          state.2 ++ [state.1 target])) state =
        (fun node =>
          if node ∈ rest then some ⟨scope, if 1 < targets.length then some node else none⟩
          else state.1 node, state.2 ++ rest.map state.1) := by
    intro rest
    induction rest with
    | nil => intro state _; simp
    | cons target rest ih =>
      intro state nodup
      obtain ⟨fresh, nodup⟩ := nodup_cons.mp nodup
      have same : rest.map (Function.update state.1 target
          (some ⟨scope, if 1 < targets.length then some target else none⟩)) = rest.map state.1 :=
        map_congr_left fun node member =>
          Function.update_of_ne (ne_of_mem_of_not_mem member fresh) _ _
      rw [foldl_cons, ih _ nodup, same]
      refine Prod.ext (funext fun node => ?_) (by simp)
      by_cases inRest : node ∈ rest
      · simp [inRest]
      · by_cases here : node = target
        · subst here; simp [inRest]
        · simp [inRest, here]
  exact general targets (labels, []) nodup

/-- Closing a scope restores the labels its opening replaced. -/
theorem closeScope_setLabels (scope : Nat) (nodup : targets.Nodup) (labels : Labels) :
    closeScope targets (targets.map labels) (setLabels labels targets scope) = labels := by
  have general : ∀ (rest : List Nat) (current : Labels), rest.Nodup →
      closeScope rest (rest.map labels) current = fun node =>
        if node ∈ rest then labels node else current node := by
    intro rest
    induction rest with
    | nil => intro current _; simp [closeScope]
    | cons target rest ih =>
      intro current nodup
      obtain ⟨fresh, nodup⟩ := nodup_cons.mp nodup
      have unfolded : closeScope (target :: rest) ((target :: rest).map labels) current =
          closeScope rest (rest.map labels) (Function.update current target (labels target)) := rfl
      rw [unfolded, ih _ nodup]
      funext node
      by_cases inRest : node ∈ rest
      · simp [inRest]
      · by_cases here : node = target
        · subst here; simp [inRest]
        · simp [inRest, here]
  rw [general targets _ nodup]
  funext node
  by_cases member : node ∈ targets <;> simp [setLabels, member]

/-! ## The code of a structure -/

mutual

def Emitted (members : List Member) (labels : Labels) (active : List Nat) (next : List Nat) :
    Structure → List Instr → Prop
  | .basic index, code => ∃ exitDepth successor,
      structuredDepth active exitScope = .ok exitDepth ∧
      emitStructuredSuccessor members index next labels active = .ok successor ∧
      code = [.member index, .safety exitDepth] ++ successor
  | .dispatcher entries, code => emitDispatcher next labels active entries = .ok code
  | .block children, code => ∃ scope body, scope ∉ active ∧ code = [.block body] ∧
      EmittedFrom members (setLabels labels next scope) (scope :: active) next children body
  | .loop children, code => ∃ scope body, scope ∉ active ∧ code = [.loop body] ∧
      EmittedFrom members (setLabels labels (Structure.loop children).head scope)
        (scope :: active) next children body

def EmittedFrom (members : List Member) (labels : Labels) (active : List Nat) (next : List Nat) :
    List Structure → List Instr → Prop
  | [], code => code = []
  | child :: rest, code => ∃ here later, code = here ++ later ∧
      Emitted members labels active (nextHeads rest next) child here ∧
      EmittedFrom members labels active next rest later

end

/-- The compile-time state at a point of emission: the labels in scope point to
open scopes, and fresh scopes are not open. -/
structure Emitting (labels : Labels) (known : Set Node) (active : List Nat) (nextScope : Nat) :
    Prop where
  known : ∀ node ∈ known, ∃ destination, labels node = some destination
  opened : ∀ node destination, labels node = some destination → destination.scope ∈ active
  fresh : ∀ scope ∈ active, scope < nextScope
  exit : exitScope ∈ active
  main : mainScope ∈ active

variable {scope : Nat} {active : List Nat}

theorem structuredDepth_of_mem (member : scope ∈ active) :
    Succeeds (structuredDepth active scope) := by
  unfold structuredDepth
  cases found : active.findIdx? (· = scope) with
  | none =>
    rw [findIdx?_eq_none_iff] at found
    have := found scope member
    simp at this
  | some depth => exact ⟨depth, rfl⟩

variable {destination : Destination}

theorem emitTestBranch_ok (test : Test) (member : destination.scope ∈ active) :
    Succeeds (emitTestBranch test destination active) := by
  refine (structuredDepth_of_mem member).bind fun depth _ => ?_
  cases destination.selector <;> exact ⟨_, rfl⟩

theorem emitUnconditionalBranch_ok (member : destination.scope ∈ active) :
    Succeeds (emitUnconditionalBranch destination active) :=
  (structuredDepth_of_mem member).bind fun _ _ => ⟨_, rfl⟩

variable {nextScope : Nat} {labels : Labels} {known : Set Node}

theorem emitDispatcher_ok (emitting : Emitting labels known active nextScope) (next : List Nat)
    (entries : List Nat) (inScope : ∀ entry ∈ entries, entry ∈ next ∨ entry ∈ known) :
    Succeeds (emitDispatcher next labels active entries) := by
  induction entries with
  | nil => exact ⟨[], rfl⟩
  | cons entry rest ih =>
    have later := ih fun e member => inScope e (by simp [member])
    rw [emitDispatcher]
    by_cases falls : entry ∈ next
    · rw [if_pos falls]
      exact later.bind fun _ _ => ⟨_, rfl⟩
    · have inKnown := (inScope entry (by simp)).resolve_left falls
      obtain ⟨destination, label⟩ := emitting.known entry inKnown
      rw [if_neg falls, label]
      exact (emitTestBranch_ok _ (emitting.opened entry destination label)).bind fun _ _ =>
        later.bind fun _ _ => ⟨_, rfl⟩

/-! ## Emission succeeds -/

def Follows (members : List Member) (graph : Graph) : Prop :=
  ∀ index member, members[index]? = some member →
    ∀ target ∈ cfgSuccessorsOf members member, target ∈ graph.targets index

variable {target : Nat} {members : List Member}

theorem mem_cfgSuccessorsOf_select {member : Member} {ifTrue ifFalse : Option GuestPc}
    (next : member.next = .select ifTrue ifFalse)
    (found : cfgMemberFor members ifTrue = some target ∨
      cfgMemberFor members ifFalse = some target) : target ∈ cfgSuccessorsOf members member := by
  simp only [cfgSuccessorsOf, next]
  rcases found with found | found
  · cases cfgMemberFor members ifFalse with
    | none => simp [found]
    | some other => dsimp only; split_ifs <;> simp [found]
  · simp only [found]
    split_ifs with member <;> simp [member]

variable {next : List Nat}

theorem structuredPath_ok (emitting : Emitting labels known active nextScope) (member : Option Nat)
    (inScope : ∀ target, member = some target → target ∈ next ∨ target ∈ known) :
    ∃ path, structuredPath member next labels ⟨exitScope, none⟩ = .ok path ∧
      ∀ destination, path = .branch destination → destination.scope ∈ active := by
  cases member with
  | none =>
    refine ⟨.branch ⟨exitScope, none⟩, rfl, fun destination same => ?_⟩
    cases same
    exact emitting.exit
  | some target =>
    simp only [structuredPath]
    by_cases falls : target ∈ next
    · exact ⟨_, by rw [if_pos falls], fun _ same => by cases same⟩
    · obtain ⟨destination, label⟩ :=
        emitting.known target ((inScope target rfl).resolve_left falls)
      refine ⟨.branch destination, by rw [if_neg falls, label], fun other same => ?_⟩
      cases same
      exact emitting.opened target destination label

theorem emitSelect_ok (index : Nat) (ifTrue ifFalse : StructuredPath)
    (openTrue : ∀ destination, ifTrue = .branch destination → destination.scope ∈ active)
    (openFalse : ∀ destination, ifFalse = .branch destination → destination.scope ∈ active) :
    Succeeds (emitSelect index active ifTrue ifFalse) := by
  cases ifTrue with
  | fallthrough first =>
    cases ifFalse with
    | fallthrough second =>
      cases first <;> cases second <;> simp only [emitSelect] <;> first
        | exact ⟨_, rfl⟩
        | (split_ifs <;> exact ⟨_, rfl⟩)
    | branch destination =>
      have test := emitTestBranch_ok (.condition index true) (openFalse destination rfl)
      cases first <;> exact test.bind fun _ _ => ⟨_, rfl⟩
  | branch destination =>
    have test := emitTestBranch_ok (.condition index false) (openTrue destination rfl)
    cases ifFalse with
    | fallthrough second => exact test.bind fun _ _ => ⟨_, rfl⟩
    | branch other =>
      exact test.bind fun _ _ => (emitUnconditionalBranch_ok (openFalse other rfl)).bind fun _ _ =>
        ⟨_, rfl⟩

variable {graph : Graph}

theorem emitStructuredSuccessor_ok (follows : Follows members graph)
    (emitting : Emitting labels known active nextScope) {index : Nat}
    (inScope : ∀ target ∈ graph.targets index, target ∈ next ∨ target ∈ known) :
    Succeeds (emitStructuredSuccessor members index next labels active) := by
  have dynamic := (structuredDepth_of_mem emitting.main).bind fun depth _ =>
    (⟨_, rfl⟩ : Succeeds (pure [.setSelector none, .br depth] : Except EmitError (List Instr)))
  unfold emitStructuredSuccessor
  cases row : members[index]? with
  | none => exact dynamic
  | some member =>
    have targets := follows index member row
    cases next : member.next with
    | static pc =>
      obtain ⟨path, run, opened⟩ := structuredPath_ok emitting
        (cfgMemberFor members (some pc)) fun target found =>
          inScope target (targets target (by simp [cfgSuccessorsOf, next, found]))
      simp only [Option.map_some, next, run]
      cases path with
      | fallthrough selector => exact ⟨_, rfl⟩
      | branch destination => exact emitUnconditionalBranch_ok (opened destination rfl)
    | select ifTrue ifFalse =>
      obtain ⟨first, firstRun, openFirst⟩ := structuredPath_ok emitting
        (cfgMemberFor members ifTrue) fun target found =>
          inScope target (targets target (mem_cfgSuccessorsOf_select next (.inl found)))
      obtain ⟨second, secondRun, openSecond⟩ := structuredPath_ok emitting
        (cfgMemberFor members ifFalse) fun target found =>
          inScope target (targets target (mem_cfgSuccessorsOf_select next (.inr found)))
      simp only [Option.map_some, next, firstRun, secondRun]
      exact emitSelect_ok index first second openFirst openSecond
    | dynamic =>
      simp only [Option.map_some, next]
      exact dynamic

theorem Structure.Scoped.head_nodup (child : Structure) {labels blocks : Set Node}
    {next : List Node} (inScope : child.Scoped graph labels blocks next) : child.head.Nodup := by
  match child with
  | .basic node => exact nodup_singleton node
  | .dispatcher entries => exact inScope.1
  | .loop [] => exact nodup_nil
  | .loop (first :: rest) => exact Structure.Scoped.head_nodup first inScope.2.1
  | .block [] => exact nodup_nil
  | .block (first :: rest) => exact Structure.Scoped.head_nodup first inScope.1

theorem ScopedFrom.nextHeads_nodup {labels blocks : Set Node} {next : List Node}
    {rest : List Structure} (inScope : ScopedFrom graph labels blocks next rest)
    (nodup : next.Nodup) : (nextHeads rest next).Nodup := by
  cases rest with
  | nil => exact nodup
  | cons child rest => exact inScope.1.head_nodup

theorem setLabels_some (each : ∀ node ∈ known, ∃ destination, labels node = some destination) :
    ∀ node ∈ known ∪ {n | n ∈ targets}, ∃ destination,
    setLabels labels targets scope node = some destination := by
  intro node member
  by_cases target : node ∈ targets
  · exact ⟨_, by rw [setLabels, if_pos target]⟩
  · rw [setLabels, if_neg target]
    exact each node (member.resolve_right target)

theorem Emitting.scope_notMem (emitting : Emitting labels known active nextScope) :
    nextScope ∉ active := fun member => Nat.lt_irrefl _ (emitting.fresh nextScope member)

theorem Emitting.enter (emitting : Emitting labels known active nextScope) (targets : List Nat) :
    Emitting (setLabels labels targets nextScope) (known ∪ {n | n ∈ targets})
      (nextScope :: active) (nextScope + 1) where
  known := setLabels_some emitting.known
  opened node destination label := by
    by_cases target : node ∈ targets
    · rw [setLabels, if_pos target, Option.some.injEq] at label
      simp [← label]
    · rw [setLabels, if_neg target] at label
      exact mem_cons_of_mem _ (emitting.opened node destination label)
  fresh scope member := by
    rcases mem_cons.mp member with rfl | member
    · exact Nat.lt_succ_self _
    · exact Nat.lt_succ_of_lt (emitting.fresh scope member)
  exit := mem_cons_of_mem _ emitting.exit
  main := mem_cons_of_mem _ emitting.main

theorem Emitting.later {labels : Labels} {known : Set Node} {active : List Nat} {laterScope : Nat}
    (emitting : Emitting labels known active nextScope)
    (later : nextScope ≤ laterScope) : Emitting labels known active laterScope :=
  ⟨emitting.known, emitting.opened,
    fun scope member => Nat.lt_of_lt_of_le (emitting.fresh scope member) later,
    emitting.exit, emitting.main⟩

mutual

theorem emitStructure_emitted {members : List Member} {graph : Graph}
    (follows : Follows members graph) (child : Structure) {known blocks : Set Node}
    {active next : List Nat} (labels : Labels) (scope : Nat)
    (inScope : child.Scoped graph known blocks next) (sub : blocks ⊆ known) (nodup : next.Nodup)
    (emitting : Emitting labels known active scope) :
    ∃ code later,
    emitStructure members active next child ⟨labels, scope⟩ = .ok (code, ⟨labels, later⟩) ∧
      scope ≤ later ∧ Emitted members labels active next child code := by
  cases child with
  | basic index =>
    obtain ⟨exitDepth, exitFound⟩ := structuredDepth_of_mem emitting.exit
    obtain ⟨successor, run⟩ := emitStructuredSuccessor_ok follows emitting inScope
    refine ⟨_, scope, ?_, Nat.le_refl _, exitDepth, successor, exitFound, run, rfl⟩
    rw [emitStructure, exitFound, run]
    rfl
  | dispatcher entries =>
    obtain ⟨code, run⟩ := emitDispatcher_ok emitting next entries
      fun entry member => (inScope.2 entry member).imp_right fun inBlocks => sub inBlocks
    refine ⟨code, scope, ?_, Nat.le_refl _, run⟩
    rw [emitStructure, run]
    rfl
  | block children =>
    obtain ⟨body, later, run, le, emitted⟩ := emitStructures_emitted follows children _ _ inScope
      (Set.union_subset_union_left _ sub) nodup (emitting.enter next)
    refine ⟨[.block body], later, ?_, Nat.le_of_succ_le le, scope, body, emitting.scope_notMem, rfl,
      emitted⟩
    simp only [emitStructure, openScope_eq _ nodup, run, bind, Except.bind,
      closeScope_setLabels scope nodup]
    rfl
  | loop children =>
    obtain ⟨body, later, run, le, emitted⟩ := emitStructures_emitted follows children _ _ inScope.2
      (Set.empty_subset _) nodup (emitting.enter _)
    refine ⟨[.loop body], later, ?_, Nat.le_of_succ_le le, scope, body, emitting.scope_notMem, rfl,
      emitted⟩
    have heads := inScope.head_nodup
    rw [emitStructure, if_neg (by simpa using inScope.1)]
    simp only [openScope_eq _ heads, run, bind, Except.bind, closeScope_setLabels scope heads]
    rfl

theorem emitStructures_emitted {members : List Member} {graph : Graph}
    (follows : Follows members graph) (children : List Structure) {known blocks : Set Node}
    {active next : List Nat} (labels : Labels) (scope : Nat)
    (inScope : ScopedFrom graph known blocks next children) (sub : blocks ⊆ known)
    (nodup : next.Nodup) (emitting : Emitting labels known active scope) :
    ∃ code later,
    emitStructures members active next children ⟨labels, scope⟩ = .ok (code, ⟨labels, later⟩) ∧
      scope ≤ later ∧ EmittedFrom members labels active next children code := by
  cases children with
  | nil => exact ⟨[], scope, rfl, Nat.le_refl _, rfl⟩
  | cons child rest =>
    obtain ⟨here, middle, run, le, emitted⟩ := emitStructure_emitted follows child labels scope
      inScope.1 sub (inScope.2.nextHeads_nodup nodup) emitting
    obtain ⟨code, later, restRun, restLe, restEmitted⟩ := emitStructures_emitted follows rest labels
      middle inScope.2 sub nodup (emitting.later le)
    refine ⟨here ++ code, later, ?_, Nat.le_trans le restLe, here, code, rfl, emitted, restEmitted⟩
    rw [emitStructures, run]
    simp only [bind, Except.bind, restRun]
    rfl

end

/-! ## The frames around emitted code -/

theorem structuredDepth_self (scope : Nat) (active : List Nat) :
    structuredDepth (scope :: active) scope = .ok 0 := by
  simp [structuredDepth, findIdx?_cons]

/-- A branch to `scope` continues at `target`. -/
def Leads (active : List Nat) (frames : List Frame) (scope : Nat)
    (target : List Instr × List Frame) : Prop :=
  ∃ depth, structuredDepth active scope = .ok depth ∧ branchTarget depth frames = some target

theorem Leads.outer {frames : List Frame} {frame : Frame} {goal : List Instr × List Frame}
    (leads : Leads active frames target goal) (other : scope ∉ active) :
    Leads (scope :: active) (frame :: frames) target goal := by
  obtain ⟨depth, found, branch⟩ := leads
  refine ⟨depth + 1, ?_, by cases frame <;> exact branch⟩
  unfold structuredDepth at found ⊢
  cases index : active.findIdx? (· = target) with
  | none => rw [index] at found; cases found
  | some position =>
    rw [index] at found
    cases found
    obtain ⟨bound, here, -⟩ := findIdx?_eq_some_iff_getElem.mp index
    have differs : scope ≠ target := by
      rintro rfl
      exact other (by simpa using (of_decide_eq_true here) ▸ getElem_mem bound)
    rw [findIdx?_cons]
    simp [differs, index]

/-- What surrounds a list of structures: labels, members with a label, those whose label leaves a
block of the innermost loop, open scopes, heads and code behind the list, frames, and the size of
all code behind the list. -/
structure Around where
  labels : Labels
  known : Set Node
  blocks : Set Node
  active : List Nat
  next : List Nat
  tail : List Instr
  frames : List Frame
  weight : Nat

/-- `code` is the code of `structures`, whose edges have their targets in scope. -/
structure Around.Holds (around : Around) (members : List Member) (graph : Graph) (first : Bool)
    (structures : List Structure) (code : List Instr) : Prop where
  emitted : EmittedFrom members around.labels around.active around.next structures code
  inScope : ScopedFrom graph around.known around.blocks around.next structures
  plain : PlainFrom first structures

def mainLoop (code : List Instr) : List Instr :=
  [.resolvePc, .brIf .selectorNegative 1] ++ code ++ [.br 1]

def Around.top (code : List Instr) : Around :=
  ⟨fun _ => none, ∅, ∅, [mainScope, exitScope], [], [.br 1], [.loop (mainLoop code) [], .block []],
    0⟩

/-- A scope that `targets` lead to, with the code `later` of `rest` behind it. -/
noncomputable def Around.enter (around : Around) (scope : Nat) (rest : List Structure)
    (later : List Instr) (targets : List Nat) (blocks : Set Node)
    (frame : List Instr → Frame) : Around where
  labels := setLabels around.labels targets scope
  known := around.known ∪ {n | n ∈ targets}
  blocks := blocks
  active := scope :: around.active
  next := nextHeads rest around.next
  tail := []
  frames := frame (later ++ around.tail) :: around.frames
  weight := sizeOf rest + around.weight + 1

/-- A scoped result and its code. -/
structure Emission where
  members : List Member
  graph : Graph
  structures : List Structure
  code : List Instr
  holds : (Around.top code).Holds members graph true structures code

inductive Context (E : Emission) : Around → Prop
  | top : Context E (.top E.code)
  | block {around scope rest later} : Context E around → scope ∉ around.active →
      around.Holds E.members E.graph false rest later →
      Context E (around.enter scope rest later (nextHeads rest around.next)
        (around.blocks ∪ {n | n ∈ nextHeads rest around.next}) .block)
  | loop {around scope rest later children body} : Context E around → scope ∉ around.active →
      around.Holds E.members E.graph false rest later → (Structure.loop children).head ≠ [] →
      (around.enter scope rest later (Structure.loop children).head ∅ (.loop body)).Holds
        E.members E.graph false children body →
      Context E (around.enter scope rest later (Structure.loop children).head ∅ (.loop body))

/-- Code of the emitted function: that of `structures` and of what follows them. -/
structure Located (E : Emission) (first : Bool) where
  around : Around
  structures : List Structure
  here : List Instr
  context : Context E around
  holds : around.Holds E.members E.graph first structures here

namespace Located

variable {E : Emission} {first : Bool} (l : Located E first)

/-- Control that enters the code is at one of these. -/
def heads : List Nat := nextHeads l.structures l.around.next

noncomputable def weight : Nat := sizeOf l.structures + l.around.weight

def config {σ : Type} (selector : Option Nat) (state : σ) (trace : List Nat) : Config σ :=
  ⟨l.here ++ l.around.tail, l.around.frames, selector, state, trace⟩

def path (member : Option Nat) : Except EmitError StructuredPath :=
  structuredPath member l.heads l.around.labels ⟨exitScope, none⟩

end Located

section Frames
variable {E : Emission} {around : Around}

theorem Context.outer {goal : List Instr × List Frame} (context : Context E around) (scope : Nat)
    (top : Leads [mainScope, exitScope] [.loop (mainLoop E.code) [], .block []] scope goal) :
    Leads around.active around.frames scope goal := by
  induction context with
  | top => exact top
  | block _ fresh _ ih | loop _ fresh _ _ _ ih => exact ih.outer fresh

/-- A label leads to code that is entered at its member; a label of `blocks` leads forward. -/
theorem Context.label {node : Nat} (context : Context E around)
    (found : around.labels node = some destination) :
    ∃ l : Located E false, Leads around.active around.frames destination.scope
        (l.here ++ l.around.tail, l.around.frames) ∧ node ∈ l.heads ∧
      destination.selector = (if 1 < l.heads.length then some node else none) ∧
      (node ∈ around.blocks → l.weight ≤ around.weight) := by
  induction context with
  | top => cases found
  | @block around scope rest later outerContext fresh holds ih =>
    by_cases target : node ∈ nextHeads rest around.next
    · simp only [Around.enter, setLabels, if_pos target] at found
      cases found
      exact ⟨⟨around, rest, later, outerContext, holds⟩, ⟨0, structuredDepth_self _ _, rfl⟩, target,
        rfl,
        fun _ => Nat.le_succ _⟩
    · simp only [Around.enter, setLabels, if_neg target] at found
      obtain ⟨l, leads, isHead, selector, forward⟩ := ih found
      refine ⟨l, leads.outer fresh, isHead, selector, fun inBlocks => ?_⟩
      exact (forward (inBlocks.resolve_right target)).trans (by simp only [Around.enter]; omega)
  | @loop around scope rest later children body outerContext fresh holds nonempty inner ih =>
    by_cases target : node ∈ (Structure.loop children).head
    · simp only [Around.enter, setLabels, if_pos target] at found
      cases found
      have sameHeads : nextHeads children (nextHeads rest around.next) =
          (Structure.loop children).head := by
        cases children with
        | nil => exact absurd rfl nonempty
        | cons => rfl
      let l : Located E false :=
        ⟨_, children, body, .loop outerContext fresh holds nonempty inner, inner⟩
      have heads : l.heads = (Structure.loop children).head := sameHeads
      rw [← heads] at target ⊢
      exact ⟨l, ⟨0, structuredDepth_self _ _, congrArg (fun code => some (code, l.around.frames))
        (append_nil body).symm⟩, target, rfl, fun none => none.elim⟩
    · simp only [Around.enter, setLabels, if_neg target] at found
      obtain ⟨l, leads, isHead, selector, -⟩ := ih found
      exact ⟨l, leads.outer fresh, isHead, selector, fun none => none.elim⟩

theorem Context.takes {node : Nat} (context : Context E around)
    (label : around.labels node = some destination) :
    ∃ target, Leads around.active around.frames destination.scope target := by
  obtain ⟨l, leads, -⟩ := context.label label
  exact ⟨_, leads⟩

theorem Context.known_label (context : Context E around) :
    around.blocks ⊆ around.known ∧ ∀ node ∈ around.known, ∃ destination,
    around.labels node = some destination := by
  induction context with
  | top => exact ⟨fun _ => id, fun node none => none.elim⟩
  | block _ _ _ ih => exact ⟨Set.union_subset_union_left _ ih.1, setLabels_some ih.2⟩
  | loop _ _ _ _ _ ih => exact ⟨Set.empty_subset _, setLabels_some ih.2⟩

end Frames

/-! ## Runs of the emitted branches -/

section Runs
variable {σ : Type} {machine : Machine σ}

theorem runSteps_add (first second : Nat) (outcome : Outcome σ) :
    runSteps machine (first + second) outcome =
      runSteps machine second (runSteps machine first outcome) := by
  induction first generalizing outcome with
  | zero => rw [Nat.zero_add]; rfl
  | succ first ih =>
    rw [Nat.succ_add]
    cases outcome with
    | running config => exact ih _
    | returned state trace => cases second <;> rfl
    | exited state trace => cases second <;> rfl
    | invalid => cases second <;> rfl

def Reaches (machine : Machine σ) (config final : Config σ) : Prop :=
  ∃ count, runSteps machine count (.running config) = .running final

theorem Reaches.refl (config : Config σ) : Reaches machine config config := ⟨0, rfl⟩

variable {config final : Config σ}

theorem Reaches.trans {middle : Config σ} (first : Reaches machine config middle)
    (second : Reaches machine middle final) : Reaches machine config final := by
  obtain ⟨a, first⟩ := first
  obtain ⟨b, second⟩ := second
  exact ⟨a + b, by rw [runSteps_add, first, second]⟩

theorem Reaches.head {middle : Config σ} (first : step machine config = .running middle)
    (second : Reaches machine middle final) : Reaches machine config final :=
  .trans ⟨1, first⟩ second

theorem Reaches.single (first : step machine config = .running final) :
    Reaches machine config final := ⟨1, first⟩

variable {active : List Nat} {frames outer : List Frame} {code here more : List Instr}
  {destination : Destination} {selector : Option Nat} {state : σ} {trace : List Nat}

theorem run_unconditionalBranch (emitted : emitUnconditionalBranch destination active = .ok here)
    (leads : Leads active frames destination.scope (code, outer)) :
    Reaches machine ⟨here ++ more, frames, selector, state, trace⟩
      ⟨code, outer, destination.selector.or selector, state, trace⟩ := by
  obtain ⟨depth, found, target⟩ := leads
  simp only [emitUnconditionalBranch, found, bind, Except.bind, pure, Except.pure,
    Except.ok.injEq] at emitted
  subst emitted
  cases choice : destination.selector with
  | none => exact .single (by simp [emitFallthroughSelector, step, Config.branch, target])
  | some chosen =>
    refine .head rfl (.single ?_)
    simp [step, Config.branch, target]

theorem run_testBranch {test : Test} (emitted : emitTestBranch test destination active = .ok here)
    (leads : Leads active frames destination.scope (code, outer)) (holds : Bool)
    (value : test.holds machine selector state = holds) :
    Reaches machine ⟨here ++ more, frames, selector, state, trace⟩
      (if holds then ⟨code, outer, destination.selector.or selector, state, trace⟩
        else ⟨more, frames, selector, state, trace⟩) := by
  obtain ⟨depth, found, target⟩ := leads
  simp only [emitTestBranch, found, bind, Except.bind, pure, Except.pure] at emitted
  cases choice : destination.selector with
  | none =>
    rw [choice] at emitted
    cases emitted
    refine .single ?_
    cases holds <;> simp [step, value, Config.branch, target]
  | some chosen =>
    rw [choice] at emitted
    cases emitted
    cases holds with
    | false => exact .single (by simp [step, value])
    | true =>
      have opened : step machine
          ⟨[.ifThen test [.setSelector (some chosen), .br (depth + 1)]] ++ more, frames, selector,
            state, trace⟩ =
          .running ⟨[.setSelector (some chosen), .br (depth + 1)], .block more :: frames, selector,
            state, trace⟩ := by
        simp [step, value]
      refine .head opened (.head rfl (.single ?_))
      simp [step, Config.branch, branchTarget, target]

theorem run_fallthroughSelector (choice selector : Option Nat) :
    Reaches machine ⟨emitFallthroughSelector choice ++ more, frames, selector, state, trace⟩
      ⟨more, frames, choice.or selector, state, trace⟩ := by
  cases choice with
  | none => exact .refl _
  | some chosen => exact .single rfl

variable {labels : Labels} {next : List Nat}

theorem emitDispatcher_cons {rest : List Nat} {entry : Nat}
    (emitted : emitDispatcher next labels active (entry :: rest) = .ok code) :
    ∃ here later, code = here ++ later ∧ emitDispatcher next labels active rest = .ok later ∧
      (entry ∈ next ∧ here = [] ∨ entry ∉ next ∧ ∃ destination, labels entry = some destination ∧
        emitTestBranch (.selectorIs entry) destination active = .ok here) := by
  rw [emitDispatcher] at emitted
  by_cases falls : entry ∈ next
  · rw [if_pos falls] at emitted
    obtain ⟨_, ⟨⟩, emitted⟩ := except_bind_ok emitted
    obtain ⟨later, restRun, ⟨⟩⟩ := except_bind_ok emitted
    exact ⟨[], later, rfl, restRun, .inl ⟨falls, rfl⟩⟩
  · rw [if_neg falls] at emitted
    cases label : labels entry with
    | none => rw [label] at emitted; cases emitted
    | some destination =>
      rw [label] at emitted
      obtain ⟨here, branch, emitted⟩ := except_bind_ok emitted
      obtain ⟨later, restRun, ⟨⟩⟩ := except_bind_ok emitted
      exact ⟨here, later, rfl, restRun, .inr ⟨falls, destination, rfl, branch⟩⟩

variable {node : Nat} {entries : List Nat}
  (takes : ∀ {node destination}, labels node = some destination →
    ∃ target, Leads active frames destination.scope target)
include takes

theorem run_selector_other {entry : Nat} (label : labels entry = some destination)
    (emitted : emitTestBranch (.selectorIs entry) destination active = .ok here)
    (other : node ≠ entry) :
    Reaches machine ⟨here ++ more, frames, some node, state, trace⟩
      ⟨more, frames, some node, state, trace⟩ := by
  obtain ⟨_, leads⟩ := takes label
  exact run_testBranch emitted leads false (by simp [Test.holds, other])

variable (emitted : emitDispatcher next labels active entries = .ok here)
include emitted

theorem run_dispatcher_falls (falls : node ∈ next) :
    Reaches machine ⟨here ++ more, frames, some node, state, trace⟩
      ⟨more, frames, some node, state, trace⟩ := by
  induction entries generalizing here with
  | nil => cases emitted; exact .refl _
  | cons entry rest ih =>
    obtain ⟨first, later, rfl, restRun, ⟨-, rfl⟩ | ⟨stays, destination, label, branch⟩⟩ :=
      emitDispatcher_cons emitted
    · exact ih restRun
    · rw [append_assoc]
      exact (run_selector_other takes label branch (ne_of_mem_of_not_mem falls stays)).trans
        (ih restRun)

theorem run_dispatcher_branches (member : node ∈ entries) (stays : node ∉ next)
    (label : labels node = some destination)
    (leads : Leads active frames destination.scope (code, outer)) :
    Reaches machine ⟨here ++ more, frames, some node, state, trace⟩
      ⟨code, outer, destination.selector.or (some node), state, trace⟩ := by
  induction entries generalizing here with
  | nil => simp at member
  | cons entry rest ih =>
    obtain ⟨first, later, rfl, restRun, ⟨falls, rfl⟩ | ⟨-, other, otherLabel, branch⟩⟩ :=
      emitDispatcher_cons emitted
    · refine ih restRun ((mem_cons.mp member).resolve_left ?_)
      rintro rfl
      exact stays falls
    · rw [append_assoc]
      by_cases here : node = entry
      · subst here
        obtain rfl : destination = other := Option.some.inj (label.symm.trans otherLabel)
        exact run_testBranch branch leads true (by simp [Test.holds])
      · exact (run_selector_other takes otherLabel branch here).trans
          (ih restRun ((mem_cons.mp member).resolve_left here))

end Runs

/-! ## Arriving at a member -/

section Arrive
variable {σ : Type} {machine : Machine σ} {E : Emission}

def AtMember (E : Emission) (node : Nat) (config : Config σ) : Prop :=
  ∃ first, ∃ l : Located E first, ∃ rest selector state trace,
    l.structures = .basic node :: rest ∧ config = l.config selector state trace

/-- The run is in front of a copy of the member the graph is at, or has left with it. -/
def Outcome.Tracks (E : Emission) : Outcome σ → CfgState σ × List Nat → Prop
  | .running config, (.at member state, trace) =>
    AtMember E member config ∧ config.state = state ∧ config.trace = trace
  | .returned state trace, run => run = (.returned state, trace)
  | .exited state trace, run => run = (.exited state, trace)
  | _, _ => False

/-- The code comes to where the graph is. -/
def Lands (machine : Machine σ) (E : Emission) (config : Config σ) (run : CfgState σ × List Nat) :
    Prop :=
  ∃ count, (runSteps machine count (.running config)).Tracks E run

variable {config : Config σ} {run : CfgState σ × List Nat}

theorem Lands.of_reaches {middle : Config σ} (lands : Lands machine E middle run)
    (first : Reaches machine config middle) : Lands machine E config run := by
  obtain ⟨before, first⟩ := first
  obtain ⟨count, tracks⟩ := lands
  exact ⟨before + count, by rwa [runSteps_add, first]⟩

variable {node : Nat} {around : Around}

theorem Context.leave (context : Context E around) (isNext : node ∈ around.next) :
    around.tail = [] ∧ ∃ l : Located E false, l.heads = around.next ∧ l.weight < around.weight ∧
      ∀ selector (state : σ) trace, step machine ⟨[], around.frames, selector, state, trace⟩ =
        .running (l.config selector state trace) := by
  cases context with
  | top => cases isNext
  | block outer fresh holds | loop outer fresh holds =>
    exact ⟨rfl, ⟨_, _, _, outer, holds⟩, rfl, Nat.lt_succ_self _, fun _ _ _ => rfl⟩

variable {selector : Option Nat}

/-- Control sent to a head of some code reaches a copy of that member without
executing another one. -/
theorem arrive {first : Bool} (l : Located E first) (state : σ) (trace : List Nat)
    (isHead : node ∈ l.heads) (chosen : selector = some node ∨ l.heads = [node] ∧ first = false) :
    Lands machine E (l.config selector state trace) (.at node state, trace) := by
  induction size : l.weight using Nat.strong_induction_on generalizing first l selector with
  | _ weight ih =>
  obtain ⟨around, structures, here, context, holds⟩ := l
  subst size
  cases structures with
  | nil =>
    cases holds.emitted
    obtain ⟨noTail, l, heads, smaller, leaves⟩ := context.leave isHead
    have later := ih l.weight (smaller.trans_le (Nat.le_add_left _ _)) l (heads ▸ isHead)
      (chosen.imp_right fun single => ⟨heads.trans single.1, rfl⟩) rfl
    refine later.of_reaches (.single ?_)
    rw [← leaves, Located.config, noTail]
    rfl
  | cons child rest =>
    obtain ⟨own, later, rfl, childEmitted, restEmitted⟩ := id holds.emitted
    have behind : around.Holds E.members E.graph false rest later :=
      ⟨restEmitted, holds.inScope.2, holds.plain.2⟩
    have nonempty : ∀ children : List Structure, node ∈ nextHeads children [] →
        nextHeads children (nextHeads rest around.next) = nextHeads children [] := by
      intro children member
      cases children with
      | nil => cases member
      | cons => rfl
    cases child with
    | basic index =>
      obtain rfl : node = index := mem_singleton.mp isHead
      exact ⟨0, ⟨first, ⟨around, _, _, context, holds⟩, rest, _, _, _, rfl, rfl⟩, rfl, rfl⟩
    | dispatcher entries =>
      -- a dispatcher behind the first has several entries, so the selector decides
      obtain rfl : selector = some node := by
        refine chosen.resolve_right fun alone => ?_
        obtain ⟨single, notFirst⟩ := alone
        have several := holds.plain.1.resolve_left (by simp [notFirst])
        have same : entries = [node] := single
        simp [same] at several
      have smaller : sizeOf rest + around.weight <
          sizeOf (.dispatcher entries :: rest) + around.weight := by
        simp only [List.cons.sizeOf_spec]
        omega
      rw [Located.config, append_assoc]
      by_cases falls : node ∈ nextHeads rest around.next
      · have arrives := ih _ smaller ⟨around, rest, later, context, behind⟩ falls (.inl rfl) rfl
        exact arrives.of_reaches (run_dispatcher_falls context.takes childEmitted falls)
      · have inBlocks := (holds.inScope.1.2 node isHead).resolve_left falls
        obtain ⟨destination, label⟩ := context.known_label.2 node (context.known_label.1 inBlocks)
        obtain ⟨l, leads, isTarget, choice, forward⟩ := context.label label
        have jump :
          Reaches machine ⟨own ++ (later ++ around.tail), around.frames, some node, state, trace⟩
            (l.config (destination.selector.or (some node)) state trace) :=
          run_dispatcher_branches context.takes childEmitted isHead falls label leads
        have kept : destination.selector.or (some node) = some node := by
          rw [choice]; split_ifs <;> rfl
        rw [kept] at jump
        have bound := forward inBlocks
        have ahead : l.weight < sizeOf (.dispatcher entries :: rest) + around.weight := by omega
        exact (ih l.weight ahead l isTarget (.inl rfl) rfl).of_reaches jump
    | block children =>
      obtain ⟨scope, body, fresh, rfl, bodyEmitted⟩ := childEmitted
      rw [Located.heads, nextHeads, head_block] at isHead chosen
      have heads := nonempty children isHead
      rw [← heads] at isHead chosen
      have arrives := ih (sizeOf children + (sizeOf rest + around.weight + 1))
        (by simp only [Located.weight, List.cons.sizeOf_spec, Structure.block.sizeOf_spec]; omega)
        ⟨_, children, body, .block context fresh behind, bodyEmitted, holds.inScope.1,
          holds.plain.1⟩
        isHead chosen rfl
      refine arrives.of_reaches (.single ?_)
      simp [step, Located.config, Around.enter]
    | loop children =>
      obtain ⟨scope, body, fresh, rfl, bodyEmitted⟩ := childEmitted
      rw [Located.heads, nextHeads, head_loop] at isHead chosen
      have heads := nonempty children isHead
      rw [← heads] at isHead chosen
      have inside :
        (around.enter scope rest later (Structure.loop children).head ∅ (.loop body)).Holds
          E.members E.graph false children body := ⟨bodyEmitted, holds.inScope.1.2, holds.plain.1⟩
      have arrives := ih (sizeOf children + (sizeOf rest + around.weight + 1))
        (by simp only [Located.weight, List.cons.sizeOf_spec, Structure.loop.sizeOf_spec]; omega)
        ⟨_, children, body, .loop context fresh behind holds.inScope.1.1 inside, inside⟩
        isHead (chosen.imp_right fun single => ⟨single.1, rfl⟩) rfl
      refine arrives.of_reaches (.single ?_)
      simp [step, Located.config, Around.enter]

/-! ## The edge behind a member -/

section Successor
variable {member : Option Nat} {state : σ} {trace : List Nat} {here more : List Instr}

/-- The selector that a branch or a fallthrough sets is the one `arrive` asks for. -/
theorem selector_chosen {heads : List Nat} (isHead : node ∈ heads) (selector : Option Nat) :
    (if 1 < heads.length then some node else none).or selector = some node ∨ heads = [node] ∧
    false = false := by
  by_cases several : 1 < heads.length
  · exact .inl (by rw [if_pos several]; rfl)
  · refine .inr ⟨?_, rfl⟩
    match heads, several, isHead with
    | [only], _, isHead => rw [mem_singleton.mp isHead]
    | _ :: _ :: _, several, _ => simp at several

variable (l : Located E false) {choice : Option Nat} {destination : Destination}

theorem path_eq_ok {path : StructuredPath} (run : l.path member = .ok path) :
    member = none ∧ path = .branch ⟨exitScope, none⟩ ∨ ∃ node, member = some node ∧
      (node ∈ l.heads ∧ path = .fallthrough (if 1 < l.heads.length then some node else none) ∨
        ∃ destination, l.around.labels node = some destination ∧ path = .branch destination) := by
  cases member with
  | none => cases run; exact .inl ⟨rfl, rfl⟩
  | some node =>
    refine .inr ⟨node, rfl, ?_⟩
    simp only [Located.path, structuredPath] at run
    by_cases falls : node ∈ l.heads
    · rw [if_pos falls] at run
      cases run
      exact .inl ⟨falls, rfl⟩
    · rw [if_neg falls] at run
      cases label : l.around.labels node with
      | none => simp [label] at run
      | some destination =>
        simp only [label, Except.ok.injEq] at run
        exact .inr ⟨destination, rfl, run.symm⟩

theorem lands_fallthrough (path : l.path member = .ok (.fallthrough choice))
    (selector : Option Nat) :
    Lands machine E (l.config (choice.or selector) state trace) (cfgGoto state member, trace) := by
  obtain ⟨-, ⟨⟩⟩ | ⟨node, rfl, ⟨falls, ⟨⟩⟩ | ⟨_, -, ⟨⟩⟩⟩ := path_eq_ok l path
  exact arrive l state trace falls (selector_chosen falls selector)

theorem lands_falls (path : l.path member = .ok (.fallthrough choice)) :
    Lands machine E ⟨emitFallthroughSelector choice ++ (l.here ++ l.around.tail), l.around.frames,
      selector, state,
      trace⟩ (cfgGoto state member, trace) :=
  (lands_fallthrough l path selector).of_reaches (run_fallthroughSelector choice selector)

variable (machine) in
theorem lands_branch (path : l.path member = .ok (.branch destination)) :
    ∃ target, Leads l.around.active l.around.frames destination.scope target ∧
      ∀ selector state trace,
      Lands machine E ⟨target.1, target.2, destination.selector.or selector, state, trace⟩
        (cfgGoto state member, trace) := by
  obtain ⟨rfl, ⟨⟩⟩ | ⟨node, rfl, ⟨-, ⟨⟩⟩ | ⟨_, label, ⟨⟩⟩⟩ := path_eq_ok l path
  · exact ⟨([], []), l.context.outer exitScope ⟨1, rfl, rfl⟩, fun _ _ _ => ⟨1, rfl⟩⟩
  · obtain ⟨l, leads, isHead, choice, -⟩ := l.context.label label
    refine ⟨_, leads, fun selector state trace => ?_⟩
    rw [choice]
    exact arrive l state trace isHead (selector_chosen isHead selector)

theorem lands_jump (path : l.path member = .ok (.branch destination))
    (emitted : emitUnconditionalBranch destination l.around.active = .ok here) :
    Lands machine E ⟨here ++ more, l.around.frames, selector, state, trace⟩
      (cfgGoto state member, trace) := by
  obtain ⟨target, leads, lands⟩ := lands_branch machine l path
  exact (lands selector state trace).of_reaches (run_unconditionalBranch emitted leads)

theorem lands_test {test : Test} {holds : Bool} {other : Option Nat}
    (path : l.path member = .ok (.branch destination))
    (emitted : emitTestBranch test destination l.around.active = .ok here)
    (value : test.holds machine selector state = holds)
    (passes : Lands machine E ⟨more, l.around.frames, selector, state, trace⟩
      (cfgGoto state other, trace)) :
    Lands machine E ⟨here ++ more, l.around.frames, selector, state, trace⟩
      (cfgGoto state (if holds then member else other), trace) := by
  obtain ⟨target, leads, lands⟩ := lands_branch machine l path
  cases holds with
  | true => exact (lands selector state trace).of_reaches (run_testBranch emitted leads true value)
  | false => exact passes.of_reaches (run_testBranch emitted leads false value)

theorem path_fallthrough (path : l.path member = .ok (.fallthrough choice)) :
    choice = if 1 < l.heads.length then member else none := by
  obtain ⟨-, ⟨⟩⟩ | ⟨node, rfl, ⟨-, ⟨⟩⟩ | ⟨_, -, ⟨⟩⟩⟩ := path_eq_ok l path
  rfl

variable {index : Nat} {ifTrue ifFalse : Option Nat}

/-- Both arms fall through: the selector follows the condition where it matters. -/
theorem run_select_falls {first second : Option Nat}
    (pathTrue : l.path ifTrue = .ok (.fallthrough first))
    (pathFalse : l.path ifFalse = .ok (.fallthrough second))
    (emitted : emitSelect index l.around.active (.fallthrough first) (.fallthrough second) = .ok
      here) :
    Lands machine E ⟨here ++ (l.here ++ l.around.tail), l.around.frames, selector, state, trace⟩
      (cfgGoto state (if machine.condition index state then ifTrue else ifFalse), trace) := by
  have landsTrue : ∀ selector, Lands machine E (l.config (first.or selector) state trace)
      (cfgGoto state ifTrue, trace) :=
    lands_fallthrough l pathTrue
  have landsFalse : ∀ selector, Lands machine E (l.config (second.or selector) state trace)
      (cfgGoto state ifFalse, trace) :=
    lands_fallthrough l pathFalse
  have choiceTrue := path_fallthrough l pathTrue
  have choiceFalse := path_fallthrough l pathFalse
  by_cases several : 1 < l.heads.length
  · rw [if_pos several] at choiceTrue choiceFalse
    subst choiceTrue choiceFalse
    match first, second with
    | none, _ => simp [Located.path, structuredPath] at pathTrue
    | some _, none => simp [Located.path, structuredPath] at pathFalse
    | some a, some b =>
      simp only [emitSelect, pure, Except.pure] at emitted
      split_ifs at emitted with differ <;> cases emitted
      · refine .of_reaches ?_ (.single rfl)
        cases machine.condition index state
        · exact landsFalse none
        · exact landsTrue none
      · obtain rfl : a = b := not_not.mp differ
        rw [ite_self]
        exact lands_falls l pathTrue
  · rw [if_neg several] at choiceTrue choiceFalse
    subst choiceTrue choiceFalse
    cases emitted
    split
    · exact landsTrue selector
    · exact landsFalse selector

theorem run_select {first second : StructuredPath} (pathTrue : l.path ifTrue = .ok first)
    (pathFalse : l.path ifFalse = .ok second)
    (emitted : emitSelect index l.around.active first second = .ok here) :
    Lands machine E ⟨here ++ (l.here ++ l.around.tail), l.around.frames, selector, state, trace⟩
      (cfgGoto state (if machine.condition index state then ifTrue else ifFalse), trace) := by
  cases first with
  | fallthrough choice =>
    cases second with
    | fallthrough other => exact run_select_falls l pathTrue pathFalse emitted
    | branch destination =>
      -- the false arm branches on the inverted condition
      have split :
        (emitTestBranch (.condition index true) destination l.around.active >>= fun test =>
          pure (test ++ emitFallthroughSelector choice)) = .ok here := by
        cases choice <;> exact emitted
      obtain ⟨test, testRun, ⟨⟩⟩ := except_bind_ok split
      have flipped : (if machine.condition index state then ifTrue else ifFalse) =
          if !machine.condition index state then ifFalse else ifTrue := by
        cases machine.condition index state <;> rfl
      rw [append_assoc, flipped]
      exact lands_test l pathFalse testRun (by simp [Test.holds]) (lands_falls l pathTrue)
  | branch destination =>
    cases second with
    | fallthrough choice =>
      obtain ⟨test, testRun, ⟨⟩⟩ := except_bind_ok emitted
      rw [append_assoc]
      exact lands_test l pathTrue testRun (by simp [Test.holds]) (lands_falls l pathFalse)
    | branch other =>
      obtain ⟨test, testRun, rest⟩ := except_bind_ok emitted
      obtain ⟨jump, jumpRun, ⟨⟩⟩ := except_bind_ok rest
      rw [append_assoc]
      exact lands_test l pathTrue testRun (by simp [Test.holds]) (lands_jump l pathFalse jumpRun)

end Successor

/-! ## Whole runs -/

variable (resolves : ∀ state entry, machine.resolve state = some entry →
      entry ∈ nextHeads E.structures [])
include resolves

theorem run_enter (state : σ) (trace : List Nat) :
    Lands machine E ⟨mainLoop E.code, [.loop (mainLoop E.code) [], .block []], none, state, trace⟩
      (cfgGoto state (machine.resolve state), trace) := by
  cases entry : machine.resolve state with
  | none =>
    have leaves : Lands machine E ⟨[], [], none, state, trace⟩ (.exited state, trace) := ⟨1, rfl⟩
    refine leaves.of_reaches (.head rfl (.single ?_))
    simp [step, entry, Test.holds, Config.branch, branchTarget]
  | some node =>
    refine (arrive ⟨_, _, _, .top, E.holds⟩ state trace (resolves state node entry)
      (Or.inl rfl)).of_reaches
      (.head rfl (.single ?_))
    simp [step, entry, Test.holds, Located.config, Around.top]

variable {state : σ} {trace : List Nat} {here : List Instr} (l : Located E false)

theorem run_successor {index : Nat} (selector : Option Nat)
    (emitted : emitStructuredSuccessor E.members index l.heads l.around.labels l.around.active = .ok
      here) :
    Lands machine E ⟨here ++ (l.here ++ l.around.tail), l.around.frames, selector, state, trace⟩
      (cfgEdge machine E.members index state, trace) := by
  obtain ⟨mainDepth, mainFound, mainTarget⟩ := l.context.outer mainScope ⟨0, rfl, rfl⟩
  have dynamic : here = [.setSelector none, .br mainDepth] →
      Lands machine E ⟨here ++ (l.here ++ l.around.tail), l.around.frames, selector, state, trace⟩
        (cfgGoto state (machine.resolve state), trace) := by
    rintro rfl
    refine (run_enter resolves state trace).of_reaches (.head rfl (.single ?_))
    simp [step, Config.branch, mainTarget]
  unfold emitStructuredSuccessor at emitted
  unfold cfgEdge
  cases row : (E.members[index]?).map Member.next with
  | none =>
    rw [row] at emitted
    dsimp only at emitted
    rw [mainFound] at emitted
    cases emitted
    exact dynamic rfl
  | some kind =>
    rw [row] at emitted
    cases kind with
    | static pc =>
      obtain ⟨path, pathRun, rest⟩ := except_bind_ok emitted
      cases path with
      | fallthrough choice =>
        cases rest
        exact lands_falls l pathRun
      | branch destination => exact lands_jump l pathRun rest
    | select ifTrue ifFalse =>
      obtain ⟨first, firstRun, rest⟩ := except_bind_ok emitted
      obtain ⟨second, secondRun, rest⟩ := except_bind_ok rest
      dsimp only
      rw [apply_ite (cfgMemberFor E.members)]
      exact run_select l firstRun secondRun rest
    | dynamic =>
      dsimp only at emitted
      rw [mainFound] at emitted
      cases emitted
      exact dynamic rfl

theorem run_edge (selector : Option Nat) (state : σ) (trace : List Nat) {exitDepth : Nat}
    (exitFound : structuredDepth l.around.active exitScope = .ok exitDepth)
    (emitted : emitStructuredSuccessor E.members node l.heads l.around.labels l.around.active = .ok
      here) :
    Lands machine E
      ⟨.safety exitDepth :: (here ++ (l.here ++ l.around.tail)), l.around.frames, selector, state,
        trace⟩
      (if (machine.safety state).2 then .exited (machine.safety state).1
        else cfgEdge machine E.members node (machine.safety state).1, trace) := by
  obtain ⟨depth, found, target⟩ := l.context.outer exitScope ⟨1, rfl, rfl⟩
  obtain rfl : depth = exitDepth := Except.ok.inj (found.symm.trans exitFound)
  cases checked : (machine.safety state).2 with
  | true =>
    have leaves : Lands machine E ⟨[], [], selector, (machine.safety state).1, trace⟩
        (.exited (machine.safety state).1, trace) := ⟨1, rfl⟩
    refine leaves.of_reaches (.single ?_)
    simp [step, checked, Config.branch, target]
  | false =>
    refine (run_successor resolves l selector emitted).of_reaches (.single ?_)
    simp [step, checked]

theorem run_member (at_ : AtMember E node config) :
    ∃ count, (runSteps machine (count + 1) (.running config)).Tracks E
      (cfgStep machine E.members node config.state, config.trace ++ [node]) := by
  obtain ⟨first, ⟨around, _, _, context, holds⟩, rest, selector, state, trace, rfl, rfl⟩ := at_
  obtain ⟨_, later, rfl, ⟨exitDepth, successor, exitFound, successorRun, rfl⟩, restEmitted⟩ :=
    holds.emitted
  dsimp only [Located.config]
  cases body : machine.body node state with
  | error final =>
    refine ⟨0, ?_⟩
    simp [runSteps, step, body, Outcome.Tracks, cfgStep]
  | ok next =>
    obtain ⟨count, tracks⟩ := run_edge resolves ⟨around, rest, later, context, restEmitted,
      holds.inScope.2, holds.plain.2⟩ selector next (trace ++ [node]) exitFound successorRun
    refine ⟨count, ?_⟩
    simpa [runSteps, step, body, cfgStep] using tracks

omit resolves

theorem AtMember.head (at_ : AtMember E node config) : config.code.head? = some (.member node) := by
  obtain ⟨first, ⟨around, _, _, context, holds⟩, rest, selector, state, trace, rfl, rfl⟩ := at_
  obtain ⟨_, later, rfl, ⟨exitDepth, successor, -, -, rfl⟩, -⟩ := holds.emitted
  rfl

theorem Outcome.Tracks.agrees {outcome : Outcome σ} (tracks : outcome.Tracks E run) :
    outcome.Agrees run := by
  obtain ⟨target, trace⟩ := run
  cases outcome with
  | running config =>
    cases target with
    | «at» member state => exact ⟨tracks.1.head, tracks.2⟩
    | returned state => exact tracks.elim
    | exited state => exact tracks.elim
  | returned state trace => exact tracks
  | exited state trace => exact tracks
  | invalid => exact tracks.elim

include resolves in
/-- A run that tracks the graph keeps doing so, member by member. -/
theorem run_agrees (count : Nat) (outcome : Outcome σ) (run : CfgState σ × List Nat)
    (tracks : outcome.Tracks E run) : ∃ steps, count ≤ steps ∧
      (runSteps machine steps outcome).Agrees (cfgRun machine E.members count run) := by
  induction count generalizing outcome run with
  | zero => exact ⟨0, Nat.le_refl 0, tracks.agrees⟩
  | succ count ih =>
    obtain ⟨target, trace⟩ := run
    cases outcome with
    | running config =>
      cases target with
      | «at» member state =>
        obtain ⟨at_, rfl, rfl⟩ := tracks
        obtain ⟨before, next⟩ := run_member resolves at_
        obtain ⟨steps, enough, agrees⟩ := ih _ _ next
        refine ⟨before + 1 + steps, by omega, ?_⟩
        rw [runSteps_add]
        exact agrees
      | returned state => exact tracks.elim
      | exited state => exact tracks.elim
    | returned state trace => cases tracks; exact ⟨count + 1, Nat.le_refl _, rfl⟩
    | exited state trace => cases tracks; exact ⟨count + 1, Nat.le_refl _, rfl⟩
    | invalid => exact tracks.elim

end Arrive

/-! ## The result of `stackify` -/

theorem exists_pc_of_mem {member : Member} (edge : target ∈ cfgSuccessorsOf members member) :
    ∃ pc, cfgMemberFor members pc = some target := by
  cases next : member.next with
  | static pc => exact ⟨_, by simpa [cfgSuccessorsOf, next] using edge⟩
  | select ifTrue ifFalse =>
    simp only [cfgSuccessorsOf, next] at edge
    cases other : cfgMemberFor members ifFalse with
    | none => exact ⟨ifTrue, by simpa [other] using edge⟩
    | some second =>
      simp only [other] at edge
      split_ifs at edge with same
      · exact ⟨ifTrue, by simpa using edge⟩
      · rcases mem_append.mp edge with first | last
        · exact ⟨ifTrue, by simpa using first⟩
        · exact ⟨ifFalse, by rw [other, mem_singleton.mp last]⟩
  | dynamic => simp [cfgSuccessorsOf, next] at edge

theorem cfgSuccessors_follow [HostWord] {entries : List Node}
    (fits : (cfgSuccessors members).length ≤ entryNode) :
    Follows members (memberGraph (cfgSuccessors members) entries) := by
  intro index member row target edge
  have bound : index < members.length := (List.getElem?_eq_some_iff.mp row).1
  have length : (cfgSuccessors members).length = members.length := by simp [cfgSuccessors]
  obtain ⟨pc, found⟩ := exists_pc_of_mem edge
  obtain ⟨pc, -, found⟩ := Option.bind_eq_some_iff.mp found
  have inRange : target < members.length := (findIdx?_eq_some_iff_getElem.mp found).1
  have isMember : index ≠ entryNode := Nat.ne_of_lt (Nat.lt_of_lt_of_le bound (length ▸ fits))
  refine (mem_targets_member isMember).mpr ⟨_, ?_, edge, length ▸ inRange⟩
  simp [cfgSuccessors, row]

/-- If each member is reachable from an entry, `stackify` returns, every edge has a target in scope,
the top dispatcher leads to every entry, emission meets no error, and the emitted function executes
exactly the paths of the member graph. -/
theorem structured_emission_follows_cfg [HostWord] (successors : List (List Node))
    (entries : List Node) (duplicationLimit : Nat) (fits : successors.length ≤ entryNode)
    (reachable : AllReachable successors entries) :
    ∃ result, stackify successors entries duplicationLimit = some result ∧
      ScopedFrom (memberGraph successors entries) ∅ ∅ [] result ∧
      (∀ entry, entry ∈ nextHeads result [] ↔ entry ∈ entries ∧ entry < successors.length) ∧
      ∀ members : List Member, cfgSuccessors members = successors →
        ∃ code, emitStructuredCfg members result = .ok code ∧ ∀ (σ : Type) (machine : Machine σ),
            (∀ state entry, machine.resolve state = some entry → entry ∈ entries ∧
              entry < successors.length) →
            ∀ (state : σ) (count : Nat), ∃ steps, count ≤ steps ∧
              (runSteps machine steps (.running (startConfig code state))).Agrees
                (cfgRun machine members count (cfgGoto state (machine.resolve state), [])) := by
  obtain ⟨result, run, inScope, heads, plain⟩ := stackify_inScope fits reachable duplicationLimit
  have entryHeads : ∀ entry, entry ∈ nextHeads result [] ↔
      entry ∈ entries ∧ entry < successors.length := by
    intro entry
    rw [heads, mem_targets_entryNode]
  refine ⟨result, run, inScope, entryHeads, ?_⟩
  rintro members rfl
  have start : Emitting (fun _ => none) ∅ [mainScope, exitScope] 2 :=
    ⟨fun _ none => none.elim, fun _ _ none => (by cases none), by simp [mainScope, exitScope],
      by simp, by simp⟩
  obtain ⟨code, later, emits, -, emitted⟩ := emitStructures_emitted (cfgSuccessors_follow fits)
    result (fun _ => none) 2 inScope (Set.empty_subset _) List.nodup_nil start
  have whole : emitStructuredCfg members result =
      .ok [.setSelector none, .block [.loop (mainLoop code)]] := by
    rw [emitStructuredCfg]
    simp only [emits]
    rfl
  refine ⟨_, whole, fun σ machine resolves state count => ?_⟩
  let E : Emission :=
    ⟨members, memberGraph (cfgSuccessors members) entries, result, code, emitted, inScope, plain⟩
  have enters : ∀ state entry, machine.resolve state = some entry →
      entry ∈ nextHeads E.structures [] :=
    fun state entry found => (entryHeads entry).mpr (resolves state entry found)
  obtain ⟨before, tracks⟩ := run_enter enters state []
  obtain ⟨steps, enough, agrees⟩ := run_agrees enters count _ _ tracks
  refine ⟨3 + (before + steps), by omega, ?_⟩
  rw [runSteps_add, runSteps_add]
  exact agrees

theorem cycle_reachable : AllReachable [[1], [0, 2], []] [0] := by
  have first : MemberEdge [[1], [0, 2], []] 0 1 := ⟨[1], rfl, by simp, by simp⟩
  have second : MemberEdge [[1], [0, 2], []] 1 2 := ⟨[0, 2], rfl, by simp, by simp⟩
  intro member bound
  refine ⟨0, by simp, by simp, ?_⟩
  match member, bound with
  | 0, _ => exact .refl
  | 1, _ => exact .single first
  | 2, _ => exact .tail (.single first) second

section

attribute [local instance] wasm

def cycle : List Member :=
  [⟨0x100, .static 0x108⟩, ⟨0x108, .select (some 0x100) (some 0x110)⟩, ⟨0x110, .dynamic⟩]

/-- The first member counts, the second goes back once, the third leaves. -/
def counter : Machine Nat where
  body i n := .ok (if i = 0 then n + 1 else n)
  safety n := (n, false)
  condition _ n := decide (n < 2)
  resolve n := if n = 0 then some 0 else none

theorem structured_emission_cycle : AllReachable [[1], [0, 2], []] [0] ∧ ∃ result code,
    stackify [[1], [0, 2], []] [0] 32 = some result ∧ emitStructuredCfg cycle result = .ok code ∧
      ∃ steps, (runSteps counter steps (.running (startConfig code 0))).Agrees
        (.exited 2, [0, 1, 0, 1, 2]) := by
  obtain ⟨result, run, -, -, emission⟩ := structured_emission_follows_cfg [[1], [0, 2], []] [0]
    32 (by decide) cycle_reachable
  obtain ⟨code, emits, follows⟩ := emission cycle (by decide)
  have resolves : ∀ state entry, counter.resolve state = some entry → entry ∈ [0] ∧ entry < 3 := by
    intro state entry found
    obtain ⟨-, rfl⟩ : state = 0 ∧ 0 = entry := by simpa [counter] using found
    decide
  obtain ⟨steps, -, agrees⟩ := follows Nat counter resolves 0 5
  exact ⟨cycle_reachable, result, code, run, emits, steps, agrees⟩

end

end Rv64Js.Dbt
