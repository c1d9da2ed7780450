import Rv64Js.Dbt.Structure

/-! # Structured emission of a member graph

The control skeleton of `emit_cached_structured_cfg` in `rv64-dbt/src/wasm.rs`. The source's queue
of structures and scope ends is the explicit stack of the recursion below, and `next` is
`next_heads`. `Machine` runs the emitted code. Member bodies, the safety check and the lookup of a
guest pc are parameters. -/

set_option autoImplicit false

namespace Rv64Js.Dbt

abbrev GuestPc := BitVec 64

/-- What `emit_structured_successor` reads of a region's `next_pc` value. -/
inductive NextPc where
  | static (pc : GuestPc)
  | select (ifTrue ifFalse : Option GuestPc)
  | dynamic
  deriving Repr, DecidableEq

structure Member where
  entryPc : GuestPc
  next : NextPc
  deriving Repr, DecidableEq

/-- `cfg_member_for_value`: the first member that starts at a static pc. -/
def cfgMemberFor (members : List Member) (pc : Option GuestPc) : Option Nat :=
  pc.bind fun pc => members.findIdx? fun candidate => candidate.entryPc = pc

def cfgSuccessorsOf (members : List Member) (member : Member) : List Nat :=
  match member.next with
  | .static pc => (cfgMemberFor members (some pc)).toList
  | .select ifTrue ifFalse =>
    let first := (cfgMemberFor members ifTrue).toList
    match cfgMemberFor members ifFalse with
    | some target => if target ∈ first then first else first ++ [target]
    | none => first
  | .dynamic => []

def cfgSuccessors (members : List Member) : List (List Nat) :=
  members.map (cfgSuccessorsOf members)

/-! ## Emitted code -/

inductive Test where
  /-- The branch-condition local of a member, possibly negated. -/
  | condition (member : Nat) (inverted : Bool)
  | selectorIs (member : Nat)
  | selectorNegative
  deriving Repr, DecidableEq

/-- The emitted control skeleton.  The selector local is a member index or -1. -/
inductive Instr where
  | member (index : Nat)
  | resolvePc
  | safety (depth : Nat)
  | setSelector (value : Option Nat)
  | chooseSelector (member ifTrue ifFalse : Nat)
  | br (depth : Nat)
  | brIf (test : Test) (depth : Nat)
  | ifThen (test : Test) (body : List Instr)
  | block (body : List Instr)
  | loop (body : List Instr)
  deriving Repr

structure Destination where
  scope : Nat
  selector : Option Nat
  deriving Repr, DecidableEq

inductive EmitError where
  /-- "structured CFG has no active label for member" -/
  | noLabel (member : Nat)
  /-- "structured dispatcher has no label for member" -/
  | dispatcherNoLabel (member : Nat)
  /-- "structured CFG branch target is not active" -/
  | inactiveScope
  /-- "structured CFG contains an empty loop" -/
  | emptyLoop
  deriving Repr, DecidableEq

abbrev Labels := Nat → Option Destination

def exitScope : Nat := 0
def mainScope : Nat := 1

/-- `active` lists the open scopes, innermost first. -/
def structuredDepth (active : List Nat) (scope : Nat) : Except EmitError Nat :=
  match active.findIdx? (· = scope) with
  | some depth => .ok depth
  | none => .error .inactiveScope

inductive StructuredPath where
  | fallthrough (selector : Option Nat)
  | branch (destination : Destination)

def structuredPath (member : Option Nat) (next : List Nat) (labels : Labels)
    (exit : Destination) : Except EmitError StructuredPath :=
  match member with
  | none => .ok (.branch exit)
  | some member =>
    if member ∈ next then .ok (.fallthrough (if 1 < next.length then some member else none))
    else match labels member with
      | some destination => .ok (.branch destination)
      | none => .error (.noLabel member)

def emitFallthroughSelector : Option Nat → List Instr
  | some selector => [.setSelector (some selector)]
  | none => []

def emitUnconditionalBranch (destination : Destination) (active : List Nat) :
    Except EmitError (List Instr) := do
  let depth ← structuredDepth active destination.scope
  return emitFallthroughSelector destination.selector ++ [.br depth]

/-- `emit_structured_conditional_branch` and `emit_structured_selector_branch`: a selector is
written on the taken arm only. -/
def emitTestBranch (test : Test) (destination : Destination) (active : List Nat) :
    Except EmitError (List Instr) := do
  let depth ← structuredDepth active destination.scope
  match destination.selector with
  | some selector => return [.ifThen test [.setSelector (some selector), .br (depth + 1)]]
  | none => return [.brIf test depth]

def emitSelect (index : Nat) (active : List Nat) :
    StructuredPath → StructuredPath → Except EmitError (List Instr)
  | .fallthrough (some ifTrue), .fallthrough (some ifFalse) =>
    if ifTrue ≠ ifFalse then return [.chooseSelector index ifTrue ifFalse]
    else return emitFallthroughSelector (some ifTrue)
  | .fallthrough selector, .fallthrough _ => return emitFallthroughSelector selector
  | .fallthrough selector, .branch destination => do
    let code ← emitTestBranch (.condition index true) destination active
    return code ++ emitFallthroughSelector selector
  | .branch destination, .fallthrough selector => do
    let code ← emitTestBranch (.condition index false) destination active
    return code ++ emitFallthroughSelector selector
  | .branch ifTrue, .branch ifFalse => do
    let code ← emitTestBranch (.condition index false) ifTrue active
    let other ← emitUnconditionalBranch ifFalse active
    return code ++ other

def emitStructuredSuccessor (members : List Member) (index : Nat) (next : List Nat)
    (labels : Labels) (active : List Nat) : Except EmitError (List Instr) :=
  let exit : Destination := ⟨exitScope, none⟩
  match (members[index]?).map Member.next with
  | some (.static pc) => do
    match ← structuredPath (cfgMemberFor members (some pc)) next labels exit with
    | .fallthrough selector => return emitFallthroughSelector selector
    | .branch destination => emitUnconditionalBranch destination active
  | some (.select ifTrue ifFalse) => do
    let ifTrue ← structuredPath (cfgMemberFor members ifTrue) next labels exit
    let ifFalse ← structuredPath (cfgMemberFor members ifFalse) next labels exit
    emitSelect index active ifTrue ifFalse
  | _ => do
    -- dynamic control goes back to the entry dispatcher
    let depth ← structuredDepth active mainScope
    return [.setSelector none, .br depth]

def emitDispatcher (next : List Nat) (labels : Labels) (active : List Nat) :
    List Nat → Except EmitError (List Instr)
  | [] => return []
  | member :: rest => do
    let here ← if member ∈ next then pure [] else
      match labels member with
      | some destination => emitTestBranch (.selectorIs member) destination active
      | none => .error (.dispatcherNoLabel member)
    let later ← emitDispatcher next labels active rest
    return here ++ later

structure EmitState where
  labels : Labels
  nextScope : Nat

/-- Point the labels of `targets` at `scope`, keeping the previous ones. -/
def openScope (scope : Nat) (targets : List Nat) (labels : Labels) :
    Labels × List (Option Destination) :=
  targets.foldl
    (fun state target => (Function.update state.1 target
        (some ⟨scope, if 1 < targets.length then some target else none⟩),
        state.2 ++ [state.1 target]))
    (labels, [])

def closeScope (targets : List Nat) (previous : List (Option Destination)) (labels : Labels) :
    Labels :=
  (targets.zip previous).foldl (fun labels old => Function.update labels old.1 old.2) labels

mutual

def emitStructure (members : List Member) (active : List Nat) (next : List Nat) :
    Structure → EmitState → Except EmitError (List Instr × EmitState)
  | .basic index, state => do
    let exitDepth ← structuredDepth active exitScope
    let successor ← emitStructuredSuccessor members index next state.labels active
    return ([.member index, .safety exitDepth] ++ successor, state)
  | .dispatcher entries, state => do
    let code ← emitDispatcher next state.labels active entries
    return (code, state)
  | .block children, state => do
    let scope := state.nextScope
    let opened := openScope scope next state.labels
    let (body, inner) ← emitStructures members (scope :: active) next children
      ⟨opened.1, scope + 1⟩
    return ([.block body], ⟨closeScope next opened.2 inner.labels, inner.nextScope⟩)
  | .loop children, state => do
    let targets := (Structure.loop children).head
    if targets.isEmpty then .error .emptyLoop
    else
      let scope := state.nextScope
      let opened := openScope scope targets state.labels
      let (body, inner) ← emitStructures members (scope :: active) next children
        ⟨opened.1, scope + 1⟩
      return ([.loop body], ⟨closeScope targets opened.2 inner.labels, inner.nextScope⟩)

def emitStructures (members : List Member) (active : List Nat) (next : List Nat) :
    List Structure → EmitState → Except EmitError (List Instr × EmitState)
  | [], state => return ([], state)
  | child :: rest, state => do
    let (code, state) ← emitStructure members active (nextHeads rest next) child state
    let (later, state) ← emitStructures members active next rest state
    return (code ++ later, state)

end

/-- The whole function: an exit block, the main loop, and the entry lookup. -/
def emitStructuredCfg (members : List Member) (structures : List Structure) :
    Except EmitError (List Instr) := do
  let active := [mainScope, exitScope]
  let exitDepth ← structuredDepth active exitScope
  let (code, _) ← emitStructures members active [] structures ⟨fun _ => none, 2⟩
  return [.setSelector none, .block [.loop
    ([.resolvePc, .brIf .selectorNegative exitDepth] ++ code ++ [.br exitDepth])]]

/-! ## Running the emitted code -/

/-- What the emitted code leaves to the member bodies and the locals. -/
structure Machine (σ : Type) where
  /-- The body of a member either returns from the function or falls through. -/
  body : Nat → σ → Except σ σ
  /-- The fuel or hop check behind each member: `true` leaves the function. -/
  safety : σ → σ × Bool
  /-- The branch-condition local of a member. -/
  condition : Nat → σ → Bool
  /-- The member whose entry is the current guest pc. -/
  resolve : σ → Option Nat

/-- An open scope, with the code behind it; a loop also keeps its body. -/
inductive Frame where
  | block (rest : List Instr)
  | loop (body rest : List Instr)

structure Config (σ : Type) where
  code : List Instr
  frames : List Frame
  selector : Option Nat
  state : σ
  trace : List Nat

inductive Outcome (σ : Type) where
  | running (config : Config σ)
  | returned (state : σ) (trace : List Nat)
  | exited (state : σ) (trace : List Nat)
  /-- A branch to a scope that is not open. -/
  | invalid

/-- Where a branch of some depth continues. -/
def branchTarget : Nat → List Frame → Option (List Instr × List Frame)
  | _, [] => none
  | 0, .block rest :: frames => some (rest, frames)
  | 0, .loop body rest :: frames => some (body, .loop body rest :: frames)
  | depth + 1, _ :: frames => branchTarget depth frames

section Machine
variable {σ : Type} (machine : Machine σ)

def Config.branch (config : Config σ) (depth : Nat) : Outcome σ :=
  match branchTarget depth config.frames with
  | some (code, frames) => .running { config with code := code, frames := frames }
  | none => .invalid

def Test.holds (selector : Option Nat) (state : σ) : Test → Bool
  | .condition member inverted => machine.condition member state != inverted
  | .selectorIs member => selector == some member
  | .selectorNegative => selector.isNone

def step (config : Config σ) : Outcome σ :=
  match config.code with
  | [] =>
    match config.frames with
    | [] => .exited config.state config.trace
    | .block rest :: frames => .running { config with code := rest, frames := frames }
    | .loop _ rest :: frames => .running { config with code := rest, frames := frames }
  | .member index :: rest =>
    match machine.body index config.state with
    | .ok state =>
      .running { config with code := rest, state := state, trace := config.trace ++ [index] }
    | .error state => .returned state (config.trace ++ [index])
  | .resolvePc :: rest =>
    let selector := config.selector.or (machine.resolve config.state)
    .running { config with code := rest, selector := selector }
  | .safety depth :: rest =>
    let checked := machine.safety config.state
    let config := { config with code := rest, state := checked.1 }
    if checked.2 then config.branch depth else .running config
  | .setSelector value :: rest => .running { config with code := rest, selector := value }
  | .chooseSelector member ifTrue ifFalse :: rest =>
    let chosen := if machine.condition member config.state then ifTrue else ifFalse
    .running { config with code := rest, selector := some chosen }
  | .br depth :: _ => config.branch depth
  | .brIf test depth :: rest =>
    if test.holds machine config.selector config.state then config.branch depth
    else .running { config with code := rest }
  | .ifThen test body :: rest =>
    if test.holds machine config.selector config.state then
      .running { config with code := body, frames := .block rest :: config.frames }
    else .running { config with code := rest }
  | .block body :: rest =>
    .running { config with code := body, frames := .block rest :: config.frames }
  | .loop body :: rest =>
    .running { config with code := body, frames := .loop body rest :: config.frames }

def runSteps : Nat → Outcome σ → Outcome σ
  | 0, outcome => outcome
  | count + 1, .running config => runSteps count (step machine config)
  | _ + 1, outcome => outcome

/-! ## Paths of the member graph -/

inductive CfgState (σ : Type) where
  | at (member : Nat) (state : σ)
  | returned (state : σ)
  | exited (state : σ)

def cfgGoto (state : σ) : Option Nat → CfgState σ
  | some member => .at member state
  | none => .exited state

/-- The edge a member's `next_pc` selects; dynamic control looks up the pc. -/
def cfgEdge (members : List Member) (member : Nat) (state : σ) : CfgState σ :=
  match (members[member]?).map Member.next with
  | some (.static pc) => cfgGoto state (cfgMemberFor members (some pc))
  | some (.select ifTrue ifFalse) =>
    cfgGoto state
      (cfgMemberFor members (if machine.condition member state then ifTrue else ifFalse))
  | _ => cfgGoto state (machine.resolve state)

def cfgStep (members : List Member) (member : Nat) (state : σ) : CfgState σ :=
  match machine.body member state with
  | .error state => .returned state
  | .ok state =>
    let checked := machine.safety state
    if checked.2 then .exited checked.1 else cfgEdge machine members member checked.1

/-- `count` members along the graph, with the members executed. -/
def cfgRun (members : List Member) : Nat → CfgState σ × List Nat → CfgState σ × List Nat
  | 0, run => run
  | count + 1, (.at member state, trace) =>
    cfgRun members count (cfgStep machine members member state, trace ++ [member])
  | _ + 1, run => run

/-- The emitted function is where the graph says: in front of the same member, or
left the same way, in the same state and after the same members. -/
def Outcome.Agrees : Outcome σ → CfgState σ × List Nat → Prop
  | .running config, (.at member state, trace) =>
    config.code.head? = some (.member member) ∧ config.state = state ∧ config.trace = trace
  | .returned state trace, run => run = (.returned state, trace)
  | .exited state trace, run => run = (.exited state, trace)
  | _, _ => False

def startConfig (code : List Instr) (state : σ) : Config σ := ⟨code, [], none, state, []⟩

end Machine

end Rv64Js.Dbt
