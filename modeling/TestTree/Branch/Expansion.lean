import TestTree.Branch.Basic
import TestTree.Call.Resolution

/-!
Expanding a tree into branches. Children are alternatives, or a sequence below a sequential node; a
block contributes one of its members, or all of them in order; a call is followed by the branches of
the declaration it refers to. Expansion recurses on the outline of the tree, and through calls on
the number of calls that may still be nested.
-/
namespace TestTree

/-- Restrictions on the branches. Without groups every group is kept. -/
structure BranchOptions where
  groups : Option (List Text) := none
  minFrequency : Option Frequency := none
  noDebug : Bool := false
deriving DecidableEq, Repr

/-- The nodes below a node, as a tree of their own. -/
inductive Outline
  | node (id : NodeId) (children : List Outline)

def Outline.children : Outline → List Outline
  | node _ children => children

namespace Tree

def outlineTo (tree : Tree) : Nat → NodeId → Outline
  | 0, id => .node id []
  | depth + 1, id => .node id ((tree.node id).children.map (tree.outlineTo depth))

/-- Every child stands behind its parent, so no way down is longer than the tree is large. -/
def outline (tree : Tree) (id : NodeId) : Outline := tree.outlineTo tree.size id

end Tree

namespace Expansion

def maxCallDepth : Nat := 256

/-- Where an expansion stands: its path and the declarations it is inside, innermost first. -/
structure Position where
  path : List Frame := []
  active : List NodeId := []
deriving DecidableEq, Repr

def Position.enter (position : Position) (frame : Frame) : Position :=
  { position with path := frame :: position.path }

def Position.enterCall (position : Position) (call declaration : NodeId) : Position :=
  { path := ⟨call, some declaration⟩ :: position.path, active := declaration :: position.active }

/-- Every branch of `first` followed by every branch of `second`. -/
def cross (first second : List Branch) : List Branch :=
  first.flatMap fun branch => second.map branch.append

/-- If some branch passes through a step to run alone, only such branches are kept. -/
def keepOnly (branches : List Branch) : List Branch :=
  if branches.any Branch.hasOnlyStep then branches.filter Branch.hasOnlyStep else branches

/-- One branch of one group. -/
def alternatives (groups : List (List Branch)) : List Branch := keepOnly groups.flatten

/-- One branch of every group, in order. -/
def sequence (groups : List (List Branch)) : List Branch := groups.foldl cross [{}]

def choose (isSequential : Bool) (groups : List (List Branch)) : List Branch :=
  if isSequential then sequence groups else alternatives groups

/-- Branches followed by those of the children, given as one group per child that has any. -/
def followedBy (own : List Branch) (isSequential : Bool) (groups : List (List Branch)) :
    List Branch :=
  if groups.isEmpty then own else cross own (choose isSequential groups)

/-- The hooks of one kind among the children of a node, in source order. -/
def hooksAt (tree : Tree) (id : NodeId) (kind : HookKind) : List Hook :=
  (tree.node id).children.filterMap fun child =>
    if (tree.node child).step.hook = some kind then some (Hook.ofNode (tree.node child) kind)
    else none

/-- Appends the hooks declared below a node to every branch through it. -/
def attachHooks (tree : Tree) (id : NodeId) (branches : List Branch) : List Branch :=
  let beforeBranch := (hooksAt tree id .beforeEveryBranch).reverse
  let afterBranch := hooksAt tree id .afterEveryBranch
  let beforeStep := (hooksAt tree id .beforeEveryStep).reverse
  let afterStep := hooksAt tree id .afterEveryStep
  branches.map fun branch =>
    { branch with
      beforeEveryBranch := branch.beforeEveryBranch ++ beforeBranch
      afterEveryBranch := branch.afterEveryBranch ++ afterBranch
      beforeEveryStep := branch.beforeEveryStep ++ beforeStep
      afterEveryStep := branch.afterEveryStep ++ afterStep }

/-- Refuses a step to run alone or to debug if debugging is disabled. Answers the nodes to debug. -/
def checkFlags (options : BranchOptions) (id : NodeId) (step : BranchStep) :
    Except TreeError (List NodeId) :=
  if options.noDebug && (step.identifiers.isOnly || step.identifiers.isDebug) then
    throw (TreeError.ofFault .debuggingDisabled step.filename step.lineNumber)
  else pure (if step.identifiers.isDebug then [id] else [])

/-- The step that calls a declaration: it runs that one's code and has its flags besides its own. -/
def callStep (node declaration : Node) (branchIndents : Nat) : BranchStep :=
  let step := BranchStep.ofNode node branchIndents
  { step with
    codeBlock := declaration.step.codeBlock
    declaration := some declaration.id
    bindings := bindParams node.step.callText declaration.step.text
    identifiers :=
      { step.identifiers with
        isDebug := step.identifiers.isDebug || declaration.step.identifiers.isDebug
        isOnly := step.identifiers.isOnly || declaration.step.identifiers.isOnly
        isNonParallel :=
          step.identifiers.isNonParallel || declaration.step.identifiers.isNonParallel } }

/-- Branches in one group per child, and the nodes to debug met on the way. -/
abbrev Groups := List (List Branch) × List NodeId

abbrev BodyExpander := Position → NodeId → Except TreeError Groups

/-- The branches of a step without its children, and the declaration if the step is a call. -/
structure Own where
  branches : List Branch
  declaration : Option NodeId := none
  debugNodes : List NodeId

/-- Expands a step without its children. Without `body` no further call may be nested. -/
def expandOwn (tree : Tree) (options : BranchOptions) (body : Option BodyExpander)
    (position : Position) (id : NodeId) : Except TreeError Own := do
  let node := tree.node id
  if node.step.identifiers.isCall then
    let declaration ← tree.resolve id position.path
    let tooDeep :=
      TreeError.ofFault (.recursiveCall node.step.callText) node.step.filename node.step.lineNumber
    if position.active.contains declaration then throw tooDeep
    match body with
    | none => throw tooDeep
    | some body =>
        let step := callStep node (tree.node declaration) position.active.length
        let debugNodes ← checkFlags options id step
        let (groups, inner) ← body (position.enterCall id declaration) declaration
        let isSequential := (tree.node declaration).step.identifiers.isSequential
        return {
          branches :=
            attachHooks tree declaration (followedBy [{ steps := [step] }] isSequential groups)
          declaration := some declaration
          debugNodes := debugNodes ++ inner }
  else
    let step := BranchStep.ofNode node position.active.length
    let debugNodes ← checkFlags options id step
    return { branches := [{ steps := [step] }], debugNodes }

def expandMembers (tree : Tree) (options : BranchOptions) (body : Option BodyExpander)
    (position : Position) : List NodeId → Except TreeError Groups
  | [] => pure ([], [])
  | member :: rest => do
      let own ← expandOwn tree options body position member
      let (groups, debugNodes) ← expandMembers tree options body position rest
      return (own.branches :: groups, own.debugNodes ++ debugNodes)

mutual

/-- The branches through a node, and the nodes to debug met on the way. -/
def expandNode (tree : Tree) (options : BranchOptions) (body : Option BodyExpander)
    (position : Position) : Outline → Except TreeError (List Branch × List NodeId)
  | .node id children => do
      let node := tree.node id
      let ids := node.step.identifiers
      match node.kind with
      | .root =>
          let (groups, debugNodes) ← expandChildren tree options body position children
          return (attachHooks tree id (if groups.isEmpty then [] else choose false groups), debugNodes)
      | .block members =>
          let (owns, debugNodes) ← expandMembers tree options body position members
          let (groups, inner) ←
            expandChildren tree options body (position.enter { node := id }) children
          let branches := followedBy (choose ids.isSequential owns) false groups
          return (attachHooks tree id branches, debugNodes ++ inner)
      | .step =>
          if ids.isDeclaration || node.step.hook.isSome then return ([], [])
          let own ← expandOwn tree options body position id
          let (groups, inner) ←
            expandChildren tree options body (position.enter ⟨id, own.declaration⟩) children
          let branches := followedBy own.branches ids.isSequential groups
          return (attachHooks tree id branches, own.debugNodes ++ inner)

/-- The branches of each child that has any. Hooks and declarations have none. -/
def expandChildren (tree : Tree) (options : BranchOptions) (body : Option BodyExpander)
    (position : Position) : List Outline → Except TreeError Groups
  | [] => pure ([], [])
  | .node id children :: rest => do
      let step := (tree.node id).step
      if step.hook.isSome then
        if children.isEmpty then expandChildren tree options body position rest
        else throw (TreeError.ofFault (.hookWithChildren step.text) step.filename step.lineNumber)
      else if step.identifiers.isDeclaration then
        expandChildren tree options body position rest
      else
        let (branches, debugNodes) ←
          expandNode tree options body position (.node id children)
        let (groups, inner) ← expandChildren tree options body position rest
        return (if branches.isEmpty then groups else branches :: groups, debugNodes ++ inner)

end

/-- Expands the bodies of calls that nest at most `depth` further calls. -/
def bodyExpander (tree : Tree) (options : BranchOptions) : Nat → Option BodyExpander
  | 0 => none
  | depth + 1 => some fun position declaration =>
      expandChildren tree options (bodyExpander tree options depth) position
        (tree.outline declaration).children

/-- The branches through a node before any filter, and the nodes to debug met on the way. -/
def expand (tree : Tree) (options : BranchOptions) (id : NodeId) :
    Except TreeError (List Branch × List NodeId) :=
  expandNode tree options (bodyExpander tree options maxCallDepth) {} (tree.outline id)

end Expansion

end TestTree
