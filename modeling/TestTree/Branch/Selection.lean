import TestTree.Branch.Expansion
import TestTree.Step.Assignments

/-!
Selecting branches. Expanded branches are tagged with their frequency and groups, filtered, reduced
to the first branch to debug if there is one, put into running order, and given ids that tell which
of them must not overlap.
-/
namespace TestTree

namespace Branch

/-- The global strings that the branch sets, as pairs of name and value. -/
def globalLiterals (branch : Branch) : List (Text × Text) :=
  (branch.steps.flatMap (·.assignments)).filterMap fun assignment =>
    match assignment.value with
    | .literal value => if assignment.isLocal then none else some (assignment.name, value)
    | .call _ => none

/-- The last valid frequency set along the branch. -/
def taggedFrequency (branch : Branch) : Option Frequency :=
  branch.globalLiterals.foldl (fun found (name, value) =>
    if name = Assignment.frequencyName then (Frequency.ofText? value).or found else found) none

/-- The groups set along the branch, each once, in order of first occurrence. -/
def taggedGroups (branch : Branch) : List Text :=
  branch.globalLiterals.foldl (fun found (name, value) =>
    if name = Assignment.groupName ∧ value ∉ found then found ++ [value] else found) []

def tag (branch : Branch) : Branch :=
  { branch with frequency := branch.taggedFrequency, groups := branch.taggedGroups }

def isSelected (options : BranchOptions) (branch : Branch) : Bool :=
  (options.minFrequency.all fun least => branch.frequency.all fun own => own.rank ≥ least.rank) &&
    (options.groups.all fun wanted => branch.groups.any (wanted.contains ·))

def debugs (branch : Branch) (id : NodeId) : Bool :=
  branch.steps.any fun step => step.identifiers.isDebug && step.origin == some id

def nonParallelNode (branch : Branch) : Option NodeId :=
  branch.steps.findSome? fun step => if step.identifiers.isNonParallel then step.origin else none

end Branch

namespace Selection

/-- Refuses to go on if a node to debug is in no branch. -/
def checkDebugNodes (tree : Tree) (branches : List Branch) : List NodeId → Except TreeError Unit
  | [] => pure ()
  | id :: rest =>
      if branches.any (·.debugs id) then checkDebugNodes tree branches rest
      else
        let step := (tree.node id).step
        throw (TreeError.ofFault .excludedDebugStep step.filename step.lineNumber)

/-- The first branch to debug alone, or all branches. -/
def isolateDebug (branches : List Branch) : List Branch :=
  match branches.find? Branch.hasDebugStep with
  | some branch => [{ branch with isDebug := true }]
  | none => branches

/-- The branches of a node after every filter, in source order and without ids. -/
def select (tree : Tree) (id : NodeId) (options : BranchOptions) :
    Except TreeError (List Branch) := do
  let (expanded, debugNodes) ← Expansion.expand tree options id
  let branches := (expanded.map Branch.tag).filter (·.isSelected options)
  checkDebugNodes tree branches debugNodes
  return isolateDebug branches

/-- The id of the `index`-th set of branches that must not overlap. -/
def nonParallelId (index : Nat) : Text := "np" ++ Text.ofNat index

/-- Gives branches that share their first non-parallel node one id; `known` holds the nodes that
have one. -/
def assignIds (known : List NodeId) : List Branch → List Branch
  | [] => []
  | branch :: rest =>
      match branch.nonParallelNode with
      | none => branch :: assignIds known rest
      | some id =>
          { branch with nonParallelId := some (nonParallelId (known.idxOf id)) } ::
            assignIds (if id ∈ known then known else known ++ [id]) rest

/-- The branches of a node, in source order. -/
def branchify (tree : Tree) (id : NodeId) (options : BranchOptions) :
    Except TreeError (List Branch) :=
  (select tree id options).map (assignIds [])

/-- Branches of one frequency stay in source order. -/
def sortByFrequency (branches : List Branch) : List Branch :=
  branches.mergeSort fun a b => Frequency.sortKey a.frequency ≤ Frequency.sortKey b.frequency

end Selection

/-- All branches of the tree in running order, with the hooks around them. -/
def Tree.generate (tree : Tree) (options : BranchOptions) : Except TreeError Suite := do
  let branches ← Selection.select tree rootId options
  return {
    branches := Selection.assignIds [] (Selection.sortByFrequency branches)
    beforeEverything := (Expansion.hooksAt tree rootId .beforeEverything).reverse
    afterEverything := Expansion.hooksAt tree rootId .afterEverything }

end TestTree
