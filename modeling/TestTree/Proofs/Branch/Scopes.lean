import TestTree.Proofs.Branch.Passages
import Mathlib.Data.List.Perm.Basic

namespace TestTree

namespace Tree

/-- The block that a branch enters at a member. One whose members all follow each other is entered at the
first of them. -/
def blockEntered (tree : Tree) (id : NodeId) : Option NodeId :=
  (tree.node id).block.filter fun block =>
    !(tree.node block).step.identifiers.isSequential || (tree.node block).members.head? == some id

/-- The scopes that a branch enters at one of its steps. -/
def scopesAt (tree : Tree) (step : BranchStep) : List NodeId :=
  step.origin.toList.flatMap fun id =>
    (tree.blockEntered id).toList ++ id :: step.declaration.toList

def scopesPassed (tree : Tree) (branch : Branch) : List NodeId :=
  rootId :: branch.steps.flatMap tree.scopesAt

end Tree

namespace Passage

variable (tree : Tree) (depth : Nat)

theorem stepsAll_eq_flatMap (passages : List Passage) :
    stepsAll tree depth passages = passages.flatMap (steps tree depth) := by
  induction passages with
  | nil => rfl
  | cons passage rest ih => rw [stepsAll, ih, List.flatMap_cons]

theorem orderAll_eq_flatMap (passages : List Passage) :
    orderAll passages = passages.flatMap order := by
  induction passages with
  | nil => rfl
  | cons passage rest ih => rw [orderAll, ih, List.flatMap_cons]

end Passage

namespace Tree

open Expansion (Part)
open Passage (stepsAll orderAll stepsAll_eq_flatMap orderAll_eq_flatMap)

variable {tree : Tree} {id : NodeId} {passages : List Passage}

theorem hookNodesAt_perm (tree : Tree) (kind : HookKind) (id : NodeId) :
    (tree.hookNodesAt kind id).Perm (tree.hookNodesBelow kind id) := by
  rw [hookNodesAt]
  split
  · exact List.reverse_perm _
  · exact .refl _

/-- However many of its members a branch passes, it enters a block once. -/
theorem blockEntered_members (settled : tree.WellFormed) {members : List NodeId}
    (kind : (tree.node id).kind = .block members)
    (chosen : Takes (tree.node id).step.identifiers.isSequential members passages) :
    passages.flatMap (fun passage => (tree.blockEntered passage.node).toList) = [id] := by
  obtain ⟨filled, distinct⟩ := settled.filled id members kind
  have block (member : NodeId) (listed : member ∈ members) : (tree.node member).block = some id :=
    (settled.member id members kind member listed).2.2.1
  have known : (tree.node id).members = members := by rw [Node.members, kind]
  cases sequential : (tree.node id).step.identifiers.isSequential with
  | false =>
      rw [sequential] at chosen
      cases chosen with
      | nothing => exact absurd rfl filled
      | one listed => simp [blockEntered, block _ listed, sequential]
  | true =>
      rw [sequential] at chosen
      cases chosen with
      | nothing => exact absurd rfl filled
      | all =>
          cases passages with
          | nil => exact absurd rfl filled
          | cons first rest =>
              rw [List.map_cons, List.nodup_cons] at distinct
              have entered : tree.blockEntered first.node = some id := by
                simp [blockEntered, block first.node (.head _), known]
              have inside : ∀ passage ∈ rest, (tree.blockEntered passage.node).toList = [] := by
                intro passage among
                have listed : passage.node ∈ rest.map Passage.node := List.mem_map_of_mem among
                have other : first.node ≠ passage.node := fun same => distinct.1 (same ▸ listed)
                simp [blockEntered, block passage.node (.tail _ listed), known, sequential, other]
              rw [List.flatMap_cons, entered, List.flatMap_eq_nil_iff.mpr inside]
              rfl

/-- The scopes that a part of a node gives its hooks for; a step alone gives none of its own, but counts with
the block that it is in. -/
def due (tree : Tree) : Part → Passage → List NodeId
  | .own, passage => (tree.blockEntered passage.node).toList ++ passage.node :: passage.ownOrder
  | .whole, passage => passage.order

theorem scopesAt_head (settled : tree.WellFormed) (inside : id < tree.size)
    {declaration : Option NodeId} (known : ∀ callee, declaration = some callee → callee < tree.size)
    (depth : Nat) : tree.scopesAt (Passage.head tree depth id declaration) =
      (tree.blockEntered id).toList ++ id :: declaration.toList := by
  obtain ⟨origin, callee, -⟩ := settled.head inside known depth
  simp [scopesAt, origin, callee]

/-- The steps of a passage tell the scopes of it. A member of a block is passed as a part of that block. -/
def Gathers (tree : Tree) (part : Part) (passage : Passage) : Prop :=
  ∀ depth, passage.node < tree.size → passage.node ≠ rootId →
    (part = .whole → (tree.node passage.node).block = none) →
    (tree.due part passage).Perm ((passage.steps tree depth).flatMap tree.scopesAt)

theorem gathers_below (settled : tree.WellFormed) {isSequential : Bool}
    (taken : Takes isSequential (tree.branching id) passages)
    (gathers : ∀ passage ∈ passages, tree.Gathers .whole passage) (depth : Nat) :
    (orderAll passages).Perm ((stepsAll tree depth passages).flatMap tree.scopesAt) := by
  rw [orderAll_eq_flatMap, stepsAll_eq_flatMap, List.flatMap_assoc]
  apply List.Perm.flatMap_left
  intro passage among
  obtain ⟨bounded, notRoot, free⟩ := settled.below taken passage among
  exact gathers passage among depth bounded notRoot fun _ => free

/-- The members of a block, with the block itself, are the scopes that their steps tell of. -/
theorem gathers_members (settled : tree.WellFormed) {members : List NodeId}
    (kind : (tree.node id).kind = .block members)
    (chosen : Takes (tree.node id).step.identifiers.isSequential members passages)
    (alone : ∀ passage ∈ passages, (passage.node :: passage.ownOrder).Perm passage.order)
    (gathers : ∀ passage ∈ passages, tree.Gathers .own passage) (depth : Nat) :
    (id :: orderAll passages).Perm ((stepsAll tree depth passages).flatMap tree.scopesAt) := by
  have entered := blockEntered_members settled kind chosen
  have each : ∀ passage ∈ passages,
      ((tree.blockEntered passage.node).toList ++ passage.order).Perm
        ((passage.steps tree depth).flatMap tree.scopesAt) := by
    intro passage among
    obtain ⟨bounded, notRoot, -⟩ := settled.members kind chosen passage among
    apply (((alone passage among).symm).append_left _).trans
    exact gathers passage among depth bounded notRoot fun absent => by cases absent
  rw [orderAll_eq_flatMap, stepsAll_eq_flatMap, List.flatMap_assoc]
  have split : (id :: passages.flatMap Passage.order).Perm (passages.flatMap fun passage =>
      (tree.blockEntered passage.node).toList ++ passage.order) := by
    have together := List.flatMap_append_perm passages
      (fun passage => (tree.blockEntered passage.node).toList) Passage.order
    rw [entered] at together
    exact together
  exact split.trans (List.Perm.flatMap_left _ each)

theorem Allows.gathers (settled : tree.WellFormed) {part : Part} {path : List Frame}
    {passage : Passage} (allows : tree.Allows part path passage) : tree.Gathers part passage := by
  induction allows with
  | @plain path id plain =>
      intro depth inside _ _
      have entered : tree.scopesAt (Passage.head tree depth id none) = _ :=
        scopesAt_head settled inside (by simp) depth
      rw [Passage.steps, List.flatMap_cons, entered, stepsAll, stepsAll, List.append_nil,
        List.flatMap_nil, List.append_nil]
      exact .refl _
  | @call path id declaration body calls resolved taken further ih =>
      intro depth inside _ _
      have entered : tree.scopesAt (Passage.head tree depth id (some declaration)) = _ :=
        scopesAt_head settled inside (Allows.call calls resolved taken further).declaration_lt depth
      have behind := gathers_below settled taken ih (depth + 1)
      rw [Passage.steps, List.flatMap_cons, entered, due, Passage.ownOrder, stepsAll,
        List.append_nil, List.append_assoc]
      apply List.Perm.append_left
      apply List.Perm.cons
      exact List.perm_append_comm.trans (behind.append_left _)
  | @step path id declaration body below kind spoken own taken further ihOwn ih =>
      intro depth inside notRoot free
      have first := ihOwn depth inside notRoot fun absent => by cases absent
      have behind := gathers_below settled taken ih depth
      have unblocked : tree.blockEntered id = none := by
        rw [blockEntered, show (tree.node id).block = none from free rfl]
        rfl
      rw [due, Passage.node, unblocked, Passage.ownOrder, Passage.steps, stepsAll, List.append_nil]
        at first
      rw [due, Passage.order, Passage.steps, ← List.cons_append, List.flatMap_append]
      exact (List.perm_append_singleton _ _).trans (first.append behind)
  | @block path id ids members below kind chosen own taken further ihOwn ih =>
      intro depth inside notRoot free
      have alone : ∀ passage ∈ members, (passage.node :: passage.ownOrder).Perm passage.order := by
        intro passage among
        cases own passage among with
        | plain => exact .refl _
        | call =>
            rw [Passage.order, orderAll, List.append_nil]
            exact (List.perm_append_singleton _ _).symm
      have first := gathers_members settled kind chosen alone ihOwn depth
      have behind := gathers_below settled taken ih depth
      rw [due, Passage.order, Passage.steps, List.flatMap_append]
      exact (List.perm_append_singleton _ _).trans (first.append behind)
  | root kind =>
      intro depth inside notRoot
      exact absurd kind (settled.kind _ notRoot)

/-- The root gives its hooks last, and its children are passed as parts of nothing. -/
theorem Allows.order_perm (settled : tree.WellFormed) {passage : Passage}
    (allows : tree.Allows .whole [] passage) (isRoot : passage.node = rootId) (depth : Nat) :
    passage.order.Perm (rootId :: (passage.steps tree depth).flatMap tree.scopesAt) := by
  have root : (tree.node passage.node).kind = .root := isRoot ▸ settled.root
  cases allows with
  | step kind => cases kind.symm.trans root
  | block kind => cases kind.symm.trans root
  | @root _ id below kind taken further =>
      obtain rfl : id = rootId := isRoot
      have behind := gathers_below settled taken
        (fun passage among => (further passage among).gathers settled) depth
      rw [Passage.order, Passage.steps, orderAll, stepsAll, List.nil_append, List.nil_append]
      exact (List.perm_append_singleton _ _).trans (behind.cons _)

end Tree

namespace Selection

variable {tree : Tree} {options : BranchOptions} {suite : Suite}

theorem everything_of_generate (generated : tree.generate options = .ok suite) :
    suite.beforeEverything = (Expansion.hooksAt tree Tree.rootId .beforeEverything).reverse ∧
      suite.afterEverything = Expansion.hooksAt tree Tree.rootId .afterEverything := by
  rw [Tree.generate] at generated
  cases selected : select tree Tree.rootId options with
  | error error => simp [selected, bind, Except.bind] at generated
  | ok branches =>
      simp only [selected, bind, Except.bind, pure, Except.pure] at generated
      obtain rfl := Except.ok.inj generated
      exact ⟨rfl, rfl⟩

/-- The hooks of a branch are, up to order, those declared right below the scopes that it passes through, and those
of the suite are declared anywhere in the tree. -/
theorem hooks_of_generate (built : tree.Built) (generated : tree.generate options = .ok suite) :
    (∀ branch ∈ suite.branches, ∀ kind, kind.isTreeLevel = false → ∃ nodes,
      nodes.Perm ((tree.scopesPassed branch).flatMap (tree.hookNodesBelow kind)) ∧
        tree.Declare nodes (branch.hooks kind)) ∧
      tree.Declare (tree.hookNodes .beforeEverything).reverse suite.beforeEverything ∧
      tree.Declare (tree.hookNodes .afterEverything) suite.afterEverything := by
  obtain ⟨settled, nested⟩ := built.nested
  constructor
  · intro branch listed kind branchLevel
    obtain ⟨passage, isRoot, allows, consists⟩ := readable_of_generate built generated branch listed
    have order := allows.order_perm settled isRoot 0
    refine ⟨passage.order.flatMap (tree.hookNodesAt kind), ?_, ?_⟩
    · rw [Tree.scopesPassed, consists.steps]
      exact (order.flatMap_right _).trans (List.Perm.flatMap_left _ fun scope _ => tree.hookNodesAt_perm kind scope)
    · rw [consists.hooks kind branchLevel]
      exact Tree.declare_contributed settled nested kind passage.order
  · obtain ⟨before, after⟩ := everything_of_generate generated
    rw [before, after, ← Tree.hookNodesBelow_root nested rfl, ← Tree.hookNodesBelow_root nested rfl]
    exact ⟨List.rel_reverse (Tree.declare_hooksAt settled nested _ _), Tree.declare_hooksAt settled nested _ _⟩

/-- A sequence with a hook and a call below it, the function with two hooks of its own. -/
def hedge : Tree :=
  .grown ("* Before Everything \x7b\n    open\n\x7d\n\n..\nA -\nB -\n\n" ++
    "    * After Every Branch \x7b\n        outer\n    \x7d\n\n    F\n\n" ++
    "* F\n    * After Every Branch \x7b\n        first\n    \x7d\n\n" ++
    "    * After Every Branch \x7b\n        second\n    \x7d\n\n    C -")

theorem hooks_of_generate_hedge :
    ∃ suite, hedge.generate {} = .ok suite ∧
      suite.branches.map (fun branch => (hedge.scopesPassed branch,
          (hedge.scopesPassed branch).map (hedge.hookNodesBelow .afterEveryBranch))) =
        [([0, 2, 3, 4, 6, 7, 10], [[], [5], [], [], [], [8, 9], []])] ∧
      suite.branches.map (fun branch => branch.afterEveryBranch.map fun hook => (hook.lineNumber, hook.codeBlock)) =
        [[(16, "        first".toList), (20, "        second".toList), (9, "        outer".toList)]] ∧
      suite.beforeEverything.map (fun hook => (hook.lineNumber, hook.codeBlock)) = [(1, "    open".toList)] ∧
      hedge.hookNodes .beforeEverything = [1] ∧
      (∀ branch ∈ suite.branches, ∀ kind, kind.isTreeLevel = false → ∃ nodes,
        nodes.Perm ((hedge.scopesPassed branch).flatMap (hedge.hookNodesBelow kind)) ∧
          hedge.Declare nodes (branch.hooks kind)) ∧
        hedge.Declare (hedge.hookNodes .beforeEverything).reverse suite.beforeEverything ∧
        hedge.Declare (hedge.hookNodes .afterEverything) suite.afterEverything := by
  have passed : (hedge.generate {}).toOption.map (fun suite => suite.branches.map fun branch =>
      (hedge.scopesPassed branch, (hedge.scopesPassed branch).map (hedge.hookNodesBelow .afterEveryBranch))) =
        some [([0, 2, 3, 4, 6, 7, 10], [[], [5], [], [], [], [8, 9], []])] := by
    decide +kernel
  have given : (hedge.generate {}).toOption.map (fun suite => suite.branches.map fun branch =>
      branch.afterEveryBranch.map fun hook => (hook.lineNumber, hook.codeBlock)) =
        some [[(16, "        first".toList), (20, "        second".toList), (9, "        outer".toList)]] := by
    decide +kernel
  have opened : (hedge.generate {}).toOption.map (fun suite =>
      suite.beforeEverything.map fun hook => (hook.lineNumber, hook.codeBlock)) = some [(1, "    open".toList)] := by
    decide +kernel
  cases generated : hedge.generate {} with
  | error error => rw [generated] at passed; cases passed
  | ok suite =>
      rw [generated] at passed given opened
      exact ⟨suite, rfl, Option.some.inj passed, Option.some.inj given, Option.some.inj opened, by decide +kernel,
        hooks_of_generate (.parseIn .empty _ _ _) generated⟩

end Selection

end TestTree
