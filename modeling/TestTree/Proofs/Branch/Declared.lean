import TestTree.Branch.Expansion
import TestTree.Proofs.Tree.Arrangement
import Mathlib.Data.List.Forall2
import Mathlib.Data.List.Sort

namespace TestTree

/-- A hook is the one that a node declares, with what the lines of that node say and no outcome yet. -/
structure Hook.DeclaredBy (hook : Hook) (node : Node) : Prop where
  kind : node.step.hook = some hook.kind
  text : hook.text = node.step.text
  code : hook.codeBlock = node.step.codeBlock.getD []
  place : hook.filename = node.step.filename ∧ hook.lineNumber = node.step.lineNumber
  origin : hook.isBuiltIn = node.isBuiltIn
  untried : hook.error = none

/-- Hooks that run before something; the last one declared runs first. -/
def HookKind.isBefore : HookKind → Bool
  | .beforeEveryBranch | .beforeEveryStep | .beforeEverything => true
  | _ => false

namespace Tree

open Expansion (hooksAt)

variable {tree : Tree} {kind : HookKind} {scope : NodeId}

/-- The nodes that declare a hook of a kind, in the order of their lines. -/
def hookNodes (tree : Tree) (kind : HookKind) : List NodeId :=
  (List.range tree.size).filter fun id => (tree.node id).step.hook = some kind

/-- Those of them that stand right below a scope. -/
def hookNodesBelow (tree : Tree) (kind : HookKind) (scope : NodeId) : List NodeId :=
  (tree.hookNodes kind).filter fun id => (tree.node id).parent = some scope

/-- The same in the order in which the hooks run. -/
def hookNodesAt (tree : Tree) (kind : HookKind) (scope : NodeId) : List NodeId :=
  if kind.isBefore then (tree.hookNodesBelow kind scope).reverse else tree.hookNodesBelow kind scope

/-- Each node declares one of the hooks, in turn. -/
def Declare (tree : Tree) : List NodeId → List Hook → Prop :=
  List.Forall₂ fun id hook => hook.DeclaredBy (tree.node id)

theorem mem_hookNodes {id : NodeId} :
    id ∈ tree.hookNodes kind ↔ id < tree.size ∧ (tree.node id).step.hook = some kind := by
  rw [hookNodes, List.mem_filter, List.mem_range, decide_eq_true_eq]

theorem mem_hookNodesBelow {id : NodeId} : id ∈ tree.hookNodesBelow kind scope ↔
    (id < tree.size ∧ (tree.node id).step.hook = some kind) ∧ (tree.node id).parent = some scope := by
  rw [hookNodesBelow, List.mem_filter, mem_hookNodes, decide_eq_true_eq]

/-- A node that declares a hook is in no block, so its parent knows it. -/
theorem Nested.mem_children_of_hook (nested : tree.Nested) {id : NodeId} (inside : id < tree.size)
    (isHook : (tree.node id).step.hook = some kind) (below : (tree.node id).parent = some scope) :
    id ∈ (tree.node scope).children := by
  have notRoot : id ≠ rootId := by
    rintro rfl
    cases nested.root.2.symm.trans below
  obtain ⟨above, isParent, -, -, placed⟩ := nested.parent id inside notRoot
  obtain rfl := Option.some.inj (isParent.symm.trans below)
  rw [Placed] at placed
  split at placed
  · exact placed
  · next block _ =>
      obtain ⟨-, listed, -⟩ := placed
      have unhooked := (nested.member block _ (kind_of_mem_members listed) id listed).2.2.2
      cases unhooked.symm.trans isHook

theorem filter_children_eq (settled : tree.WellFormed) (nested : tree.Nested) (kind : HookKind) (scope : NodeId) :
    ((tree.node scope).children.filter fun id => (tree.node id).step.hook = some kind) =
      tree.hookNodesBelow kind scope := by
  apply List.Pairwise.eq_of_mem_iff (r := (· < ·))
  · exact (nested.children scope).filter _
  · exact (List.pairwise_lt_range.filter _).filter _
  · intro id
    rw [List.mem_filter, decide_eq_true_eq, mem_hookNodesBelow]
    constructor
    · rintro ⟨listed, isHook⟩
      exact ⟨⟨(settled.child scope id listed).2.1, isHook⟩, nested.child scope id listed⟩
    · rintro ⟨⟨inside, isHook⟩, below⟩
      exact ⟨nested.mem_children_of_hook inside isHook below, isHook⟩

/-- The hooks of a scope are those declared right below it. -/
theorem declare_hooksAt (settled : tree.WellFormed) (nested : tree.Nested) (kind : HookKind) (scope : NodeId) :
    tree.Declare (tree.hookNodesBelow kind scope) (hooksAt tree scope kind) := by
  have hooks : hooksAt tree scope kind =
      ((tree.node scope).children.filter fun id => (tree.node id).step.hook = some kind).map fun id =>
        Hook.ofNode (tree.node id) kind := by
    simp [hooksAt, ← List.filterMap_eq_map, List.filterMap_filter]
  rw [hooks, ← filter_children_eq settled nested, Declare, List.forall₂_map_right_iff, List.forall₂_same]
  intro id listed
  have isHook := of_decide_eq_true (List.mem_filter.mp listed).2
  exact ⟨isHook, rfl, rfl, ⟨rfl, rfl⟩, rfl, rfl⟩

/-- Hooks of the whole tree stand below the root. -/
theorem hookNodesBelow_root (nested : tree.Nested) (treeLevel : kind.isTreeLevel = true) :
    tree.hookNodesBelow kind rootId = tree.hookNodes kind := by
  apply List.filter_eq_self.mpr
  intro id listed
  obtain ⟨inside, isHook⟩ := mem_hookNodes.mp listed
  have isTreeLevel : (tree.node id).step.hook.any HookKind.isTreeLevel = true := by
    rw [isHook, Option.any_some, treeLevel]
  exact decide_eq_true (nested.child rootId id (nested.treeHook id inside isTreeLevel))

end Tree

end TestTree
