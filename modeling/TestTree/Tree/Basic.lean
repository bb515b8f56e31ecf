import TestTree.Error

/-!
The tree. Its nodes stand in an array, the root first, and refer to each other by index. A node is
the root, a step, or a block of alternative steps that share their children. Every parent stands
before its children.
-/
namespace TestTree

abbrev NodeId := Nat

inductive NodeKind
  | root
  | step
  | block (members : List NodeId)
deriving DecidableEq, Repr

/-- A node with its neighbours. The members of a block have the parent of the block. -/
structure Node where
  id : NodeId := 0
  kind : NodeKind := .step
  step : Step := {}
  indents : Int := 0
  parent : Option NodeId := none
  children : List NodeId := []
  block : Option NodeId := none
  isBuiltIn : Bool := false
deriving DecidableEq, Repr

def Node.members (node : Node) : List NodeId :=
  match node.kind with
  | .block members => members
  | _ => []

/-- A line that holds only `..`. -/
def Node.isMarker (node : Node) : Bool := node.kind == .step && node.step.isMarker

/-- The nodes, the files fed so far and the number of their lines. -/
structure Tree where
  nodes : Array Node
  filesParsed : List (Option Text) := []
  linesParsed : Nat := 0

namespace Tree

def rootId : NodeId := 0

def empty : Tree := { nodes := #[{ kind := .root, indents := -1 }] }

def node (tree : Tree) (id : NodeId) : Node := (tree.nodes[id]?).getD {}

def size (tree : Tree) : Nat := tree.nodes.size

def push (tree : Tree) (node : Node) : Tree :=
  { tree with nodes := tree.nodes.push { node with id := tree.size } }

def addChild (tree : Tree) (parent child : NodeId) : Tree :=
  { tree with
    nodes := tree.nodes.modify parent fun node => { node with children := node.children ++ [child] } }

/-- The children of the node's parent; none for the root. -/
def siblings (tree : Tree) (id : NodeId) : List NodeId :=
  match (tree.node id).parent with
  | some parent => (tree.node parent).children
  | none => []

end Tree

end TestTree
