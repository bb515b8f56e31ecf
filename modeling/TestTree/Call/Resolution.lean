import TestTree.Call.Name
import TestTree.Tree.Basic

/-!
Which declaration a call refers to. The siblings of the call are searched first, then every frame of
its path from the nearest outward; the first declaration with the same canonical name is meant.
-/
namespace TestTree

/-- One level of a path: the node passed through, and for a call the declaration it refers to. -/
structure Frame where
  node : NodeId
  declaration : Option NodeId := none
deriving DecidableEq, Repr

namespace Tree

/-- The nodes that a frame makes visible, nearest first. -/
def frameScope (tree : Tree) (frame : Frame) : List NodeId :=
  (match frame.declaration with
    | some declaration => (tree.node declaration).children ++ tree.siblings declaration
    | none => []) ++ tree.siblings frame.node

/-- The nodes visible at the end of a path that is given from its innermost frame outward. -/
def scope (tree : Tree) (own : List NodeId) (path : List Frame) : List NodeId :=
  own ++ path.flatMap tree.frameScope

/-- Whether the node declares a function with this canonical name. -/
def declares (tree : Tree) (name : Text) (id : NodeId) : Bool :=
  let step := (tree.node id).step
  step.identifiers.isDeclaration && step.hook.isNone && CallName.canonical step.text == name

def findDeclaration (tree : Tree) (call : Text) (own : List NodeId) (path : List Frame) :
    Option NodeId :=
  let name := CallName.canonical call
  (tree.scope own path).find? (tree.declares name)

/-- The declaration that the call at node `id` refers to. -/
def resolve (tree : Tree) (id : NodeId) (path : List Frame) : Except TreeError NodeId :=
  let step := (tree.node id).step
  match tree.findDeclaration step.callText (tree.siblings id) path with
  | some declaration => pure declaration
  | none =>
      throw (TreeError.ofFault (.unknownFunction step.callText) step.filename step.lineNumber)

/-- The declaration that a call outside the tree refers to at the end of a path. -/
def resolveText (tree : Tree) (call : Text) (path : List Frame) : Except TreeError NodeId :=
  match tree.findDeclaration call [] path with
  | some declaration => pure declaration
  | none => throw (TreeError.ofFault (.unknownFunction call) none 0)

end Tree

end TestTree
