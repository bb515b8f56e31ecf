import TestTree.Tree.Basic
import TestTree.Tree.Source

/-!
Growing a tree from source. Each block of lines becomes one node below the last node that is one
level less deep. The nodes that stand before a misplaced block stay in the tree.
-/
namespace TestTree.Tree

open Source (Block Line)

/-- The tree so far, the open nodes from the innermost outward, and whether a marker was read. -/
structure Growth where
  tree : Tree
  ancestors : List (Int × NodeId)
  nextIsSequential : Bool := false
  isFirst : Bool := true

def Growth.depth (growth : Growth) : Int := (growth.ancestors.head?.map (·.1)).getD (-1)

/-- The nodes that are less deep than `indents`. -/
def Growth.ancestorsOf (growth : Growth) (indents : Int) : List (Int × NodeId) :=
  growth.ancestors.dropWhile fun ancestor => ancestor.1 ≥ indents

def lineNode (line : Line) (parent : NodeId) (block : Option NodeId) (isBuiltIn : Bool) : Node :=
  { step := line.step, indents := line.indents, parent := some parent, block, isBuiltIn }

/-- Adds the node of a block below `parent`: a single line as a step, several lines, or a sequential
one, as a block followed by its members. -/
def pushBlock (tree : Tree) (block : Block) (filename : Option Text) (parent : NodeId)
    (isSequential isBuiltIn : Bool) : Tree :=
  if block.others.isEmpty && !isSequential then
    tree.push (lineNode block.first parent none isBuiltIn)
  else
    let id := tree.size
    let members := (List.range block.lines.length).map (id + 1 + ·)
    let head : Node :=
      { kind := .block members
        step := { filename, lineNumber := block.lineNumber, identifiers := { isSequential } }
        indents := block.indents
        parent := some parent }
    block.lines.foldl (fun tree line => tree.push (lineNode line parent (some id) isBuiltIn))
      (tree.push head)

/-- A hook of the whole tree that stands below another line. -/
def indentedTreeHook? (block : Block) : Option Line :=
  block.lines.find? fun line => line.step.hook.any HookKind.isTreeLevel && line.indents ≠ 0

def attach (filename : Option Text) (isBuiltIn : Bool) (growth : Growth) (block : Block) :
    Except TreeError Growth :=
  if growth.isFirst && block.indents ≠ 0 then
    throw (TreeError.ofFault .indentedFirstStep filename block.lineNumber)
  else if block.isMarker then
    pure { growth with nextIsSequential := true, isFirst := false }
  else if (block.indents : Int) > growth.depth + 1 then
    throw (TreeError.ofFault .indentedTooFar filename block.lineNumber)
  else
    match indentedTreeHook? block with
    | some line =>
        throw (TreeError.ofFault (.indentedTreeHook line.step.text) filename line.step.lineNumber)
    | none =>
        let ancestors := growth.ancestorsOf block.indents
        let parent := (ancestors.head?.map (·.2)).getD rootId
        let id := growth.tree.size
        let tree := pushBlock growth.tree block filename parent growth.nextIsSequential isBuiltIn
        pure
          { tree := tree.addChild parent id
            ancestors := (block.indents, id) :: ancestors
            nextIsSequential := false
            isFirst := false }

/-- Attaches blocks until one does not fit; returns the tree reached and that error. -/
def attachAll (filename : Option Text) (isBuiltIn : Bool) (growth : Growth) :
    List Block → Tree × Option TreeError
  | [] => (growth.tree, none)
  | block :: rest =>
      match attach filename isBuiltIn growth block with
      | .ok growth => attachAll filename isBuiltIn growth rest
      | .error error => (growth.tree, some error)

def parseIn (tree : Tree) (text : Text) (filename : Option Text) (isBuiltIn : Bool) :
    Tree × Option TreeError :=
  match Source.blocks filename text with
  | .error error => (tree, some error)
  | .ok blocks =>
      match attachAll filename isBuiltIn { tree, ancestors := [(-1, rootId)] } blocks with
      | (grown, some error) => (grown, some error)
      | (grown, none) =>
          ({ grown with
              filesParsed := tree.filesParsed ++ [filename]
              linesParsed := tree.linesParsed + (Text.lines text).length }, none)

structure SourceFile where
  text : Text
  filename : Option Text := none
  isBuiltIn : Bool := false

/-- Feeds files to a new tree until one is refused. -/
def ofFiles (files : List SourceFile) : Except TreeError Tree :=
  files.foldlM (fun tree file =>
    match tree.parseIn file.text file.filename file.isBuiltIn with
    | (_, some error) => throw error
    | (tree, none) => pure tree) empty

end TestTree.Tree
