import TestTree.Proofs.Tree.Blocks
import TestTree.Tree.Parse

namespace TestTree.Tree

open Source (Block Fit Line)

section Nodes

variable {tree : Tree} {id : NodeId}

@[simp] theorem size_push (tree : Tree) (node : Node) : (tree.push node).size = tree.size + 1 := by
  simp [push, size]

theorem node_push_self (tree : Tree) (node : Node) :
    (tree.push node).node tree.size = { node with id := tree.size } := by
  simp [Tree.node, push, size]

theorem node_push_of_ne (different : id ≠ tree.size) (node : Node) :
    (tree.push node).node id = tree.node id := by
  simp only [Tree.node, push, Array.getElem?_push]
  rw [if_neg (by simpa [size] using different)]

@[simp] theorem size_addChild (tree : Tree) (parent child : NodeId) :
    (tree.addChild parent child).size = tree.size := by
  simp [addChild, size]

theorem node_addChild (inside : id < tree.size) (parent child : NodeId) :
    (tree.addChild parent child).node id =
      if parent = id then { tree.node id with children := (tree.node id).children ++ [child] }
      else tree.node id := by
  have present : tree.nodes[id]? = some (tree.node id) := by
    have inside : id < tree.nodes.size := inside
    simp [Tree.node, inside]
  have changed : (tree.addChild parent child).nodes[id]? = if parent = id then
      some { tree.node id with children := (tree.node id).children ++ [child] }
      else some (tree.node id) := by
    simp only [addChild, Array.getElem?_modify, present]
    split <;> rfl
  rw [Tree.node, changed]
  split <;> rfl

theorem node_of_size_le (outside : tree.size ≤ id) : tree.node id = {} := by
  have absent : tree.nodes[id]? = none := Array.getElem?_eq_none outside
  simp [Tree.node, absent]

end Nodes

section Lines

variable (make : Line → Node) (lines : List Line) (tree : Tree)

theorem size_pushLines :
    (lines.foldl (fun tree line => tree.push (make line)) tree).size = tree.size + lines.length := by
  induction lines generalizing tree with
  | nil => rfl
  | cons line rest ih =>
      rw [List.foldl_cons, ih, size_push, List.length_cons]
      omega

theorem parsed_pushLines :
    (lines.foldl (fun tree line => tree.push (make line)) tree).filesParsed = tree.filesParsed ∧
      (lines.foldl (fun tree line => tree.push (make line)) tree).linesParsed = tree.linesParsed := by
  induction lines generalizing tree with
  | nil => exact ⟨rfl, rfl⟩
  | cons line rest ih => exact ih (tree.push (make line))

theorem node_pushLines_of_lt {id : NodeId} (old : id < tree.size) :
    (lines.foldl (fun tree line => tree.push (make line)) tree).node id = tree.node id := by
  induction lines generalizing tree with
  | nil => rfl
  | cons line rest ih =>
      have older : id < (tree.push (make line)).size := by
        rw [size_push]
        exact Nat.lt_succ_of_lt old
      rw [List.foldl_cons, ih _ older]
      exact node_push_of_ne (Nat.ne_of_lt old) _

theorem node_pushLines {index : Nat} {line : Line} (found : lines[index]? = some line) :
    (lines.foldl (fun tree line => tree.push (make line)) tree).node (tree.size + index) =
      { make line with id := tree.size + index } := by
  induction lines generalizing tree index with
  | nil => simp at found
  | cons first rest ih =>
      rw [List.foldl_cons]
      cases index with
      | zero =>
          obtain rfl : first = line := by simpa using found
          rw [node_pushLines_of_lt _ _ _ (by simp)]
          exact node_push_self tree (make first)
      | succ index =>
          have later := ih (tree.push (make first)) (by simpa using found)
          rw [size_push] at later
          rw [show tree.size + (index + 1) = tree.size + 1 + index by omega]
          exact later

end Lines

section Grafts

/-- A node that differs from another one in its children at most. -/
structure Alike (node other : Node) : Prop where
  id : node.id = other.id
  kind : node.kind = other.kind
  step : node.step = other.step
  indents : node.indents = other.indents
  parent : node.parent = other.parent
  block : node.block = other.block

/-- A node that was just put below `parent`. -/
structure Fresh (node : Node) (id parent : NodeId) (indents : Int) : Prop where
  id : node.id = id
  parent : node.parent = some parent
  indents : node.indents = indents
  children : node.children = []
  unmarked : node.isMarker = false

/-- A step that is one of the alternatives of `block`. -/
structure Belongs (node : Node) (block : NodeId) : Prop where
  kind : node.kind = .step
  block : node.block = some block
  undeclared : node.step.identifiers.isDeclaration = false
  codeless : node.step.codeBlock = none
  unhooked : node.step.hook = none

/-- `grown` is `tree` with a block at depth `indents` below `parent`: a step, or a node of alternatives with
its members behind it. -/
structure Grafts (tree grown : Tree) (parent : NodeId) (indents : Int) : Prop where
  inside : parent < tree.size
  larger : tree.size < grown.size
  files : grown.filesParsed = tree.filesParsed
  lines : grown.linesParsed = tree.linesParsed
  old : ∀ id, id < tree.size → grown.node id =
    if parent = id then { tree.node id with children := (tree.node id).children ++ [tree.size] }
    else tree.node id
  fresh : ∀ id, tree.size ≤ id → id < grown.size → Fresh (grown.node id) id parent indents
  free : (grown.node tree.size).block = none
  top : (grown.node tree.size).kind = .step ∧ grown.size = tree.size + 1 ∨
    ∃ count, 2 ≤ count ∧ grown.size = tree.size + 1 + count ∧
      (grown.node tree.size).kind = .block (List.range' (tree.size + 1) count)
  hook : (grown.node tree.size).step.hook.any HookKind.isTreeLevel = true → indents = 0
  member : ∀ id, tree.size < id → id < grown.size → Belongs (grown.node id) tree.size

variable {tree grown : Tree} {parent : NodeId} {indents : Int} {block : Block}
  {filename : Option Text} {isSequential isBuiltIn : Bool}

theorem Grafts.frame (grafts : Grafts tree grown parent indents) {id : NodeId}
    (before : id < tree.size) : Alike (grown.node id) (tree.node id) := by
  rw [grafts.old id before]
  split <;> exact ⟨rfl, rfl, rfl, rfl, rfl, rfl⟩

theorem Grafts.children (grafts : Grafts tree grown parent indents) (id : NodeId) :
    (grown.node id).children =
      if parent = id then (tree.node id).children ++ [tree.size] else (tree.node id).children := by
  by_cases before : id < tree.size
  · rw [grafts.old id before]
    split <;> rfl
  · have after := Nat.le_of_not_lt before
    rw [if_neg (Nat.ne_of_lt (Nat.lt_of_lt_of_le grafts.inside after)), node_of_size_le after]
    by_cases bounded : id < grown.size
    · exact (grafts.fresh id after bounded).children
    · rw [node_of_size_le (Nat.le_of_not_lt bounded)]

/-- The one new child of an old node is the top node of what is grafted. -/
theorem Grafts.mem_children (grafts : Grafts tree grown parent indents) {id child : NodeId} :
    child ∈ (grown.node id).children ↔
      child ∈ (tree.node id).children ∨ parent = id ∧ child = tree.size := by
  rw [grafts.children]
  split
  · next same => simp [same]
  · next other => simp [other]

theorem Grafts.isBlock (grafts : Grafts tree grown parent indents) {id : NodeId}
    {members : List NodeId} (isBlock : (grown.node id).kind = .block members) :
    (id < tree.size ∧ (tree.node id).kind = .block members) ∨
      (id = tree.size ∧ 2 ≤ members.length ∧
        members = List.range' (tree.size + 1) members.length ∧
        grown.size = tree.size + 1 + members.length) := by
  rcases Nat.lt_trichotomy id tree.size with before | rfl | behind
  · exact .inl ⟨before, (grafts.frame before).kind.symm.trans isBlock⟩
  · rcases grafts.top with ⟨lone, -⟩ | ⟨count, several, size, kind⟩
    · rw [lone] at isBlock
      cases isBlock
    · obtain rfl := NodeKind.block.inj (kind.symm.trans isBlock)
      rw [List.length_range']
      exact .inr ⟨rfl, several, rfl, size⟩
  · by_cases bounded : id < grown.size
    · rw [(grafts.member id behind bounded).kind] at isBlock
      cases isBlock
    · rw [node_of_size_le (Nat.le_of_not_lt bounded)] at isBlock
      cases isBlock

theorem node_addChild_of_fresh (larger : tree.size < grown.size)
    (same : ∀ id, id < tree.size → grown.node id = tree.node id) {id : NodeId}
    (before : id < tree.size) : (grown.addChild parent tree.size).node id =
      if parent = id then { tree.node id with children := (tree.node id).children ++ [tree.size] }
      else tree.node id := by
  rw [node_addChild (Nat.lt_trans before larger), same id before]

theorem node_addChild_of_ne {id : NodeId} (different : parent ≠ id) (child : NodeId) :
    (tree.addChild parent child).node id = tree.node id := by
  by_cases inside : id < tree.size
  · rw [node_addChild inside, if_neg different]
  · rw [node_of_size_le (Nat.le_of_not_lt inside), node_of_size_le]
    rw [size_addChild]
    exact Nat.le_of_not_lt inside

theorem grafts_pushLine (inside : parent < tree.size) {line : Line}
    (unmarked : line.step.isMarker = false)
    (level : line.step.hook.any HookKind.isTreeLevel = true → line.indents = 0) :
    Grafts tree ((tree.push (lineNode line parent none isBuiltIn)).addChild parent tree.size) parent
      line.indents := by
  have larger : tree.size < (tree.push (lineNode line parent none isBuiltIn)).size := by simp
  have self : ((tree.push (lineNode line parent none isBuiltIn)).addChild parent tree.size).node
      tree.size = { lineNode line parent none isBuiltIn with id := tree.size } := by
    rw [node_addChild_of_ne (Nat.ne_of_lt inside), node_push_self]
  refine
    { inside
      larger := by simp
      files := rfl
      lines := rfl
      old := fun id before => node_addChild_of_fresh larger
        (fun id before => node_push_of_ne (Nat.ne_of_lt before) _) before
      fresh := fun id after bounded => ?_
      free := by rw [self]; rfl
      top := .inl ⟨by rw [self]; rfl, by simp⟩
      hook := ?_
      member := fun id after bounded => ?_ }
  · rw [size_addChild, size_push] at bounded
    obtain rfl : tree.size = id := Nat.le_antisymm after (Nat.le_of_lt_succ bounded)
    rw [self]
    exact ⟨rfl, rfl, rfl, rfl, by simpa [Node.isMarker, lineNode] using unmarked⟩
  · rw [self]
    exact fun treeLevel => by rw [level treeLevel]; rfl
  · rw [size_addChild, size_push] at bounded
    exact absurd after (Nat.not_lt_of_le (Nat.le_of_lt_succ bounded))

/-- The tree with a block node for the lines of a block, and with those lines. -/
def pushMembers (tree : Tree) (block : Block) (head : Node) (parent : NodeId) (isBuiltIn : Bool) :
    Tree :=
  block.lines.foldl (fun grown line =>
    grown.push (lineNode line parent (some tree.size) isBuiltIn)) (tree.push head)

theorem size_pushMembers (head : Node) :
    (pushMembers tree block head parent isBuiltIn).size = tree.size + 1 + block.lines.length := by
  rw [pushMembers, size_pushLines, size_push]

theorem parsed_pushMembers (head : Node) :
    (pushMembers tree block head parent isBuiltIn).filesParsed = tree.filesParsed ∧
      (pushMembers tree block head parent isBuiltIn).linesParsed = tree.linesParsed :=
  parsed_pushLines _ _ _

theorem node_pushMembers_of_lt (head : Node) {id : NodeId} (old : id < tree.size) :
    (pushMembers tree block head parent isBuiltIn).node id = tree.node id := by
  rw [pushMembers, node_pushLines_of_lt]
  · exact node_push_of_ne (Nat.ne_of_lt old) _
  · rw [size_push]
    exact Nat.lt_succ_of_lt old

theorem node_pushMembers_head (head : Node) :
    (pushMembers tree block head parent isBuiltIn).node tree.size =
      { head with id := tree.size } := by
  rw [pushMembers, node_pushLines_of_lt _ _ _ (by simp)]
  exact node_push_self tree head

theorem node_pushMembers_member (head : Node) {id : NodeId} (behind : tree.size < id)
    (bounded : id < tree.size + 1 + block.lines.length) :
    ∃ line ∈ block.lines, (pushMembers tree block head parent isBuiltIn).node id =
      { lineNode line parent (some tree.size) isBuiltIn with id } := by
  obtain ⟨index, rfl⟩ := Nat.exists_eq_add_of_le (show tree.size + 1 ≤ id from behind)
  have within : index < block.lines.length := Nat.lt_of_add_lt_add_left bounded
  have member := node_pushLines (fun line => lineNode line parent (some tree.size) isBuiltIn)
    block.lines (tree.push head) (List.getElem?_eq_getElem within)
  rw [size_push] at member
  exact ⟨_, List.getElem_mem within, member⟩

theorem grafts_pushMembers (inside : parent < tree.size) (even : block.Even) (plain : block.Plain)
    (several : block.others ≠ []) {head : Node} (free : head.block = none) (bare : head.children = [])
    (below : head.parent = some parent) (deep : head.indents = block.indents)
    (hookless : head.step.hook = none)
    (kind : head.kind = .block ((List.range block.lines.length).map (tree.size + 1 + ·))) :
    Grafts tree ((pushMembers tree block head parent isBuiltIn).addChild parent tree.size) parent
      block.indents := by
  have size : ((pushMembers tree block head parent isBuiltIn).addChild parent tree.size).size =
      tree.size + 1 + block.lines.length := by
    rw [size_addChild, size_pushMembers]
  have unchanged (id : NodeId) (after : tree.size ≤ id) :
      ((pushMembers tree block head parent isBuiltIn).addChild parent tree.size).node id =
        (pushMembers tree block head parent isBuiltIn).node id :=
    node_addChild_of_ne (Nat.ne_of_lt (Nat.lt_of_lt_of_le inside after)) _
  have top : ((pushMembers tree block head parent isBuiltIn).addChild parent tree.size).node
      tree.size = { head with id := tree.size } := by
    rw [unchanged _ (Nat.le_refl _), node_pushMembers_head]
  have member (id : NodeId) (behind : tree.size < id)
      (bounded : id < tree.size + 1 + block.lines.length) :
      ∃ line ∈ block.lines,
        ((pushMembers tree block head parent isBuiltIn).addChild parent tree.size).node id =
          { lineNode line parent (some tree.size) isBuiltIn with id } := by
    rw [unchanged _ (Nat.le_of_lt behind)]
    exact node_pushMembers_member head behind bounded
  refine
    { inside
      larger := by rw [size]; omega
      files := (parsed_pushMembers head).1
      lines := (parsed_pushMembers head).2
      old := fun id before => node_addChild_of_fresh (by rw [size_pushMembers]; omega)
        (fun id before => node_pushMembers_of_lt head before) before
      fresh := fun id after bounded => ?_
      free := by rw [top]; exact free
      top := .inr ⟨block.lines.length, Nat.succ_le_succ (List.length_pos_iff.mpr several), size, ?_⟩
      hook := ?_
      member := fun id behind bounded => ?_ }
  · rw [size] at bounded
    rcases Nat.eq_or_lt_of_le after with rfl | behind
    · rw [top]
      exact ⟨rfl, below, deep, bare, by simp [Node.isMarker, kind]⟩
    · obtain ⟨line, listed, same⟩ := member id behind bounded
      rw [same]
      refine ⟨rfl, rfl, congrArg Nat.cast (even.indents line listed), rfl, ?_⟩
      simpa [Node.isMarker, lineNode] using even.unmarked several line listed
  · rw [top, kind, List.range'_eq_map_range]
  · rw [top]
    simp [hookless]
  · rw [size] at bounded
    obtain ⟨line, listed, same⟩ := member id behind bounded
    obtain ⟨undeclared, codeless, unhooked⟩ := plain line listed
    rw [same]
    exact ⟨rfl, rfl, undeclared, codeless, unhooked⟩

theorem grafts_pushBlock {rest : List Block} (inside : parent < tree.size)
    (fit : Fit isSequential (block :: rest)) (marker : block.isMarker = false)
    (level : indentedTreeHook? block = none) :
    Grafts tree ((pushBlock tree block filename parent isSequential isBuiltIn).addChild parent
      tree.size) parent block.indents := by
  obtain ⟨even, follows, plain, -⟩ := fit
  rw [pushBlock]
  split
  · next lone =>
      rw [Bool.and_eq_true] at lone
      rw [Block.isMarker, lone.1, Bool.true_and] at marker
      have first := List.find?_eq_none.mp level block.first (.head _)
      refine grafts_pushLine inside marker fun treeLevel => ?_
      simpa [treeLevel] using first
  · next many =>
      have several : block.others ≠ [] := by
        cases isSequential with
        | true => exact follows rfl
        | false => exact fun lone => many (by simp [lone])
      exact grafts_pushMembers inside even (plain several) several rfl rfl rfl rfl rfl rfl

end Grafts

section Attaching

/-- Open nodes from the innermost outward: each is one level below the next, and the last is the root. -/
inductive Descends : List (Int × NodeId) → Prop
  | root : Descends [(-1, rootId)]
  | inner {depth : Int} {id child : NodeId} {outer : List (Int × NodeId)}
      (descends : Descends ((depth, id) :: outer)) :
      Descends ((depth + 1, child) :: (depth, id) :: outer)

theorem Descends.neg_one_le {stack : List (Int × NodeId)} (descends : Descends stack) :
    ∀ ancestor ∈ stack, -1 ≤ ancestor.1 := by
  induction descends with
  | root => simp
  | inner _ ih =>
      intro ancestor listed
      rcases List.mem_cons.mp listed with rfl | outer
      · have := ih _ (.head _)
        dsimp only at this ⊢
        omega
      · exact ih ancestor outer

theorem Descends.eq_rootId {id : NodeId} {outer : List (Int × NodeId)} {depth : Int}
    (descends : Descends ((depth, id) :: outer)) (lowest : depth = -1) : id = rootId := by
  cases descends with
  | root => rfl
  | inner descends =>
      have := descends.neg_one_le _ (.head _)
      dsimp only at this
      omega

theorem Descends.dropWhile {stack : List (Int × NodeId)} (descends : Descends stack) {indents : Int}
    (positive : 0 ≤ indents) (near : ∀ ancestor ∈ stack.head?, indents ≤ ancestor.1 + 1) :
    ∃ id outer, stack.dropWhile (fun ancestor => ancestor.1 ≥ indents) = (indents - 1, id) :: outer ∧
      Descends ((indents - 1, id) :: outer) := by
  induction descends with
  | root =>
      obtain rfl : indents = 0 := Int.le_antisymm (near _ rfl) positive
      exact ⟨rootId, [], rfl, .root⟩
  | @inner depth id child outer descends ih =>
      by_cases deep : indents ≤ depth + 1
      · rw [List.dropWhile_cons_of_pos (by simpa using deep)]
        exact ih fun ancestor head => by
          obtain rfl := Option.some.inj head
          exact deep
      · rw [List.dropWhile_cons_of_neg (by simpa using deep)]
        have := near _ rfl
        dsimp only at this
        obtain rfl : indents = depth + 1 + 1 := by omega
        rw [Int.add_sub_cancel]
        exact ⟨child, _, rfl, .inner descends⟩

/-- A node that may get children, at the depth noted for it, while a file is fed to `start`. -/
structure Open (start tree : Tree) (ancestor : Int × NodeId) : Prop where
  inside : ancestor.2 < tree.size
  depth : (tree.node ancestor.2).indents = ancestor.1
  free : (tree.node ancestor.2).block = none
  recent : ancestor.2 = rootId ∨ start.size ≤ ancestor.2

/-- The tree `grown` has a block more than `tree`, below an open node that is one level less deep. -/
structure Attaches (start tree grown : Tree) (parent : NodeId) (indents : Int) : Prop
    extends Grafts tree grown parent indents where
  opened : Open start tree (indents - 1, parent)
  level : indents = 0 → parent = rootId

/-- What becomes of `start` while a file is fed to it. -/
inductive Grown (start : Tree) : Tree → Prop
  | refl : Grown start start
  | attach {tree grown : Tree} {parent : NodeId} {indents : Int} (before : Grown start tree)
      (attaches : Attaches start tree grown parent indents) : Grown start grown

variable {start tree grown : Tree} {parent : NodeId} {indents : Int} {filename : Option Text}
  {isBuiltIn : Bool}

theorem Open.mono (grafts : Grafts tree grown parent indents) {ancestor : Int × NodeId}
    (opened : Open start tree ancestor) : Open start grown ancestor where
  inside := Nat.lt_trans opened.inside grafts.larger
  depth := (grafts.frame opened.inside).indents.trans opened.depth
  free := (grafts.frame opened.inside).block.trans opened.free
  recent := opened.recent

theorem Grown.size_le (feeds : Grown start grown) : start.size ≤ grown.size := by
  induction feeds with
  | refl => exact Nat.le_refl _
  | attach _ attaches ih => exact Nat.le_trans ih (Nat.le_of_lt attaches.larger)

theorem Grown.open_root (feeds : Grown start grown) (rooted : Open start start (-1, rootId)) :
    Open start grown (-1, rootId) := by
  induction feeds with
  | refl => exact rooted
  | attach _ attaches ih => exact ih.mono attaches.toGrafts

/-- The node that the next block is put below. -/
def Growth.parentOf (growth : Growth) (indents : Int) : NodeId :=
  ((growth.ancestorsOf indents).head?.map (·.2)).getD rootId

/-- All that `attach` does with a block that it takes. -/
theorem attach_cases {growth next : Growth} {block : Block}
    (attached : attach filename isBuiltIn growth block = .ok next) :
    (block.isMarker = true ∧ next = { growth with nextIsSequential := true, isFirst := false }) ∨
      (block.isMarker = false ∧ block.indents ≤ growth.depth + 1 ∧ indentedTreeHook? block = none ∧
        next =
          { tree := (pushBlock growth.tree block filename (growth.parentOf block.indents)
              growth.nextIsSequential isBuiltIn).addChild (growth.parentOf block.indents)
                growth.tree.size
            ancestors := (block.indents, growth.tree.size) :: growth.ancestorsOf block.indents
            nextIsSequential := false
            isFirst := false }) := by
  rw [attach] at attached
  split at attached
  · cases attached
  · split at attached
    · next marker => exact .inl ⟨marker, (Except.ok.inj attached).symm⟩
    · split at attached
      · cases attached
      · split at attached
        · cases attached
        · next marker near _ level =>
            exact .inr ⟨Bool.not_eq_true _ |>.mp marker, Int.not_lt.mp near, level,
              (Except.ok.inj attached).symm⟩

/-- A growing tree with its open nodes. -/
structure Growth.Sound (start : Tree) (growth : Growth) : Prop where
  feeds : Grown start growth.tree
  descends : Descends growth.ancestors
  opened : ∀ ancestor ∈ growth.ancestors, Open start growth.tree ancestor

/-- A block that is no marker goes below the innermost open node that is less deep than it. -/
theorem Growth.Sound.attaches {growth next : Growth} {block : Block} {rest : List Block}
    (sound : growth.Sound start) (fit : Fit growth.nextIsSequential (block :: rest))
    (attached : Tree.attach filename isBuiltIn growth block = .ok next) :
    next.nextIsSequential = block.isMarker ∧
      ((next.tree = growth.tree ∧ next.ancestors = growth.ancestors) ∨
        ∃ parent outer, Attaches start growth.tree next.tree parent block.indents ∧
          next.ancestors =
            ((block.indents : Int), growth.tree.size) :: ((block.indents : Int) - 1, parent) :: outer ∧
          Descends (((block.indents : Int) - 1, parent) :: outer) ∧
          ∀ ancestor ∈ ((block.indents : Int) - 1, parent) :: outer,
            ancestor ∈ growth.ancestors) := by
  obtain ⟨feeds, descends, opened⟩ := sound
  rcases attach_cases attached with ⟨marker, rfl⟩ | ⟨marker, near, level, rfl⟩
  · exact ⟨marker.symm, .inl ⟨rfl, rfl⟩⟩
  · have near : ∀ ancestor ∈ growth.ancestors.head?, (block.indents : Int) ≤ ancestor.1 + 1 :=
      fun ancestor head => by simpa [Growth.depth, Option.mem_def.mp head] using near
    obtain ⟨parent, outer, kept, still⟩ := descends.dropWhile (Int.natCast_nonneg _) near
    have kept : growth.ancestorsOf block.indents = ((block.indents : Int) - 1, parent) :: outer := kept
    have isParent : growth.parentOf block.indents = parent := by rw [Growth.parentOf, kept]; rfl
    have listed : ∀ ancestor ∈ (((block.indents : Int) - 1, parent) :: outer),
        ancestor ∈ growth.ancestors := fun ancestor found =>
      (List.dropWhile_sublist _).subset (kept ▸ found)
    have below := opened _ (listed _ (.head _))
    have grafts : Grafts growth.tree ((pushBlock growth.tree block filename parent
        growth.nextIsSequential isBuiltIn).addChild parent growth.tree.size) parent block.indents :=
      grafts_pushBlock below.inside fit marker level
    rw [isParent, kept]
    refine ⟨marker.symm, .inr ⟨parent, outer, ⟨grafts, below, fun lowest => ?_⟩, rfl, still,
      listed⟩⟩
    exact still.eq_rootId (by rw [lowest]; rfl)

theorem Growth.Sound.attach {growth next : Growth} {block : Block} {rest : List Block}
    (sound : growth.Sound start) (fit : Fit growth.nextIsSequential (block :: rest))
    (attached : Tree.attach filename isBuiltIn growth block = .ok next) :
    next.Sound start ∧ Fit next.nextIsSequential rest := by
  obtain ⟨marker, ⟨same, still⟩ | ⟨parent, outer, attaches, stack, descends, listed⟩⟩ :=
    sound.attaches fit attached
  · refine ⟨⟨?_, ?_, ?_⟩, marker ▸ fit.2.2.2⟩
    · rw [same]
      exact sound.feeds
    · rw [still]
      exact sound.descends
    · rw [same, still]
      exact sound.opened
  · have grafts := attaches.toGrafts
    refine ⟨⟨.attach sound.feeds attaches, ?_, ?_⟩, marker ▸ fit.2.2.2⟩
    · have inner : Descends (((block.indents : Int) - 1 + 1, growth.tree.size) ::
          ((block.indents : Int) - 1, parent) :: outer) := .inner descends
      rw [Int.sub_add_cancel] at inner
      rwa [stack]
    · rw [stack]
      intro ancestor found
      rcases List.mem_cons.mp found with rfl | old
      · have top := grafts.fresh growth.tree.size (Nat.le_refl _) grafts.larger
        exact ⟨grafts.larger, top.indents, grafts.free, .inr sound.feeds.size_le⟩
      · exact (sound.opened ancestor (listed ancestor old)).mono grafts

theorem Growth.Sound.attachAll (blocks : List Block) {growth : Growth} (sound : growth.Sound start)
    (fit : Fit growth.nextIsSequential blocks) :
    Grown start (Tree.attachAll filename isBuiltIn growth blocks).1 := by
  induction blocks generalizing growth with
  | nil => exact sound.feeds
  | cons block rest ih =>
      rw [Tree.attachAll]
      split
      · next next attached =>
          obtain ⟨sound, fit⟩ := sound.attach fit attached
          exact ih sound fit
      · exact sound.feeds

/-- A file that is refused leaves what has grown; only a file that is taken is counted. -/
theorem parseIn_cases (rooted : Open tree tree (-1, rootId)) (text : Text) (filename : Option Text)
    (isBuiltIn : Bool) :
    ∃ grown, Grown tree grown ∧
      ((∃ error, tree.parseIn text filename isBuiltIn = (grown, some error)) ∨
        tree.parseIn text filename isBuiltIn =
          ({ grown with
              filesParsed := tree.filesParsed ++ [filename]
              linesParsed := tree.linesParsed + (Text.lines text).length }, none)) := by
  rw [parseIn]
  split
  · exact ⟨tree, .refl, .inl ⟨_, rfl⟩⟩
  · next blocks read =>
      have sound : Growth.Sound tree { tree, ancestors := [(-1, rootId)] } :=
        ⟨.refl, .root, fun ancestor listed => by
          obtain rfl := List.mem_singleton.mp listed
          exact rooted⟩
      have feeds : Grown tree (Tree.attachAll filename isBuiltIn
          { tree, ancestors := [(-1, rootId)] } blocks).1 :=
        sound.attachAll blocks (Source.fit_of_blocks read)
      split
      · next grown error attached =>
          rw [attached] at feeds
          exact ⟨grown, feeds, .inl ⟨error, rfl⟩⟩
      · next grown attached =>
          rw [attached] at feeds
          exact ⟨grown, feeds, .inr rfl⟩

/-- Trees that files were fed to, one after the other. -/
inductive Built : Tree → Prop
  | empty : Built empty
  | parseIn {tree : Tree} (built : Built tree) (text : Text) (filename : Option Text)
      (isBuiltIn : Bool) : Built (tree.parseIn text filename isBuiltIn).1

theorem Built.rooted (built : Built tree) : Open tree tree (-1, rootId) := by
  induction built with
  | empty => exact ⟨Nat.zero_lt_one, rfl, rfl, .inl rfl⟩
  | @parseIn tree built text filename isBuiltIn ih =>
      obtain ⟨grown, feeds, ⟨error, result⟩ | result⟩ := parseIn_cases ih text filename isBuiltIn
      all_goals
        rw [result]
        obtain ⟨inside, depth, free, -⟩ := feeds.open_root ih
        exact ⟨inside, depth, free, .inl rfl⟩

/-- What holds of the empty tree, is kept by every block that is attached, and does not depend on the files
counted, holds of every tree that files were fed to. -/
theorem Built.induct {P : Tree → Prop} (empty : P Tree.empty)
    (attach : ∀ {start tree grown : Tree} {parent : NodeId} {indents : Int}, P tree →
      Attaches start tree grown parent indents → P grown)
    (count : ∀ {tree : Tree} (files : List (Option Text)) (lines : Nat), P tree →
      P { tree with filesParsed := files, linesParsed := lines }) (built : Built tree) : P tree := by
  induction built with
  | empty => exact empty
  | @parseIn tree built text filename isBuiltIn ih =>
      have keeps {grown : Tree} (feeds : Grown tree grown) : P grown := by
        induction feeds with
        | refl => exact ih
        | attach _ attaches before => exact attach before attaches
      obtain ⟨grown, feeds, ⟨error, result⟩ | result⟩ :=
        parseIn_cases built.rooted text filename isBuiltIn
      · rw [result]
        exact keeps feeds
      · rw [result]
        exact count _ _ (keeps feeds)

end Attaching

end TestTree.Tree
