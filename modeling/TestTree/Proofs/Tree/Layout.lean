import TestTree.Proofs.Tree.Grafting
import TestTree.Proofs.Tree.Grouping

namespace TestTree

open Source (Adjoins Block Cut Joins Line isBelowMarker)

/-- A node without its place in the tree. -/
def Node.bare (node : Node) : Node := { node with id := 0, parent := none, children := [] }

def Node.isStep (node : Node) : Bool := node.kind = .step

namespace Tree

section Rows

variable (filename : Option Text) (isBuiltIn : Bool)

/-- The node of a line that is in the block `owner`, or in none. -/
def lineRow (owner : Option NodeId) (line : Line) : Node :=
  { step := line.step, indents := line.indents, block := owner, isBuiltIn }

/-- The node above the lines of a block. -/
def headRow (id : NodeId) (isSequential : Bool) (block : Block) : Node :=
  { kind := .block ((List.range block.lines.length).map (id + 1 + ·))
    step := { filename, lineNumber := block.lineNumber, identifiers := { isSequential } }
    indents := block.indents }

/-- The nodes of a block, the first of which gets the index `id`. -/
def blockRows (id : NodeId) (isSequential : Bool) (block : Block) : List Node :=
  if block.others.isEmpty && !isSequential then [lineRow isBuiltIn none block.first]
  else headRow filename id isSequential block :: block.lines.map (lineRow isBuiltIn (some id))

/-- The nodes of blocks, the first of which gets the index `id`, and is below a marker if `isSequential`. -/
def rows : NodeId → Bool → List Block → List Node
  | _, _, [] => []
  | id, isSequential, block :: rest =>
      if block.isMarker then rows id true rest
      else
        blockRows filename isBuiltIn id isSequential block ++
          rows (id + (blockRows filename isBuiltIn id isSequential block).length) false rest

end Rows

/-- The nodes of a tree without their places in it. -/
def bareNodes (tree : Tree) : List Node := tree.nodes.toList.map Node.bare

variable {tree grown : Tree} {filename : Option Text} {isBuiltIn isSequential : Bool} {id : NodeId}
  {block : Block} {blocks : List Block}

theorem length_bareNodes (tree : Tree) : tree.bareNodes.length = tree.size := by
  rw [bareNodes, List.length_map, Array.length_toList, size]

theorem bareNodes_push (tree : Tree) (node : Node) :
    (tree.push node).bareNodes = tree.bareNodes ++ [node.bare] := by
  simp [bareNodes, push, Node.bare]

theorem bareNodes_pushLines (make : Line → Node) (lines : List Line) (tree : Tree) :
    (lines.foldl (fun tree line => tree.push (make line)) tree).bareNodes =
      tree.bareNodes ++ lines.map fun line => (make line).bare := by
  induction lines generalizing tree with
  | nil => simp
  | cons line rest ih =>
      rw [List.foldl_cons, ih, bareNodes_push, List.append_assoc]
      rfl

theorem bareNodes_pushBlock (parent : NodeId) :
    (pushBlock tree block filename parent isSequential isBuiltIn).bareNodes =
      tree.bareNodes ++ blockRows filename isBuiltIn tree.size isSequential block := by
  rw [pushBlock, blockRows]
  split
  · rw [bareNodes_push]
    rfl
  · rw [bareNodes_pushLines, bareNodes_push, List.append_assoc]
    rfl

theorem bareNodes_addChild (tree : Tree) (parent child : NodeId) :
    (tree.addChild parent child).bareNodes = tree.bareNodes := by
  apply List.ext_getElem?
  intro index
  simp only [bareNodes, addChild, List.getElem?_map, Array.getElem?_toList, Array.getElem?_modify]
  split
  · cases tree.nodes[index]? with
    | none => rfl
    | some node => rfl
  · rfl

/-- A file that is taken adds the rows of its blocks. -/
theorem bareNodes_attachAll {growth : Growth}
    (attached : attachAll filename isBuiltIn growth blocks = (grown, none)) :
    grown.bareNodes = growth.tree.bareNodes ++
      rows filename isBuiltIn growth.tree.size growth.nextIsSequential blocks := by
  induction blocks generalizing growth with
  | nil =>
      cases attached
      exact (List.append_nil _).symm
  | cons block rest ih =>
      rw [attachAll] at attached
      split at attached
      · next next one =>
          have later := ih attached
          obtain ⟨marker, rfl⟩ | ⟨marker, -, -, rfl⟩ := attach_cases one
          · rw [later, rows, if_pos marker]
          · have nodes : (pushBlock growth.tree block filename (growth.parentOf block.indents)
                growth.nextIsSequential isBuiltIn).bareNodes = growth.tree.bareNodes ++ _ :=
              bareNodes_pushBlock _
            have size := congrArg List.length nodes
            rw [List.length_append, length_bareNodes, length_bareNodes] at size
            rw [later, rows, if_neg (by simp [marker]), bareNodes_addChild, nodes, List.append_assoc,
              size_addChild, size]
      · cases attached

section Reading

variable {source : List Text}

/-- The line that a row is of. -/
def lineOf (node : Node) : Line := ⟨node.step, node.indents.toNat⟩

/-- Nodes that stand in one block exactly if what they stand for says so. -/
def Linked (source : List Text) (first second : Node) : Prop :=
  (∃ block, first.block = some block ∧ second.block = some block) ↔
    first.indents = second.indents ∧ Adjoins source first.step second.step

theorem linked_lineRow {one other : Option NodeId} {first second : Line} :
    Linked source (lineRow isBuiltIn one first) (lineRow isBuiltIn other second) ↔
      ((∃ block, one = some block ∧ other = some block) ↔ Joins source first second) := by
  rw [Linked, Joins, lineRow, lineRow, Int.natCast_inj]

/-- The lines of a block become steps in one block node, unless there is just one line. -/
theorem steps_blockRows (filename : Option Text) (isBuiltIn : Bool) (id : NodeId) (isSequential : Bool)
    (block : Block) :
    ∃ owner, (blockRows filename isBuiltIn id isSequential block).filter Node.isStep =
        block.lines.map (lineRow isBuiltIn owner) ∧
      (block.others ≠ [] → owner = some id) ∧ (owner = none ∨ owner = some id) := by
  have kept (owner : Option NodeId) (lines : List Line) :
      (lines.map (lineRow isBuiltIn owner)).filter Node.isStep =
        lines.map (lineRow isBuiltIn owner) := by
    apply List.filter_eq_self.mpr
    intro node listed
    obtain ⟨line, -, rfl⟩ := List.mem_map.mp listed
    rfl
  rw [blockRows]
  split
  · next lone =>
      rw [Bool.and_eq_true, List.isEmpty_iff] at lone
      refine ⟨none, ?_, fun several => absurd lone.1 several, .inl rfl⟩
      rw [Block.lines, lone.1]
      rfl
  · refine ⟨some id, ?_, fun _ => rfl, .inr rfl⟩
    have head : (headRow filename id isSequential block).isStep = false := rfl
    rw [List.filter_cons, head, kept]
    rfl

theorem lines_rows (filename : Option Text) (isBuiltIn : Bool) (blocks : List Block) (id : NodeId)
    (isSequential : Bool) :
    ((rows filename isBuiltIn id isSequential blocks).filter Node.isStep).map lineOf =
      (blocks.filter fun block => !block.isMarker).flatMap Block.lines := by
  induction blocks generalizing id isSequential with
  | nil => rfl
  | cons block rest ih =>
      rw [rows, List.filter_cons]
      cases marker : block.isMarker with
      | true => exact ih id true
      | false =>
          obtain ⟨owner, steps, -⟩ := steps_blockRows filename isBuiltIn id isSequential block
          have same (line : Line) : lineOf (lineRow isBuiltIn owner line) = line := rfl
          simp only [Bool.false_eq_true, if_false, Bool.not_false, if_true, List.filter_append,
            List.map_append, List.flatMap_cons, ih, steps, List.map_map, Function.comp_def, same,
            List.map_id']

theorem indents_rows (filename : Option Text) (isBuiltIn : Bool) (blocks : List Block) (id : NodeId)
    (isSequential : Bool) :
    ∀ node ∈ rows filename isBuiltIn id isSequential blocks, 0 ≤ node.indents := by
  induction blocks generalizing id isSequential with
  | nil =>
      intro node absent
      cases absent
  | cons block rest ih =>
      rw [rows]
      split
      · exact ih id true
      · intro node listed
        cases List.mem_append.mp listed with
        | inr later => exact ih _ _ node later
        | inl here =>
            rw [blockRows] at here
            split at here
            · obtain rfl := List.mem_singleton.mp here
              exact Int.natCast_nonneg _
            · cases List.mem_cons.mp here with
              | inl head =>
                  rw [head]
                  exact Int.natCast_nonneg _
              | inr member =>
                  obtain ⟨line, -, rfl⟩ := List.mem_map.mp member
                  exact Int.natCast_nonneg _

/-- The lines of a block are linked with each other, and not with the line above them. -/
theorem isChain_block {before : Option Line} {owner own : Option NodeId}
    (chain : block.lines.IsChain (Joins source))
    (apart : ∀ line ∈ before, ¬Joins source line block.first) (earlier : ∀ block ∈ owner, block < id)
    (several : block.others ≠ [] → own = some id) (whose : own = none ∨ own = some id) :
    ((before.map (lineRow isBuiltIn owner)).toList ++
      block.lines.map (lineRow isBuiltIn own)).IsChain (Linked source) := by
  apply List.isChain_append.mpr
  refine ⟨?_, ?_, ?_⟩
  · cases before with
    | none => exact .nil
    | some line => exact .singleton _
  · by_cases lone : block.others = []
    · rw [Block.lines, lone]
      exact .singleton _
    · rw [several lone]
      apply (List.isChain_map _).mpr
      apply chain.imp
      intro first second joins
      exact linked_lineRow.mpr (iff_of_true ⟨id, rfl, rfl⟩ joins)
  · intro one isLast other isFirst
    cases before with
    | none => cases isLast
    | some line =>
        obtain rfl := Option.mem_some_iff.mp isLast
        obtain rfl := Option.mem_some_iff.mp isFirst
        apply linked_lineRow.mpr
        refine iff_of_false ?_ (apart line rfl)
        rintro ⟨shared, same, same'⟩
        cases whose with
        | inl none => cases none.symm.trans same'
        | inr some =>
            obtain rfl := Option.some.inj (some.symm.trans same')
            exact Nat.lt_irrefl _ (earlier _ same)

/-- Steps that come one after the other are linked where the blocks are cut where their lines say so. -/
theorem isChain_rows {before : Option Line} {owner : Option NodeId}
    (cut : Cut source before isSequential blocks)
    (sound : ∀ block ∈ blocks, block.isMarker = true → block.blankAfter = false)
    (earlier : ∀ block ∈ owner, block < id) :
    ((before.map (lineRow isBuiltIn owner)).toList ++
      (rows filename isBuiltIn id isSequential blocks).filter Node.isStep).IsChain
        (Linked source) := by
  induction blocks generalizing before owner id isSequential with
  | nil =>
      rw [rows, List.filter_nil, List.append_nil]
      cases before with
      | none => exact .nil
      | some line => exact .singleton _
  | cons block rest ih =>
      obtain ⟨here, others⟩ := List.forall_mem_cons.mp sound
      rw [Cut] at cut
      rw [rows]
      split at cut
      · next marker =>
          rw [if_pos marker]
          rw [here marker] at cut
          exact ih cut others earlier
      · next plain =>
          obtain ⟨chain, apart, -, further⟩ := cut
          obtain ⟨own, steps, several, whose⟩ :=
            steps_blockRows filename isBuiltIn id isSequential block
          have joined : ((before.map (lineRow isBuiltIn owner)).toList ++
              block.lines.map (lineRow isBuiltIn own)).IsChain (Linked source) :=
            isChain_block chain apart earlier several whose
          have size : 0 < (blockRows filename isBuiltIn id isSequential block).length := by
            rw [blockRows]
            split
            · exact Nat.zero_lt_one
            · exact Nat.succ_pos _
          have behind : ∀ other ∈ own,
              other < id + (blockRows filename isBuiltIn id isSequential block).length := by
            intro other isOwner
            cases whose with
            | inl none => cases none ▸ isOwner
            | inr some =>
                obtain rfl := Option.mem_some_iff.mp (some ▸ isOwner)
                exact Nat.lt_add_of_pos_right size
          have later : ([lineRow isBuiltIn own block.last] ++
              (rows filename isBuiltIn (id + (blockRows filename isBuiltIn id isSequential block).length)
                false rest).filter Node.isStep).IsChain (Linked source) :=
            ih further others behind
          obtain ⟨front, split⟩ := List.getLast?_eq_some_iff.mp block.getLast?_lines
          rw [split, List.map_append, List.map_singleton] at steps joined
          rw [if_neg plain, List.filter_append, steps, List.append_assoc, ← List.append_assoc]
          rw [← List.append_assoc] at joined
          exact List.isChain_split.mpr ⟨joined, later⟩

/-- What a row says if it is a block node: its members start right behind it, and it is sequential exactly if
the first of them stands right below a marker. -/
def OpensBlock (source : List Text) (id : NodeId) (all : List Node) (index : Nat) (members : List NodeId)
    (node : Node) : Prop :=
  ∃ first others, all[index + 1]? = some first ∧ members = (id + index + 1) :: others ∧
    node.step.identifiers.isSequential = isBelowMarker source (first.step.lineNumber - 1)

theorem opensBlock_blockRows (below : isSequential = isBelowMarker source (block.lineNumber - 1))
    {index : Nat} {node : Node} {members : List NodeId} (later : List Node)
    (found : (blockRows filename isBuiltIn id isSequential block)[index]? = some node)
    (kind : node.kind = .block members) :
    OpensBlock source id (blockRows filename isBuiltIn id isSequential block ++ later) index members
      node := by
  rw [blockRows] at found ⊢
  split at found
  · obtain rfl := List.mem_singleton.mp (List.mem_of_getElem? found)
    cases kind
  · next several =>
      rw [if_neg several]
      cases index with
      | zero =>
          obtain rfl := Option.some.inj found
          obtain rfl := NodeKind.block.inj kind
          refine ⟨lineRow isBuiltIn (some id) block.first,
            ((List.range block.others.length).map Nat.succ).map (id + 1 + ·), rfl, ?_, below⟩
          rw [Block.lines, List.length_cons, List.range_succ_eq_map, List.map_cons]
      | succ index =>
          rw [List.getElem?_cons_succ] at found
          obtain ⟨line, -, rfl⟩ := List.mem_map.mp (List.mem_of_getElem? found)
          cases kind

theorem opensBlock_rows {before : Option Line} (cut : Cut source before isSequential blocks)
    (sound : ∀ block ∈ blocks, block.isMarker = true → block.blankAfter = false) {index : Nat}
    {node : Node} {members : List NodeId}
    (found : (rows filename isBuiltIn id isSequential blocks)[index]? = some node)
    (kind : node.kind = .block members) :
    OpensBlock source id (rows filename isBuiltIn id isSequential blocks) index members node := by
  induction blocks generalizing before id isSequential index with
  | nil => cases found
  | cons block rest ih =>
      obtain ⟨here, others⟩ := List.forall_mem_cons.mp sound
      rw [Cut] at cut
      rw [rows] at found ⊢
      split at cut
      · next marker =>
          rw [if_pos marker] at found ⊢
          rw [here marker] at cut
          exact ih cut others found
      · next plain =>
          obtain ⟨-, -, below, further⟩ := cut
          rw [if_neg plain] at found ⊢
          by_cases inside : index < (blockRows filename isBuiltIn id isSequential block).length
          · rw [List.getElem?_append_left inside] at found
            exact opensBlock_blockRows below _ found kind
          · obtain ⟨later, rfl⟩ := Nat.exists_eq_add_of_le (Nat.le_of_not_lt inside)
            rw [List.getElem?_append_right (Nat.le_add_right _ _), Nat.add_sub_cancel_left] at found
            obtain ⟨first, behind, isFirst, starts, sequential⟩ := ih further others found
            refine ⟨first, behind, ?_, ?_, sequential⟩
            · rw [Nat.add_assoc, List.getElem?_append_right (Nat.le_add_right _ _),
                Nat.add_sub_cancel_left]
              exact isFirst
            · rw [starts, Nat.add_assoc id]

end Reading

end Tree

end TestTree
