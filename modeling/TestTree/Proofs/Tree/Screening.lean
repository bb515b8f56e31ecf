import TestTree.Proofs.Tree.Layout

namespace TestTree

namespace Tree

open Source (Block Line Reads)

/-- A property of steps that the reader of lines guarantees, whatever their code blocks and places are. -/
structure Guaranteed (holds : Step → Prop) : Prop where
  nameless (filename : Option Text) (lineNumber : Nat) (isSequential : Bool) :
    holds { filename, lineNumber, identifiers := { isSequential } }
  line {line : Text} {filename : Option Text} {number : Nat} {parsed : Step.ParsedLine} :
    Step.parseLine line filename number = .ok parsed → holds parsed.step
  coded {step : Step} (code : Text) : holds step → holds { step with codeBlock := some code }

variable {holds : Step → Prop} {tree : Tree} {filename : Option Text} {isBuiltIn isSequential : Bool} {block : Block}
  {blocks : List Block}

theorem Guaranteed.blockRows (guaranteed : Guaranteed holds) (lines : ∀ line ∈ block.lines, holds line.step)
    (id : NodeId) : ∀ node ∈ blockRows filename isBuiltIn id isSequential block, holds node.step := by
  rw [Tree.blockRows]
  split
  · exact List.forall_mem_singleton.mpr (lines block.first (.head _))
  · exact List.forall_mem_cons.mpr ⟨guaranteed.nameless filename block.lineNumber isSequential,
      List.forall_mem_map.mpr lines⟩

/-- A file adds only steps of its lines, whether or not all its blocks fit. -/
theorem Guaranteed.attachAll (guaranteed : Guaranteed holds)
    (lines : ∀ block ∈ blocks, block.isMarker = false → ∀ line ∈ block.lines, holds line.step)
    {growth : Growth} (old : ∀ node ∈ growth.tree.bareNodes, holds node.step) :
    ∀ node ∈ (attachAll filename isBuiltIn growth blocks).1.bareNodes, holds node.step := by
  induction blocks generalizing growth with
  | nil => exact old
  | cons block rest ih =>
      rw [Tree.attachAll]
      split
      · next next attached =>
          apply ih fun other listed => lines other (.tail _ listed)
          obtain ⟨-, rfl⟩ | ⟨unmarked, -, -, rfl⟩ := attach_cases attached
          · exact old
          · intro node listed
            rw [bareNodes_addChild, bareNodes_pushBlock] at listed
            rcases List.mem_append.mp listed with before | added
            · exact old node before
            · exact guaranteed.blockRows (lines block (.head _) unmarked) _ node added
      · exact old

theorem Guaranteed.reads (guaranteed : Guaranteed holds) {source : List Text} {index : Nat} {line : Line}
    (reads : Reads source filename index line) : holds line.step := by
  obtain ⟨parsed, read, step⟩ := reads.step
  rw [step]
  split
  · exact guaranteed.coded _ (guaranteed.line read)
  · exact guaranteed.line read

theorem Guaranteed.lines (guaranteed : Guaranteed holds) {text : Text}
    (accepted : Source.blocks filename text = .ok blocks) :
    ∀ block ∈ blocks, block.isMarker = false → ∀ line ∈ block.lines, holds line.step := by
  obtain ⟨-, -, reads⟩ := Source.blocks_cases accepted
  intro block listed unmarked line within
  have among : line ∈ (blocks.filter fun block => !block.isMarker).flatMap Block.lines :=
    List.mem_flatMap.mpr ⟨block, List.mem_filter.mpr ⟨listed, by simp [unmarked]⟩, within⟩
  have kept := reads.flip.imp fun line index read => And.intro (guaranteed.reads read) read
  exact ((List.forall₂_and_left _ _).mp kept).1 line among

theorem Guaranteed.bareNodes (guaranteed : Guaranteed holds) (built : tree.Built) :
    ∀ node ∈ tree.bareNodes, holds node.step := by
  induction built with
  | empty => exact List.forall_mem_singleton.mpr (guaranteed.nameless none 0 false)
  | @parseIn tree built text filename isBuiltIn ih =>
      rw [parseIn]
      split
      · exact ih
      · next blocks read =>
          have grown : ∀ node ∈
              (Tree.attachAll filename isBuiltIn { tree, ancestors := [(-1, rootId)] } blocks).1.bareNodes,
              holds node.step := guaranteed.attachAll (guaranteed.lines read) ih
          split
          · next attached =>
              rw [attached] at grown
              exact grown
          · next attached =>
              rw [attached] at grown
              exact grown

/-- What the reader of lines guarantees holds of every step in a tree. -/
theorem Guaranteed.node (guaranteed : Guaranteed holds) (built : tree.Built) (id : NodeId) :
    holds (tree.node id).step := by
  rw [Tree.node]
  cases found : tree.nodes[id]? with
  | none => exact guaranteed.nameless none 0 false
  | some node =>
      have listed : node.bare ∈ tree.bareNodes :=
        List.mem_map_of_mem (Array.mem_toList_iff.mpr (Array.mem_of_getElem? found))
      exact guaranteed.bareNodes built node.bare listed

theorem guaranteed_checkSpecial :
    Guaranteed fun step => ∀ assignment ∈ step.assignments, assignment.checkSpecial = .ok () where
  nameless _ _ _ assignment absent := by cases absent
  line := Step.checkSpecial_of_parseLine
  coded _ checked := checked

end Tree

end TestTree
