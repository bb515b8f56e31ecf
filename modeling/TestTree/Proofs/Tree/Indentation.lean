import TestTree.Proofs.Tree.Arrangement
import TestTree.Proofs.Tree.Layout

/-!
The tree that the indentation says. The steps that a file adds are its lines that say steps, in order; lines
share a block where their blocks are cut, a node hangs below the last one that is one level less deep, and a
block is sequential below a marker.
-/
namespace TestTree.Tree

open Source (Block Fit isBelowMarker Adjoins)

variable {start tree grown : Tree} {id parent : NodeId} {indents : Int} {filename : Option Text}
  {isBuiltIn : Bool} {text : Text}

/-- The parent of a node that was added to `start`: the root, or the last node of its own above it that is one
level less deep. A member of a block is no node of its own. -/
structure HangsBelow (start tree : Tree) (id parent : NodeId) : Prop where
  isParent : (tree.node id).parent = some parent
  top : (tree.node id).indents = 0 → parent = rootId
  nearest : (tree.node id).indents ≠ 0 → start.size ≤ parent ∧ parent < id ∧
    (tree.node parent).block = none ∧ (tree.node parent).indents + 1 = (tree.node id).indents ∧
    ∀ later, parent < later → later < id → (tree.node later).block = none →
      (tree.node later).indents + 1 ≠ (tree.node id).indents

theorem HangsBelow.mono (grafts : Grafts tree grown parent indents) {above : NodeId}
    (inside : id < tree.size) (hangs : HangsBelow start tree id above) :
    HangsBelow start grown id above := by
  have alike := grafts.frame inside
  refine ⟨alike.parent.trans hangs.isParent, ?_, ?_⟩
  · rw [alike.indents]
    exact hangs.top
  · rw [alike.indents]
    intro deep
    obtain ⟨new, smaller, free, level, between⟩ := hangs.nearest deep
    have same := grafts.frame (Nat.lt_trans smaller inside)
    refine ⟨new, smaller, same.block.trans free, same.indents.symm ▸ level, ?_⟩
    intro later behind before
    have same := grafts.frame (Nat.lt_trans before inside)
    rw [same.block, same.indents]
    exact between later behind before

/-- A growing tree in which every open node is the last one of its depth: what stands behind it is deeper. -/
structure Growth.Nearest (start : Tree) (growth : Growth) : Prop where
  deeper : ∀ ancestor ∈ growth.ancestors, ∀ later, start.size ≤ later → ancestor.2 < later →
    later < growth.tree.size → (growth.tree.node later).block = none →
      ancestor.1 < (growth.tree.node later).indents
  hangs : ∀ id, start.size ≤ id → id < growth.tree.size →
    ∃ parent, HangsBelow start growth.tree id parent

theorem Descends.le {stack : List (Int × NodeId)} (descends : Descends stack) :
    ∀ top ∈ stack.head?, ∀ ancestor ∈ stack, ancestor.1 ≤ top.1 := by
  induction descends with
  | root =>
      intro top isTop ancestor listed
      obtain rfl := Option.mem_some_iff.mp isTop
      obtain rfl := List.mem_singleton.mp listed
      exact Int.le_refl _
  | @inner depth id child outer descends ih =>
      intro top isTop ancestor listed
      obtain rfl := Option.mem_some_iff.mp isTop
      cases List.mem_cons.mp listed with
      | inl same => exact same ▸ Int.le_refl _
      | inr outer =>
          have below := ih _ rfl ancestor outer
          dsimp only at below ⊢
          omega

/-- The nodes of a block hang below the node that it is attached to. -/
theorem Attaches.hangs (attaches : Attaches start tree grown parent indents)
    (rooted : Open start tree (-1, rootId))
    (deeper : ∀ later, start.size ≤ later → parent < later → later < tree.size →
      (tree.node later).block = none → indents - 1 < (tree.node later).indents)
    (after : tree.size ≤ id) (bounded : id < grown.size) : HangsBelow start grown id parent := by
  have grafts := attaches.toGrafts
  have fresh := grafts.fresh id after bounded
  have inside : parent < tree.size := attaches.opened.inside
  have depth : (tree.node parent).indents = indents - 1 := attaches.opened.depth
  have alike := grafts.frame inside
  refine ⟨fresh.parent, ?_, ?_⟩
  · rw [fresh.indents]
    exact attaches.level
  · rw [fresh.indents]
    intro deep
    have new : start.size ≤ parent := by
      cases attaches.opened.recent with
      | inr new => exact new
      | inl root =>
          have lowest : (tree.node rootId).indents = -1 := rooted.depth
          dsimp only at root
          rw [root, lowest] at depth
          omega
    refine ⟨new, Nat.lt_of_lt_of_le inside after, alike.block.trans attaches.opened.free, ?_, ?_⟩
    · rw [alike.indents, depth]
      omega
    · intro later behind before free
      have between : indents - 1 < (grown.node later).indents := by
        by_cases old : later < tree.size
        · have same := grafts.frame old
          rw [same.indents]
          exact deeper later (Nat.le_trans new (Nat.le_of_lt behind)) behind old
            (same.block.symm.trans free)
        · rw [(grafts.fresh later (Nat.le_of_not_lt old) (Nat.lt_trans before bounded)).indents]
          omega
      omega

theorem Growth.Nearest.attach {growth next : Growth} {block : Block} {rest : List Block}
    (nearest : growth.Nearest start) (sound : growth.Sound start)
    (rooted : Open start start (-1, rootId)) (fit : Fit growth.nextIsSequential (block :: rest))
    (attached : Tree.attach filename isBuiltIn growth block = .ok next) : next.Nearest start := by
  obtain ⟨-, ⟨same, still⟩ | ⟨parent, outer, attaches, stack, descends, listed⟩⟩ :=
    sound.attaches fit attached
  · constructor
    · rw [same, still]
      exact nearest.deeper
    · rw [same]
      exact nearest.hangs
  · have grafts := attaches.toGrafts
    have parentDeeper := nearest.deeper _ (listed _ (.head _))
    constructor
    · rw [stack]
      intro ancestor found later new behind bounded free
      by_cases old : later < growth.tree.size
      · have same := grafts.frame old
        rw [same.indents]
        rw [same.block] at free
        cases List.mem_cons.mp found with
        | inl top =>
            rw [top] at behind
            exact absurd behind (Nat.not_lt_of_lt old)
        | inr open' => exact nearest.deeper ancestor (listed ancestor open') later new behind old free
      · cases List.mem_cons.mp found with
        | inl top =>
            rw [top] at behind
            rw [(grafts.member later behind bounded).block] at free
            cases free
        | inr open' =>
            have level := descends.le _ rfl ancestor open'
            rw [(grafts.fresh later (Nat.le_of_not_lt old) bounded).indents]
            dsimp only at level
            omega
    · intro id new bounded
      by_cases old : id < growth.tree.size
      · obtain ⟨above, hangs⟩ := nearest.hangs id new old
        exact ⟨above, hangs.mono grafts old⟩
      · refine ⟨parent, ?_⟩
        apply attaches.hangs (sound.feeds.open_root rooted) _ (Nat.le_of_not_lt old) bounded
        exact parentDeeper

theorem hangs_attachAll {growth : Growth} {blocks : List Block} (nearest : growth.Nearest start)
    (sound : growth.Sound start) (rooted : Open start start (-1, rootId))
    (fit : Fit growth.nextIsSequential blocks)
    (attached : attachAll filename isBuiltIn growth blocks = (grown, none)) :
    ∀ id, start.size ≤ id → id < grown.size → ∃ parent, HangsBelow start grown id parent := by
  induction blocks generalizing growth with
  | nil =>
      cases attached
      exact nearest.hangs
  | cons block rest ih =>
      rw [attachAll] at attached
      split at attached
      · next next one =>
          obtain ⟨still, fits⟩ := sound.attach fit one
          exact ih (nearest.attach sound rooted fit one) still fits attached
      · cases attached

section Nodes

variable (tree start : Tree)

/-- The nodes of a tree that were added to `start`. -/
def newNodes : List NodeId := List.range' start.size (tree.size - start.size)

/-- Those of them that are steps. -/
def newSteps : List NodeId := (tree.newNodes start).filter fun id => (tree.node id).isStep

end Nodes

/-- A step holds what a line says, and stands as deep as the white space in front of the line, which has four
characters for each level and no tab. -/
structure Holds (tree : Tree) (filename : Option Text) (source : List Text) (index : Nat) (id : NodeId) : Prop where
  lineNumber : (tree.node id).step.lineNumber = index + 1
  reads : ∃ line, Source.Reads source filename index line ∧
    (tree.node id).step = line.step ∧ (tree.node id).indents = line.indents
  depth : ((Source.margin (Source.lineAt source index)).length : Int) = 4 * (tree.node id).indents
  untabbed : '\t' ∉ Source.margin (Source.lineAt source index)

/-- What the lines of a file, which was added to `start`, say of the nodes that were added for them. -/
structure Indented (start tree : Tree) (filename : Option Text) (source : List Text) : Prop where
  lines : List.Forall₂ (Holds tree filename source) (Source.stepLines source) (tree.newSteps start)
  blocks : (tree.newSteps start).IsChain fun first second =>
    (∃ block, first ∈ (tree.node block).members ∧ second ∈ (tree.node block).members) ↔
      (tree.node first).indents = (tree.node second).indents ∧
        Adjoins source (tree.node first).step (tree.node second).step
  parents : ∀ id ∈ tree.newNodes start, ∃ parent, HangsBelow start tree id parent
  sequential : ∀ id ∈ tree.newNodes start, ∀ members, (tree.node id).kind = .block members →
    ∃ first others, members = first :: others ∧
      (tree.node id).step.identifiers.isSequential =
        isBelowMarker source ((tree.node first).step.lineNumber - 1)

theorem mem_newNodes : id ∈ tree.newNodes start ↔ start.size ≤ id ∧ id < tree.size := by
  rw [newNodes, List.mem_range'_1]
  apply and_congr_right
  intro new
  obtain ⟨index, rfl⟩ := Nat.exists_eq_add_of_le new
  rw [Nat.add_lt_add_iff_left, Nat.lt_sub_iff_add_lt']

section Growing

variable {added : List Node} (grew : tree.bareNodes = start.bareNodes ++ added)
include grew

theorem size_of_grew : tree.size = start.size + added.length := by
  rw [← length_bareNodes, grew, List.length_append, length_bareNodes]

theorem getElem?_added {index : Nat} (inside : index < added.length) :
    added[index]? = some (tree.node (start.size + index)).bare := by
  have bounded : start.size + index < tree.nodes.size := by
    rw [show tree.nodes.size = tree.size from rfl, size_of_grew grew]
    exact Nat.add_lt_add_left inside _
  have found : tree.bareNodes[start.size + index]? = some (tree.node (start.size + index)).bare := by
    simp [bareNodes, Tree.node, bounded]
  rwa [grew, ← length_bareNodes, List.getElem?_append_right (Nat.le_add_right _ _),
    Nat.add_sub_cancel_left, length_bareNodes] at found

theorem map_newNodes : (tree.newNodes start).map (fun id => (tree.node id).bare) = added := by
  apply List.ext_getElem?
  intro index
  rw [newNodes, List.getElem?_map, size_of_grew grew, Nat.add_sub_cancel_left]
  by_cases inside : index < added.length
  · rw [List.getElem?_range' inside, getElem?_added grew inside, Nat.one_mul]
    rfl
  · have outside := Nat.le_of_not_lt inside
    rw [List.getElem?_eq_none outside, List.getElem?_eq_none (by simpa using outside)]
    rfl

theorem map_newSteps :
    (tree.newSteps start).map (fun id => (tree.node id).bare) = added.filter Node.isStep := by
  rw [← map_newNodes grew, List.filter_map]
  rfl

end Growing

/-- A step knows the block that it is a member of. -/
theorem mem_members_iff_block (settled : WellFormed tree) (nested : Nested tree) (inside : id < tree.size)
    (notRoot : id ≠ rootId) (block : NodeId) :
    id ∈ (tree.node block).members ↔ (tree.node id).block = some block := by
  constructor
  · intro listed
    exact (settled.member block _ (kind_of_mem_members listed) id listed).2.2.1
  · intro owned
    obtain ⟨above, -, -, -, placed⟩ := nested.parent id inside notRoot
    exact (mem_members_iff settled placed owned block).mpr rfl

section Indenting

variable {blocks : List Block} {source : List Text}

theorem forall₂_newSteps (grew : tree.bareNodes = start.bareNodes ++
      rows filename isBuiltIn start.size false blocks)
    (reads : List.Forall₂ (Source.Reads source filename) (Source.stepLines source)
      ((blocks.filter fun block => !block.isMarker).flatMap Block.lines)) :
    List.Forall₂ (Holds tree filename source) (Source.stepLines source) (tree.newSteps start) := by
  have steps := map_newSteps grew
  have deep : ∀ id ∈ tree.newSteps start, 0 ≤ (tree.node id).indents := by
    intro id listed
    have row : (tree.node id).bare ∈ (rows filename isBuiltIn start.size false blocks).filter
        Node.isStep := steps ▸ List.mem_map_of_mem listed
    have deep : 0 ≤ (tree.node id).bare.indents :=
      indents_rows filename isBuiltIn blocks start.size false _ (List.mem_filter.mp row).1
    exact deep
  rw [← lines_rows filename isBuiltIn blocks start.size false, ← steps, List.map_map,
    List.forall₂_map_right_iff] at reads
  have below := (List.forall₂_and_left _ _).mpr ⟨deep, reads.flip⟩
  have both := (List.forall₂_and_left _ _).mpr ⟨fun _ => id, below.flip⟩
  apply both.imp
  intro index id ⟨listed, above, told⟩
  have level : ((tree.node id).indents.toNat : Int) = (tree.node id).indents := Int.toNat_of_nonneg above
  obtain ⟨filled, spoken⟩ := Source.spoken_of_mem_stepLines listed
  obtain ⟨size, -, untabbed⟩ := Source.length_margin filled spoken told.indents
  have size : (Source.margin (Source.lineAt source index)).length = (tree.node id).indents.toNat * 4 := size
  exact ⟨told.lineNumber, ⟨_, told, rfl, level.symm⟩, by omega, untabbed⟩

theorem isChain_newSteps (settled : WellFormed tree) (nested : Nested tree)
    (grew : tree.bareNodes = start.bareNodes ++ rows filename isBuiltIn start.size false blocks)
    (inside : rootId < start.size) (cut : Source.Cut source none false blocks)
    (sound : ∀ block ∈ blocks, block.isMarker = true → block.blankAfter = false) :
    (tree.newSteps start).IsChain fun first second =>
      (∃ block, first ∈ (tree.node block).members ∧ second ∈ (tree.node block).members) ↔
        (tree.node first).indents = (tree.node second).indents ∧
          Adjoins source (tree.node first).step (tree.node second).step := by
  have chain : ((Option.map (lineRow isBuiltIn none) none).toList ++
      (rows filename isBuiltIn start.size false blocks).filter Node.isStep).IsChain
        (Linked source) :=
    isChain_rows cut sound fun block absent => by cases absent
  rw [Option.map_none, Option.toList_none, List.nil_append, ← map_newSteps grew,
    List.isChain_map] at chain
  have member (id : NodeId) (listed : id ∈ tree.newSteps start) (block : NodeId) :
      id ∈ (tree.node block).members ↔ (tree.node id).block = some block := by
    obtain ⟨new, bounded⟩ := mem_newNodes.mp (List.mem_filter.mp listed).1
    exact mem_members_iff_block settled nested bounded
      (Nat.ne_of_gt (Nat.lt_of_lt_of_le inside new)) block
  apply chain.imp_of_mem_imp
  intro first second isFirst isSecond linked
  simp only [member first isFirst, member second isSecond]
  exact linked

theorem sequential_newNodes
    (grew : tree.bareNodes = start.bareNodes ++ rows filename isBuiltIn start.size false blocks)
    (cut : Source.Cut source none false blocks)
    (sound : ∀ block ∈ blocks, block.isMarker = true → block.blankAfter = false) :
    ∀ id ∈ tree.newNodes start, ∀ members, (tree.node id).kind = .block members →
      ∃ first others, members = first :: others ∧
        (tree.node id).step.identifiers.isSequential =
          isBelowMarker source ((tree.node first).step.lineNumber - 1) := by
  intro id listed members kind
  obtain ⟨new, bounded⟩ := mem_newNodes.mp listed
  obtain ⟨index, rfl⟩ := Nat.exists_eq_add_of_le new
  have inside : index < (rows filename isBuiltIn start.size false blocks).length := by
    rw [size_of_grew grew] at bounded
    exact Nat.lt_of_add_lt_add_left bounded
  obtain ⟨first, others, isFirst, starts, sequential⟩ :=
    opensBlock_rows cut sound (getElem?_added grew inside) kind
  have row := getElem?_added grew (List.getElem?_eq_some_iff.mp isFirst).1
  obtain rfl := Option.some.inj (isFirst.symm.trans row)
  exact ⟨_, others, starts, sequential⟩

end Indenting

theorem parseIn_accepted (accepted : (start.parseIn text filename isBuiltIn).2 = none) :
    ∃ blocks grown files lines, Source.blocks filename text = .ok blocks ∧
      attachAll filename isBuiltIn { tree := start, ancestors := [(-1, rootId)] } blocks =
        (grown, none) ∧
      (start.parseIn text filename isBuiltIn).1 =
        { grown with filesParsed := files, linesParsed := lines } := by
  rw [parseIn] at accepted ⊢
  cases read : Source.blocks filename text with
  | error error =>
      rw [read] at accepted
      cases accepted
  | ok blocks =>
      rw [read] at accepted
      dsimp only at accepted ⊢
      split at accepted
      · cases accepted
      · next grown attached => exact ⟨blocks, grown, _, _, rfl, attached, rfl⟩

/-- A file that is accepted adds the nodes that its lines, by their indents, say. -/
theorem indented_of_parseIn (built : start.Built)
    (accepted : (start.parseIn text filename isBuiltIn).2 = none) :
    Indented start (start.parseIn text filename isBuiltIn).1 filename (Text.lines text) := by
  obtain ⟨settled, nested⟩ := (Built.parseIn built text filename isBuiltIn).nested
  obtain ⟨blocks, grown, files, lines, read, attached, same⟩ := parseIn_accepted accepted
  obtain ⟨cut, sound, reads⟩ := Source.blocks_cases read
  have rooted := built.rooted
  have sprouts : Growth.Sound start { tree := start, ancestors := [(-1, rootId)] } := by
    refine ⟨.refl, .root, ?_⟩
    intro ancestor listed
    exact List.mem_singleton.mp listed ▸ rooted
  have nearest : Growth.Nearest start { tree := start, ancestors := [(-1, rootId)] } := by
    constructor
    · intro _ _ later new _ bounded
      exact absurd bounded (Nat.not_lt_of_le new)
    · intro id new bounded
      exact absurd bounded (Nat.not_lt_of_le new)
  have grew : grown.bareNodes = start.bareNodes ++ rows filename isBuiltIn start.size false blocks :=
    bareNodes_attachAll attached
  rw [same] at settled nested ⊢
  refine
    { lines := forall₂_newSteps grew reads
      blocks := isChain_newSteps settled nested grew rooted.inside cut sound
      parents := ?_
      sequential := sequential_newNodes grew cut sound }
  intro id listed
  obtain ⟨new, bounded⟩ := mem_newNodes.mp listed
  obtain ⟨parent, hangs⟩ :=
    hangs_attachAll nearest sprouts rooted (Source.fit_of_blocks read) attached id new bounded
  exact ⟨parent, hangs.isParent, hangs.top, hangs.nearest⟩

/-- A sequence below a marker with a comment in between, two steps below it, and a function with its code. -/
def orchard : Text :=
  "..\n// both\nA -\nB -\n\n    C -\n\n        E -\n\n* F \x7b\n    ..\n\n\x7d\nD -".toList

theorem indented_of_parseIn_orchard :
    (empty.parseIn orchard none false).2 = none ∧
      Source.stepLines (Text.lines orchard) = [2, 3, 5, 7, 9, 13] ∧
      (empty.parseIn orchard none false).1.newSteps empty = [2, 3, 4, 5, 6, 7] ∧
      ((empty.parseIn orchard none false).1.newNodes empty).map (fun id =>
          let node := (empty.parseIn orchard none false).1.node id
          (node.indents, node.parent, node.block)) =
        [(0, some 0, none), (0, some 0, some 1), (0, some 0, some 1), (1, some 1, none), (2, some 4, none),
          (0, some 0, none), (0, some 0, none)] ∧
      Indented empty (empty.parseIn orchard none false).1 none (Text.lines orchard) := by
  have accepted : (empty.parseIn orchard none false).2 = none := by decide +kernel
  exact ⟨accepted, by decide +kernel, by decide +kernel, by decide +kernel, indented_of_parseIn .empty accepted⟩

end TestTree.Tree
