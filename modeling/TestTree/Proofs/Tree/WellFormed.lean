import TestTree.Proofs.Tree.Grafting

namespace TestTree.Tree

variable {tree grown : Tree} {parent : NodeId} {indents : Int}

/-- Hooks and declarations have no branches of their own. -/
def isSilent (tree : Tree) (id : NodeId) : Bool :=
  (tree.node id).step.identifiers.isDeclaration || (tree.node id).step.hook.isSome

structure WellFormed (tree : Tree) : Prop where
  root : (tree.node rootId).kind = .root
  id : ∀ id, id < tree.size → (tree.node id).id = id
  kind : ∀ id, id ≠ rootId → (tree.node id).kind ≠ .root
  child : ∀ id child, child ∈ (tree.node id).children →
    id < child ∧ child < tree.size ∧ (tree.node child).block = none
  distinct : ∀ id, (tree.node id).children.Nodup
  filled : ∀ id members, (tree.node id).kind = .block members → members ≠ [] ∧ members.Nodup
  member : ∀ id members, (tree.node id).kind = .block members → ∀ member ∈ members,
    id < member ∧ member < tree.size ∧ (tree.node member).block = some id ∧
      tree.isSilent member = false

theorem WellFormed.root_lt (settled : WellFormed tree) : rootId < tree.size := by
  by_cases inside : rootId < tree.size
  · exact inside
  · have root := settled.root
    rw [node_of_size_le (Nat.le_of_not_lt inside)] at root
    cases root

theorem wellFormed_empty : WellFormed empty := by
  have size : empty.size = 1 := rfl
  have bare (id : NodeId) : (empty.node id).children = [] ∧
      ((empty.node id).kind = .root ∨ (empty.node id).kind = .step) := by
    cases id with
    | zero => exact ⟨rfl, .inl rfl⟩
    | succ id => exact ⟨rfl, .inr rfl⟩
  refine ⟨rfl, ?_, ?_, ?_, ?_, ?_, ?_⟩
  · intro id inside
    obtain rfl : id = 0 := Nat.lt_one_iff.mp inside
    rfl
  · intro id notRoot
    cases id with
    | zero => exact absurd rfl notRoot
    | succ id => exact NodeKind.noConfusion
  · intro id child found
    rw [(bare id).1] at found
    cases found
  · intro id
    rw [(bare id).1]
    exact List.nodup_nil
  · intro id members isBlock
    rcases (bare id).2 with root | step <;> simp_all
  · intro id members isBlock
    rcases (bare id).2 with root | step <;> simp_all

theorem WellFormed.grow (settled : WellFormed tree) (grafts : Grafts tree grown parent indents) :
    WellFormed grown := by
  have within := grafts.larger
  have silent (id : NodeId) (before : id < tree.size) : grown.isSilent id = tree.isSilent id := by
    rw [isSilent, isSilent, (grafts.frame before).step]
  refine ⟨?_, ?_, ?_, ?_, ?_, ?_, ?_⟩
  · rw [(grafts.frame settled.root_lt).kind]
    exact settled.root
  · intro id bounded
    by_cases before : id < tree.size
    · rw [(grafts.frame before).id]
      exact settled.id id before
    · exact (grafts.fresh id (Nat.le_of_not_lt before) bounded).id
  · intro id notRoot
    rcases Nat.lt_trichotomy id tree.size with before | rfl | behind
    · rw [(grafts.frame before).kind]
      exact settled.kind id notRoot
    · rcases grafts.top with ⟨lone, -⟩ | ⟨_, _, _, several⟩
      · rw [lone]
        exact NodeKind.noConfusion
      · rw [several]
        exact NodeKind.noConfusion
    · by_cases bounded : id < grown.size
      · rw [(grafts.member id behind bounded).kind]
        exact NodeKind.noConfusion
      · rw [node_of_size_le (Nat.le_of_not_lt bounded)]
        exact NodeKind.noConfusion
  · intro id child found
    rcases grafts.mem_children.mp found with listed | ⟨rfl, rfl⟩
    · obtain ⟨below, bounded, free⟩ := settled.child id child listed
      exact ⟨below, Nat.lt_trans bounded within, (grafts.frame bounded).block.trans free⟩
    · exact ⟨grafts.inside, within, grafts.free⟩
  · intro id
    rw [grafts.children]
    split
    · refine List.nodup_append.mpr ⟨settled.distinct id, by simp, ?_⟩
      intro child listed added isAdded same
      obtain rfl := List.mem_singleton.mp isAdded
      subst same
      exact Nat.lt_irrefl _ (settled.child id _ listed).2.1
    · exact settled.distinct id
  · intro id members isBlock
    rcases grafts.isBlock isBlock with ⟨-, known⟩ | ⟨-, several, range, -⟩
    · exact settled.filled id members known
    · refine ⟨List.ne_nil_of_length_pos (Nat.lt_of_lt_of_le Nat.zero_lt_two several), ?_⟩
      rw [range]
      exact List.nodup_range'
  · intro id members isBlock member listed
    rcases grafts.isBlock isBlock with ⟨-, known⟩ | ⟨rfl, -, range, size⟩
    · obtain ⟨below, bounded, owned, spoken⟩ := settled.member id members known member listed
      exact ⟨below, Nat.lt_trans bounded within, (grafts.frame bounded).block.trans owned,
        (silent member bounded).trans spoken⟩
    · rw [range, List.mem_range'_1] at listed
      have bounded : member < grown.size := size ▸ listed.2
      have belongs := grafts.member member listed.1 bounded
      exact ⟨listed.1, bounded, belongs.block,
        by simp [isSilent, belongs.undeclared, belongs.unhooked]⟩

theorem Built.wellFormed (built : Built tree) : WellFormed tree :=
  built.induct wellFormed_empty (fun settled attaches => settled.grow attaches.toGrafts)
    fun _ _ settled => ⟨settled.root, settled.id, settled.kind, settled.child, settled.distinct,
      settled.filled, settled.member⟩

end TestTree.Tree
