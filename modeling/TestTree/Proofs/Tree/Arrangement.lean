import TestTree.Proofs.Tree.WellFormed
import Mathlib.Data.List.Nodup

namespace TestTree.Tree

variable {start tree grown : Tree} {parent : NodeId} {indents : Int}

/-- A node stands among the children of its parent, or in a block of its depth that does. -/
def Placed (tree : Tree) (id parent : NodeId) : Prop :=
  match (tree.node id).block with
  | none => id ∈ (tree.node parent).children
  | some block => block ∈ (tree.node parent).children ∧ id ∈ (tree.node block).members ∧
      (tree.node block).indents = (tree.node id).indents

/-- Every node knows its parent, and its parent, or a block below its parent, knows the node. -/
structure Nested (tree : Tree) : Prop where
  parent : ∀ id, id < tree.size → id ≠ rootId → ∃ parent, (tree.node id).parent = some parent ∧
    parent < id ∧ (tree.node id).indents = (tree.node parent).indents + 1 ∧ Placed tree id parent
  root : (tree.node rootId).block = none ∧ (tree.node rootId).parent = none
  child : ∀ id child, child ∈ (tree.node id).children → (tree.node child).parent = some id
  children : ∀ id, (tree.node id).children.Pairwise (· < ·)
  members : ∀ id members, (tree.node id).kind = .block members →
    2 ≤ members.length ∧ members.Pairwise (· < ·)
  member : ∀ id members, (tree.node id).kind = .block members → ∀ member ∈ members,
    (tree.node member).children = [] ∧
      (tree.node member).step.identifiers.isDeclaration = false ∧
      (tree.node member).step.codeBlock = none ∧ (tree.node member).step.hook = none
  unmarked : ∀ id, (tree.node id).isMarker = false
  treeHook : ∀ id, id < tree.size → (tree.node id).step.hook.any HookKind.isTreeLevel = true →
    id ∈ (tree.node rootId).children

theorem nested_empty : Nested empty := by
  have bare (id : NodeId) : (empty.node id).children = [] ∧ (empty.node id).members = [] ∧
      (empty.node id).isMarker = false := by
    cases id with
    | zero => exact ⟨rfl, rfl, rfl⟩
    | succ id => exact ⟨rfl, rfl, rfl⟩
  have noBlock (id : NodeId) (members : List NodeId) : (empty.node id).kind ≠ .block members := by
    cases id with
    | zero => exact NodeKind.noConfusion
    | succ id => exact NodeKind.noConfusion
  have only (id : NodeId) (inside : id < empty.size) : id = rootId := Nat.lt_one_iff.mp inside
  refine
    { parent := fun id inside notRoot => absurd (only id inside) notRoot
      root := ⟨rfl, rfl⟩
      child := fun id child listed => ?_
      children := fun id => ?_
      members := fun id members isBlock => absurd isBlock (noBlock id members)
      member := fun id members isBlock => absurd isBlock (noBlock id members)
      unmarked := fun id => (bare id).2.2
      treeHook := fun id inside isHook => ?_ }
  · rw [(bare id).1] at listed
    cases listed
  · rw [(bare id).1]
    exact .nil
  · obtain rfl := only id inside
    cases isHook

theorem Grafts.placed_of_lt (grafts : Grafts tree grown parent indents) (settled : WellFormed tree)
    {id above : NodeId} (before : id < tree.size) (placed : Placed tree id above) :
    Placed grown id above := by
  have keeps {child : NodeId} (listed : child ∈ (tree.node above).children) :
      child ∈ (grown.node above).children :=
    grafts.mem_children.mpr (.inl listed)
  have alike := grafts.frame before
  rw [Placed, alike.block, alike.indents]
  rw [Placed] at placed
  split at placed
  · exact keeps placed
  · obtain ⟨listed, member, level⟩ := placed
    have block := grafts.frame (settled.child _ _ listed).2.1
    refine ⟨keeps listed, ?_, block.indents.trans level⟩
    rw [Node.members, block.kind]
    exact member

theorem Grafts.placed_of_fresh (grafts : Grafts tree grown parent indents) {id : NodeId}
    (after : tree.size ≤ id) (bounded : id < grown.size) : Placed grown id parent := by
  have listed : tree.size ∈ (grown.node parent).children := grafts.mem_children.mpr (.inr ⟨rfl, rfl⟩)
  rcases Nat.eq_or_lt_of_le after with rfl | behind
  · rw [Placed, grafts.free]
    exact listed
  · have top := grafts.fresh _ (Nat.le_refl _) grafts.larger
    rw [Placed, (grafts.member id behind bounded).block]
    refine ⟨listed, ?_, top.indents.trans (grafts.fresh id after bounded).indents.symm⟩
    rcases grafts.top with ⟨-, lone⟩ | ⟨count, -, size, kind⟩
    · rw [lone] at bounded
      exact absurd behind (Nat.not_lt_of_le (Nat.le_of_lt_succ bounded))
    · rw [Node.members, kind]
      exact List.mem_range'_1.mpr ⟨behind, size ▸ bounded⟩

section Grow

variable (nested : Nested tree) (settled : WellFormed tree) (attaches : Attaches start tree grown parent indents)

include nested settled attaches

theorem Nested.parent_grow {id : NodeId} (bounded : id < grown.size) (notRoot : id ≠ rootId) :
    ∃ above, (grown.node id).parent = some above ∧ above < id ∧
      (grown.node id).indents = (grown.node above).indents + 1 ∧ Placed grown id above := by
  have grafts := attaches.toGrafts
  by_cases before : id < tree.size
  · obtain ⟨above, isParent, smaller, level, placed⟩ := nested.parent id before notRoot
    have alike := grafts.frame before
    refine ⟨above, alike.parent.trans isParent, smaller, ?_, grafts.placed_of_lt settled before placed⟩
    rw [alike.indents, (grafts.frame (Nat.lt_trans smaller before)).indents]
    exact level
  · have after := Nat.le_of_not_lt before
    have fresh := grafts.fresh id after bounded
    refine ⟨parent, fresh.parent, Nat.lt_of_lt_of_le grafts.inside after, ?_,
      grafts.placed_of_fresh after bounded⟩
    rw [fresh.indents, (grafts.frame grafts.inside).indents, attaches.opened.depth, Int.sub_add_cancel]

theorem Nested.member_grow {id member : NodeId} {members : List NodeId}
    (isBlock : (grown.node id).kind = .block members) (listed : member ∈ members) :
    (grown.node member).children = [] ∧ (grown.node member).step.identifiers.isDeclaration = false ∧
      (grown.node member).step.codeBlock = none ∧ (grown.node member).step.hook = none := by
  have grafts := attaches.toGrafts
  rcases grafts.isBlock isBlock with ⟨-, known⟩ | ⟨-, -, range, size⟩
  · obtain ⟨-, bounded, owned, -⟩ := settled.member id members known member listed
    have closed : parent ≠ member := fun same => by
      have free := attaches.opened.free
      dsimp only at free
      rw [same, owned] at free
      cases free
    rw [grafts.old member bounded, if_neg closed]
    exact nested.member id members known member listed
  · rw [range, List.mem_range'_1] at listed
    have bounded : member < grown.size := size ▸ listed.2
    have belongs := grafts.member member listed.1 bounded
    exact ⟨(grafts.fresh member (Nat.le_of_lt listed.1) bounded).children, belongs.undeclared,
      belongs.codeless, belongs.unhooked⟩

omit settled in
theorem Nested.treeHook_grow {id : NodeId} (bounded : id < grown.size)
    (isHook : (grown.node id).step.hook.any HookKind.isTreeLevel = true) :
    id ∈ (grown.node rootId).children := by
  have grafts := attaches.toGrafts
  rw [grafts.mem_children]
  rcases Nat.lt_trichotomy id tree.size with before | rfl | behind
  · rw [(grafts.frame before).step] at isHook
    exact .inl (nested.treeHook id before isHook)
  · exact .inr ⟨attaches.level (grafts.hook isHook), rfl⟩
  · rw [(grafts.member id behind bounded).unhooked] at isHook
    cases isHook

theorem Nested.grow : Nested grown := by
  have grafts := attaches.toGrafts
  refine
    { parent := fun _ => nested.parent_grow settled attaches
      root := ?_
      child := fun id child listed => ?_
      children := fun id => ?_
      members := fun id members isBlock => ?_
      member := fun _ _ isBlock _ => nested.member_grow settled attaches isBlock
      unmarked := fun id => ?_
      treeHook := fun _ => nested.treeHook_grow attaches }
  · have alike := grafts.frame settled.root_lt
    exact ⟨alike.block.trans nested.root.1, alike.parent.trans nested.root.2⟩
  · rcases grafts.mem_children.mp listed with old | ⟨rfl, rfl⟩
    · exact (grafts.frame (settled.child id child old).2.1).parent.trans (nested.child id child old)
    · exact (grafts.fresh _ (Nat.le_refl _) grafts.larger).parent
  · rw [grafts.children]
    split
    · refine List.pairwise_append.mpr ⟨nested.children id, List.pairwise_singleton _ _, ?_⟩
      intro old listed new added
      obtain rfl := List.mem_singleton.mp added
      exact (settled.child id old listed).2.1
    · exact nested.children id
  · rcases grafts.isBlock isBlock with ⟨-, known⟩ | ⟨-, several, range, -⟩
    · exact nested.members id members known
    · refine ⟨several, ?_⟩
      rw [range]
      exact List.pairwise_lt_range'
  · by_cases before : id < tree.size
    · have alike := grafts.frame before
      rw [Node.isMarker, alike.kind, alike.step]
      exact nested.unmarked id
    · by_cases bounded : id < grown.size
      · exact (grafts.fresh id (Nat.le_of_not_lt before) bounded).unmarked
      · rw [node_of_size_le (Nat.le_of_not_lt bounded)]
        rfl

end Grow

theorem Built.nested (built : Built tree) : WellFormed tree ∧ Nested tree :=
  built.induct (P := fun tree => WellFormed tree ∧ Nested tree) ⟨wellFormed_empty, nested_empty⟩
    (fun settled attaches => ⟨settled.1.grow attaches.toGrafts, settled.2.grow settled.1 attaches⟩)
    fun _ _ settled => ⟨⟨settled.1.root, settled.1.id, settled.1.kind, settled.1.child,
      settled.1.distinct, settled.1.filled, settled.1.member⟩, ⟨settled.2.parent, settled.2.root,
        settled.2.child, settled.2.children, settled.2.members, settled.2.member, settled.2.unmarked,
        settled.2.treeHook⟩⟩

/-- All children and all members, each as often as it stands somewhere. -/
def occurrences (tree : Tree) : List NodeId :=
  (List.range tree.size).flatMap fun id => (tree.node id).children ++ (tree.node id).members

/-- What the nodes of a tree are to each other. -/
structure Arranged (tree : Tree) : Prop where
  id : ∀ id, id < tree.size → (tree.node id).id = id
  parent : ∀ id, id < tree.size → id ≠ rootId → ∃ parent, (tree.node id).parent = some parent ∧
    parent < id ∧ (tree.node id).indents = (tree.node parent).indents + 1 ∧
    (id ∈ (tree.node parent).children ∨
      ∃ block, (∀ other, id ∈ (tree.node other).members ↔ other = block) ∧
        block ∈ (tree.node parent).children ∧
        (tree.node block).indents = (tree.node id).indents)
  once : ∀ id, tree.occurrences.count id = if id < tree.size ∧ id ≠ rootId then 1 else 0
  increasing : ∀ id, (tree.node id).children.Pairwise (· < ·) ∧
    (tree.node id).members.Pairwise (· < ·)
  member : ∀ id, ∀ member ∈ (tree.node id).members, (tree.node member).children = [] ∧
    (tree.node member).step.identifiers.isDeclaration = false ∧
    (tree.node member).step.codeBlock = none ∧ (tree.node member).step.hook = none
  several : ∀ id members, (tree.node id).kind = .block members → 2 ≤ members.length
  unmarked : ∀ id, (tree.node id).isMarker = false
  treeHook : ∀ id, id < tree.size → (tree.node id).step.hook.any HookKind.isTreeLevel = true →
    id ∈ (tree.node rootId).children

theorem kind_of_mem_members {node : Node} {member : NodeId} (listed : member ∈ node.members) :
    node.kind = .block node.members := by
  rw [Node.members] at listed ⊢
  cases kind : node.kind with
  | root => simp [kind] at listed
  | step => simp [kind] at listed
  | block members => rfl

theorem mem_members_iff (settled : WellFormed tree) {id block above : NodeId} (placed : Placed tree id above)
    (owned : (tree.node id).block = some block) (other : NodeId) :
    id ∈ (tree.node other).members ↔ other = block := by
  rw [Placed, owned] at placed
  constructor
  · intro listed
    have owned' := (settled.member other _ (kind_of_mem_members listed) id listed).2.2.1
    exact Option.some.inj (owned'.symm.trans owned)
  · rintro rfl
    exact placed.2.1

section Arranging

variable (settled : WellFormed tree) (nested : Nested tree)
include settled nested

theorem nodup_occurrences : tree.occurrences.Nodup := by
  refine List.nodup_flatMap.mpr ⟨fun id _ => ?_, List.nodup_range.imp fun {one other} different => ?_⟩
  · refine List.nodup_append.mpr ⟨settled.distinct id, ?_, ?_⟩
    · cases kind : (tree.node id).kind with
      | root => simp [Node.members, kind]
      | step => simp [Node.members, kind]
      | block members =>
          simp only [Node.members, kind]
          exact (settled.filled id members kind).2
    · rintro child isChild _ isMember rfl
      have owned := (settled.member id _ (kind_of_mem_members isMember) child isMember).2.2.1
      rw [(settled.child id child isChild).2.2] at owned
      cases owned
  · intro id inOne inOther
    rcases List.mem_append.mp inOne with child | member <;>
      rcases List.mem_append.mp inOther with child' | member'
    · exact different (Option.some.inj
        ((nested.child one id child).symm.trans (nested.child other id child')))
    · have owned := (settled.member other _ (kind_of_mem_members member') id member').2.2.1
      rw [(settled.child one id child).2.2] at owned
      cases owned
    · have owned := (settled.member one _ (kind_of_mem_members member) id member).2.2.1
      rw [(settled.child other id child').2.2] at owned
      cases owned
    · have owned := (settled.member one _ (kind_of_mem_members member) id member).2.2.1
      have owned' := (settled.member other _ (kind_of_mem_members member') id member').2.2.1
      exact different (Option.some.inj (owned.symm.trans owned'))

theorem mem_occurrences (id : NodeId) :
    id ∈ tree.occurrences ↔ id < tree.size ∧ id ≠ rootId := by
  rw [occurrences, List.mem_flatMap]
  constructor
  · rintro ⟨above, -, listed⟩
    rcases List.mem_append.mp listed with child | member
    · obtain ⟨below, bounded, -⟩ := settled.child above id child
      exact ⟨bounded, Nat.ne_of_gt (Nat.lt_of_le_of_lt (Nat.zero_le _) below)⟩
    · obtain ⟨below, bounded, -⟩ := settled.member above _ (kind_of_mem_members member) id member
      exact ⟨bounded, Nat.ne_of_gt (Nat.lt_of_le_of_lt (Nat.zero_le _) below)⟩
  · rintro ⟨bounded, notRoot⟩
    obtain ⟨above, -, smaller, -, placed⟩ := nested.parent id bounded notRoot
    rw [Placed] at placed
    cases owner : (tree.node id).block with
    | none =>
        rw [owner] at placed
        exact ⟨above, List.mem_range.mpr (Nat.lt_trans smaller bounded),
          List.mem_append_left _ placed⟩
    | some block =>
        rw [owner] at placed
        exact ⟨block, List.mem_range.mpr (settled.child above block placed.1).2.1,
          List.mem_append_right _ placed.2.1⟩

theorem arranged_of_nested : Arranged tree where
  id := settled.id
  parent := fun id bounded notRoot => by
    obtain ⟨above, isParent, smaller, level, placed⟩ := nested.parent id bounded notRoot
    refine ⟨above, isParent, smaller, level, ?_⟩
    cases owner : (tree.node id).block with
    | none =>
        rw [Placed, owner] at placed
        exact .inl placed
    | some block =>
        refine .inr ⟨block, mem_members_iff settled placed owner, ?_⟩
        rw [Placed, owner] at placed
        exact ⟨placed.1, placed.2.2⟩
  once := fun id => by
    split
    · next inside =>
        exact List.count_eq_one_of_mem (nodup_occurrences settled nested)
          ((mem_occurrences settled nested id).mpr inside)
    · next outside =>
        exact List.count_eq_zero_of_not_mem fun listed =>
          outside ((mem_occurrences settled nested id).mp listed)
  increasing := fun id => by
    refine ⟨nested.children id, ?_⟩
    cases kind : (tree.node id).kind with
    | root => simp [Node.members, kind]
    | step => simp [Node.members, kind]
    | block members =>
        simp only [Node.members, kind]
        exact (nested.members id members kind).2
  member := fun id member listed => nested.member id _ (kind_of_mem_members listed) member listed
  several := fun id members isBlock => (nested.members id members isBlock).1
  unmarked := nested.unmarked
  treeHook := nested.treeHook

end Arranging

/-- The tree `grown` counts the files and lines of `tree`, and has its nodes, but for more children of the
root behind those it had. -/
structure Keeps (tree grown : Tree) : Prop where
  files : grown.filesParsed = tree.filesParsed
  lines : grown.linesParsed = tree.linesParsed
  size : tree.size ≤ grown.size
  other : ∀ id, id < tree.size → id ≠ rootId → grown.node id = tree.node id
  root : ∃ more, grown.node rootId =
    { tree.node rootId with children := (tree.node rootId).children ++ more }

theorem Grown.keeps (feeds : Grown start grown) (rooted : rootId < start.size) :
    Keeps start grown := by
  induction feeds with
  | refl => exact ⟨rfl, rfl, Nat.le_refl _, fun _ _ _ => rfl, [], by rw [List.append_nil]⟩
  | @attach tree grown parent indents before attaches ih =>
      obtain ⟨more, root⟩ := ih.root
      have inside : rootId < tree.size := Nat.lt_of_lt_of_le rooted ih.size
      refine ⟨attaches.files.trans ih.files, attaches.lines.trans ih.lines,
        Nat.le_trans ih.size (Nat.le_of_lt attaches.larger), fun id old notRoot => ?_, ?_⟩
      · have apart : parent ≠ id := by
          rintro rfl
          rcases attaches.opened.recent with isRoot | recent
          · exact notRoot isRoot
          · exact Nat.not_lt_of_le recent old
        rw [attaches.old id (Nat.lt_of_lt_of_le old ih.size), if_neg apart]
        exact ih.other id old notRoot
      · rw [attaches.old rootId inside, root]
        split
        · exact ⟨more ++ [tree.size], by simp only [List.append_assoc]⟩
        · exact ⟨more, rfl⟩

/-- However many files are fed to a tree, and whichever of them are refused, the tree is arranged; and a file
that is refused only adds to it. -/
theorem Built.arranged (built : Built tree) :
    tree.Arranged ∧ ∀ text filename isBuiltIn error,
      (tree.parseIn text filename isBuiltIn).2 = some error →
        tree.Keeps (tree.parseIn text filename isBuiltIn).1 := by
  obtain ⟨settled, nested⟩ := built.nested
  refine ⟨arranged_of_nested settled nested, fun text filename isBuiltIn error failed => ?_⟩
  obtain ⟨grown, feeds, ⟨_, result⟩ | result⟩ := parseIn_cases built.rooted text filename isBuiltIn
  · rw [result]
    exact feeds.keeps settled.root_lt
  · rw [result] at failed
    cases failed

/-- A block with a step below it, and then a line that is too deep. -/
def frayed : Text := "A -\nB -\n\n    C -\n            D -".toList

theorem built_arranged_frayed :
    (empty.parseIn frayed none false).1.occurrences = [1, 4, 2, 3] ∧
      (empty.parseIn frayed none false).1.Arranged ∧
      ∃ error, ((empty.parseIn frayed none false).1.parseIn frayed none false).2 = some error ∧
        (empty.parseIn frayed none false).1.Keeps
          ((empty.parseIn frayed none false).1.parseIn frayed none false).1 := by
  have built : (empty.parseIn frayed none false).1.Built := .parseIn .empty _ _ _
  have refused : ((empty.parseIn frayed none false).1.parseIn frayed none false).2.isSome = true := by
    decide +kernel
  obtain ⟨error, failed⟩ := Option.isSome_iff_exists.mp refused
  have arranged := built.arranged
  exact ⟨by decide +kernel, arranged.1, error, failed, arranged.2 frayed none false error failed⟩

end TestTree.Tree
