import Mathlib.Data.List.Basic
import TestTree.Proofs.Branch.Expands

namespace TestTree

namespace Branch

variable {branch : Branch}

theorem nonParallelNode_isSome (placed : ∀ step ∈ branch.steps, step.origin.isSome = true) :
    branch.nonParallelNode.isSome = true ↔
      ∃ step ∈ branch.steps, step.identifiers.isNonParallel = true := by
  rw [nonParallelNode, List.findSome?_isSome_iff]
  constructor
  · rintro ⟨step, passed, found⟩
    split at found
    · next marked => exact ⟨step, passed, marked⟩
    · cases found
  · rintro ⟨step, passed, marked⟩
    exact ⟨step, passed, by rw [if_pos marked]; exact placed step passed⟩

end Branch

namespace Selection

theorem nonParallelId_inj {index other : Nat} :
    nonParallelId index = nonParallelId other ↔ index = other := by
  constructor
  · intro same
    have digits : Nat.toDigits 10 index = Nat.toDigits 10 other := by
      simpa only [Text.ofNat, Nat.toString_eq_repr, Nat.toList_repr] using List.append_cancel_left same
    have values := congrArg (Nat.ofDigitChars 10 · 0) digits
    simpa only [Nat.ofDigitChars_toDigits (by decide : 1 < 10) (Nat.le_refl 10)] using values
  · intro same
    rw [same]

/-- The nodes with an id only grow at their end, so each keeps its place among them. -/
theorem ids_of_assignIds (known : List NodeId) (branches : List Branch)
    (unnumbered : ∀ branch ∈ branches, branch.nonParallelId = none) :
    ∃ nodes, known <+: nodes ∧ ∀ branch ∈ assignIds known branches,
      branch.nonParallelId = branch.nonParallelNode.map (fun id => nonParallelId (nodes.idxOf id)) ∧
        ∀ id, branch.nonParallelNode = some id → id ∈ nodes := by
  fun_induction assignIds known branches with
  | case1 known => exact ⟨known, List.prefix_rfl, fun branch listed => by cases listed⟩
  | case2 known branch rest absent ih =>
      obtain ⟨nodes, grown, numbered⟩ := ih fun other listed => unnumbered other (.tail _ listed)
      refine ⟨nodes, grown, List.forall_mem_cons.mpr ⟨?_, numbered⟩⟩
      rw [unnumbered branch (.head _), absent]
      exact ⟨rfl, fun id found => by cases found⟩
  | case3 known branch rest id found ih =>
      obtain ⟨nodes, grown, numbered⟩ := ih fun other listed => unnumbered other (.tail _ listed)
      have placed : id ∈ (if id ∈ known then known else known ++ [id]) ∧
          (if id ∈ known then known else known ++ [id]).idxOf id = known.idxOf id ∧
          known <+: (if id ∈ known then known else known ++ [id]) := by
        split
        · next old => exact ⟨old, rfl, List.prefix_rfl⟩
        · next fresh =>
            refine ⟨by simp, ?_, List.prefix_append _ _⟩
            rw [List.idxOf_append_of_notMem fresh, List.idxOf_eq_length fresh]
            simp
      obtain ⟨member, place, longer⟩ := placed
      obtain ⟨others, rfl⟩ := grown
      refine ⟨_, longer.trans (List.prefix_append _ others), List.forall_mem_cons.mpr ⟨?_, numbered⟩⟩
      have kept : ({ branch with nonParallelId := some (nonParallelId (known.idxOf id)) } :
          Branch).nonParallelNode = some id := found
      rw [kept]
      refine ⟨?_, fun other same => ?_⟩
      · rw [Option.map_some, List.idxOf_append_of_mem member, place]
      · obtain rfl := Option.some.inj same
        exact List.mem_append_left others member

variable {tree : Tree} {options : BranchOptions} {branches : List Branch}

theorem unnumbered_of_select (settled : tree.WellFormed)
    (selected : select tree Tree.rootId options = .ok branches) {branch : Branch}
    (listed : branch ∈ branches) : branch.nonParallelId = none := by
  obtain ⟨expanded, debugNodes, found, rfl⟩ := select_eq selected
  have lasting : Expansion.Lasting fun branch => branch.nonParallelId = none :=
    ⟨rfl, fun before _ => before, fun _ _ _ _ before => before⟩
  have unnumbered := lasting.expand settled (fun _ _ => rfl) (fun _ _ _ => rfl) found
  obtain ⟨tagged, kept, same⟩ := exists_of_mem_isolateDebug Branch.nonParallelId (fun _ => rfl) listed
  obtain ⟨plain, among, rfl⟩ := List.mem_map.mp (List.mem_filter.mp kept).1
  exact same.trans (unnumbered plain among)

theorem placed_of_select (settled : tree.WellFormed)
    (selected : select tree Tree.rootId options = .ok branches) {branch : Branch}
    (listed : branch ∈ branches) : ∀ step ∈ branch.steps, step.origin.isSome = true := by
  obtain ⟨expanded, debugNodes, found, rfl⟩ := select_eq selected
  obtain ⟨tagged, kept, same⟩ := exists_of_mem_isolateDebug Branch.steps (fun _ => rfl) listed
  obtain ⟨plain, among, rfl⟩ := List.mem_map.mp (List.mem_filter.mp kept).1
  rw [same]
  exact Expansion.placed_of_expand settled found plain among

/-- A branch has an id exactly if it has a non-parallel step, and two branches share their id exactly
if their first non-parallel steps come from one node. -/
theorem nonParallelId_of_branchify (built : tree.Built)
    (branchified : branchify tree Tree.rootId options = .ok branches) {branch fellow : Branch}
    (listed : branch ∈ branches) (among : fellow ∈ branches) :
    (branch.nonParallelId.isSome = true ↔
        ∃ step ∈ branch.steps, step.identifiers.isNonParallel = true) ∧
      (branch.nonParallelId = fellow.nonParallelId ↔
        branch.nonParallelNode = fellow.nonParallelNode) := by
  obtain ⟨kept, selected, rfl⟩ := branchify_eq branchified
  obtain ⟨nodes, -, numbered⟩ := ids_of_assignIds [] kept
    fun branch => unnumbered_of_select built.wellFormed selected
  have placed : ∀ step ∈ branch.steps, step.origin.isSome = true := by
    have steps : (assignIds [] kept).map Branch.steps = kept.map Branch.steps :=
      map_assignIds (fun _ _ => rfl) [] kept
    have passed : branch.steps ∈ kept.map Branch.steps := steps ▸ List.mem_map_of_mem listed
    obtain ⟨plain, isKept, same⟩ := List.mem_map.mp passed
    rw [← same]
    exact placed_of_select built.wellFormed selected isKept
  obtain ⟨ids, inside⟩ := numbered branch listed
  obtain ⟨fellowIds, -⟩ := numbered fellow among
  constructor
  · rw [ids, Option.isSome_map]
    exact Branch.nonParallelNode_isSome placed
  · rw [ids, fellowIds]
    cases found : branch.nonParallelNode with
    | none => cases fellow.nonParallelNode <;> simp
    | some id =>
        cases fellow.nonParallelNode with
        | none => simp
        | some other => simp [nonParallelId_inj, List.idxOf_inj (inside id found)]

/-- A non-parallel step in a function that is called behind another such step and without one. -/
def detour : Tree :=
  .grown "A + -\n    F\n\nF\n\n* F\n    X + -"

theorem nonParallelId_of_branchify_detour :
    ∃ branches, branchify detour Tree.rootId {} = .ok branches ∧ branches.length = 2 ∧
      ∀ branch ∈ branches, ∀ fellow ∈ branches,
        (branch.nonParallelId.isSome = true ↔
            ∃ step ∈ branch.steps, step.identifiers.isNonParallel = true) ∧
          (branch.nonParallelId = fellow.nonParallelId ↔
            branch.nonParallelNode = fellow.nonParallelNode) := by
  have count : ((branchify detour Tree.rootId {}).toOption.map List.length) = some 2 := by
    decide +kernel
  cases branchified : branchify detour Tree.rootId {} with
  | error error => rw [branchified] at count; cases count
  | ok branches =>
      rw [branchified] at count
      exact ⟨branches, rfl, Option.some.inj count, fun branch listed fellow among =>
        nonParallelId_of_branchify (.parseIn .empty _ _ _) branchified listed among⟩

/-- Two branches that share a non-parallel step and yet have different ids. -/
theorem nonParallelId_ne_of_shared_step :
    ∃ branches branch fellow, branchify detour Tree.rootId {} = .ok branches ∧
      branch ∈ branches ∧ fellow ∈ branches ∧
      (∃ step ∈ branch.steps, ∃ other ∈ fellow.steps, step.identifiers.isNonParallel = true ∧
        other.identifiers.isNonParallel = true ∧ step.origin.isSome = true ∧
        step.origin = other.origin) ∧
      branch.nonParallelId ≠ fellow.nonParallelId := by
  have differ : ((branchify detour Tree.rootId {}).toOption.any fun branches =>
      branches.any fun branch => branches.any fun fellow =>
        decide ((∃ step ∈ branch.steps, ∃ other ∈ fellow.steps, step.identifiers.isNonParallel = true ∧
          other.identifiers.isNonParallel = true ∧ step.origin.isSome = true ∧
          step.origin = other.origin) ∧ branch.nonParallelId ≠ fellow.nonParallelId)) = true := by
    decide +kernel
  cases branchified : branchify detour Tree.rootId {} with
  | error error => rw [branchified] at differ; cases differ
  | ok branches =>
      rw [branchified, Except.toOption, Option.any_some] at differ
      obtain ⟨branch, listed, differ⟩ := List.any_eq_true.mp differ
      obtain ⟨fellow, among, differ⟩ := List.any_eq_true.mp differ
      obtain ⟨shared, different⟩ := of_decide_eq_true differ
      exact ⟨branches, branch, fellow, rfl, listed, among, shared, different⟩

end Selection

end TestTree
