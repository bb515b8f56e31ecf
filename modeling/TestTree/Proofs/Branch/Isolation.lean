import TestTree.Proofs.Branch.Pruning

namespace TestTree

/-- Some branch passes through a step to debug that comes from a node. -/
def Debugs (branches : List Branch) (id : NodeId) : Prop :=
  ∃ branch ∈ branches, branch.debugs id = true

theorem Branch.debugs_append (branch next : Branch) (id : NodeId) :
    (branch.append next).debugs id = (branch.debugs id || next.debugs id) :=
  List.any_append

theorem Branch.debugs_eraseOnly (branch : Branch) (id : NodeId) :
    branch.eraseOnly.debugs id = branch.debugs id := by
  simp [debugs, eraseOnly, BranchStep.eraseOnly, Function.comp_def]

namespace Debugs

variable {first second branches : List Branch} {groups : List (List Branch)} {id : NodeId}

theorem append : Debugs (first ++ second) id ↔ Debugs first id ∨ Debugs second id := by
  simp only [Debugs, List.mem_append, or_and_right, exists_or]

theorem cross (left : first ≠ []) (right : second ≠ []) :
    Debugs (Expansion.cross first second) id ↔ Debugs first id ∨ Debugs second id := by
  constructor
  · rintro ⟨branch, listed, marked⟩
    obtain ⟨start, isLeft, rest, isRight, rfl⟩ := Expansion.mem_cross.mp listed
    rw [Branch.debugs_append, Bool.or_eq_true] at marked
    exact marked.imp (fun marked => ⟨start, isLeft, marked⟩) fun marked => ⟨rest, isRight, marked⟩
  · obtain ⟨start, isLeft⟩ := List.exists_mem_of_ne_nil first left
    obtain ⟨rest, isRight⟩ := List.exists_mem_of_ne_nil second right
    rintro (⟨branch, listed, marked⟩ | ⟨branch, listed, marked⟩)
    · refine ⟨_, Expansion.mem_cross.mpr ⟨branch, listed, rest, isRight, rfl⟩, ?_⟩
      rw [Branch.debugs_append, marked, Bool.true_or]
    · refine ⟨_, Expansion.mem_cross.mpr ⟨start, isLeft, branch, listed, rfl⟩, ?_⟩
      rw [Branch.debugs_append, marked, Bool.or_true]

theorem sequence (inhabited : ∀ group ∈ groups, group ≠ []) :
    Debugs (Expansion.sequence groups) id ↔ Debugs groups.flatten id := by
  have general (start : List Branch) (some : start ≠ []) :
      Debugs (groups.foldl Expansion.cross start) id ↔ Debugs start id ∨ Debugs groups.flatten id := by
    induction groups generalizing start with
    | nil => simp [Debugs]
    | cons group rest ih =>
        have here := inhabited group (.head _)
        rw [List.foldl_cons, List.flatten_cons, append, ← or_assoc, ← cross some here]
        exact ih (fun other listed => inhabited other (.tail _ listed)) _
          (Expansion.cross_ne_nil some here)
  have bare : ¬ Debugs [{}] id := by simp [Debugs, Branch.debugs]
  rw [Expansion.sequence, general [{}] (List.cons_ne_nil _ _), or_iff_right bare]

theorem choose (isSequential : Bool) (inhabited : ∀ group ∈ groups, group ≠ [])
    (unmarked : ∀ group ∈ groups, ∀ branch ∈ group, branch.hasOnlyStep = false) :
    Debugs (Expansion.choose isSequential groups) id ↔ Debugs groups.flatten id := by
  cases isSequential with
  | true => exact sequence inhabited
  | false =>
      have kept : Expansion.choose false groups = groups.flatten :=
        Expansion.keepOnly_of_unmarked fun branch listed => by
          obtain ⟨group, among, within⟩ := List.mem_flatten.mp listed
          exact unmarked group among branch within
      rw [kept]

theorem followedBy (isSequential : Bool) (some : first ≠ [])
    (inhabited : ∀ group ∈ groups, group ≠ [])
    (unmarked : ∀ group ∈ groups, ∀ branch ∈ group, branch.hasOnlyStep = false) :
    Debugs (Expansion.followedBy first isSequential groups) id ↔
      Debugs first id ∨ Debugs groups.flatten id := by
  rw [Expansion.followedBy]
  split
  · next empty =>
    rw [List.isEmpty_iff.mp empty]
    simp [Debugs]
  · next several =>
    rw [cross some (Expansion.choose_ne_nil isSequential inhabited (by simpa using several)),
      choose isSequential inhabited unmarked]

theorem attachHooks (tree : Tree) (node : NodeId) :
    Debugs (Expansion.attachHooks tree node branches) id ↔ Debugs branches id := by
  simp only [Debugs, Expansion.attachHooks, List.mem_map, exists_exists_and_eq_and]
  rfl

end Debugs

namespace Expansion

variable {tree : Tree} {options : BranchOptions} {body : Option BodyExpander} {position : Position}
  {id : NodeId} {branches own : List Branch} {groups : List (List Branch)}
  {debugNodes inner : List NodeId}

/-- Groups of branches that pass through steps to debug from exactly these nodes, and through no step
to run alone. -/
structure Reported (groups : List (List Branch)) (debugNodes : List NodeId) : Prop where
  inhabited : ∀ group ∈ groups, group ≠ []
  unmarked : ∀ group ∈ groups, ∀ branch ∈ group, branch.hasOnlyStep = false
  debugs (id : NodeId) : id ∈ debugNodes ↔ Debugs groups.flatten id

theorem lasting_unmarked : Lasting fun branch => branch.hasOnlyStep = false where
  empty := rfl
  append before after := by rw [Branch.hasOnlyStep_append, before, after, Bool.or_false]
  hooked _ _ _ _ unmarked := unmarked

namespace Reported

theorem nil : Reported [] [] where
  inhabited group listed := by cases listed
  unmarked group listed := by cases listed
  debugs id := by simp [Debugs]

theorem cons (first : Reported [branches] debugNodes) (others : Reported groups inner) :
    Reported (branches :: groups) (debugNodes ++ inner) where
  inhabited := List.forall_mem_cons.mpr ⟨first.inhabited _ (.head _), others.inhabited⟩
  unmarked := List.forall_mem_cons.mpr ⟨first.unmarked _ (.head _), others.unmarked⟩
  debugs id := by
    rw [List.mem_append, first.debugs, others.debugs, List.flatten_singleton, List.flatten_cons,
      Debugs.append]

theorem eq_nil (reported : Reported [] debugNodes) : debugNodes = [] := by
  refine List.eq_nil_iff_forall_not_mem.mpr fun id met => ?_
  obtain ⟨branch, listed, -⟩ := (reported.debugs id).mp met
  cases listed

theorem attachHooks (reported : Reported [branches] debugNodes) (tree : Tree) (node : NodeId) :
    Reported [attachHooks tree node branches] debugNodes where
  inhabited := by
    simp only [Expansion.attachHooks, List.forall_mem_singleton, ne_eq, List.map_eq_nil_iff]
    exact reported.inhabited _ (.head _)
  unmarked := List.forall_mem_singleton.mpr
    (lasting_unmarked.attachHooks (reported.unmarked _ (.head _)))
  debugs id := by
    rw [reported.debugs, List.flatten_singleton, List.flatten_singleton, Debugs.attachHooks]

theorem followedBy (isSequential : Bool) (first : Reported [own] debugNodes)
    (others : Reported groups inner) :
    Reported [followedBy own isSequential groups] (debugNodes ++ inner) where
  inhabited := List.forall_mem_singleton.mpr
    (followedBy_ne_nil _ (first.inhabited _ (.head _)) others.inhabited)
  unmarked := List.forall_mem_singleton.mpr
    (lasting_unmarked.followedBy _ (first.unmarked _ (.head _)) others.unmarked)
  debugs id := by
    rw [List.mem_append, first.debugs, others.debugs, List.flatten_singleton, List.flatten_singleton,
      Debugs.followedBy _ (first.inhabited _ (.head _)) others.inhabited others.unmarked]

theorem choose (isSequential : Bool) (reported : Reported groups debugNodes) (some : groups ≠ []) :
    Reported [choose isSequential groups] debugNodes where
  inhabited := List.forall_mem_singleton.mpr (choose_ne_nil _ reported.inhabited some)
  unmarked := List.forall_mem_singleton.mpr (lasting_unmarked.choose _ reported.unmarked)
  debugs id := by
    rw [reported.debugs, List.flatten_singleton,
      Debugs.choose _ reported.inhabited reported.unmarked]

/-- A step is reported under the node that it comes from. -/
theorem single {step : BranchStep} (unmarked : step.identifiers.isOnly = false)
    (placed : step.identifiers.isDebug = true → step.origin = some id)
    (checked : checkFlags options id step = .ok debugNodes) :
    Reported [[{ steps := [step] }]] debugNodes where
  inhabited := by simp
  unmarked := by simp [Branch.hasOnlyStep, unmarked]
  debugs other := by
    rw [checkFlags] at checked
    split at checked
    · cases checked
    · obtain rfl := Except.ok.inj checked
      cases marked : step.identifiers.isDebug with
      | false => simp [Debugs, Branch.debugs, marked]
      | true => simpa [Debugs, Branch.debugs, marked, placed marked] using eq_comm

end Reported

/-- An expander of bodies that meets the nodes to debug of the branches it finds. -/
def Reports (body : Option BodyExpander) : Prop :=
  ∀ expander, body = some expander → ∀ position declaration groups debugNodes,
    expander position declaration = .ok (groups, debugNodes) → Reported groups debugNodes

/-- No step of the tree is to run alone. -/
def NoneAlone (tree : Tree) : Prop := ∀ id, (tree.node id).step.identifiers.isOnly = false

theorem noneAlone_eraseOnly (tree : Tree) : NoneAlone tree.eraseOnly := by
  intro id
  rw [Tree.identifiers_eraseOnly]

theorem placed_of_marked (settled : tree.WellFormed) (id : NodeId)
    (marked : (tree.node id).step.identifiers ≠ {}) : (tree.node id).id = id := by
  rcases Nat.lt_or_ge id tree.size with inside | outside
  · exact settled.id id inside
  · rw [Tree.node_of_size_le outside] at marked
    exact absurd rfl marked

theorem expandOwn_reported (settled : tree.WellFormed) (unmarked : NoneAlone tree)
    (reports : Reports body) {found : Own}
    (expanded : expandOwn tree options body position id = .ok found) :
    Reported [found.branches] found.debugNodes := by
  cases expandOwn_eq_ok.mp expanded with
  | plain plain allowed =>
      refine .single (unmarked id) (fun marked => ?_) allowed
      have placed := placed_of_marked settled id fun bare => by
        simp [BranchStep.ofNode, BranchStep.ofStep, bare] at marked
      simp [BranchStep.ofNode, placed]
  | @call declaration expander debugNodes inner groups calls resolved fresh nested allowed found =>
      have placed := placed_of_marked settled id fun bare => by simp [bare] at calls
      refine .attachHooks (.followedBy _ (.single ?_ (fun _ => ?_) allowed)
        (reports _ nested _ _ _ _ found)) _ _
      · simp [callStep, BranchStep.ofNode, BranchStep.ofStep, unmarked id, unmarked declaration]
      · simp [callStep, BranchStep.ofNode, placed]

theorem expandMembers_reported (settled : tree.WellFormed) (unmarked : NoneAlone tree)
    (reports : Reports body) (members : List NodeId)
    (expanded : expandMembers tree options body position members = .ok (groups, debugNodes)) :
    Reported groups debugNodes ∧ (members ≠ [] → groups ≠ []) := by
  induction members generalizing groups debugNodes with
  | nil =>
      obtain ⟨rfl, rfl⟩ := Prod.mk.inj (Except.ok.inj expanded)
      exact ⟨.nil, fun some => absurd rfl some⟩
  | cons member rest ih =>
      obtain ⟨own, others, inner, first, behind, rfl, rfl⟩ := expandMembers_cons.mp expanded
      exact ⟨.cons (expandOwn_reported settled unmarked reports first) (ih behind).1,
        fun _ => List.cons_ne_nil _ _⟩

mutual

theorem expandNode_reported (settled : tree.WellFormed) (unmarked : NoneAlone tree)
    (reports : Reports body) {position : Position} {branches : List Branch} {debugNodes : List NodeId} :
    ∀ outline, expandNode tree options body position outline = .ok (branches, debugNodes) →
      branches = [] ∧ debugNodes = [] ∨ Reported [branches] debugNodes
  | .node id children, expanded => by
      cases expandNode_eq_ok.mp expanded with
      | @root groups debugNodes kind below =>
          have behind := expandChildren_reported settled unmarked reports children below
          cases groups with
          | nil => exact .inl ⟨rfl, behind.eq_nil⟩
          | cons group rest =>
              exact .inr ((behind.choose false (List.cons_ne_nil _ _)).attachHooks tree id)
      | block kind alone below =>
          have behind := expandChildren_reported settled unmarked reports children below
          obtain ⟨members, some⟩ := expandMembers_reported settled unmarked reports _ alone
          have first := members.choose (tree.node id).step.identifiers.isSequential
            (some (settled.filled id _ kind).1)
          exact .inr ((first.followedBy false behind).attachHooks tree id)
      | silent kind silent => exact .inl ⟨rfl, rfl⟩
      | step kind spoken alone below =>
          have behind := expandChildren_reported settled unmarked reports children below
          have first := expandOwn_reported settled unmarked reports alone
          exact .inr ((first.followedBy _ behind).attachHooks tree id)

theorem expandChildren_reported (settled : tree.WellFormed) (unmarked : NoneAlone tree)
    (reports : Reports body) {position : Position} {groups : List (List Branch)}
    {debugNodes : List NodeId} :
    ∀ outlines, expandChildren tree options body position outlines = .ok (groups, debugNodes) →
      Reported groups debugNodes
  | [], expanded => by
      obtain ⟨rfl, rfl⟩ := Prod.mk.inj (Except.ok.inj expanded)
      exact .nil
  | .node id children :: rest, expanded => by
      cases expandChildren_cons.mp expanded with
      | silent silent leaf others => exact expandChildren_reported settled unmarked reports rest others
      | @spoken branches groups debugNodes inner spoken first others =>
          have behind := expandChildren_reported settled unmarked reports rest others
          rcases expandNode_reported settled unmarked reports (.node id children) first with
            ⟨rfl, rfl⟩ | here
          · exact behind
          · have some := here.inhabited branches (.head _)
            rw [if_neg (by simpa using some)]
            exact here.cons behind

end

theorem reports_bodyExpander (settled : tree.WellFormed) (unmarked : NoneAlone tree)
    (options : BranchOptions) (depth : Nat) :
    Reports (bodyExpander tree options depth) := by
  induction depth with
  | zero =>
      intro expander absent
      cases absent
  | succ depth ih =>
      intro expander present
      obtain rfl := Option.some.inj present
      intro position declaration groups debugNodes expanded
      exact expandChildren_reported settled unmarked ih _ expanded

/-- Without marks to run alone, the nodes to debug that an expansion meets are those it ends up with. -/
theorem mem_debugNodes (settled : tree.WellFormed) (unmarked : NoneAlone tree)
    (expanded : expand tree options id = .ok (branches, debugNodes))
    (node : NodeId) : node ∈ debugNodes ↔ Debugs branches node := by
  rcases expandNode_reported settled unmarked (reports_bodyExpander settled unmarked _ _) _ expanded
    with ⟨rfl, rfl⟩ | reported
  · simp [Debugs]
  · rw [reported.debugs, List.flatten_singleton]

end Expansion

theorem Branch.hasDebugStep_of_debugs {branch : Branch} {id : NodeId}
    (debugs : branch.debugs id = true) : branch.hasDebugStep = true := by
  obtain ⟨step, passed, marked⟩ := List.any_eq_true.mp debugs
  rw [Bool.and_eq_true] at marked
  exact List.any_eq_true.mpr ⟨step, passed, marked.1⟩

theorem Branch.debugs_of_hasDebugStep {branch : Branch}
    (placed : ∀ step ∈ branch.steps, step.origin.isSome = true)
    (debugs : branch.hasDebugStep = true) : ∃ id, branch.debugs id = true := by
  obtain ⟨step, passed, marked⟩ := List.any_eq_true.mp debugs
  obtain ⟨id, origin⟩ := Option.isSome_iff_exists.mp (placed step passed)
  exact ⟨id, List.any_eq_true.mpr ⟨step, passed, by simp [marked, origin]⟩⟩

namespace Selection

variable {tree : Tree} {options : BranchOptions} {id : NodeId} {branches full : List Branch}
  {debugNodes : List NodeId}

/-- The branches that are left by the restrictions, in the order of the expansion. -/
def kept (options : BranchOptions) (branches : List Branch) : List Branch :=
  (branches.map Branch.tag).filter (·.isSelected options)

theorem checkDebugNodes_cases (tree : Tree) (branches : List Branch) (ids : List NodeId) :
    (∀ id ∈ ids, Debugs branches id) ∧ checkDebugNodes tree branches ids = .ok () ∨
      (∃ id ∈ ids, ¬ Debugs branches id) ∧ ∃ error,
        checkDebugNodes tree branches ids = .error error ∧ error.kind = .configuration := by
  induction ids with
  | nil => exact .inl ⟨fun id listed => (by cases listed), rfl⟩
  | cons id rest ih =>
      rw [checkDebugNodes]
      by_cases debugs : branches.any (·.debugs id) = true
      · rw [if_pos debugs]
        refine ih.imp (fun ⟨all, checked⟩ => ⟨?_, checked⟩) fun ⟨⟨other, listed, lost⟩, failed⟩ => ?_
        · exact List.forall_mem_cons.mpr ⟨List.any_eq_true.mp debugs, all⟩
        · exact ⟨⟨other, .tail _ listed, lost⟩, failed⟩
      · rw [if_neg debugs]
        exact .inr ⟨⟨id, .head _, fun found => debugs (List.any_eq_true.mpr found)⟩, _, rfl, rfl⟩

theorem branchify_of_expand
    (expanded : Expansion.expand tree options id = .ok (branches, debugNodes)) :
    branchify tree id options = (checkDebugNodes tree (kept options branches) debugNodes).map
      fun _ => assignIds [] (isolateDebug (kept options branches)) := by
  rw [branchify, select, expanded, kept]
  simp only [bind, Except.bind]
  cases checkDebugNodes tree ((branches.map Branch.tag).filter (·.isSelected options)) debugNodes <;>
    rfl

theorem exists_of_mem_kept {branch : Branch} (listed : branch ∈ kept options branches) :
    ∃ plain ∈ branches, branch = plain.tag := by
  obtain ⟨plain, among, rfl⟩ := List.mem_map.mp (List.mem_filter.mp listed).1
  exact ⟨plain, among, rfl⟩

theorem isDebug_of_kept (settled : tree.WellFormed)
    (expanded : Expansion.expand tree options Tree.rootId = .ok (branches, debugNodes)) :
    ∀ branch ∈ assignIds [] (kept options branches), branch.isDebug = false := by
  have lasting : Expansion.Lasting fun branch => branch.isDebug = false :=
    ⟨rfl, fun before _ => before, fun _ _ _ _ before => before⟩
  have plain := lasting.expand settled (fun _ _ => rfl) (fun _ _ _ => rfl) expanded
  intro branch listed
  have marks : (assignIds [] (kept options branches)).map Branch.isDebug =
      (kept options branches).map Branch.isDebug := map_assignIds (fun _ _ => rfl) [] _
  have among : branch.isDebug ∈ (kept options branches).map Branch.isDebug :=
    marks ▸ List.mem_map_of_mem listed
  obtain ⟨left, isLeft, same⟩ := List.mem_map.mp among
  obtain ⟨bare, inside, rfl⟩ := exists_of_mem_kept isLeft
  exact same.symm.trans (plain bare inside)

/-- What the restrictions leave passes through steps to debug only where the erased tree does. -/
theorem debugs_of_kept (settled : tree.WellFormed)
    (expanded : Expansion.expand tree options Tree.rootId = .ok (branches, debugNodes))
    (erased : Expansion.expand tree.eraseOnly options Tree.rootId = .ok (full, debugNodes))
    {branch : Branch} (listed : branch ∈ kept options branches)
    (debugs : branch.hasDebugStep = true) : ∃ id, Debugs full id := by
  obtain ⟨plain, among, rfl⟩ := exists_of_mem_kept listed
  have placed := Expansion.placed_of_expand settled expanded plain among
  obtain ⟨id, debugs⟩ : ∃ id, plain.debugs id = true := Branch.debugs_of_hasDebugStep placed debugs
  have inside := (Expansion.expand_sublist settled expanded erased).mem (List.mem_map_of_mem among)
  exact ⟨id, _, inside, (plain.debugs_eraseOnly id).trans debugs⟩

/-- Steps to debug leave the first branch with any of them, unless one of them was left out. -/
theorem branchify_isolates (built : tree.Built)
    (expanded : Expansion.expand tree options Tree.rootId = .ok (branches, debugNodes)) :
    ∃ full, Expansion.expand tree.eraseOnly options Tree.rootId = .ok (full, debugNodes) ∧
      ((∀ id, ¬ Debugs full id) →
        branchify tree Tree.rootId options = .ok (assignIds [] (kept options branches)) ∧
          ∀ branch ∈ assignIds [] (kept options branches), branch.isDebug = false) ∧
      ((∃ id, Debugs full id) →
        ((∃ error, branchify tree Tree.rootId options = .error error ∧
            error.kind = .configuration) ↔
          ∃ id, Debugs full id ∧ ¬ Debugs (kept options branches) id) ∧
        ((∀ id, Debugs full id → Debugs (kept options branches) id) →
          ∃ first, (kept options branches).find? Branch.hasDebugStep = some first ∧
            branchify tree Tree.rootId options =
              .ok (assignIds [] [{ first with isDebug := true }]))) := by
  obtain ⟨full, erased⟩ := Expansion.expand_eraseOnly expanded
  have met := Expansion.mem_debugNodes built.wellFormed.eraseOnly
    (Expansion.noneAlone_eraseOnly tree) erased
  have outcome := branchify_of_expand expanded
  refine ⟨full, erased, fun none => ⟨?_, isDebug_of_kept built.wellFormed expanded⟩, fun some => ?_⟩
  · have unmet : debugNodes = [] :=
      List.eq_nil_iff_forall_not_mem.mpr fun id listed => none id ((met id).mp listed)
    have undebugged : (kept options branches).find? Branch.hasDebugStep = .none :=
      List.find?_eq_none.mpr fun branch listed debugs =>
        (debugs_of_kept built.wellFormed expanded erased listed debugs).elim none
    rw [outcome, unmet, isolateDebug, undebugged]
    rfl
  · rcases checkDebugNodes_cases tree (kept options branches) debugNodes with
      ⟨all, checked⟩ | ⟨⟨id, listed, lost⟩, error, checked, kind⟩
    · have all (id : NodeId) (debugs : Debugs full id) := all id ((met id).mpr debugs)
      rw [checked] at outcome
      refine ⟨⟨?_, ?_⟩, fun _ => ?_⟩
      · rintro ⟨error, failed, -⟩
        cases outcome.symm.trans failed
      · rintro ⟨id, debugs, lost⟩
        exact absurd (all id debugs) lost
      · obtain ⟨id, debugs⟩ := some
        obtain ⟨branch, listed, marked⟩ := all id debugs
        have present : ((kept options branches).find? Branch.hasDebugStep).isSome = true :=
          List.find?_isSome.mpr ⟨branch, listed, Branch.hasDebugStep_of_debugs marked⟩
        obtain ⟨first, found⟩ := Option.isSome_iff_exists.mp present
        refine ⟨first, found, ?_⟩
        rw [outcome, isolateDebug, found]
        rfl
    · have debugs := (met id).mp listed
      rw [checked] at outcome
      exact ⟨⟨fun _ => ⟨id, debugs, lost⟩, fun _ => ⟨error, outcome, kind⟩⟩,
        fun all => absurd (all id debugs) lost⟩

/-- Two calls of a function, one of whose two steps is to debug. -/
def probe : Tree := .grown "A -\n    F\nB -\n    F\n\n* F\n    C -\n    D - ~"

theorem branchify_isolates_probe :
    ∃ branches debugNodes full,
      Expansion.expand probe {} Tree.rootId = .ok (branches, debugNodes) ∧ branches.length = 4 ∧
      (branchify probe Tree.rootId {}).toOption.map List.length = some 1 ∧
      Expansion.expand probe.eraseOnly {} Tree.rootId = .ok (full, debugNodes) ∧
      ((∀ id, ¬ Debugs full id) →
        branchify probe Tree.rootId {} = .ok (assignIds [] (kept {} branches)) ∧
          ∀ branch ∈ assignIds [] (kept {} branches), branch.isDebug = false) ∧
      ((∃ id, Debugs full id) →
        ((∃ error, branchify probe Tree.rootId {} = .error error ∧ error.kind = .configuration) ↔
          ∃ id, Debugs full id ∧ ¬ Debugs (kept {} branches) id) ∧
        ((∀ id, Debugs full id → Debugs (kept {} branches) id) →
          ∃ first, (kept {} branches).find? Branch.hasDebugStep = some first ∧
            branchify probe Tree.rootId {} =
              .ok (assignIds [] [{ first with isDebug := true }]))) := by
  have built : probe.Built := .parseIn .empty _ _ _
  have count : (Expansion.expand probe {} Tree.rootId).toOption.map (·.1.length) = some 4 := by
    decide +kernel
  have isolated : (branchify probe Tree.rootId {}).toOption.map List.length = some 1 := by
    decide +kernel
  cases expanded : Expansion.expand probe {} Tree.rootId with
  | error error => rw [expanded] at count; cases count
  | ok result =>
      obtain ⟨branches, debugNodes⟩ := result
      obtain ⟨full, erased, outcome⟩ := branchify_isolates built expanded
      rw [expanded] at count
      exact ⟨branches, debugNodes, full, rfl, Option.some.inj count, isolated, erased, outcome⟩

end Selection

end TestTree
