import TestTree.Branch.Selection
import TestTree.Proofs.Branch.Recursion

namespace TestTree

namespace Tree

/-- The children that are neither hooks nor declarations. -/
def branching (tree : Tree) (id : NodeId) : List NodeId :=
  (tree.node id).children.filter fun child => !tree.isSilent child

/-- The declaration that a step calls at the end of a path. -/
def callee (tree : Tree) (path : List Frame) (id : NodeId) : Option NodeId :=
  if (tree.node id).step.identifiers.isCall then (tree.resolve id path).toOption else none

theorem mem_branching {tree : Tree} {id child : NodeId} :
    child ∈ tree.branching id ↔ child ∈ (tree.node id).children ∧ tree.isSilent child = false := by
  simp [branching]

theorem WellFormed.branching {tree : Tree} {id child : NodeId} (settled : tree.WellFormed)
    (listed : child ∈ tree.branching id) : id < child ∧ child < tree.size :=
  have bounds := settled.child id child (mem_branching.mp listed).1
  ⟨bounds.1, bounds.2.1⟩

end Tree

namespace Expansion

/-- A step without its children, or any node with them. -/
inductive Part
  | own
  | whole

inductive Expands (tree : Tree) : Part → Position → NodeId → List Branch → Prop
  | step {position : Position} {id : NodeId}
      (plain : (tree.node id).step.identifiers.isCall = false) :
      Expands tree .own position id
        [{ steps := [BranchStep.ofNode (tree.node id) position.active.length] }]
  | call {position : Position} {id declaration : NodeId} {part : NodeId → List Branch}
      (calls : (tree.node id).step.identifiers.isCall = true)
      (resolved : tree.resolve id position.path = .ok declaration)
      (below : ∀ child ∈ tree.branching declaration,
        Expands tree .whole (position.enterCall id declaration) child (part child)) :
      Expands tree .own position id (attachHooks tree declaration (followedBy
        [{ steps := [callStep (tree.node id) (tree.node declaration) position.active.length] }]
        (tree.node declaration).step.identifiers.isSequential
        ((tree.branching declaration).map part)))
  | node {position : Position} {id : NodeId} {own : List Branch} {part : NodeId → List Branch}
      (kind : (tree.node id).kind = .step) (spoken : tree.isSilent id = false)
      (alone : Expands tree .own position id own)
      (below : ∀ child ∈ tree.branching id,
        Expands tree .whole (position.enter ⟨id, tree.callee position.path id⟩) child
          (part child)) :
      Expands tree .whole position id (attachHooks tree id (followedBy own
        (tree.node id).step.identifiers.isSequential ((tree.branching id).map part)))
  | block {position : Position} {id : NodeId} {members : List NodeId}
      {own part : NodeId → List Branch} (kind : (tree.node id).kind = .block members)
      (alone : ∀ member ∈ members, Expands tree .own position member (own member))
      (below : ∀ child ∈ tree.branching id,
        Expands tree .whole (position.enter { node := id }) child (part child)) :
      Expands tree .whole position id (attachHooks tree id (followedBy
        (choose (tree.node id).step.identifiers.isSequential (members.map own)) false
        ((tree.branching id).map part)))

/-- A position and a node have their branches from nothing but the tree. -/
theorem Expands.unique {tree : Tree} {target : Part} {position : Position} {id : NodeId}
    {branches others : List Branch} (expands : Expands tree target position id branches)
    (again : Expands tree target position id others) : branches = others := by
  induction expands generalizing others with
  | step plain =>
      cases again with
      | step => rfl
      | call calls => simp [plain] at calls
  | call calls resolved below ih =>
      cases again with
      | step plain => simp [plain] at calls
      | call calls resolved' below' =>
          obtain rfl := Except.ok.inj (resolved.symm.trans resolved')
          rw [List.map_congr_left fun child listed => ih child listed (below' child listed)]
  | node kind spoken alone below ihOwn ih =>
      cases again with
      | node kind' spoken' alone' below' =>
          rw [ihOwn alone',
            List.map_congr_left fun child listed => ih child listed (below' child listed)]
      | block kind' => rw [kind] at kind'; cases kind'
  | block kind alone below ihOwn ih =>
      cases again with
      | node kind' => rw [kind] at kind'; cases kind'
      | block kind' alone' below' =>
          obtain rfl := NodeKind.block.inj (kind.symm.trans kind')
          rw [List.map_congr_left fun member listed => ihOwn member listed (alone' member listed),
            List.map_congr_left fun child listed => ih child listed (below' child listed)]

section Inhabited

theorem cross_ne_nil {first second : List Branch} (left : first ≠ []) (right : second ≠ []) :
    cross first second ≠ [] := by
  obtain ⟨branch, rest, rfl⟩ := List.exists_cons_of_ne_nil left
  obtain ⟨next, others, rfl⟩ := List.exists_cons_of_ne_nil right
  simp [cross]

theorem keepOnly_ne_nil {branches : List Branch} (some : branches ≠ []) :
    keepOnly branches ≠ [] := by
  rw [keepOnly]
  split
  · next only =>
      obtain ⟨branch, listed, marked⟩ := List.any_eq_true.mp only
      exact List.ne_nil_of_mem (List.mem_filter.mpr ⟨listed, marked⟩)
  · exact some

theorem keepOnly_of_unmarked {branches : List Branch}
    (unmarked : ∀ branch ∈ branches, branch.hasOnlyStep = false) : keepOnly branches = branches := by
  rw [keepOnly, if_neg]
  intro only
  obtain ⟨branch, listed, marked⟩ := List.any_eq_true.mp only
  rw [unmarked branch listed] at marked
  cases marked

theorem sequence_ne_nil {groups : List (List Branch)} (inhabited : ∀ group ∈ groups, group ≠ []) :
    sequence groups ≠ [] := by
  have general (start : List Branch) (some : start ≠ []) : groups.foldl cross start ≠ [] := by
    induction groups generalizing start with
    | nil => exact some
    | cons group rest ih =>
        exact ih (fun other listed => inhabited other (.tail _ listed)) _
          (cross_ne_nil some (inhabited group (.head _)))
  exact general [{}] (List.cons_ne_nil _ _)

theorem choose_ne_nil {groups : List (List Branch)} (isSequential : Bool)
    (inhabited : ∀ group ∈ groups, group ≠ []) (some : groups ≠ []) :
    choose isSequential groups ≠ [] := by
  cases isSequential with
  | true => exact sequence_ne_nil inhabited
  | false =>
      obtain ⟨group, rest, rfl⟩ := List.exists_cons_of_ne_nil some
      refine keepOnly_ne_nil fun empty => inhabited group (.head _) ?_
      exact List.flatten_eq_nil_iff.mp empty group (.head _)

theorem followedBy_ne_nil {own : List Branch} {groups : List (List Branch)} (isSequential : Bool)
    (some : own ≠ []) (inhabited : ∀ group ∈ groups, group ≠ []) :
    followedBy own isSequential groups ≠ [] := by
  rw [followedBy]
  split
  · exact some
  · next several =>
      exact cross_ne_nil some (choose_ne_nil isSequential inhabited (by simpa using several))

theorem Expands.inhabited {tree : Tree} (settled : tree.WellFormed) {target : Part}
    {position : Position} {id : NodeId} {branches : List Branch}
    (expands : Expands tree target position id branches) : branches ≠ [] := by
  induction expands with
  | step => exact List.cons_ne_nil _ _
  | call calls resolved below ih =>
      simp only [attachHooks, ne_eq, List.map_eq_nil_iff]
      exact followedBy_ne_nil _ (List.cons_ne_nil _ _) (List.forall_mem_map.mpr ih)
  | node kind spoken alone below ihOwn ih =>
      simp only [attachHooks, ne_eq, List.map_eq_nil_iff]
      exact followedBy_ne_nil _ ihOwn (List.forall_mem_map.mpr ih)
  | @block position id members own part kind alone below ihOwn ih =>
      simp only [attachHooks, ne_eq, List.map_eq_nil_iff]
      refine followedBy_ne_nil _ (choose_ne_nil _ (List.forall_mem_map.mpr ihOwn) ?_)
        (List.forall_mem_map.mpr ih)
      simpa using (settled.filled id members kind).1

end Inhabited

section Steps

variable {branches first second own : List Branch} {groups : List (List Branch)} {branch : Branch}

theorem mem_cross : branch ∈ cross first second ↔
    ∃ left ∈ first, ∃ right ∈ second, branch = left.append right := by
  simp only [cross, List.mem_flatMap, List.mem_map, eq_comm]

theorem mem_of_keepOnly (listed : branch ∈ keepOnly branches) : branch ∈ branches := by
  rw [keepOnly] at listed
  split at listed
  · exact (List.mem_filter.mp listed).1
  · exact listed

theorem append_empty (branch : Branch) : branch.append {} = branch := by
  simp [Branch.append]

/-- The branches that follow those of a node itself. -/
def further (isSequential : Bool) (groups : List (List Branch)) : List Branch :=
  if groups.isEmpty then [{}] else choose isSequential groups

theorem followedBy_eq (own : List Branch) (isSequential : Bool) (groups : List (List Branch)) :
    followedBy own isSequential groups = cross own (further isSequential groups) := by
  cases groups with
  | nil => simp [followedBy, further, cross, append_empty]
  | cons group rest => rfl

/-- A property of branches that joining them and giving them hooks takes away from none. -/
structure Lasting (holds : Branch → Prop) : Prop where
  empty : holds {}
  append {branch next : Branch} : holds branch → holds next → holds (branch.append next)
  hooked {branch : Branch} (beforeBranch afterBranch beforeStep afterStep : List Hook) :
    holds branch → holds
      { branch with
        beforeEveryBranch := beforeBranch
        afterEveryBranch := afterBranch
        beforeEveryStep := beforeStep
        afterEveryStep := afterStep }

section Lasts

variable {holds : Branch → Prop} (lasting : Lasting holds)

include lasting

theorem Lasting.cross (left : ∀ branch ∈ first, holds branch) (right : ∀ branch ∈ second, holds branch) :
    ∀ branch ∈ cross first second, holds branch := by
  intro branch listed
  obtain ⟨before, isLeft, after, isRight, rfl⟩ := mem_cross.mp listed
  exact lasting.append (left before isLeft) (right after isRight)

theorem Lasting.choose (isSequential : Bool) (all : ∀ group ∈ groups, ∀ branch ∈ group, holds branch) :
    ∀ branch ∈ choose isSequential groups, holds branch := by
  cases isSequential with
  | true =>
      have general (start : List Branch) (started : ∀ branch ∈ start, holds branch) :
          ∀ branch ∈ groups.foldl Expansion.cross start, holds branch := by
        induction groups generalizing start with
        | nil => exact started
        | cons group rest ih =>
            exact ih (fun other listed => all other (.tail _ listed)) _
              (lasting.cross started (all group (.head _)))
      exact general [{}] (List.forall_mem_singleton.mpr lasting.empty)
  | false =>
      intro branch listed
      obtain ⟨group, among, within⟩ := List.mem_flatten.mp (mem_of_keepOnly listed)
      exact all group among branch within

theorem Lasting.followedBy (isSequential : Bool) (alone : ∀ branch ∈ own, holds branch)
    (all : ∀ group ∈ groups, ∀ branch ∈ group, holds branch) :
    ∀ branch ∈ followedBy own isSequential groups, holds branch := by
  rw [Expansion.followedBy]
  split
  · exact alone
  · exact lasting.cross alone (lasting.choose isSequential all)

theorem Lasting.attachHooks {tree : Tree} {id : NodeId} (all : ∀ branch ∈ branches, holds branch) :
    ∀ branch ∈ attachHooks tree id branches, holds branch := by
  intro branch listed
  obtain ⟨plain, among, rfl⟩ := List.mem_map.mp listed
  exact lasting.hooked _ _ _ _ (all plain among)

theorem Expands.all {tree : Tree} {target : Part} {position : Position} {id : NodeId}
    (expands : Expands tree target position id branches)
    (plain : ∀ id depth, holds { steps := [BranchStep.ofNode (tree.node id) depth] })
    (call : ∀ id declaration depth,
      holds { steps := [callStep (tree.node id) (tree.node declaration) depth] }) :
    ∀ branch ∈ branches, holds branch := by
  induction expands with
  | step => exact List.forall_mem_singleton.mpr (plain _ _)
  | call calls resolved below ih =>
      exact lasting.attachHooks (lasting.followedBy _ (List.forall_mem_singleton.mpr (call _ _ _))
        (List.forall_mem_map.mpr ih))
  | node kind spoken alone below ihOwn ih =>
      exact lasting.attachHooks (lasting.followedBy _ ihOwn (List.forall_mem_map.mpr ih))
  | block kind alone below ihOwn ih =>
      exact lasting.attachHooks (lasting.followedBy _
        (lasting.choose _ (List.forall_mem_map.mpr ihOwn)) (List.forall_mem_map.mpr ih))

end Lasts

/-- A property of all steps of all branches. -/
def EveryStep (branches : List Branch) (holds : BranchStep → Prop) : Prop :=
  ∀ branch ∈ branches, ∀ step ∈ branch.steps, holds step

variable {holds : BranchStep → Prop}

theorem lasting_everyStep (holds : BranchStep → Prop) :
    Lasting fun branch => ∀ step ∈ branch.steps, holds step where
  empty step passed := by cases passed
  append before after step passed := (List.mem_append.mp passed).elim (before step) (after step)
  hooked _ _ _ _ all := all

theorem EveryStep.attachHooks {tree : Tree} {id : NodeId} (all : EveryStep branches holds) :
    EveryStep (attachHooks tree id branches) holds :=
  (lasting_everyStep holds).attachHooks all

theorem Expands.everyStep {tree : Tree} {target : Part} {position : Position} {id : NodeId}
    (expands : Expands tree target position id branches)
    (plain : ∀ id depth, holds (BranchStep.ofNode (tree.node id) depth))
    (call : ∀ id declaration depth, holds (callStep (tree.node id) (tree.node declaration) depth)) :
    EveryStep branches holds :=
  expands.all (lasting_everyStep holds) (fun id depth => List.forall_mem_singleton.mpr (plain id depth))
    fun id declaration depth => List.forall_mem_singleton.mpr (call id declaration depth)

end Steps

section Recursion

variable {tree : Tree} {options : BranchOptions} {body : Option BodyExpander} {position : Position}

theorem outlineTo_eq (tree : Tree) (depth : Nat) (id : NodeId) :
    tree.outlineTo depth id = .node id (tree.outlineTo depth id).children := by
  cases depth <;> rfl

/-- The branches that an expansion finds below an outline; none if it fails. -/
def branchesAt (tree : Tree) (options : BranchOptions) (body : Option BodyExpander)
    (position : Position) (outline : Outline) : List Branch :=
  match expandNode tree options body position outline with
  | .ok (branches, _) => branches
  | .error _ => []

theorem expandChildren_groups (depth : Nat) (ids : List NodeId) {groups : List (List Branch)}
    {debugNodes : List NodeId}
    (sound : ∀ id ∈ ids, tree.isSilent id = false → ∀ branches debugNodes,
      expandNode tree options body position (tree.outlineTo depth id) = .ok (branches, debugNodes) →
        Expands tree .whole position id branches ∧ branches ≠ [])
    (expanded : expandChildren tree options body position (ids.map (tree.outlineTo depth)) =
      .ok (groups, debugNodes)) :
    groups = (ids.filter fun id => !tree.isSilent id).map
        (fun id => branchesAt tree options body position (tree.outlineTo depth id)) ∧
      ∀ id ∈ ids.filter fun id => !tree.isSilent id, Expands tree .whole position id
        (branchesAt tree options body position (tree.outlineTo depth id)) := by
  induction ids generalizing groups debugNodes with
  | nil =>
      rw [List.map_nil, expandChildren] at expanded
      obtain ⟨rfl, rfl⟩ := Prod.mk.inj (Except.ok.inj expanded)
      exact ⟨rfl, fun id listed => by cases listed⟩
  | cons id rest ih =>
      have ih {groups : List (List Branch)} {debugNodes : List NodeId} :=
        @ih groups debugNodes fun id listed => sound id (.tail _ listed)
      rw [List.map_cons, outlineTo_eq, expandChildren_cons] at expanded
      cases expanded with
      | silent silent leaf others => simpa [silent] using ih others
      | @spoken branches groups debugNodes inner spoken first others =>
          rw [← outlineTo_eq] at first
          obtain ⟨expands, some⟩ := sound id (.head _) spoken branches debugNodes first
          obtain ⟨known, all⟩ := ih others
          have found : branchesAt tree options body position (tree.outlineTo depth id) = branches := by
            rw [branchesAt, first]
          simp only [spoken, Bool.not_false, List.filter_cons_of_pos, List.map_cons, found,
            List.forall_mem_cons]
          rw [if_neg (by simpa using some), known]
          exact ⟨rfl, expands, all⟩

/-- An expander of the bodies of calls that does what an expansion does. -/
def Sound (tree : Tree) (body : BodyExpander) : Prop :=
  ∀ position declaration groups debugNodes,
    body position declaration = .ok (groups, debugNodes) →
      ∃ part : NodeId → List Branch, groups = (tree.branching declaration).map part ∧
        ∀ child ∈ tree.branching declaration, Expands tree .whole position child (part child)

theorem expandOwn_expands (sound : ∀ expander, body = some expander → Sound tree expander)
    {id : NodeId} {own : Own} (expanded : expandOwn tree options body position id = .ok own) :
    Expands tree .own position id own.branches ∧
      own.declaration = tree.callee position.path id := by
  cases expandOwn_eq_ok.mp expanded with
  | plain plain allowed =>
      refine ⟨.step plain, ?_⟩
      rw [Tree.callee, if_neg (by simp [plain])]
  | call calls resolved fresh nested allowed found =>
      obtain ⟨part, rfl, below⟩ := sound _ nested _ _ _ _ found
      refine ⟨.call calls resolved below, ?_⟩
      rw [Tree.callee, if_pos calls, resolved]
      rfl

/-- The branches that an expansion finds for a step without its children; none if it fails. -/
def ownBranches (tree : Tree) (options : BranchOptions) (body : Option BodyExpander)
    (position : Position) (id : NodeId) : List Branch :=
  match expandOwn tree options body position id with
  | .ok own => own.branches
  | .error _ => []

theorem expandMembers_groups (sound : ∀ expander, body = some expander → Sound tree expander)
    (members : List NodeId) {groups : List (List Branch)} {debugNodes : List NodeId}
    (expanded : expandMembers tree options body position members = .ok (groups, debugNodes)) :
    groups = members.map (ownBranches tree options body position) ∧
      ∀ member ∈ members, Expands tree .own position member
        (ownBranches tree options body position member) := by
  induction members generalizing groups debugNodes with
  | nil =>
      rw [expandMembers] at expanded
      obtain ⟨rfl, rfl⟩ := Prod.mk.inj (Except.ok.inj expanded)
      exact ⟨rfl, fun id listed => by cases listed⟩
  | cons member rest ih =>
      obtain ⟨own, others, inner, first, behind, rfl, -⟩ := expandMembers_cons.mp expanded
      obtain ⟨known, all⟩ := ih behind
      have found : ownBranches tree options body position member = own.branches := by
        rw [ownBranches, first]
      simp only [List.map_cons, List.forall_mem_cons, found]
      exact ⟨by rw [known], (expandOwn_expands sound first).1, all⟩

theorem expandNode_step (sound : ∀ expander, body = some expander → Sound tree expander)
    {id : NodeId} {depth next : Nat}
    (children : (tree.outlineTo depth id).children = (tree.node id).children.map (tree.outlineTo next))
    (below : ∀ position, ∀ child ∈ (tree.node id).children, tree.isSilent child = false →
      ∀ branches debugNodes, expandNode tree options body position (tree.outlineTo next child) =
        .ok (branches, debugNodes) → Expands tree .whole position child branches ∧ branches ≠ [])
    (notRoot : (tree.node id).kind ≠ .root) (spoken : tree.isSilent id = false)
    {branches : List Branch} {debugNodes : List NodeId}
    (expanded : expandNode tree options body position (tree.outlineTo depth id) =
      .ok (branches, debugNodes)) : Expands tree .whole position id branches := by
  rw [outlineTo_eq, children, expandNode_eq_ok] at expanded
  cases expanded with
  | root kind => exact absurd kind notRoot
  | block kind alone found =>
      obtain ⟨rfl, own⟩ := expandMembers_groups sound _ alone
      obtain ⟨rfl, all⟩ := expandChildren_groups next _ (below _) found
      exact .block kind own all
  | silent kind silent => simp [spoken] at silent
  | step kind spoken alone found =>
      obtain ⟨expands, callee⟩ := expandOwn_expands sound alone
      rw [callee] at found
      obtain ⟨rfl, all⟩ := expandChildren_groups next _ (below _) found
      exact .node kind spoken expands all

theorem enough_below {size id child depth : Nat} (enough : size ≤ id + (depth + 1))
    (behind : id < child) : size ≤ child + depth := by
  omega

theorem expandNode_expands (settled : tree.WellFormed)
    (sound : ∀ expander, body = some expander → Sound tree expander) (depth : Nat) {id : NodeId}
    (enough : tree.size ≤ id + depth) (notRoot : id ≠ Tree.rootId)
    (spoken : tree.isSilent id = false) {branches : List Branch} {debugNodes : List NodeId}
    (expanded : expandNode tree options body position (tree.outlineTo depth id) =
      .ok (branches, debugNodes)) : Expands tree .whole position id branches := by
  induction depth generalizing position id branches debugNodes with
  | zero =>
      have outside : tree.size ≤ id := enough
      have bare : (tree.node id).children = [] := by rw [Tree.node_of_size_le outside]
      have children : (tree.outlineTo 0 id).children = (tree.node id).children.map (tree.outlineTo 0) :=
        by rw [bare]; rfl
      refine expandNode_step sound children ?_ (settled.kind id notRoot) spoken expanded
      intro position child listed
      rw [bare] at listed
      cases listed
  | succ depth ih =>
      have children : (tree.outlineTo (depth + 1) id).children =
          (tree.node id).children.map (tree.outlineTo depth) := rfl
      refine expandNode_step sound children ?_ (settled.kind id notRoot) spoken expanded
      intro position child listed spoken branches debugNodes expanded
      have behind := (settled.child id child listed).1
      have expands : Expands tree .whole position child branches :=
        ih (enough_below enough behind) (Nat.ne_of_gt (Nat.zero_lt_of_lt behind)) spoken expanded
      exact ⟨expands, expands.inhabited settled⟩

theorem expandChildren_outline (settled : tree.WellFormed)
    (sound : ∀ expander, body = some expander → Sound tree expander) {id : NodeId}
    {groups : List (List Branch)} {debugNodes : List NodeId}
    (expanded : expandChildren tree options body position (tree.outline id).children =
      .ok (groups, debugNodes)) :
    ∃ part : NodeId → List Branch, groups = (tree.branching id).map part ∧
      ∀ child ∈ tree.branching id, Expands tree .whole position child (part child) := by
  obtain ⟨depth, size⟩ := Nat.exists_eq_succ_of_ne_zero (Nat.ne_of_gt settled.root_lt)
  have children : (tree.outline id).children = (tree.node id).children.map (tree.outlineTo depth) := by
    rw [Tree.outline, size]
    rfl
  rw [children] at expanded
  refine ⟨_, expandChildren_groups depth _ ?_ expanded⟩
  intro child listed spoken branches debugNodes expanded
  have first := Nat.zero_lt_of_lt (settled.child id child listed).1
  have enough : tree.size ≤ child + depth := by
    have behind : 0 < child := first
    exact enough_below (by omega) behind
  have expands := expandNode_expands settled sound depth enough (Nat.ne_of_gt first) spoken expanded
  exact ⟨expands, expands.inhabited settled⟩

theorem sound_bodyExpander (settled : tree.WellFormed) (options : BranchOptions) (depth : Nat) :
    ∀ expander, bodyExpander tree options depth = some expander → Sound tree expander := by
  induction depth with
  | zero =>
      intro expander absent
      cases absent
  | succ depth ih =>
      intro expander present
      obtain rfl := Option.some.inj present
      intro position declaration groups debugNodes expanded
      exact expandChildren_outline settled ih expanded

theorem expand_root (settled : tree.WellFormed) {branches : List Branch} {debugNodes : List NodeId}
    (expanded : expand tree options Tree.rootId = .ok (branches, debugNodes)) :
    ∃ part : NodeId → List Branch,
      (∀ child ∈ tree.branching Tree.rootId, Expands tree .whole {} child (part child)) ∧
      branches = attachHooks tree Tree.rootId
        (alternatives ((tree.branching Tree.rootId).map part)) := by
  rw [expand, Tree.outline, outlineTo_eq, expandNode_eq_ok, ← Tree.outline] at expanded
  cases expanded with
  | root kind found =>
      obtain ⟨part, rfl, below⟩ := expandChildren_outline settled
        (sound_bodyExpander settled options maxCallDepth) found
      refine ⟨part, below, ?_⟩
      cases tree.branching Tree.rootId <;> rfl
  | block kind | silent kind | step kind => simp [settled.root] at kind

/-- An expansion comes to nothing only where there is nothing below the root. -/
theorem branching_root_of_expand_nil (settled : tree.WellFormed) {debugNodes : List NodeId}
    (expanded : expand tree options Tree.rootId = .ok ([], debugNodes)) :
    tree.branching Tree.rootId = [] := by
  obtain ⟨part, below, nothing⟩ := expand_root settled expanded
  refine Decidable.byContradiction fun several => ?_
  have some : choose false ((tree.branching Tree.rootId).map part) ≠ [] :=
    choose_ne_nil false
      (List.forall_mem_map.mpr fun child listed => (below child listed).inhabited settled)
      (by simpa using several)
  exact some (List.map_eq_nil_iff.mp nothing.symm)

theorem Lasting.expand {holds : Branch → Prop} (lasting : Lasting holds) (settled : tree.WellFormed)
    {branches : List Branch} {debugNodes : List NodeId}
    (plain : ∀ id depth, holds { steps := [BranchStep.ofNode (tree.node id) depth] })
    (call : ∀ id declaration depth,
      holds { steps := [callStep (tree.node id) (tree.node declaration) depth] })
    (expanded : expand tree options Tree.rootId = .ok (branches, debugNodes)) :
    ∀ branch ∈ branches, holds branch := by
  obtain ⟨part, below, rfl⟩ := expand_root settled expanded
  exact lasting.attachHooks (lasting.choose false
    (List.forall_mem_map.mpr fun child among => (below child among).all lasting plain call))

/-- Every step of an expansion comes from a node. -/
theorem placed_of_expand (settled : tree.WellFormed) {branches : List Branch}
    {debugNodes : List NodeId}
    (expanded : expand tree options Tree.rootId = .ok (branches, debugNodes)) :
    EveryStep branches fun step => step.origin.isSome = true :=
  (lasting_everyStep fun step => step.origin.isSome = true).expand settled
    (fun _ _ => List.forall_mem_singleton.mpr rfl) (fun _ _ _ => List.forall_mem_singleton.mpr rfl)
    expanded

end Recursion

end Expansion

namespace Selection

theorem exists_of_mem_isolateDebug {α : Type} (view : Branch → α)
    (keeps : ∀ branch : Branch, view { branch with isDebug := true } = view branch)
    {branches : List Branch} {branch : Branch} (listed : branch ∈ isolateDebug branches) :
    ∃ plain ∈ branches, view branch = view plain := by
  rw [isolateDebug] at listed
  split at listed
  · next chosen debugs =>
      obtain rfl := List.mem_singleton.mp listed
      exact ⟨chosen, List.mem_of_find?_eq_some debugs, keeps chosen⟩
  · exact ⟨branch, listed, rfl⟩

/-- Giving ids to branches changes nothing else about them. -/
theorem map_assignIds {α : Type} {view : Branch → α}
    (keeps : ∀ (branch : Branch) (id : Option Text),
      view { branch with nonParallelId := id } = view branch)
    (known : List NodeId) (branches : List Branch) :
    (assignIds known branches).map view = branches.map view := by
  fun_induction assignIds known branches with
  | case1 => rfl
  | case2 known branch rest none ih => rw [List.map_cons, ih, List.map_cons]
  | case3 known branch rest id found ih => rw [List.map_cons, ih, List.map_cons, keeps]

theorem select_eq {tree : Tree} {id : NodeId} {options : BranchOptions} {branches : List Branch}
    (selected : select tree id options = .ok branches) :
    ∃ expanded debugNodes, Expansion.expand tree options id = .ok (expanded, debugNodes) ∧
      branches = isolateDebug ((expanded.map Branch.tag).filter (·.isSelected options)) := by
  rw [select] at selected
  cases found : Expansion.expand tree options id with
  | error error => simp [found, bind, Except.bind] at selected
  | ok result =>
      obtain ⟨expanded, debugNodes⟩ := result
      simp only [found, bind, Except.bind] at selected
      split at selected
      · cases selected
      · exact ⟨expanded, debugNodes, rfl, (Except.ok.inj selected).symm⟩

theorem branchify_eq {tree : Tree} {id : NodeId} {options : BranchOptions} {branches : List Branch}
    (branchified : branchify tree id options = .ok branches) :
    ∃ kept, select tree id options = .ok kept ∧ branches = assignIds [] kept := by
  rw [branchify] at branchified
  cases selected : select tree id options with
  | error error => rw [selected] at branchified; cases branchified
  | ok kept =>
      rw [selected] at branchified
      exact ⟨kept, rfl, (Except.ok.inj branchified).symm⟩

theorem generate_eq {tree : Tree} {options : BranchOptions} {suite : Suite}
    (generated : tree.generate options = .ok suite) :
    ∃ expanded debugNodes order, Expansion.expand tree options Tree.rootId = .ok (expanded, debugNodes) ∧
      order.Perm (isolateDebug ((expanded.map Branch.tag).filter (·.isSelected options))) ∧
      suite.branches = assignIds [] order := by
  rw [Tree.generate] at generated
  cases selected : select tree Tree.rootId options with
  | error error => simp [selected, bind, Except.bind] at generated
  | ok branches =>
      simp only [selected, bind, Except.bind, pure, Except.pure] at generated
      obtain rfl := Except.ok.inj generated
      obtain ⟨expanded, debugNodes, found, rfl⟩ := select_eq selected
      exact ⟨expanded, debugNodes, _, found, List.mergeSort_perm _ _, rfl⟩

end Selection

namespace Tree

/-- The tree of one text. -/
def grown (text : String) : Tree := (empty.parseIn text.toList none false).1

/-- The suite of a tree whose branches need no sorting. -/
def suite (tree : Tree) : Suite :=
  { branches := Selection.assignIds [] ((Selection.select tree rootId {}).toOption.getD [])
    beforeEverything := (Expansion.hooksAt tree rootId .beforeEverything).reverse
    afterEverything := Expansion.hooksAt tree rootId .afterEverything }

theorem generate_eq_suite {tree : Tree} (selects : (Selection.select tree rootId {}).isOk = true)
    (sorted : ((Selection.select tree rootId {}).toOption.getD []).Pairwise fun a b =>
      decide (Frequency.sortKey a.frequency ≤ Frequency.sortKey b.frequency) = true) :
    tree.generate {} = .ok tree.suite := by
  cases selected : Selection.select tree rootId {} with
  | error error => rw [selected] at selects; cases selects
  | ok branches =>
      rw [selected] at sorted
      have still : Selection.sortByFrequency branches = branches := List.mergeSort_of_pairwise sorted
      simp only [generate, suite, selected, bind, Except.bind, still]
      rfl

end Tree

end TestTree
