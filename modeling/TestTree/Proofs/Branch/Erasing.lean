import TestTree.Proofs.Branch.Expands

namespace TestTree

def Node.eraseOnly (node : Node) : Node :=
  { node with
    step := { node.step with identifiers := { node.step.identifiers with isOnly := false } } }

def BranchStep.eraseOnly (step : BranchStep) : BranchStep :=
  { step with identifiers := { step.identifiers with isOnly := false } }

def Branch.eraseOnly (branch : Branch) : Branch :=
  { branch with steps := branch.steps.map BranchStep.eraseOnly }

namespace Tree

def eraseOnly (tree : Tree) : Tree := { tree with nodes := tree.nodes.map Node.eraseOnly }

variable (tree : Tree)

theorem size_eraseOnly : tree.eraseOnly.size = tree.size := by simp [eraseOnly, size]

theorem node_eraseOnly (id : NodeId) : tree.eraseOnly.node id = (tree.node id).eraseOnly := by
  simp only [node, eraseOnly, Array.getElem?_map]
  cases tree.nodes[id]? <;> rfl

theorem children_eraseOnly (id : NodeId) :
    (tree.eraseOnly.node id).children = (tree.node id).children := by
  rw [node_eraseOnly]
  rfl

theorem kind_eraseOnly (id : NodeId) : (tree.eraseOnly.node id).kind = (tree.node id).kind := by
  rw [node_eraseOnly]
  rfl

theorem hook_eraseOnly (id : NodeId) :
    (tree.eraseOnly.node id).step.hook = (tree.node id).step.hook := by
  rw [node_eraseOnly]
  rfl

theorem identifiers_eraseOnly (id : NodeId) : (tree.eraseOnly.node id).step.identifiers =
    { (tree.node id).step.identifiers with isOnly := false } := by
  rw [node_eraseOnly]
  rfl

theorem isSilent_eraseOnly (id : NodeId) : tree.eraseOnly.isSilent id = tree.isSilent id := by
  simp only [isSilent, identifiers_eraseOnly, hook_eraseOnly]

theorem branching_eraseOnly (id : NodeId) : tree.eraseOnly.branching id = tree.branching id := by
  simp only [branching, children_eraseOnly, isSilent_eraseOnly]

theorem siblings_eraseOnly (id : NodeId) : tree.eraseOnly.siblings id = tree.siblings id := by
  have parent : (tree.eraseOnly.node id).parent = (tree.node id).parent := by
    rw [node_eraseOnly]
    rfl
  simp only [siblings, parent, children_eraseOnly]

theorem resolve_eraseOnly (id : NodeId) (path : List Frame) :
    tree.eraseOnly.resolve id path = tree.resolve id path := by
  have visible : tree.eraseOnly.frameScope = tree.frameScope := by
    funext frame
    simp only [frameScope, siblings_eraseOnly, children_eraseOnly]
  have declares (name : Text) : tree.eraseOnly.declares name = tree.declares name := by
    funext id
    simp only [Tree.declares, node_eraseOnly]
    rfl
  simp only [resolve, findDeclaration, scope, visible, declares, siblings_eraseOnly, node_eraseOnly]
  rfl

theorem callee_eraseOnly (path : List Frame) (id : NodeId) :
    tree.eraseOnly.callee path id = tree.callee path id := by
  simp only [callee, identifiers_eraseOnly, resolve_eraseOnly]

theorem outline_eraseOnly (id : NodeId) : tree.eraseOnly.outline id = tree.outline id := by
  have below (depth : Nat) : tree.eraseOnly.outlineTo depth = tree.outlineTo depth := by
    induction depth with
    | zero => rfl
    | succ depth ih =>
        funext id
        rw [outlineTo, outlineTo, children_eraseOnly, ih]
  rw [outline, outline, size_eraseOnly, below]

variable {tree}

theorem WellFormed.eraseOnly (settled : tree.WellFormed) : tree.eraseOnly.WellFormed := by
  refine ⟨?_, ?_, ?_, ?_, ?_, ?_, ?_⟩
  · rw [kind_eraseOnly]
    exact settled.root
  · intro id inside
    rw [node_eraseOnly]
    rw [size_eraseOnly] at inside
    exact settled.id id inside
  · intro id
    rw [kind_eraseOnly]
    exact settled.kind id
  · intro id child
    rw [children_eraseOnly, size_eraseOnly, node_eraseOnly]
    exact settled.child id child
  · intro id
    rw [children_eraseOnly]
    exact settled.distinct id
  · intro id members
    rw [kind_eraseOnly]
    exact settled.filled id members
  · intro id members
    rw [kind_eraseOnly, size_eraseOnly]
    intro kind member listed
    rw [node_eraseOnly, isSilent_eraseOnly]
    exact settled.member id members kind member listed

end Tree

namespace Expansion

variable {tree : Tree} {options : BranchOptions} {body other : Option BodyExpander}
  {position : Position}

theorem hooksAt_eraseOnly (tree : Tree) (id : NodeId) (kind : HookKind) :
    hooksAt tree.eraseOnly id kind = hooksAt tree id kind := by
  simp only [hooksAt, Tree.node_eraseOnly]
  rfl

theorem ofNode_eraseOnly (tree : Tree) (id : NodeId) (depth : Nat) :
    BranchStep.ofNode (tree.eraseOnly.node id) depth =
      (BranchStep.ofNode (tree.node id) depth).eraseOnly := by
  rw [Tree.node_eraseOnly]
  rfl

theorem callStep_eraseOnly (tree : Tree) (id declaration : NodeId) (depth : Nat) :
    callStep (tree.eraseOnly.node id) (tree.eraseOnly.node declaration) depth =
      (callStep (tree.node id) (tree.node declaration) depth).eraseOnly := by
  rw [Tree.node_eraseOnly, Tree.node_eraseOnly]
  rfl

theorem checkFlags_eraseOnly {id : NodeId} {step : BranchStep} {debugNodes : List NodeId}
    (checked : checkFlags options id step = .ok debugNodes) :
    checkFlags options id step.eraseOnly = .ok debugNodes := by
  simp only [checkFlags] at checked ⊢
  split at checked
  · cases checked
  · next allowed =>
    rw [if_neg]
    · exact checked
    · simp only [Bool.and_eq_true, Bool.or_eq_true, not_and, not_or] at allowed ⊢
      exact fun restricted => ⟨nofun, (allowed restricted).2⟩

/-- Wherever one expander of bodies succeeds, the other does, and meets the same nodes to debug. -/
def Mirrors (body other : Option BodyExpander) : Prop :=
  ∀ expander, body = some expander → ∃ mirror, other = some mirror ∧
    ∀ position declaration groups debugNodes,
      expander position declaration = .ok (groups, debugNodes) →
        ∃ full, mirror position declaration = .ok (full, debugNodes)

theorem expandOwn_eraseOnly (mirrors : Mirrors body other) {id : NodeId} {own : Own}
    (expanded : expandOwn tree options body position id = .ok own) :
    ∃ full, expandOwn tree.eraseOnly options other position id =
      .ok { own with branches := full } := by
  have calls := congrArg (·.isCall) (tree.identifiers_eraseOnly id)
  cases expandOwn_eq_ok.mp expanded with
  | plain plain allowed =>
      refine ⟨_, expandOwn_eq_ok.mpr (.plain (calls.trans plain) ?_)⟩
      rw [ofNode_eraseOnly]
      exact checkFlags_eraseOnly allowed
  | call isCall resolved fresh nested allowed found =>
      obtain ⟨mirror, nested, same⟩ := mirrors _ nested
      obtain ⟨full, mirrored⟩ := same _ _ _ _ found
      refine ⟨_, expandOwn_eq_ok.mpr (.call (calls.trans isCall) ?_ fresh nested ?_ mirrored)⟩
      · rw [Tree.resolve_eraseOnly]
        exact resolved
      · rw [callStep_eraseOnly]
        exact checkFlags_eraseOnly allowed

theorem expandMembers_eraseOnly (mirrors : Mirrors body other) (members : List NodeId)
    {groups : List (List Branch)} {debugNodes : List NodeId}
    (expanded : expandMembers tree options body position members = .ok (groups, debugNodes)) :
    ∃ full, expandMembers tree.eraseOnly options other position members =
      .ok (full, debugNodes) := by
  induction members generalizing groups debugNodes with
  | nil =>
      obtain ⟨rfl, rfl⟩ := Prod.mk.inj (Except.ok.inj expanded)
      exact ⟨[], rfl⟩
  | cons member rest ih =>
      obtain ⟨own, others, inner, first, behind, -, rfl⟩ := expandMembers_cons.mp expanded
      obtain ⟨full, alone⟩ := expandOwn_eraseOnly mirrors first
      obtain ⟨more, behind⟩ := ih behind
      exact ⟨_, expandMembers_cons.mpr ⟨_, _, _, alone, behind, rfl, rfl⟩⟩

mutual

theorem expandNode_eraseOnly (mirrors : Mirrors body other) {position : Position}
    {branches : List Branch} {debugNodes : List NodeId} :
    ∀ outline, expandNode tree options body position outline = .ok (branches, debugNodes) →
      ∃ full, expandNode tree.eraseOnly options other position outline = .ok (full, debugNodes)
  | .node id children, expanded => by
      have kinds := tree.kind_eraseOnly id
      have silence := tree.isSilent_eraseOnly id
      cases expandNode_eq_ok.mp expanded with
      | root kind below =>
          obtain ⟨full, mirrored⟩ := expandChildren_eraseOnly mirrors children below
          exact ⟨_, expandNode_eq_ok.mpr (.root (kinds.trans kind) mirrored)⟩
      | block kind alone below =>
          obtain ⟨first, alone⟩ := expandMembers_eraseOnly mirrors _ alone
          obtain ⟨full, mirrored⟩ := expandChildren_eraseOnly mirrors children below
          exact ⟨_, expandNode_eq_ok.mpr (.block (kinds.trans kind) alone mirrored)⟩
      | silent kind silent =>
          exact ⟨_, expandNode_eq_ok.mpr (.silent (kinds.trans kind) (silence.trans silent))⟩
      | step kind spoken alone below =>
          obtain ⟨first, alone⟩ := expandOwn_eraseOnly mirrors alone
          obtain ⟨full, mirrored⟩ := expandChildren_eraseOnly mirrors children below
          have found := NodeFound.step (kinds.trans kind) (silence.trans spoken) alone mirrored
          exact ⟨_, expandNode_eq_ok.mpr found⟩

theorem expandChildren_eraseOnly (mirrors : Mirrors body other) {position : Position}
    {groups : List (List Branch)} {debugNodes : List NodeId} :
    ∀ outlines, expandChildren tree options body position outlines = .ok (groups, debugNodes) →
      ∃ full, expandChildren tree.eraseOnly options other position outlines = .ok (full, debugNodes)
  | [], expanded => by
      obtain ⟨-, rfl⟩ := Prod.mk.inj (Except.ok.inj expanded)
      exact ⟨[], rfl⟩
  | .node id children :: rest, expanded => by
      have silence := tree.isSilent_eraseOnly id
      cases expandChildren_cons.mp expanded with
      | silent silent leaf others =>
          obtain ⟨full, mirrored⟩ := expandChildren_eraseOnly mirrors rest others
          refine ⟨_, expandChildren_cons.mpr (.silent (silence.trans silent) ?_ mirrored)⟩
          rw [Tree.hook_eraseOnly]
          exact leaf
      | spoken spoken first others =>
          obtain ⟨alone, first⟩ := expandNode_eraseOnly mirrors (.node id children) first
          obtain ⟨full, mirrored⟩ := expandChildren_eraseOnly mirrors rest others
          exact ⟨_, expandChildren_cons.mpr (.spoken (silence.trans spoken) first mirrored)⟩

end

theorem mirrors_bodyExpander (tree : Tree) (options : BranchOptions) (depth : Nat) :
    Mirrors (bodyExpander tree options depth) (bodyExpander tree.eraseOnly options depth) := by
  induction depth with
  | zero =>
      intro expander absent
      cases absent
  | succ depth ih =>
      intro expander present
      obtain rfl := Option.some.inj present
      refine ⟨_, rfl, fun position declaration groups debugNodes expanded => ?_⟩
      rw [Tree.outline_eraseOnly]
      exact expandChildren_eraseOnly ih _ expanded

/-- Where the expansion of a tree succeeds, so does that without its marks to run alone. -/
theorem expand_eraseOnly {id : NodeId} {branches : List Branch} {debugNodes : List NodeId}
    (expanded : expand tree options id = .ok (branches, debugNodes)) :
    ∃ full, expand tree.eraseOnly options id = .ok (full, debugNodes) := by
  rw [expand, Tree.outline_eraseOnly]
  exact expandNode_eraseOnly (mirrors_bodyExpander tree options maxCallDepth) _ expanded

end Expansion

end TestTree
