import TestTree.Proofs.Branch.Declared
import TestTree.Proofs.Branch.Expands

/-!
Passages. What a branch passes through has a shape that its list of steps does not show: the body of a
declaration stands inside the call, what is below a step inside that step. A passage keeps that shape.
Every branch of an expansion has the steps of a passage, and the hooks of the scopes of that passage in
one certain order: a scope gives its hooks when all that is inside it is behind.
-/
namespace TestTree

/-- What a branch passes through at one node. -/
inductive Passage
  /-- A step, with the body of the declaration it calls, and with what is below it. -/
  | step (id : NodeId) (declaration : Option NodeId) (body below : List Passage)
  /-- A node that is no step: a block with the members that are passed, or the root. -/
  | fork (id : NodeId) (members below : List Passage)

/-- The hooks of one kind that a branch has. Those of the whole tree are not hooks of a branch. -/
def Branch.hooks (branch : Branch) : HookKind → List Hook
  | .beforeEveryBranch => branch.beforeEveryBranch
  | .afterEveryBranch => branch.afterEveryBranch
  | .beforeEveryStep => branch.beforeEveryStep
  | .afterEveryStep => branch.afterEveryStep
  | .beforeEverything | .afterEverything => []

namespace Passage

def node : Passage → NodeId
  | step id _ _ _ => id
  | fork id _ _ => id

/-- The step itself, inside `depth` calls. -/
def head (tree : Tree) (depth : Nat) (id : NodeId) : Option NodeId → BranchStep
  | none => BranchStep.ofNode (tree.node id) depth
  | some declaration => Expansion.callStep (tree.node id) (tree.node declaration) depth

mutual

/-- The steps passed, in order. -/
def steps (tree : Tree) (depth : Nat) : Passage → List BranchStep
  | step id declaration body below =>
      head tree depth id declaration ::
        (stepsAll tree (depth + 1) body ++ stepsAll tree depth below)
  | fork _ members below => stepsAll tree depth members ++ stepsAll tree depth below

def stepsAll (tree : Tree) (depth : Nat) : List Passage → List BranchStep
  | [] => []
  | passage :: rest => steps tree depth passage ++ stepsAll tree depth rest

end

mutual

/-- The scopes passed, in the order in which they give their hooks. -/
def order : Passage → List NodeId
  | step id declaration body below =>
      orderAll body ++ declaration.toList ++ orderAll below ++ [id]
  | fork id members below => orderAll members ++ orderAll below ++ [id]

def orderAll : List Passage → List NodeId
  | [] => []
  | passage :: rest => order passage ++ orderAll rest

end

/-- The scopes that give their hooks before what is below a step. -/
def ownOrder : Passage → List NodeId
  | step _ declaration body _ => orderAll body ++ declaration.toList
  | fork _ _ _ => []

end Passage

/-- What is passed of several nodes: one of them, or all in order; where there are none, nothing. -/
inductive Takes : Bool → List NodeId → List Passage → Prop
  | nothing {isSequential : Bool} : Takes isSequential [] []
  | one {ids : List NodeId} {passage : Passage} (listed : passage.node ∈ ids) :
      Takes false ids [passage]
  | all {passages : List Passage} : Takes true (passages.map Passage.node) passages

theorem Takes.eq_nil {isSequential : Bool} {ids : List NodeId} (taken : Takes isSequential ids []) :
    ids = [] := by
  cases taken with
  | nothing | all => rfl

theorem Takes.listed {isSequential : Bool} {ids : List NodeId} {passages : List Passage}
    (taken : Takes isSequential ids passages) : ∀ passage ∈ passages, passage.node ∈ ids := by
  intro passage among
  cases taken with
  | nothing => cases among
  | one listed => exact List.mem_singleton.mp among ▸ listed
  | all => exact List.mem_map_of_mem among

namespace Tree

open Expansion (Part hooksAt)

/-- The hooks that a branch gets where it passes a scope. -/
def contributed (tree : Tree) (kind : HookKind) (id : NodeId) : List Hook :=
  if kind.isBefore then (hooksAt tree id kind).reverse else hooksAt tree id kind

/-- The passages that a tree has behind a path, for a step alone or for a node with all below it. -/
inductive Allows (tree : Tree) : Part → List Frame → Passage → Prop
  | plain {path : List Frame} {id : NodeId}
      (plain : (tree.node id).step.identifiers.isCall = false) :
      Allows tree .own path (.step id none [] [])
  | call {path : List Frame} {id declaration : NodeId} {body : List Passage}
      (calls : (tree.node id).step.identifiers.isCall = true)
      (resolved : tree.resolve id path = .ok declaration)
      (taken : Takes (tree.node declaration).step.identifiers.isSequential
        (tree.branching declaration) body)
      (inside : ∀ passage ∈ body, Allows tree .whole (⟨id, some declaration⟩ :: path) passage) :
      Allows tree .own path (.step id (some declaration) body [])
  | step {path : List Frame} {id : NodeId} {declaration : Option NodeId} {body below : List Passage}
      (kind : (tree.node id).kind = .step) (spoken : tree.isSilent id = false)
      (own : Allows tree .own path (.step id declaration body []))
      (taken : Takes (tree.node id).step.identifiers.isSequential (tree.branching id) below)
      (further : ∀ passage ∈ below, Allows tree .whole (⟨id, declaration⟩ :: path) passage) :
      Allows tree .whole path (.step id declaration body below)
  | block {path : List Frame} {id : NodeId} {ids : List NodeId} {members below : List Passage}
      (kind : (tree.node id).kind = .block ids)
      (chosen : Takes (tree.node id).step.identifiers.isSequential ids members)
      (own : ∀ passage ∈ members, Allows tree .own path passage)
      (taken : Takes false (tree.branching id) below)
      (further : ∀ passage ∈ below, Allows tree .whole ({ node := id } :: path) passage) :
      Allows tree .whole path (.fork id members below)
  | root {path : List Frame} {id : NodeId} {below : List Passage}
      (kind : (tree.node id).kind = .root) (taken : Takes false (tree.branching id) below)
      (further : ∀ passage ∈ below, Allows tree .whole path passage) :
      Allows tree .whole path (.fork id [] below)

/-- The branch has these steps, and the hooks of these scopes in this order. -/
structure Consists (tree : Tree) (steps : List BranchStep) (order : List NodeId) (branch : Branch) :
    Prop where
  steps : branch.steps = steps
  hooks : ∀ kind, kind.isTreeLevel = false → branch.hooks kind = order.flatMap (tree.contributed kind)

end Tree

namespace Tree

open Expansion

variable {tree : Tree} {steps others : List BranchStep} {order further : List NodeId}
  {branch next : Branch} {id : NodeId}

/-- A step alone has nothing below it. -/
theorem Allows.shape {path : List Frame} {passage : Passage} (allows : tree.Allows .own path passage) :
    ∃ declaration body, passage = .step passage.node declaration body [] := by
  cases allows with
  | plain => exact ⟨none, [], rfl⟩
  | @call _ _ declaration body => exact ⟨some declaration, body, rfl⟩

theorem Allows.callee {path : List Frame} {declaration : Option NodeId} {body : List Passage}
    (allows : tree.Allows .own path (.step id declaration body [])) :
    declaration = tree.callee path id := by
  cases allows with
  | plain plain => rw [Tree.callee, if_neg (by simp [plain])]
  | call calls resolved => rw [Tree.callee, if_pos calls, resolved]; rfl

theorem lt_of_resolve {path : List Frame} {declaration : NodeId}
    (resolved : tree.resolve id path = .ok declaration) : declaration < tree.size := by
  rw [Tree.resolve] at resolved
  split at resolved
  · next found visible =>
      obtain rfl := Except.ok.inj resolved
      have declares := List.find?_some visible
      apply Nat.lt_of_not_le
      intro outside
      rw [Tree.declares, node_of_size_le outside] at declares
      cases declares
  · cases resolved

theorem Allows.declaration_lt {path : List Frame} {declaration : Option NodeId} {body : List Passage}
    (allows : tree.Allows .own path (.step id declaration body [])) :
    ∀ callee, declaration = some callee → callee < tree.size := by
  intro callee same
  cases allows with
  | plain => cases same
  | call calls resolved => exact Option.some.inj same ▸ lt_of_resolve resolved

/-- What stands for a step in a branch. -/
theorem WellFormed.head (settled : tree.WellFormed) (inside : id < tree.size)
    {declaration : Option NodeId} (known : ∀ callee, declaration = some callee → callee < tree.size)
    (depth : Nat) : (Passage.head tree depth id declaration).origin = some id ∧
      (Passage.head tree depth id declaration).declaration = declaration ∧
      (Passage.head tree depth id declaration).branchIndents = depth := by
  have isId : (tree.node id).id = id := settled.id id inside
  cases declaration with
  | none => exact ⟨congrArg some isId, rfl, rfl⟩
  | some callee =>
      have isCallee : (tree.node callee).id = callee := settled.id callee (known callee rfl)
      exact ⟨congrArg some isId, congrArg some isCallee, rfl⟩

theorem WellFormed.below (settled : tree.WellFormed) {isSequential : Bool} {passages : List Passage}
    (taken : Takes isSequential (tree.branching id) passages) : ∀ passage ∈ passages,
      passage.node < tree.size ∧ passage.node ≠ rootId ∧ (tree.node passage.node).block = none := by
  intro passage among
  have isChild := (mem_branching.mp (taken.listed passage among)).1
  obtain ⟨behind, bounded, free⟩ := settled.child id _ isChild
  exact ⟨bounded, Nat.ne_of_gt (Nat.zero_lt_of_lt behind), free⟩

theorem WellFormed.members (settled : tree.WellFormed) {isSequential : Bool} {ids : List NodeId}
    {passages : List Passage} (kind : (tree.node id).kind = .block ids)
    (chosen : Takes isSequential ids passages) : ∀ passage ∈ passages,
      passage.node < tree.size ∧ passage.node ≠ rootId ∧
        (tree.node passage.node).block = some id := by
  intro passage among
  obtain ⟨behind, bounded, owned, -⟩ := settled.member id ids kind _ (chosen.listed passage among)
  exact ⟨bounded, Nat.ne_of_gt (Nat.zero_lt_of_lt behind), owned⟩

/-- What is contributed on a way through scopes is what they declare, scope by scope. -/
theorem declare_contributed (settled : tree.WellFormed) (nested : tree.Nested) (kind : HookKind)
    (order : List NodeId) :
    tree.Declare (order.flatMap (tree.hookNodesAt kind)) (order.flatMap (tree.contributed kind)) := by
  have scope (id : NodeId) : tree.Declare (tree.hookNodesAt kind id) (tree.contributed kind id) := by
    have declare := declare_hooksAt settled nested kind id
    rw [hookNodesAt, contributed]
    split
    · exact List.rel_reverse declare
    · exact declare
  induction order with
  | nil => exact .nil
  | cons id rest ih =>
      rw [List.flatMap_cons, List.flatMap_cons]
      exact List.rel_append (scope id) ih

theorem contributed_of_childless (childless : (tree.node id).children = []) (kind : HookKind) :
    tree.contributed kind id = [] := by
  simp [contributed, hooksAt, childless]

theorem Consists.empty : tree.Consists [] [] {} :=
  ⟨rfl, fun kind _ => by cases kind <;> rfl⟩

theorem Consists.single (step : BranchStep) : tree.Consists [step] [] { steps := [step] } :=
  ⟨rfl, fun kind _ => by cases kind <;> rfl⟩

theorem Consists.append (first : tree.Consists steps order branch)
    (second : tree.Consists others further next) :
    tree.Consists (steps ++ others) (order ++ further) (branch.append next) := by
  constructor
  · rw [← first.steps, ← second.steps]
    rfl
  · intro kind branchLevel
    rw [List.flatMap_append, ← first.hooks kind branchLevel, ← second.hooks kind branchLevel]
    cases kind <;> rfl

theorem Consists.of_same (consists : tree.Consists steps order branch)
    (same : (next.steps, next.hooks) = (branch.steps, branch.hooks)) :
    tree.Consists steps order next := by
  obtain ⟨sameSteps, sameHooks⟩ := Prod.mk.inj same
  constructor
  · rw [sameSteps, consists.steps]
  · intro kind branchLevel
    rw [sameHooks, consists.hooks kind branchLevel]

theorem Consists.extend (consists : tree.Consists steps order branch)
    (silent : ∀ kind, tree.contributed kind id = []) : tree.Consists steps (order ++ [id]) branch := by
  constructor
  · exact consists.steps
  · intro kind branchLevel
    rw [List.flatMap_append, List.flatMap_singleton, silent, List.append_nil]
    exact consists.hooks kind branchLevel

/-- Passing a scope adds its hooks behind all others. -/
theorem Consists.attach {branches : List Branch} (listed : branch ∈ attachHooks tree id branches) :
    ∃ plain ∈ branches, ∀ steps order, tree.Consists steps order plain →
      tree.Consists steps (order ++ [id]) branch := by
  obtain ⟨plain, among, rfl⟩ := List.mem_map.mp listed
  refine ⟨plain, among, fun steps order consists => ⟨consists.steps, fun kind branchLevel => ?_⟩⟩
  rw [List.flatMap_append, List.flatMap_singleton, ← consists.hooks kind branchLevel]
  cases kind with
  | beforeEveryBranch | afterEveryBranch | beforeEveryStep | afterEveryStep => rfl
  | beforeEverything | afterEverything => cases branchLevel

end Tree

namespace Expansion

open Passage (stepsAll orderAll)

variable {tree : Tree} {ids : List NodeId} {part : NodeId → List Branch} {branch : Branch}

section Choices

variable {holds : Passage → Prop} {depth : Nat}

/-- The branches of a node are readings of passages through it. -/
def Readable (tree : Tree) (depth : Nat) (holds : Passage → Prop) (id : NodeId)
    (branches : List Branch) : Prop :=
  ∀ branch ∈ branches, ∃ passage : Passage, passage.node = id ∧ holds passage ∧
    tree.Consists (passage.steps tree depth) passage.order branch

/-- A sequence that starts with some branches goes on with one passage through each node. -/
theorem foldl_cross_readable (readable : ∀ id ∈ ids, Readable tree depth holds id (part id))
    {start : List Branch} (listed : branch ∈ (ids.map part).foldl cross start) :
    ∃ first ∈ start, ∃ passages : List Passage, passages.map Passage.node = ids ∧
      (∀ passage ∈ passages, holds passage) ∧
      ∀ steps order, tree.Consists steps order first →
        tree.Consists (steps ++ stepsAll tree depth passages) (order ++ orderAll passages) branch := by
  induction ids generalizing start with
  | nil =>
      refine ⟨branch, listed, [], rfl, nofun, fun steps order consists => ?_⟩
      simpa [stepsAll, orderAll] using consists
  | cons id rest ih =>
      obtain ⟨joined, among, passages, same, all, reads⟩ :=
        ih (fun other listed => readable other (.tail _ listed)) listed
      obtain ⟨first, started, own, inside, rfl⟩ := mem_cross.mp among
      obtain ⟨passage, here, held, consists⟩ := readable id (.head _) own inside
      refine ⟨first, started, passage :: passages, ?_, ?_, fun steps order before => ?_⟩
      · rw [List.map_cons, here, same]
      · exact List.forall_mem_cons.mpr ⟨held, all⟩
      · rw [stepsAll, orderAll, ← List.append_assoc, ← List.append_assoc]
        exact reads _ _ (before.append consists)

theorem choose_readable (readable : ∀ id ∈ ids, Readable tree depth holds id (part id))
    (isSequential : Bool) (listed : branch ∈ choose isSequential (ids.map part)) :
    ∃ passages, Takes isSequential ids passages ∧ (∀ passage ∈ passages, holds passage) ∧
      tree.Consists (stepsAll tree depth passages) (orderAll passages) branch := by
  cases isSequential with
  | true =>
      obtain ⟨first, started, passages, rfl, all, reads⟩ := foldl_cross_readable readable listed
      obtain rfl := List.mem_singleton.mp started
      exact ⟨passages, .all, all, reads [] [] .empty⟩
  | false =>
      obtain ⟨group, among, inside⟩ := List.mem_flatten.mp (mem_of_keepOnly listed)
      obtain ⟨id, isId, rfl⟩ := List.mem_map.mp among
      obtain ⟨passage, rfl, held, consists⟩ := readable id isId branch inside
      refine ⟨[passage], .one isId, List.forall_mem_singleton.mpr held, ?_⟩
      simpa [stepsAll, orderAll] using consists

theorem further_readable (readable : ∀ id ∈ ids, Readable tree depth holds id (part id))
    (isSequential : Bool) (listed : branch ∈ further isSequential (ids.map part)) :
    ∃ passages, Takes isSequential ids passages ∧ (∀ passage ∈ passages, holds passage) ∧
      tree.Consists (stepsAll tree depth passages) (orderAll passages) branch := by
  rw [further] at listed
  split at listed
  · next none =>
      obtain rfl := List.mem_singleton.mp listed
      obtain rfl : ids = [] := by simpa using none
      refine ⟨[], .nothing, ?_, .empty⟩
      intro passage absent
      cases absent
  · exact choose_readable readable isSequential listed

end Choices

/-- The scopes that have given their hooks where a part of a node is passed. -/
def orderOf : Part → Passage → List NodeId
  | .own, passage => passage.ownOrder
  | .whole, passage => passage.order

theorem Expands.readable (nested : tree.Nested) {target : Part} {position : Position} {id : NodeId}
    {branches : List Branch} (expands : Expands tree target position id branches) :
    ∀ branch ∈ branches, ∃ passage : Passage, passage.node = id ∧
      tree.Allows target position.path passage ∧
      tree.Consists (passage.steps tree position.active.length) (orderOf target passage) branch := by
  induction expands with
  | @step position id plain =>
      intro branch listed
      obtain rfl := List.mem_singleton.mp listed
      exact ⟨.step id none [] [], rfl, .plain plain, .single _⟩
  | @call position id declaration part calls resolved below ih =>
      intro branch listed
      obtain ⟨plain, among, attach⟩ := Tree.Consists.attach listed
      rw [followedBy_eq] at among
      obtain ⟨own, single, inner, follows, rfl⟩ := mem_cross.mp among
      obtain rfl := List.mem_singleton.mp single
      obtain ⟨body, taken, inside, consists⟩ := further_readable ih _ follows
      refine ⟨.step id (some declaration) body [], rfl, .call calls resolved taken inside, ?_⟩
      have read := attach _ _ ((Tree.Consists.single _).append consists)
      simpa [Passage.steps, Passage.head, stepsAll, orderOf, Passage.ownOrder, Position.enterCall]
        using read
  | @node position id own part kind spoken alone below ihOwn ih =>
      intro branch listed
      obtain ⟨plain, among, attach⟩ := Tree.Consists.attach listed
      rw [followedBy_eq] at among
      obtain ⟨first, isOwn, inner, follows, rfl⟩ := mem_cross.mp among
      obtain ⟨passage, isNode, allows, consists⟩ := ihOwn first isOwn
      obtain ⟨below, taken, further, followed⟩ := further_readable ih _ follows
      obtain ⟨declaration, body, rfl⟩ := isNode ▸ allows.shape
      rw [← allows.callee] at further
      refine ⟨.step id declaration body below, rfl, .step kind spoken allows taken further, ?_⟩
      have read := attach _ _ (consists.append followed)
      simpa [Passage.steps, stepsAll, orderOf, Passage.order, Passage.ownOrder, Position.enter]
        using read
  | @block position id members own part kind alone below ihOwn ih =>
      intro branch listed
      obtain ⟨plain, among, attach⟩ := Tree.Consists.attach listed
      rw [followedBy_eq] at among
      obtain ⟨first, isOwn, inner, follows, rfl⟩ := mem_cross.mp among
      have readable : ∀ member ∈ members, Readable tree position.active.length
          (tree.Allows .own position.path) member (own member) := by
        intro member isMember branch among
        obtain ⟨passage, isNode, allows, consists⟩ := ihOwn member isMember branch among
        refine ⟨passage, isNode, allows, ?_⟩
        have silent : ∀ kind, tree.contributed kind member = [] :=
          Tree.contributed_of_childless (nested.member id members kind member isMember).1
        have extended := consists.extend silent
        cases allows with
        | plain | call =>
            rw [← isNode] at extended
            simpa [Passage.order, orderAll, orderOf, Passage.ownOrder, Passage.node] using extended
      obtain ⟨passages, chosen, allowed, consists⟩ := choose_readable readable _ isOwn
      obtain ⟨below, taken, further, followed⟩ := further_readable ih _ follows
      refine ⟨.fork id passages below, rfl, .block kind chosen allowed taken further, ?_⟩
      have read := attach _ _ (consists.append followed)
      simpa [Passage.steps, orderOf, Passage.order, Position.enter] using read

/-- What an expansion of any node comes to. -/
theorem expand_cases {options : BranchOptions} {id : NodeId} {branches : List Branch}
    {debugNodes : List NodeId} (settled : tree.WellFormed)
    (expanded : expand tree options id = .ok (branches, debugNodes)) :
    branches = [] ∨ Expands tree .whole {} id branches ∨
      (tree.node id).kind = .root ∧ ∃ part : NodeId → List Branch,
        (∀ child ∈ tree.branching id, Expands tree .whole {} child (part child)) ∧
        branches = attachHooks tree id (alternatives ((tree.branching id).map part)) := by
  have sound := sound_bodyExpander settled options maxCallDepth
  rw [expand, Tree.outline, outlineTo_eq, expandNode_eq_ok, ← Tree.outline] at expanded
  cases expanded with
  | silent => exact .inl rfl
  | root kind found =>
      obtain ⟨part, rfl, below⟩ := expandChildren_outline settled sound found
      refine .inr (.inr ⟨kind, part, below, ?_⟩)
      cases tree.branching id <;> rfl
  | block kind alone found =>
      obtain ⟨rfl, own⟩ := expandMembers_groups sound _ alone
      obtain ⟨part, rfl, below⟩ := expandChildren_outline settled sound found
      exact .inr (.inl (.block kind own below))
  | step kind spoken alone found =>
      obtain ⟨expands, callee⟩ := expandOwn_expands sound alone
      rw [callee] at found
      obtain ⟨part, rfl, below⟩ := expandChildren_outline settled sound found
      exact .inr (.inl (.node kind spoken expands below))

theorem readable_of_expand {options : BranchOptions} {id : NodeId} {branches : List Branch}
    {debugNodes : List NodeId} (built : tree.Built)
    (expanded : expand tree options id = .ok (branches, debugNodes)) :
    Readable tree 0 (tree.Allows .whole []) id branches := by
  obtain ⟨settled, nested⟩ := built.nested
  rcases expand_cases settled expanded with rfl | expands | ⟨kind, part, below, rfl⟩
  · exact nofun
  · exact expands.readable nested
  · intro branch listed
    obtain ⟨plain, among, attach⟩ := Tree.Consists.attach listed
    obtain ⟨passages, taken, further, consists⟩ :=
      choose_readable (fun child isChild => (below child isChild).readable nested) false among
    refine ⟨.fork id [] passages, rfl, .root kind taken further, ?_⟩
    simpa [Passage.steps, Passage.order, stepsAll, orderAll] using attach _ _ consists

end Expansion

namespace Selection

open Expansion (Readable)

variable {tree : Tree} {options : BranchOptions} {branches : List Branch}

/-- Selecting branches leaves their steps and hooks as they are. -/
theorem readable_of_expanded {id : NodeId} {expanded kept : List Branch} {holds : Passage → Prop}
    (readable : Readable tree 0 holds id expanded)
    (selected : ∀ branch ∈ kept,
      branch ∈ isolateDebug ((expanded.map Branch.tag).filter (·.isSelected options))) :
    Readable tree 0 holds id (assignIds [] kept) := by
  intro branch listed
  have views : (assignIds [] kept).map (fun branch => (branch.steps, branch.hooks)) =
      kept.map fun branch => (branch.steps, branch.hooks) :=
    map_assignIds (fun branch _ => Prod.ext rfl (funext fun kind => by cases kind <;> rfl)) [] kept
  have viewed := List.mem_map_of_mem (f := fun branch : Branch => (branch.steps, branch.hooks)) listed
  rw [views] at viewed
  obtain ⟨chosen, isKept, same⟩ := List.mem_map.mp viewed
  obtain ⟨tagged, among, alike⟩ := exists_of_mem_isolateDebug
    (fun branch : Branch => (branch.steps, branch.hooks))
    (fun branch => Prod.ext rfl (funext fun kind => by cases kind <;> rfl)) (selected chosen isKept)
  obtain ⟨plain, found, rfl⟩ := List.mem_map.mp (List.mem_filter.mp among).1
  obtain ⟨passage, isNode, held, consists⟩ := readable plain found
  have untagged : (plain.tag.steps, plain.tag.hooks) = (plain.steps, plain.hooks) :=
    Prod.ext rfl (funext fun kind => by cases kind <;> rfl)
  exact ⟨passage, isNode, held, consists.of_same (same.symm.trans (alike.trans untagged))⟩

/-- Every branch of a node has the steps and the hooks of a passage through that node. -/
theorem readable_of_branchify {id : NodeId} (built : tree.Built)
    (branchified : branchify tree id options = .ok branches) :
    Readable tree 0 (tree.Allows .whole []) id branches := by
  obtain ⟨kept, selected, rfl⟩ := branchify_eq branchified
  obtain ⟨expanded, debugNodes, found, rfl⟩ := select_eq selected
  exact readable_of_expanded (Expansion.readable_of_expand built found) fun _ listed => listed

theorem readable_of_generate {suite : Suite} (built : tree.Built)
    (generated : tree.generate options = .ok suite) :
    Readable tree 0 (tree.Allows .whole []) Tree.rootId suite.branches := by
  obtain ⟨expanded, debugNodes, kept, found, permuted, same⟩ := generate_eq generated
  rw [same]
  exact readable_of_expanded (Expansion.readable_of_expand built found)
    fun _ listed => permuted.mem_iff.mp listed

end Selection

end TestTree
