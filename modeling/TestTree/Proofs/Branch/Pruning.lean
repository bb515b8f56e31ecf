import Mathlib.Tactic.Choose
import TestTree.Proofs.Branch.Erasing

/-!
What the marks to run steps alone leave of a tree. A derivation is a branch before any pruning, with the
choices that were made along it. A branch survives if at each of them the alternative taken, as pruned
beneath, passes through a marked step or none does. So the expansion of a tree is a sublist of that
without the marks, and if it comes to any marked step, all of its branches do.
-/
namespace TestTree

theorem Branch.eraseOnly_append (branch next : Branch) :
    (branch.append next).eraseOnly = branch.eraseOnly.append next.eraseOnly := by
  simp [eraseOnly, append]

theorem Branch.hasOnlyStep_append (branch next : Branch) :
    (branch.append next).hasOnlyStep = (branch.hasOnlyStep || next.hasOnlyStep) :=
  List.any_append

theorem Branch.hasOnlyStep_eraseOnly (branch : Branch) : branch.eraseOnly.hasOnlyStep = false := by
  simp [eraseOnly, hasOnlyStep, BranchStep.eraseOnly]

namespace Expansion

/-- One of several alternatives, each given by its branches as pruned beneath. -/
structure Choice where
  taken : List Branch
  offered : List (List Branch)

/-- Whether the alternative taken passes through a step to run alone, or none does. -/
def Choice.keeps (choice : Choice) : Bool :=
  choice.taken.any Branch.hasOnlyStep || !choice.offered.any (·.any Branch.hasOnlyStep)

/-- A branch before any pruning, with the choices made along it. -/
structure Derivation where
  choices : List Choice := []
  branch : Branch

def Derivation.survives (derivation : Derivation) : Bool := derivation.choices.all Choice.keeps

def Derivation.append (first next : Derivation) : Derivation :=
  ⟨first.choices ++ next.choices, first.branch.append next.branch⟩

def Derivation.choosing (choice : Choice) (derivation : Derivation) : Derivation :=
  { derivation with choices := choice :: derivation.choices }

def survivors (derivations : List Derivation) : List Branch :=
  (derivations.filter Derivation.survives).map (·.branch)

/-- The branches of derivations without their marks. -/
def erasures (derivations : List Derivation) : List Branch :=
  derivations.map (·.branch.eraseOnly)

def crossed (first second : List Derivation) : List Derivation :=
  first.flatMap fun derivation => second.map derivation.append

/-- Goes on in one of the groups, and records that choice. -/
def oneOf (groups : List (List Derivation)) : List Derivation :=
  groups.flatMap fun group => group.map (.choosing ⟨survivors group, groups.map survivors⟩)

def chosen (isSequential : Bool) (groups : List (List Derivation)) : List Derivation :=
  if isSequential then groups.foldl crossed [{ branch := {} }] else oneOf groups

def followed (own : List Derivation) (isSequential : Bool) (groups : List (List Derivation)) :
    List Derivation :=
  if groups.isEmpty then own else crossed own (chosen isSequential groups)

/-- A branch with the hooks declared below a node behind its own. -/
def hookedAt (tree : Tree) (id : NodeId) (branch : Branch) : Branch :=
  { branch with
    beforeEveryBranch := branch.beforeEveryBranch ++ (hooksAt tree id .beforeEveryBranch).reverse
    afterEveryBranch := branch.afterEveryBranch ++ hooksAt tree id .afterEveryBranch
    beforeEveryStep := branch.beforeEveryStep ++ (hooksAt tree id .beforeEveryStep).reverse
    afterEveryStep := branch.afterEveryStep ++ hooksAt tree id .afterEveryStep }

def hooked (tree : Tree) (id : NodeId) (derivations : List Derivation) : List Derivation :=
  derivations.map fun derivation =>
    { derivation with branch := hookedAt tree id derivation.branch }

/-- All derivations of a node. They go on in one of its children, or in all of them if it is a
sequential step or calls a sequential declaration. -/
inductive Derives (tree : Tree) : Part → Position → NodeId → List Derivation → Prop
  | step {position : Position} {id : NodeId}
      (plain : (tree.node id).step.identifiers.isCall = false) :
      Derives tree .own position id
        [{ branch := { steps := [BranchStep.ofNode (tree.node id) position.active.length] } }]
  | call {position : Position} {id declaration : NodeId} {part : NodeId → List Derivation}
      (calls : (tree.node id).step.identifiers.isCall = true)
      (resolved : tree.resolve id position.path = .ok declaration)
      (below : ∀ child ∈ tree.branching declaration,
        Derives tree .whole (position.enterCall id declaration) child (part child)) :
      Derives tree .own position id (hooked tree declaration (followed
        [{ branch :=
            { steps := [callStep (tree.node id) (tree.node declaration) position.active.length] } }]
        (tree.node declaration).step.identifiers.isSequential
        ((tree.branching declaration).map part)))
  | node {position : Position} {id : NodeId} {own : List Derivation}
      {part : NodeId → List Derivation}
      (kind : (tree.node id).kind = .step) (spoken : tree.isSilent id = false)
      (alone : Derives tree .own position id own)
      (below : ∀ child ∈ tree.branching id,
        Derives tree .whole (position.enter ⟨id, tree.callee position.path id⟩) child
          (part child)) :
      Derives tree .whole position id (hooked tree id (followed own
        (tree.node id).step.identifiers.isSequential ((tree.branching id).map part)))
  | block {position : Position} {id : NodeId} {members : List NodeId}
      {own part : NodeId → List Derivation} (kind : (tree.node id).kind = .block members)
      (alone : ∀ member ∈ members, Derives tree .own position member (own member))
      (below : ∀ child ∈ tree.branching id,
        Derives tree .whole (position.enter { node := id }) child (part child)) :
      Derives tree .whole position id (hooked tree id (followed
        (chosen (tree.node id).step.identifiers.isSequential (members.map own)) false
        ((tree.branching id).map part)))

/-- All derivations of a tree: those of one of the nodes below its root. -/
def DerivesRoot (tree : Tree) (derivations : List Derivation) : Prop :=
  ∃ part : NodeId → List Derivation,
    (∀ child ∈ tree.branching Tree.rootId, Derives tree .whole {} child (part child)) ∧
    derivations = hooked tree Tree.rootId (oneOf ((tree.branching Tree.rootId).map part))

section Views

/-- A view of derivations under which they are joined as branches are. -/
structure Joins (view : List Derivation → List Branch) : Prop where
  start : view [{ branch := {} }] = [{}]
  crossed (first second : List Derivation) :
    view (crossed first second) = cross (view first) (view second)

variable {view : List Derivation → List Branch} {groups : List (List Derivation)}
  {own : List Derivation}

theorem Joins.chosen (joins : Joins view) (isSequential : Bool)
    (oneOf : view (oneOf groups) = alternatives (groups.map view)) :
    view (chosen isSequential groups) = choose isSequential (groups.map view) := by
  have general (start : List Derivation) :
      view (groups.foldl Expansion.crossed start) = (groups.map view).foldl cross (view start) := by
    clear oneOf
    induction groups generalizing start with
    | nil => rfl
    | cons group rest ih => rw [List.foldl_cons, ih, joins.crossed, List.map_cons, List.foldl_cons]
  cases isSequential with
  | true => exact (general _).trans (by rw [joins.start]; rfl)
  | false => exact oneOf

theorem Joins.followed (joins : Joins view) (isSequential : Bool)
    (oneOf : view (oneOf groups) = alternatives (groups.map view)) :
    view (followed own isSequential groups) =
      followedBy (view own) isSequential (groups.map view) := by
  rw [Expansion.followed, followedBy, List.isEmpty_map]
  split
  · rfl
  · rw [joins.crossed, joins.chosen isSequential oneOf]

theorem survivors_flatMap {α : Type} (items : List α) (derive : α → List Derivation) :
    survivors (items.flatMap derive) = items.flatMap fun item => survivors (derive item) := by
  simp [survivors, List.filter_flatMap, List.map_flatMap]

theorem mem_survivors {derivations : List Derivation} {branch : Branch} :
    branch ∈ survivors derivations ↔
      ∃ derivation ∈ derivations, derivation.survives = true ∧ derivation.branch = branch := by
  simp only [survivors, List.mem_map, List.mem_filter, and_assoc]

/-- Derivations that all get the same choices ahead of their own survive only if these are right. -/
theorem survivors_map (derivations : List Derivation) (keeps : Bool) (grow : Branch → Branch)
    {change : Derivation → Derivation}
    (survives : ∀ derivation, (change derivation).survives = (keeps && derivation.survives))
    (branch : ∀ derivation, (change derivation).branch = grow derivation.branch) :
    survivors (derivations.map change) = if keeps then (survivors derivations).map grow else [] := by
  cases keeps with
  | false => simp [survivors, List.filter_map, Function.comp_def, survives]
  | true => simp [survivors, List.filter_map, Function.comp_def, survives, branch]

theorem survives_append (first next : Derivation) :
    (first.append next).survives = (first.survives && next.survives) :=
  List.all_append

theorem survives_choosing (choice : Choice) (derivation : Derivation) :
    (derivation.choosing choice).survives = (choice.keeps && derivation.survives) :=
  List.all_cons

theorem joins_survivors : Joins survivors where
  start := rfl
  crossed first second := by
    have behind (derivation : Derivation) : survivors (second.map derivation.append) =
        if derivation.survives then (survivors second).map derivation.branch.append else [] :=
      survivors_map second derivation.survives derivation.branch.append (survives_append derivation)
        fun _ => rfl
    rw [crossed, survivors_flatMap, cross]
    simp only [behind]
    induction first with
    | nil => rfl
    | cons derivation rest ih =>
        rw [List.flatMap_cons, ih]
        cases survives : derivation.survives <;> simp [survivors, survives]

theorem joins_erasures : Joins erasures where
  start := rfl
  crossed first second := by
    simp only [erasures, crossed, cross, List.map_flatMap, List.flatMap_map, List.map_map]
    refine congrArg (first.flatMap ·) (funext fun derivation => List.map_congr_left fun next _ => ?_)
    exact Branch.eraseOnly_append _ _

theorem erasures_unmarked {derivations : List Derivation} {branch : Branch}
    (listed : branch ∈ erasures derivations) : branch.hasOnlyStep = false := by
  obtain ⟨derivation, -, rfl⟩ := List.mem_map.mp listed
  exact derivation.branch.hasOnlyStep_eraseOnly

theorem erasures_oneOf (groups : List (List Derivation)) :
    erasures (oneOf groups) = alternatives (groups.map erasures) := by
  have flat : erasures (oneOf groups) = (groups.map erasures).flatten := by
    rw [erasures, oneOf, List.map_flatMap, List.flatMap_def]
    refine congrArg List.flatten (List.map_congr_left fun group _ => ?_)
    exact List.map_map
  rw [alternatives, ← flat]
  exact (keepOnly_of_unmarked fun branch => erasures_unmarked).symm

end Views

section Uniformity

variable {derivations first second own : List Derivation} {groups : List (List Derivation)}

/-- If any of the derivations passes through a step to run alone, all that survive do. -/
def Uniform (derivations : List Derivation) : Prop :=
  (∃ derivation ∈ derivations, derivation.branch.hasOnlyStep = true) →
    ∀ branch ∈ survivors derivations, branch.hasOnlyStep = true

/-- Uniform derivations some of which survive. -/
structure Regular (derivations : List Derivation) : Prop where
  uniform : Uniform derivations
  inhabited : survivors derivations ≠ []

theorem Uniform.single (branch : Branch) : Uniform [{ branch }] := by
  rintro ⟨derivation, listed, marked⟩
  obtain rfl := List.mem_singleton.mp listed
  exact List.forall_mem_singleton.mpr marked

theorem Uniform.filter_survivors (uniform : Uniform derivations) :
    (survivors derivations).filter Branch.hasOnlyStep =
      if (survivors derivations).any Branch.hasOnlyStep then survivors derivations else [] := by
  split
  · next only =>
    obtain ⟨branch, listed, marked⟩ := List.any_eq_true.mp only
    obtain ⟨derivation, among, -, rfl⟩ := mem_survivors.mp listed
    exact List.filter_eq_self.mpr (uniform ⟨derivation, among, marked⟩)
  · next none =>
    refine List.filter_eq_nil_iff.mpr fun branch listed marked => none ?_
    exact List.any_eq_true.mpr ⟨branch, listed, marked⟩

/-- Among the alternatives, pruning branch by branch is pruning one alternative after the other. -/
theorem survivors_oneOf (regular : ∀ group ∈ groups, Regular group) :
    survivors (oneOf groups) = alternatives (groups.map survivors) := by
  have kept (group : List Derivation) (choice : Choice) :
      survivors (group.map (.choosing choice)) = if choice.keeps then survivors group else [] := by
    rw [survivors_map group choice.keeps id (survives_choosing choice) fun _ => rfl, List.map_id]
  rw [oneOf, survivors_flatMap, alternatives, keepOnly, List.any_flatten]
  simp only [kept, Choice.keeps]
  by_cases only : (groups.map survivors).any (·.any Branch.hasOnlyStep) = true
  · rw [if_pos only, List.filter_flatten, List.map_map, List.flatMap_def]
    refine congrArg List.flatten (List.map_congr_left fun group listed => ?_)
    simp only [only, Bool.not_true, Bool.or_false, Function.comp_apply]
    exact (regular group listed).uniform.filter_survivors.symm
  · simp [only, List.flatMap_def]

theorem Uniform.crossed (left : Uniform first) (right : Uniform second) :
    Uniform (crossed first second) := by
  rintro ⟨derivation, listed, marked⟩ branch among
  simp only [Expansion.crossed, List.mem_flatMap, List.mem_map] at listed
  obtain ⟨before, isFirst, after, isSecond, rfl⟩ := listed
  rw [joins_survivors.crossed] at among
  obtain ⟨start, isLeft, rest, isRight, rfl⟩ := mem_cross.mp among
  simp only [Derivation.append, Branch.hasOnlyStep_append, Bool.or_eq_true] at marked ⊢
  exact marked.imp (fun marked => left ⟨before, isFirst, marked⟩ start isLeft)
    fun marked => right ⟨after, isSecond, marked⟩ rest isRight

theorem Uniform.oneOf (regular : ∀ group ∈ groups, Regular group) : Uniform (oneOf groups) := by
  rintro ⟨derivation, listed, marked⟩
  simp only [Expansion.oneOf, List.mem_flatMap, List.mem_map] at listed
  obtain ⟨group, isGroup, inner, among, rfl⟩ := listed
  obtain ⟨branch, rest, survives⟩ := List.exists_cons_of_ne_nil (regular group isGroup).inhabited
  have first : branch ∈ survivors group := survives ▸ .head _
  have only : (groups.map survivors).flatten.any Branch.hasOnlyStep = true :=
    List.any_eq_true.mpr ⟨branch,
      List.mem_flatten.mpr ⟨_, List.mem_map_of_mem isGroup, first⟩,
      (regular group isGroup).uniform ⟨inner, among, marked⟩ branch first⟩
  intro branch left
  rw [survivors_oneOf regular, alternatives, keepOnly, if_pos only] at left
  exact (List.mem_filter.mp left).2

theorem Uniform.chosen (isSequential : Bool) (regular : ∀ group ∈ groups, Regular group) :
    Uniform (chosen isSequential groups) := by
  cases isSequential with
  | false => exact .oneOf regular
  | true =>
      have general (start : List Derivation) (started : Uniform start) :
          Uniform (groups.foldl Expansion.crossed start) := by
        induction groups generalizing start with
        | nil => exact started
        | cons group rest ih =>
            exact ih (fun other listed => regular other (.tail _ listed)) _
              (started.crossed (regular group (.head _)).uniform)
      exact general _ (.single {})

theorem Uniform.followed (isSequential : Bool) (alone : Uniform own)
    (regular : ∀ group ∈ groups, Regular group) : Uniform (followed own isSequential groups) := by
  rw [Expansion.followed]
  split
  · exact alone
  · exact alone.crossed (.chosen isSequential regular)

end Uniformity

section Trees

variable {tree : Tree} {target : Part} {position : Position} {id : NodeId}
  {branches others : List Branch} {derivations : List Derivation}

theorem survivors_hooked (tree : Tree) (id : NodeId) (derivations : List Derivation) :
    survivors (hooked tree id derivations) = attachHooks tree id (survivors derivations) :=
  survivors_map derivations true (hookedAt tree id) (fun _ => rfl) fun _ => rfl

theorem erasures_hooked (tree : Tree) (id : NodeId) (derivations : List Derivation) :
    erasures (hooked tree id derivations) = attachHooks tree.eraseOnly id (erasures derivations) := by
  simp only [erasures, hooked, attachHooks, List.map_map, hooksAt_eraseOnly]
  rfl

theorem Uniform.hooked (uniform : Uniform derivations) (tree : Tree) (id : NodeId) :
    Uniform (hooked tree id derivations) := by
  rintro ⟨derivation, listed, marked⟩ branch left
  obtain ⟨plain, among, rfl⟩ := List.mem_map.mp listed
  rw [survivors_hooked] at left
  obtain ⟨bare, survives, rfl⟩ := List.mem_map.mp left
  exact uniform ⟨plain, among, marked⟩ bare survives

theorem Expands.derives (expands : Expands tree target position id branches) :
    ∃ derivations, Derives tree target position id derivations := by
  induction expands with
  | step plain => exact ⟨_, .step plain⟩
  | call calls resolved below ih =>
      choose! part below using ih
      exact ⟨_, .call calls resolved below⟩
  | node kind spoken alone below ihOwn ih =>
      obtain ⟨own, alone⟩ := ihOwn
      choose! part below using ih
      exact ⟨_, .node kind spoken alone below⟩
  | block kind alone below ihOwn ih =>
      choose! own alone using ihOwn
      choose! part below using ih
      exact ⟨_, .block kind alone below⟩

theorem regular_of_expands (settled : tree.WellFormed) {ids : List NodeId}
    {part : NodeId → List Derivation}
    (all : ∀ id ∈ ids, Expands tree target position id (survivors (part id)) ∧ Uniform (part id)) :
    ∀ group ∈ ids.map part, Regular group :=
  List.forall_mem_map.mpr fun id listed => ⟨(all id listed).2, (all id listed).1.inhabited settled⟩

/-- What survives of the derivations of a node are the branches that the expansion finds. Some branch of every
alternative survives, so a mark beneath an alternative is still seen where it is chosen. -/
theorem Derives.survivors (settled : tree.WellFormed)
    (derives : Derives tree target position id derivations) :
    Expands tree target position id (survivors derivations) ∧ Uniform derivations := by
  induction derives with
  | step plain => exact ⟨.step plain, .single _⟩
  | @call position id declaration part calls resolved below ih =>
      have below := regular_of_expands settled ih
      refine ⟨?_, .hooked (.followed _ (.single _) below) _ _⟩
      rw [survivors_hooked, joins_survivors.followed _ (survivors_oneOf below), List.map_map]
      exact .call calls resolved fun child listed => (ih child listed).1
  | @node position id own part kind spoken alone below ihOwn ih =>
      have below := regular_of_expands settled ih
      refine ⟨?_, .hooked (.followed _ ihOwn.2 below) _ _⟩
      rw [survivors_hooked, joins_survivors.followed _ (survivors_oneOf below), List.map_map]
      exact .node kind spoken ihOwn.1 fun child listed => (ih child listed).1
  | @block position id members own part kind alone below ihOwn ih =>
      have alone := regular_of_expands settled ihOwn
      have below := regular_of_expands settled ih
      refine ⟨?_, .hooked (.followed _ (.chosen _ alone) below) _ _⟩
      rw [survivors_hooked, joins_survivors.followed _ (survivors_oneOf below),
        joins_survivors.chosen _ (survivors_oneOf alone), List.map_map, List.map_map]
      exact .block kind (fun member listed => (ihOwn member listed).1)
        fun child listed => (ih child listed).1

/-- Without their marks the derivations of a node are what the expansion finds in the erased tree. -/
theorem Derives.erasures (derives : Derives tree target position id derivations) :
    Expands tree.eraseOnly target position id (erasures derivations) := by
  have below {position : Position} {id : NodeId} {part : NodeId → List Branch}
      (all : ∀ child ∈ tree.branching id,
        Expands tree.eraseOnly .whole position child (part child)) :
      ∀ child ∈ tree.eraseOnly.branching id,
        Expands tree.eraseOnly .whole position child (part child) := by
    rw [Tree.branching_eraseOnly]
    exact all
  induction derives with
  | @step position id plain =>
      rw [Expansion.erasures, List.map_singleton, Branch.eraseOnly, List.map_singleton,
        ← ofNode_eraseOnly]
      refine .step ?_
      rw [Tree.identifiers_eraseOnly]
      exact plain
  | @call position id declaration part calls resolved _ ih =>
      rw [erasures_hooked, joins_erasures.followed _ (erasures_oneOf _), List.map_map]
      have isCall : (tree.eraseOnly.node id).step.identifiers.isCall = true := by
        rw [Tree.identifiers_eraseOnly]
        exact calls
      rw [← Tree.resolve_eraseOnly] at resolved
      have found := Expands.call isCall resolved (below ih)
      rw [Tree.branching_eraseOnly, Tree.identifiers_eraseOnly, callStep_eraseOnly] at found
      exact found
  | @node position id own part kind spoken alone _ ihOwn ih =>
      rw [erasures_hooked, joins_erasures.followed _ (erasures_oneOf _), List.map_map]
      rw [← Tree.callee_eraseOnly] at ih
      have found := Expands.node ((tree.kind_eraseOnly id).trans kind)
        ((tree.isSilent_eraseOnly id).trans spoken) ihOwn (below ih)
      rw [Tree.branching_eraseOnly, Tree.identifiers_eraseOnly] at found
      exact found
  | @block position id members own part kind alone _ ihOwn ih =>
      rw [erasures_hooked, joins_erasures.followed _ (erasures_oneOf _),
        joins_erasures.chosen _ (erasures_oneOf _), List.map_map, List.map_map]
      have found := Expands.block ((tree.kind_eraseOnly id).trans kind) ihOwn (below ih)
      rw [Tree.branching_eraseOnly, Tree.identifiers_eraseOnly] at found
      exact found

variable {options : BranchOptions} {debugNodes : List NodeId}

theorem derivesRoot_of_expand (settled : tree.WellFormed)
    (expanded : expand tree options Tree.rootId = .ok (branches, debugNodes)) :
    ∃ derivations, DerivesRoot tree derivations := by
  obtain ⟨part, below, -⟩ := expand_root settled expanded
  choose! derived derives using fun child listed => (below child listed).derives
  exact ⟨_, derived, derives, rfl⟩

theorem DerivesRoot.survivors (settled : tree.WellFormed) (derives : DerivesRoot tree derivations)
    (expanded : expand tree options Tree.rootId = .ok (branches, debugNodes)) :
    branches = survivors derivations ∧ Uniform derivations := by
  obtain ⟨derived, derives, rfl⟩ := derives
  obtain ⟨part, below, rfl⟩ := expand_root settled expanded
  have meaning (child : NodeId) (listed : child ∈ tree.branching Tree.rootId) :=
    (derives child listed).survivors settled
  have regular := regular_of_expands settled meaning
  refine ⟨?_, .hooked (.oneOf regular) _ _⟩
  rw [survivors_hooked, survivors_oneOf regular, List.map_map]
  have same : (tree.branching Tree.rootId).map part =
      (tree.branching Tree.rootId).map (Expansion.survivors ∘ derived) :=
    List.map_congr_left fun child listed => (below child listed).unique (meaning child listed).1
  rw [same]

theorem DerivesRoot.erasures (settled : tree.WellFormed) (derives : DerivesRoot tree derivations)
    (expanded : expand tree.eraseOnly options Tree.rootId = .ok (branches, debugNodes)) :
    branches = erasures derivations := by
  obtain ⟨derived, derives, rfl⟩ := derives
  obtain ⟨part, below, rfl⟩ := expand_root settled.eraseOnly expanded
  rw [Tree.branching_eraseOnly] at below ⊢
  rw [erasures_hooked, erasures_oneOf, List.map_map]
  have same : (tree.branching Tree.rootId).map part =
      (tree.branching Tree.rootId).map (Expansion.erasures ∘ derived) :=
    List.map_congr_left fun child listed =>
      (below child listed).unique (derives child listed).erasures
  rw [same]

theorem expand_sublist (settled : tree.WellFormed)
    (expanded : expand tree options Tree.rootId = .ok (branches, debugNodes))
    (erased : expand tree.eraseOnly options Tree.rootId = .ok (others, debugNodes)) :
    (branches.map Branch.eraseOnly).Sublist others := by
  obtain ⟨derivations, derives⟩ := derivesRoot_of_expand settled expanded
  rw [(derives.survivors settled expanded).1, derives.erasures settled erased, survivors, erasures,
    List.map_map]
  exact List.filter_sublist.map _

/-- The marks only prune: each choice keeps the alternatives with a marked step, if there are any. -/
theorem expand_prunes (built : tree.Built)
    (expanded : expand tree options Tree.rootId = .ok (branches, debugNodes)) :
    ∃ full derivations, expand tree.eraseOnly options Tree.rootId = .ok (full, debugNodes) ∧
      DerivesRoot tree derivations ∧
      full = derivations.map (·.branch.eraseOnly) ∧
      branches = (derivations.filter fun derivation =>
        derivation.choices.all Choice.keeps).map (·.branch) ∧
      (branches.map Branch.eraseOnly).Sublist full ∧
      (branches = [] → full = []) ∧
      ((∃ derivation ∈ derivations, derivation.branch.hasOnlyStep = true) →
        ∀ branch ∈ branches, branch.hasOnlyStep = true) := by
  obtain ⟨full, erased⟩ := expand_eraseOnly expanded
  obtain ⟨derivations, derives⟩ := derivesRoot_of_expand built.wellFormed expanded
  obtain ⟨pruned, uniform⟩ := derives.survivors built.wellFormed expanded
  have all := derives.erasures built.wellFormed erased
  refine ⟨full, derivations, erased, derives, all, pruned,
    expand_sublist built.wellFormed expanded erased, fun nothing => ?_, ?_⟩
  · rw [nothing] at expanded
    obtain ⟨derived, -, rfl⟩ := derives
    rw [all, branching_root_of_expand_nil built.wellFormed expanded]
    rfl
  · rw [pruned]
    exact uniform

/-- A step with two children, one of which calls a function with a step to run alone. -/
def spotlight : Tree := .grown "A -\n    F\n    B -\nC -\n\n* F\n    D - $\n    E -"

theorem expand_prunes_spotlight :
    ∃ branches debugNodes full derivations,
      expand spotlight {} Tree.rootId = .ok (branches, debugNodes) ∧
      branches.length = 1 ∧ full.length = 4 ∧
      expand spotlight.eraseOnly {} Tree.rootId = .ok (full, debugNodes) ∧
      DerivesRoot spotlight derivations ∧
      full = derivations.map (·.branch.eraseOnly) ∧
      branches = (derivations.filter fun derivation =>
        derivation.choices.all Choice.keeps).map (·.branch) ∧
      (branches.map Branch.eraseOnly).Sublist full ∧
      (branches = [] → full = []) ∧
      ((∃ derivation ∈ derivations, derivation.branch.hasOnlyStep = true) →
        ∀ branch ∈ branches, branch.hasOnlyStep = true) := by
  have built : spotlight.Built := .parseIn .empty _ _ _
  have count : (expand spotlight {} Tree.rootId).toOption.map (·.1.length) = some 1 := by
    decide +kernel
  have countAll : (expand spotlight.eraseOnly {} Tree.rootId).toOption.map (·.1.length) = some 4 := by
    decide +kernel
  cases expanded : expand spotlight {} Tree.rootId with
  | error error => rw [expanded] at count; cases count
  | ok result =>
      obtain ⟨branches, debugNodes⟩ := result
      obtain ⟨full, derivations, erased, pruned⟩ := expand_prunes built expanded
      rw [expanded] at count
      rw [erased] at countAll
      exact ⟨branches, debugNodes, full, derivations, rfl, Option.some.inj count,
        Option.some.inj countAll, erased, pruned⟩

end Trees

end Expansion

end TestTree
