import TestTree.Proofs.Branch.Expands

/-!
The ways through a tree. A way is told apart from all others by the choices made on it, the outermost
first: each is the place of the child or member that was taken among its alternatives. An expansion
lists the ways in the order of their choices and each of them once.
-/
namespace TestTree

/-- The nodes that steps come from, with the branch indents of the steps. -/
abbrev Trail := List (Option NodeId × Nat)

def Branch.trail (branch : Branch) : Trail :=
  branch.steps.map fun step => (step.origin, step.branchIndents)

namespace Tree

open Expansion (Part)

mutual

/-- The ways through a node, with or without its children, that start inside `depth` calls. -/
inductive Passes (tree : Tree) : Part → List Frame → Nat → NodeId → List Nat → Trail → Prop
  | step {path : List Frame} {depth : Nat} {id : NodeId}
      (plain : (tree.node id).step.identifiers.isCall = false) :
      Passes tree .own path depth id [] [(some id, depth)]
  | call {path : List Frame} {depth : Nat} {id declaration : NodeId} {choices : List Nat}
      {trail : Trail} (calls : (tree.node id).step.identifiers.isCall = true)
      (resolved : tree.resolve id path = .ok declaration)
      (body : Follows tree (⟨id, some declaration⟩ :: path) (depth + 1) declaration
        (tree.node declaration).step.identifiers.isSequential choices trail) :
      Passes tree .own path depth id choices ((some id, depth) :: trail)
  | node {path : List Frame} {depth : Nat} {id : NodeId} {choices further : List Nat}
      {trail after : Trail} (kind : (tree.node id).kind = .step)
      (spoken : tree.isSilent id = false) (own : Passes tree .own path depth id choices trail)
      (children : Follows tree (⟨id, tree.callee path id⟩ :: path) depth id
        (tree.node id).step.identifiers.isSequential further after) :
      Passes tree .whole path depth id (choices ++ further) (trail ++ after)
  | block {path : List Frame} {depth : Nat} {id : NodeId} {members : List NodeId}
      {choices further : List Nat} {trail after : Trail}
      (kind : (tree.node id).kind = .block members)
      (own : Chooses tree .own path depth members (tree.node id).step.identifiers.isSequential
        choices trail)
      (children : Follows tree ({ node := id } :: path) depth id false further after) :
      Passes tree .whole path depth id (choices ++ further) (trail ++ after)

/-- The ways through one of several nodes, or through all of them in order. -/
inductive Chooses (tree : Tree) :
    Part → List Frame → Nat → List NodeId → Bool → List Nat → Trail → Prop
  | one {part : Part} {path : List Frame} {depth : Nat} {ids : List NodeId} {index : Nat}
      {id : NodeId} {choices : List Nat} {trail : Trail} (taken : ids[index]? = some id)
      (passes : Passes tree part path depth id choices trail) :
      Chooses tree part path depth ids false (index :: choices) trail
  | none {part : Part} {path : List Frame} {depth : Nat} :
      Chooses tree part path depth [] true [] []
  | all {part : Part} {path : List Frame} {depth : Nat} {id : NodeId} {ids : List NodeId}
      {choices further : List Nat} {trail after : Trail}
      (first : Passes tree part path depth id choices trail)
      (others : Chooses tree part path depth ids true further after) :
      Chooses tree part path depth (id :: ids) true (choices ++ further) (trail ++ after)

/-- The ways on through the children of a node; without any of them there is nothing to pass. -/
inductive Follows (tree : Tree) :
    List Frame → Nat → NodeId → Bool → List Nat → Trail → Prop
  | nothing {path : List Frame} {depth : Nat} {id : NodeId} {isSequential : Bool}
      (leaf : tree.branching id = []) : Follows tree path depth id isSequential [] []
  | children {path : List Frame} {depth : Nat} {id : NodeId} {isSequential : Bool}
      {choices : List Nat} {trail : Trail} (inner : tree.branching id ≠ [])
      (chooses : Chooses tree .whole path depth (tree.branching id) isSequential choices trail) :
      Follows tree path depth id isSequential choices trail

end

end Tree

/-- Of two ways that part, the first takes the alternative that stands further ahead. -/
def Precedes (first second : List Nat) : Prop :=
  ∃ common taken other rest beyond, first = common ++ taken :: rest ∧
    second = common ++ other :: beyond ∧ taken < other

namespace Precedes

variable {first second : List Nat}

theorem head {taken other : Nat} (less : taken < other) (rest beyond : List Nat) :
    Precedes (taken :: rest) (other :: beyond) :=
  ⟨[], taken, other, rest, beyond, rfl, rfl, less⟩

theorem append_right (precedes : Precedes first second) (rest beyond : List Nat) :
    Precedes (first ++ rest) (second ++ beyond) := by
  obtain ⟨common, taken, other, left, right, rfl, rfl, less⟩ := precedes
  exact ⟨common, taken, other, left ++ rest, right ++ beyond, by simp, by simp, less⟩

theorem append_left (common : List Nat) (precedes : Precedes first second) :
    Precedes (common ++ first) (common ++ second) := by
  obtain ⟨inner, taken, other, left, right, rfl, rfl, less⟩ := precedes
  exact ⟨common ++ inner, taken, other, left, right, by simp, by simp, less⟩

theorem cons (choice : Nat) (precedes : Precedes first second) :
    Precedes (choice :: first) (choice :: second) :=
  append_left [choice] precedes

theorem lt (precedes : Precedes first second) : first < second := by
  obtain ⟨common, taken, other, left, right, rfl, rfl, less⟩ := precedes
  induction common with
  | nil => exact List.Lex.rel less
  | cons choice common ih => exact List.Lex.cons ih

end Precedes

/-- The branches follow exactly these ways, each once and in the order of their choices. -/
def Lists (branches : List Branch) (ways : List Nat → Trail → Prop) : Prop :=
  ∃ found : List (List Nat × Trail), found.map (·.2) = branches.map Branch.trail ∧
    found.Pairwise (fun first second => Precedes first.1 second.1) ∧
    ∀ choices trail, (choices, trail) ∈ found ↔ ways choices trail

/-- A way of one kind followed by a way of another. -/
def Then (first second : List Nat → Trail → Prop) (choices : List Nat) (trail : Trail) : Prop :=
  ∃ taken further passed after, first taken passed ∧ second further after ∧
    choices = taken ++ further ∧ trail = passed ++ after

def OneOf (ways : NodeId → List Nat → Trail → Prop) (offset : Nat) (ids : List NodeId)
    (choices : List Nat) (trail : Trail) : Prop :=
  ∃ index id inner, ids[index]? = some id ∧ choices = (offset + index) :: inner ∧ ways id inner trail

def InOrder (ways : NodeId → List Nat → Trail → Prop) : List NodeId → List Nat → Trail → Prop
  | [], choices, trail => choices = [] ∧ trail = []
  | id :: rest, choices, trail => Then (ways id) (InOrder ways rest) choices trail

namespace Lists

variable {branches others : List Branch} {ways more : List Nat → Trail → Prop}

theorem congr (lists : Lists branches ways)
    (same : ∀ choices trail, ways choices trail ↔ more choices trail) : Lists branches more := by
  obtain ⟨found, trails, ordered, all⟩ := lists
  exact ⟨found, trails, ordered, fun choices trail => (all choices trail).trans (same choices trail)⟩

theorem of_trails (lists : Lists branches ways)
    (same : others.map Branch.trail = branches.map Branch.trail) : Lists others ways := by
  obtain ⟨found, trails, ordered, all⟩ := lists
  exact ⟨found, trails.trans same.symm, ordered, all⟩

theorem nil : Lists [] fun _ _ => False :=
  ⟨[], rfl, .nil, fun choices trail => by simp⟩

theorem single (branch : Branch) :
    Lists [branch] fun choices trail => choices = [] ∧ trail = branch.trail :=
  ⟨[([], branch.trail)], rfl, List.pairwise_singleton _ _, fun choices trail => by simp⟩

theorem choice (lists : Lists branches ways) (place : Nat) :
    Lists branches fun choices trail => ∃ inner, choices = place :: inner ∧ ways inner trail := by
  obtain ⟨found, trails, ordered, all⟩ := lists
  refine ⟨found.map fun way => (place :: way.1, way.2), ?_, ?_, ?_⟩
  · rw [List.map_map, ← trails]
    rfl
  · exact List.pairwise_map.mpr (ordered.imp fun precedes => precedes.cons place)
  · intro choices trail
    simp only [List.mem_map, Prod.mk.injEq, Prod.exists]
    constructor
    · rintro ⟨inner, other, listed, rfl, rfl⟩
      exact ⟨inner, rfl, (all inner other).mp listed⟩
    · rintro ⟨inner, rfl, passes⟩
      exact ⟨inner, trail, (all inner trail).mpr passes, rfl, rfl⟩

theorem append (first : Lists branches ways) (second : Lists others more)
    (ahead : ∀ choices trail further after, ways choices trail → more further after →
      Precedes choices further) :
    Lists (branches ++ others) fun choices trail => ways choices trail ∨ more choices trail := by
  obtain ⟨found, trails, ordered, all⟩ := first
  obtain ⟨known, trails', ordered', all'⟩ := second
  refine ⟨found ++ known, ?_, ?_, ?_⟩
  · rw [List.map_append, List.map_append, trails, trails']
  · refine List.pairwise_append.mpr ⟨ordered, ordered', ?_⟩
    rintro ⟨choices, trail⟩ listed ⟨further, after⟩ listed'
    exact ahead _ _ _ _ ((all _ _).mp listed) ((all' _ _).mp listed')
  · intro choices trail
    rw [List.mem_append, all, all']

theorem trail_append (branch next : Branch) :
    (branch.append next).trail = branch.trail ++ next.trail := by
  simp [Branch.trail, Branch.append]

theorem cross (first : Lists branches ways) (second : Lists others more) :
    Lists (Expansion.cross branches others) (Then ways more) := by
  obtain ⟨found, trails, ordered, all⟩ := first
  obtain ⟨known, trails', ordered', all'⟩ := second
  refine ⟨found.flatMap fun way => known.map fun next => (way.1 ++ next.1, way.2 ++ next.2),
    ?_, ?_, ?_⟩
  · have inner (branch : Branch) : (others.map branch.append).map Branch.trail =
        known.map fun next => branch.trail ++ next.2 := by
      have listed : known.map (fun next => branch.trail ++ next.2) =
          (known.map (·.2)).map (branch.trail ++ ·) := by rw [List.map_map]; rfl
      rw [listed, trails', List.map_map, List.map_map]
      exact List.map_congr_left fun next _ => trail_append branch next
    have outer : branches.flatMap (fun branch => known.map fun next => branch.trail ++ next.2) =
        (branches.map Branch.trail).flatMap fun trail => known.map fun next => trail ++ next.2 := by
      rw [List.flatMap_map]
    rw [Expansion.cross, List.map_flatMap, List.map_flatMap]
    simp only [inner]
    rw [outer, ← trails, List.flatMap_map]
    simp only [List.map_map]
    rfl
  · refine List.pairwise_flatMap.mpr ⟨fun way _ => ?_, ordered.imp fun precedes => ?_⟩
    · exact List.pairwise_map.mpr (ordered'.imp fun precedes => precedes.append_left _)
    · intro left isLeft right isRight
      obtain ⟨next, -, rfl⟩ := List.mem_map.mp isLeft
      obtain ⟨beyond, -, rfl⟩ := List.mem_map.mp isRight
      exact precedes.append_right _ _
  · intro choices trail
    simp only [List.mem_flatMap, List.mem_map, Prod.mk.injEq, Prod.exists]
    constructor
    · rintro ⟨taken, passed, listed, further, after, listed', rfl, rfl⟩
      exact ⟨taken, further, passed, after, (all _ _).mp listed, (all' _ _).mp listed', rfl, rfl⟩
    · rintro ⟨taken, further, passed, after, passes, follows, rfl, rfl⟩
      exact ⟨taken, passed, (all _ _).mpr passes, further, after, (all' _ _).mpr follows, rfl, rfl⟩

section Groups

variable {ways : NodeId → List Nat → Trail → Prop} {part : NodeId → List Branch}

theorem oneOf_nil {offset : Nat} {choices : List Nat} {trail : Trail} :
    ¬ OneOf ways offset [] choices trail := by
  rintro ⟨index, id, inner, taken, -⟩
  cases taken

theorem oneOf_cons {offset : Nat} {id : NodeId} {rest : List NodeId} {choices : List Nat}
    {trail : Trail} : OneOf ways offset (id :: rest) choices trail ↔
      (∃ inner, choices = offset :: inner ∧ ways id inner trail) ∨
        OneOf ways (offset + 1) rest choices trail := by
  constructor
  · rintro ⟨index, other, inner, taken, rfl, passes⟩
    cases index with
    | zero =>
        obtain rfl := Option.some.inj taken
        exact .inl ⟨inner, rfl, passes⟩
    | succ index =>
        exact .inr ⟨index, other, inner, taken, by rw [Nat.add_right_comm, Nat.add_assoc], passes⟩
  · rintro (⟨inner, rfl, passes⟩ | ⟨index, other, inner, taken, rfl, passes⟩)
    · exact ⟨0, id, inner, rfl, rfl, passes⟩
    · exact ⟨index + 1, other, inner, taken, by rw [Nat.add_right_comm, Nat.add_assoc], passes⟩

theorem flatten (ids : List NodeId) (listed : ∀ id ∈ ids, Lists (part id) (ways id))
    (offset : Nat) : Lists (ids.map part).flatten (OneOf ways offset ids) := by
  induction ids generalizing offset with
  | nil => exact nil.congr fun choices trail => ⟨False.elim, oneOf_nil⟩
  | cons id rest ih =>
      have first := (listed id (.head _)).choice offset
      have later := ih (fun other among => listed other (.tail _ among)) (offset + 1)
      refine (first.append later ?_).congr fun choices trail => oneOf_cons.symm
      rintro _ trail _ after ⟨inner, rfl, -⟩ ⟨index, other, beyond, -, rfl, -⟩
      exact .head (by omega) inner beyond

theorem then_assoc {first second third : List Nat → Trail → Prop} {choices : List Nat}
    {trail : Trail} : Then (Then first second) third choices trail ↔
      Then first (Then second third) choices trail := by
  constructor
  · rintro ⟨_, last, _, end', ⟨taken, further, passed, after, one, two, rfl, rfl⟩, three, rfl, rfl⟩
    exact ⟨taken, further ++ last, passed, after ++ end', one,
      ⟨further, last, after, end', two, three, rfl, rfl⟩, by simp, by simp⟩
  · rintro ⟨taken, _, passed, _, one, ⟨further, last, after, end', two, three, rfl, rfl⟩, rfl, rfl⟩
    exact ⟨taken ++ further, last, passed ++ after, end',
      ⟨taken, further, passed, after, one, two, rfl, rfl⟩, three, by simp, by simp⟩

theorem foldl_cross (ids : List NodeId) (listed : ∀ id ∈ ids, Lists (part id) (ways id))
    {start : List Branch} {before : List Nat → Trail → Prop} (started : Lists start before) :
    Lists ((ids.map part).foldl Expansion.cross start) (Then before (InOrder ways ids)) := by
  induction ids generalizing start before with
  | nil =>
      refine started.congr fun choices trail => ⟨fun passes => ?_, ?_⟩
      · exact ⟨choices, [], trail, [], passes, ⟨rfl, rfl⟩, by simp, by simp⟩
      · rintro ⟨taken, _, passed, _, passes, ⟨rfl, rfl⟩, rfl, rfl⟩
        simpa using passes
  | cons id rest ih =>
      have next := started.cross (listed id (.head _))
      exact (ih (fun other among => listed other (.tail _ among)) next).congr
        fun choices trail => then_assoc

theorem sequence (ids : List NodeId) (listed : ∀ id ∈ ids, Lists (part id) (ways id)) :
    Lists (Expansion.sequence (ids.map part)) (InOrder ways ids) := by
  refine (foldl_cross ids listed (single {})).congr fun choices trail => ⟨?_, fun passes => ?_⟩
  · rintro ⟨_, further, _, after, ⟨rfl, rfl⟩, passes, rfl, rfl⟩
    exact passes
  · exact ⟨[], choices, [], trail, ⟨rfl, rfl⟩, passes, rfl, rfl⟩

end Groups

end Lists

namespace Tree

open Expansion (Part Position Expands)

/-- No line of the tree is to be run alone or to be debugged. -/
def Unmarked (tree : Tree) : Prop :=
  ∀ id, id < tree.size → (tree.node id).step.identifiers.isOnly = false ∧
    (tree.node id).step.identifiers.isDebug = false

theorem Unmarked.everywhere {tree : Tree} (unmarked : tree.Unmarked) (id : NodeId) :
    (tree.node id).step.identifiers.isOnly = false ∧
      (tree.node id).step.identifiers.isDebug = false := by
  by_cases inside : id < tree.size
  · exact unmarked id inside
  · rw [node_of_size_le (Nat.le_of_not_lt inside)]
    exact ⟨rfl, rfl⟩

theorem Unmarked.everyStep {tree : Tree} (unmarked : tree.Unmarked) {target : Part}
    {position : Position} {id : NodeId} {branches : List Branch}
    (expands : Expands tree target position id branches) :
    Expansion.EveryStep branches fun step =>
      step.identifiers.isOnly = false ∧ step.identifiers.isDebug = false := by
  refine expands.everyStep (fun id depth => unmarked.everywhere id) fun id declaration depth => ?_
  have caller := unmarked.everywhere id
  have callee := unmarked.everywhere declaration
  simp [Expansion.callStep, BranchStep.ofNode, BranchStep.ofStep, caller, callee]

theorem keepOnly_of_everyStep {branches : List Branch}
    (clean : Expansion.EveryStep branches fun step => step.identifiers.isOnly = false) :
    Expansion.keepOnly branches = branches := by
  refine Expansion.keepOnly_of_unmarked fun branch listed => List.any_eq_false.mpr ?_
  intro step passed
  simp [clean branch listed step passed]

variable {tree : Tree} {path : List Frame} {depth : Nat} {choices : List Nat} {trail : Trail}

theorem chooses_one {part : Part} {ids : List NodeId} :
    Chooses tree part path depth ids false choices trail ↔
      OneOf (Passes tree part path depth) 0 ids choices trail := by
  constructor
  · rintro (_ | _)
    next index id choices taken passes => exact ⟨index, id, choices, taken, by simp, passes⟩
  · rintro ⟨index, id, inner, taken, rfl, passes⟩
    rw [Nat.zero_add]
    exact .one taken passes

theorem chooses_all {part : Part} (ids : List NodeId) {choices : List Nat} {trail : Trail} :
    Chooses tree part path depth ids true choices trail ↔
      InOrder (Passes tree part path depth) ids choices trail := by
  induction ids generalizing choices trail with
  | nil =>
      constructor
      · rintro (_ | _)
        exact ⟨rfl, rfl⟩
      · rintro ⟨rfl, rfl⟩
        exact .none
  | cons id rest ih =>
      constructor
      · intro chooses
        cases chooses with
        | all first others => exact ⟨_, _, _, _, first, ih.mp others, rfl, rfl⟩
      · rintro ⟨taken, further, passed, after, first, others, rfl, rfl⟩
        exact .all first (ih.mpr others)

theorem lists_choose {target : Part} {part : NodeId → List Branch} (ids : List NodeId)
    (isSequential : Bool)
    (clean : ∀ id ∈ ids, Expansion.EveryStep (part id) fun step => step.identifiers.isOnly = false)
    (listed : ∀ id ∈ ids, Lists (part id) (Passes tree target path depth id)) :
    Lists (Expansion.choose isSequential (ids.map part))
      (Chooses tree target path depth ids isSequential) := by
  cases isSequential with
  | true => exact (Lists.sequence ids listed).congr fun choices trail => (chooses_all ids).symm
  | false =>
      have kept : Expansion.choose false (ids.map part) = (ids.map part).flatten := by
        refine keepOnly_of_everyStep fun branch among => ?_
        obtain ⟨group, isGroup, within⟩ := List.mem_flatten.mp among
        obtain ⟨id, isId, rfl⟩ := List.mem_map.mp isGroup
        exact clean id isId branch within
      rw [kept]
      exact (Lists.flatten ids listed 0).congr fun choices trail => chooses_one.symm

theorem lists_further {id : NodeId} {part : NodeId → List Branch} (isSequential : Bool)
    (clean : ∀ child ∈ tree.branching id,
      Expansion.EveryStep (part child) fun step => step.identifiers.isOnly = false)
    (listed : ∀ child ∈ tree.branching id,
      Lists (part child) (Passes tree .whole path depth child)) :
    Lists (Expansion.further isSequential ((tree.branching id).map part))
      (Follows tree path depth id isSequential) := by
  by_cases leaf : tree.branching id = []
  · rw [leaf]
    refine (Lists.single {}).congr fun choices trail => ⟨?_, fun follows => ?_⟩
    · rintro ⟨rfl, rfl⟩
      exact .nothing leaf
    · cases follows with
      | nothing => exact ⟨rfl, rfl⟩
      | children inner chooses => exact absurd leaf inner
  · rw [Expansion.further, if_neg (by simpa using leaf)]
    refine (lists_choose _ isSequential clean listed).congr fun choices trail => ?_
    constructor
    · exact .children leaf
    · intro follows
      cases follows with
      | nothing empty => exact absurd empty leaf
      | children inner chooses => exact chooses

theorem lists_followedBy {own : List Branch} {groups : List (List Branch)} {isSequential : Bool}
    {ways more : List Nat → Trail → Prop} (alone : Lists own ways)
    (after : Lists (Expansion.further isSequential groups) more) (id : NodeId) :
    Lists (Expansion.attachHooks tree id (Expansion.followedBy own isSequential groups))
      (Then ways more) := by
  rw [Expansion.followedBy_eq]
  refine (alone.cross after).of_trails ?_
  rw [Expansion.attachHooks, List.map_map]
  rfl

theorem lists_of_expands (settled : tree.WellFormed) (unmarked : tree.Unmarked) {target : Part}
    {position : Position} {id : NodeId} {branches : List Branch}
    (expands : Expands tree target position id branches) (inside : id < tree.size) :
    Lists branches (Passes tree target position.path position.active.length id) := by
  have clean {position : Position} {target : Part} {id : NodeId} {branches : List Branch}
      (expands : Expands tree target position id branches) :
      Expansion.EveryStep branches fun step => step.identifiers.isOnly = false :=
    fun branch listed step passed => (unmarked.everyStep expands branch listed step passed).1
  induction expands with
  | @step position id plain =>
      refine (Lists.single _).congr fun choices trail => ⟨?_, fun passes => ?_⟩
      · rintro ⟨rfl, rfl⟩
        simp only [Branch.trail, List.map_cons, List.map_nil, BranchStep.ofNode, BranchStep.ofStep,
          settled.id id inside]
        exact .step plain
      · cases passes with
        | step => simp [Branch.trail, BranchStep.ofNode, BranchStep.ofStep, settled.id id inside]
        | call calls => simp [plain] at calls
  | @call position id declaration part calls resolved below ih =>
      have after := lists_further (tree.node declaration).step.identifiers.isSequential
        (fun child listed => clean (below child listed))
        fun child listed => ih child listed (settled.branching listed).2
      refine (lists_followedBy (Lists.single _) after declaration).congr fun choices trail => ?_
      simp only [Branch.trail, List.map_cons, List.map_nil, Expansion.callStep, BranchStep.ofNode,
        BranchStep.ofStep, settled.id id inside]
      constructor
      · rintro ⟨_, further, _, after, ⟨rfl, rfl⟩, follows, rfl, rfl⟩
        exact .call calls resolved follows
      · intro passes
        cases passes with
        | step plain => simp [plain] at calls
        | call calls resolved' body =>
            obtain rfl := Except.ok.inj (resolved.symm.trans resolved')
            exact ⟨[], choices, _, _, ⟨rfl, rfl⟩, body, rfl, rfl⟩
  | @node position id own part kind spoken alone below ihOwn ih =>
      have after := lists_further (tree.node id).step.identifiers.isSequential
        (fun child listed => clean (below child listed))
        fun child listed => ih child listed (settled.branching listed).2
      refine (lists_followedBy (ihOwn inside) after id).congr fun choices trail => ?_
      constructor
      · rintro ⟨taken, further, passed, after, own, follows, rfl, rfl⟩
        exact .node kind spoken own follows
      · intro passes
        cases passes with
        | node kind spoken own follows => exact ⟨_, _, _, _, own, follows, rfl, rfl⟩
        | block isBlock => rw [kind] at isBlock; cases isBlock
  | @block position id members own part kind alone below ihOwn ih =>
      have first := lists_choose members (tree.node id).step.identifiers.isSequential
        (fun member listed => clean (alone member listed))
        fun member listed => ihOwn member listed (settled.member id members kind member listed).2.1
      have after := lists_further false (fun child listed => clean (below child listed))
        fun child listed => ih child listed (settled.branching listed).2
      refine (lists_followedBy first after id).congr fun choices trail => ?_
      constructor
      · rintro ⟨taken, further, passed, after, own, follows, rfl, rfl⟩
        exact .block kind own follows
      · intro passes
        cases passes with
        | node isStep => rw [kind] at isStep; cases isStep
        | block isBlock own follows =>
            obtain rfl := NodeKind.block.inj (kind.symm.trans isBlock)
            exact ⟨_, _, _, _, own, follows, rfl, rfl⟩

/-- The ways through a tree are those through one of the nodes below its root. -/
def Way (tree : Tree) (choices : List Nat) (trail : Trail) : Prop :=
  Chooses tree .whole [] 0 (tree.branching rootId) false choices trail

theorem lists_of_expand (settled : tree.WellFormed) (unmarked : tree.Unmarked)
    {options : BranchOptions} {branches : List Branch} {debugNodes : List NodeId}
    (expanded : Expansion.expand tree options rootId = .ok (branches, debugNodes)) :
    Lists branches tree.Way ∧ Expansion.EveryStep branches fun step =>
      step.identifiers.isOnly = false ∧ step.identifiers.isDebug = false := by
  obtain ⟨part, below, rfl⟩ := Expansion.expand_root settled expanded
  have clean (child : NodeId) (listed : child ∈ tree.branching rootId) :=
    unmarked.everyStep (below child listed)
  constructor
  · refine (lists_choose (tree.branching rootId) false
      (fun child listed branch among step passed => (clean child listed branch among step passed).1)
      fun child listed => lists_of_expands settled unmarked (below child listed)
        (settled.branching listed).2).of_trails ?_
    rw [Expansion.attachHooks, List.map_map]
    rfl
  · refine .attachHooks fun branch listed => ?_
    obtain ⟨group, isGroup, within⟩ := List.mem_flatten.mp (Expansion.mem_of_keepOnly listed)
    obtain ⟨child, isChild, rfl⟩ := List.mem_map.mp isGroup
    exact clean child isChild branch within

end Tree

namespace Selection

variable {tree : Tree} {branches : List Branch}

theorem select_unfiltered {noDebug : Bool}
    (selected : select tree Tree.rootId { noDebug } = .ok branches) :
    ∃ expanded debugNodes,
      Expansion.expand tree { noDebug } Tree.rootId = .ok (expanded, debugNodes) ∧
      branches = isolateDebug (expanded.map Branch.tag) := by
  obtain ⟨expanded, debugNodes, found, rfl⟩ := select_eq selected
  refine ⟨expanded, debugNodes, found, ?_⟩
  have kept : (expanded.map Branch.tag).filter (·.isSelected { noDebug }) =
      expanded.map Branch.tag := by
    simp [Branch.isSelected]
  rw [kept]

theorem isolateDebug_of_everyStep
    (clean : Expansion.EveryStep branches fun step => step.identifiers.isDebug = false) :
    isolateDebug branches = branches := by
  have none : branches.find? Branch.hasDebugStep = none := by
    rw [List.find?_eq_none]
    intro branch listed marked
    obtain ⟨step, passed, isDebug⟩ := List.any_eq_true.mp marked
    rw [clean branch listed step passed] at isDebug
    cases isDebug
  rw [isolateDebug, none]

theorem branchify_lists_ways (built : tree.Built) (unmarked : tree.Unmarked) {noDebug : Bool}
    (branchified : branchify tree Tree.rootId { noDebug } = .ok branches) :
    ∃ found : List (List Nat × Trail), found.map (·.2) = branches.map Branch.trail ∧
      found.Pairwise (fun first second => first.1 < second.1) ∧
      ∀ choices trail, (choices, trail) ∈ found ↔ tree.Way choices trail := by
  rw [branchify] at branchified
  cases selected : select tree Tree.rootId { noDebug } with
  | error error => rw [selected] at branchified; cases branchified
  | ok kept =>
      rw [selected] at branchified
      obtain rfl := Except.ok.inj branchified
      obtain ⟨expanded, debugNodes, found, rfl⟩ := select_unfiltered selected
      obtain ⟨lists, clean⟩ := Tree.lists_of_expand built.wellFormed unmarked found
      have tagged : Expansion.EveryStep (expanded.map Branch.tag) fun step =>
          step.identifiers.isDebug = false := by
        intro branch listed step passed
        obtain ⟨plain, among, rfl⟩ := List.mem_map.mp listed
        exact (clean plain among step passed).2
      obtain ⟨ways, trails, ordered, all⟩ := lists
      refine ⟨ways, ?_, ordered.imp Precedes.lt, all⟩
      rw [map_assignIds fun _ _ => rfl, isolateDebug_of_everyStep tagged, trails, List.map_map]
      rfl

/-- Two alternative steps above a call with a child; the function called has two alternatives. -/
def greetings : Tree :=
  (Tree.empty.parseIn
    "A -\nB -\n\n    Greet\n        C -\n\n    * Greet\n        D -\n        E -\n".toList none false).1

theorem branchify_lists_ways_greetings :
    ∃ branches, branchify greetings Tree.rootId {} = .ok branches ∧ branches.length = 4 ∧
      ∃ found : List (List Nat × Trail), found.map (·.2) = branches.map Branch.trail ∧
        found.Pairwise (fun first second => first.1 < second.1) ∧
        ∀ choices trail, (choices, trail) ∈ found ↔ greetings.Way choices trail := by
  have unmarked : ∀ id, id < greetings.size →
      (greetings.node id).step.identifiers.isOnly = false ∧
        (greetings.node id).step.identifiers.isDebug = false := by
    decide +kernel
  have count : ((branchify greetings Tree.rootId {}).toOption.map List.length) = some 4 := by
    decide +kernel
  cases branchified : branchify greetings Tree.rootId {} with
  | error error => rw [branchified] at count; cases count
  | ok branches =>
      rw [branchified] at count
      exact ⟨branches, rfl, Option.some.inj count,
        branchify_lists_ways (.parseIn .empty _ _ _) unmarked branchified⟩

end Selection

end TestTree
