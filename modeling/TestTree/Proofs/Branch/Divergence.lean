import TestTree.Proofs.Branch.Bookkeeping
import TestTree.Proofs.Branch.Expands

namespace TestTree

/-- Behind a common beginning the steps go on from different nodes. -/
def Parts (first second : List BranchStep) : Prop :=
  ∃ common left right rest beyond, first = common ++ left :: rest ∧
    second = common ++ right :: beyond ∧ left.origin ≠ right.origin

namespace Parts

variable {first second : List BranchStep}

theorem symm (parts : Parts first second) : Parts second first := by
  obtain ⟨common, left, right, rest, beyond, isFirst, isSecond, different⟩ := parts
  exact ⟨common, right, left, beyond, rest, isSecond, isFirst, different.symm⟩

theorem append_right (parts : Parts first second) (rest beyond : List BranchStep) :
    Parts (first ++ rest) (second ++ beyond) := by
  obtain ⟨common, left, right, after, behind, rfl, rfl, different⟩ := parts
  exact ⟨common, left, right, after ++ rest, behind ++ beyond, by simp, by simp, different⟩

theorem append_left (common : List BranchStep) (parts : Parts first second) :
    Parts (common ++ first) (common ++ second) := by
  obtain ⟨inner, left, right, after, behind, rfl, rfl, different⟩ := parts
  exact ⟨common ++ inner, left, right, after, behind, by simp, by simp, different⟩

theorem agree (parts : Parts first second) {count : Nat}
    (same : ∀ index, index < count →
      first[index]?.map (·.origin) = second[index]?.map (·.origin)) :
    ∀ index, index < count → first[index]? = second[index]? := by
  obtain ⟨common, left, right, rest, beyond, rfl, rfl, different⟩ := parts
  intro index before
  have shared : index < common.length := by
    by_cases far : common.length < count
    · have here := same common.length far
      simp only [List.getElem?_append_right (Nat.le_refl _), Nat.sub_self, List.getElem?_cons_zero,
        Option.map_some, Option.some.injEq] at here
      exact absurd here different
    · omega
  rw [List.getElem?_append_left shared, List.getElem?_append_left shared]

end Parts

def Parted (branches : List Branch) : Prop :=
  branches.Pairwise fun branch other => Parts branch.steps other.steps

namespace Parted

variable {first second branches : List Branch}

theorem cross (left : Parted first) (right : Parted second) :
    Parted (Expansion.cross first second) := by
  refine List.pairwise_flatMap.mpr ⟨fun branch _ => ?_, left.imp fun parts => ?_⟩
  · exact List.pairwise_map.mpr (right.imp fun parts => parts.append_left branch.steps)
  · intro one isOne other isOther
    obtain ⟨next, -, rfl⟩ := List.mem_map.mp isOne
    obtain ⟨beyond, -, rfl⟩ := List.mem_map.mp isOther
    exact parts.append_right next.steps beyond.steps

theorem keepOnly (parted : Parted branches) : Parted (Expansion.keepOnly branches) := by
  rw [Expansion.keepOnly]
  split
  · exact parted.filter _
  · exact parted

theorem sequence {groups : List (List Branch)} (all : ∀ group ∈ groups, Parted group) :
    Parted (Expansion.sequence groups) := by
  have general (start : List Branch) (parted : Parted start) :
      Parted (groups.foldl Expansion.cross start) := by
    induction groups generalizing start with
    | nil => exact parted
    | cons group rest ih =>
        exact ih (fun other listed => all other (.tail _ listed)) _
          (parted.cross (all group (.head _)))
  exact general [{}] (List.pairwise_singleton _ _)

/-- Branches of one list or of several part if those of different lists begin at different nodes. -/
theorem choose {ids : List NodeId} {part : NodeId → List Branch} (isSequential : Bool)
    (distinct : ids.Nodup) (all : ∀ id ∈ ids, Parted (part id))
    (apart : ∀ id ∈ ids, ∀ other ∈ ids, id ≠ other → ∀ branch ∈ part id, ∀ fellow ∈ part other,
      Parts branch.steps fellow.steps) :
    Parted (Expansion.choose isSequential (ids.map part)) := by
  cases isSequential with
  | true => exact sequence (List.forall_mem_map.mpr all)
  | false =>
      refine keepOnly (List.pairwise_flatten.mpr ⟨List.forall_mem_map.mpr all, ?_⟩)
      rw [List.pairwise_map]
      exact distinct.imp_of_mem fun listed among different =>
        apart _ listed _ among different

theorem followedBy {own : List Branch} {groups : List (List Branch)} {isSequential : Bool}
    {tree : Tree} (alone : Parted own) (after : Parted (Expansion.choose isSequential groups))
    (id : NodeId) :
    Parted (Expansion.attachHooks tree id (Expansion.followedBy own isSequential groups)) := by
  refine List.pairwise_map.mpr ?_
  rw [Expansion.followedBy]
  split
  · exact alone
  · exact alone.cross after

end Parted

/-- The nodes at which the branches through a node begin. -/
def Tree.Heads (tree : Tree) : Expansion.Part → NodeId → NodeId → Prop
  | .own, id, origin => origin = id
  | .whole, id, origin =>
      match (tree.node id).kind with
      | .block members => origin ∈ members
      | _ => origin = id

/-- Branches through different children of one node, or through nodes below the root, begin at
different nodes: a member of a block knows its block, and a child belongs to none. -/
theorem Tree.heads_apart {tree : Tree} (settled : tree.WellFormed) {parent id other origin : NodeId}
    (listed : id ∈ tree.branching parent) (among : other ∈ tree.branching parent)
    (heads : tree.Heads .whole id origin) (fellow : tree.Heads .whole other origin) : id = other := by
  have owner (child : NodeId) (listed : child ∈ tree.branching parent)
      (heads : tree.Heads .whole child origin) : (tree.node origin).block = some child ∨
        (tree.node origin).block = none ∧ origin = child := by
    have free := (settled.child parent child (mem_branching.mp listed).1).2.2
    simp only [Heads] at heads
    split at heads
    · next members kind => exact .inl (settled.member child members kind origin heads).2.2.1
    · subst heads
      exact .inr ⟨free, rfl⟩
  rcases owner id listed heads with held | ⟨free, rfl⟩
  · rcases owner other among fellow with taken | ⟨free, -⟩
    · exact Option.some.inj (held.symm.trans taken)
    · cases held.symm.trans free
  · rcases owner other among fellow with taken | ⟨-, rfl⟩
    · cases free.symm.trans taken
    · rfl

namespace Expansion

variable {tree : Tree} {branches own first second : List Branch} {holds : NodeId → Prop}

/-- Every branch begins with a step from one of these nodes. -/
def Begins (branches : List Branch) (holds : NodeId → Prop) : Prop :=
  ∀ branch ∈ branches, ∃ step rest origin, branch.steps = step :: rest ∧
    step.origin = some origin ∧ holds origin

theorem Begins.single {step : BranchStep} {origin : NodeId} (from_ : step.origin = some origin)
    (held : holds origin) : Begins [{ steps := [step] }] holds := by
  intro branch listed
  obtain rfl := List.mem_singleton.mp listed
  exact ⟨step, [], origin, rfl, from_, held⟩

theorem Begins.cross (begins : Begins first holds) (second : List Branch) :
    Begins (cross first second) holds := by
  intro branch listed
  obtain ⟨left, isLeft, right, -, rfl⟩ := mem_cross.mp listed
  obtain ⟨step, rest, origin, steps, found, held⟩ := begins left isLeft
  exact ⟨step, rest ++ right.steps, origin, by simp [Branch.append, steps], found, held⟩

theorem Begins.foldl_cross (begins : Begins first holds) (groups : List (List Branch)) :
    Begins (groups.foldl Expansion.cross first) holds := by
  induction groups generalizing first with
  | nil => exact begins
  | cons group rest ih => exact ih (begins.cross group)

theorem Begins.choose {ids : List NodeId} {part : NodeId → List Branch} (isSequential : Bool)
    (some : ids ≠ []) (all : ∀ id ∈ ids, Begins (part id) holds) :
    Begins (choose isSequential (ids.map part)) holds := by
  cases isSequential with
  | true =>
      obtain ⟨id, rest, rfl⟩ := List.exists_cons_of_ne_nil some
      refine Begins.foldl_cross ?_ (rest.map part)
      intro branch listed
      obtain ⟨left, isLeft, right, isRight, rfl⟩ := mem_cross.mp listed
      obtain rfl := List.mem_singleton.mp isLeft
      exact all id (.head _) right isRight
  | false =>
      intro branch listed
      obtain ⟨group, isGroup, within⟩ := List.mem_flatten.mp (mem_of_keepOnly listed)
      obtain ⟨id, isId, rfl⟩ := List.mem_map.mp isGroup
      exact all id isId branch within

theorem Begins.followedBy {isSequential : Bool} {groups : List (List Branch)}
    (begins : Begins own holds) (id : NodeId) :
    Begins (attachHooks tree id (followedBy own isSequential groups)) holds := by
  intro branch listed
  obtain ⟨plain, among, rfl⟩ := List.mem_map.mp listed
  rw [followedBy_eq] at among
  exact begins.cross _ plain among

theorem Expands.begins (settled : tree.WellFormed) {target : Part} {position : Position}
    {id : NodeId} (expands : Expands tree target position id branches) (inside : id < tree.size) :
    Begins branches (tree.Heads target id) := by
  induction expands with
  | @step position id plain =>
      exact .single (by simp [BranchStep.ofNode, settled.id id inside]) rfl
  | @call position id declaration part calls resolved below ih =>
      have from_ : (callStep (tree.node id) (tree.node declaration)
          position.active.length).origin = some id := by
        simp [callStep, BranchStep.ofNode, settled.id id inside]
      have alone : Begins _ (tree.Heads .own id) := .single from_ rfl
      exact alone.followedBy declaration
  | @node position id own part kind spoken alone below ihOwn ih =>
      refine .followedBy (fun branch listed => ?_) id
      obtain ⟨step, rest, origin, steps, found, rfl⟩ := ihOwn inside branch listed
      refine ⟨step, rest, origin, steps, found, ?_⟩
      simp [Tree.Heads, kind]
  | @block position id members own part kind alone below ihOwn ih =>
      refine .followedBy (.choose _ (settled.filled id members kind).1 fun member listed => ?_) id
      intro branch among
      obtain ⟨step, rest, origin, steps, found, rfl⟩ :=
        ihOwn member listed (settled.member id members kind member listed).2.1 branch among
      refine ⟨step, rest, origin, steps, found, ?_⟩
      simpa [Tree.Heads, kind] using listed

/-- Branches that begin at different nodes part at once. -/
theorem Begins.parts {other : NodeId → Prop} (left : Begins first holds)
    (right : Begins second other) (apart : ∀ origin, holds origin → ¬ other origin) :
    ∀ branch ∈ first, ∀ fellow ∈ second, Parts branch.steps fellow.steps := by
  intro branch listed fellow among
  obtain ⟨step, rest, origin, steps, found, held⟩ := left branch listed
  obtain ⟨next, beyond, root, steps', found', held'⟩ := right fellow among
  refine ⟨[], step, next, rest, beyond, steps, steps', ?_⟩
  rw [found, found']
  intro same
  obtain rfl := Option.some.inj same
  exact apart origin held held'

theorem parted_children (settled : tree.WellFormed) {position : Position} {parent : NodeId}
    {part : NodeId → List Branch} (isSequential : Bool)
    (below : ∀ child ∈ tree.branching parent, Expands tree .whole position child (part child))
    (all : ∀ child ∈ tree.branching parent, Parted (part child)) :
    Parted (choose isSequential ((tree.branching parent).map part)) := by
  refine .choose isSequential ((settled.distinct parent).filter _) all ?_
  intro child listed other among different
  have left := (below child listed).begins settled (settled.branching listed).2
  have right := (below other among).begins settled (settled.branching among).2
  exact left.parts right fun origin heads fellow =>
    different (Tree.heads_apart settled listed among heads fellow)

theorem Expands.parted (settled : tree.WellFormed) {target : Part} {position : Position}
    {id : NodeId} (expands : Expands tree target position id branches) : Parted branches := by
  induction expands with
  | step => exact List.pairwise_singleton _ _
  | call calls resolved below ih =>
      exact .followedBy (List.pairwise_singleton _ _) (parted_children settled _ below ih) _
  | node kind spoken alone below ihOwn ih =>
      exact .followedBy ihOwn (parted_children settled _ below ih) _
  | @block position id members own part kind alone below ihOwn ih =>
      refine .followedBy (.choose _ (settled.filled id members kind).2 ihOwn ?_)
        (parted_children settled _ below ih) _
      intro member listed other among different
      have left := (alone member listed).begins settled
        (settled.member id members kind member listed).2.1
      have right := (alone other among).begins settled
        (settled.member id members kind other among).2.1
      exact left.parts right fun origin isMember isOther => different (isMember.symm.trans isOther)

end Expansion

section Suites

variable {tree : Tree} {options : BranchOptions} {branches order : List Branch} {suite : Suite}

theorem parted_of_steps (parted : Parted branches)
    (same : order.map Branch.steps = branches.map Branch.steps) : Parted order := by
  have pairs : (order.map Branch.steps).Pairwise Parts := by
    rw [same]
    exact List.pairwise_map.mpr parted
  exact List.pairwise_map.mp pairs

theorem Parted.perm (parted : Parted branches) (permuted : order.Perm branches) : Parted order :=
  (permuted.pairwise_iff Parts.symm).mpr parted

theorem Parted.isolateDebug (parted : Parted branches) :
    Parted (Selection.isolateDebug branches) := by
  rw [Selection.isolateDebug]
  split
  · exact List.pairwise_singleton _ _
  · exact parted

theorem Parted.steps_agree (parted : Parted branches) {branch fellow : Branch}
    (listed : branch ∈ branches) (among : fellow ∈ branches) {count : Nat}
    (origins : ∀ index, index < count →
      branch.steps[index]?.map (·.origin) = fellow.steps[index]?.map (·.origin)) :
    ∀ index, index < count → branch.steps[index]? = fellow.steps[index]? := by
  have apart := List.pairwise_iff_getElem.mp parted
  obtain ⟨index, inside, rfl⟩ := List.getElem_of_mem listed
  obtain ⟨other, within, rfl⟩ := List.getElem_of_mem among
  rcases Nat.lt_trichotomy index other with before | same | behind
  · exact (apart index other inside within before).agree origins
  · subst same
    exact fun _ _ => rfl
  · exact (apart other index within inside behind).symm.agree origins

theorem parted_expand (settled : tree.WellFormed) {expanded : List Branch} {debugNodes : List NodeId}
    (found : Expansion.expand tree options Tree.rootId = .ok (expanded, debugNodes)) :
    Parted (Selection.isolateDebug ((expanded.map Branch.tag).filter (·.isSelected options))) := by
  obtain ⟨part, below, rfl⟩ := Expansion.expand_root settled found
  have parted := Expansion.parted_children settled false below
    fun child listed => (below child listed).parted settled
  have tagged : Parted ((Expansion.attachHooks tree Tree.rootId (Expansion.alternatives
      ((tree.branching Tree.rootId).map part))).map Branch.tag) := by
    refine parted_of_steps parted ?_
    rw [List.map_map, Expansion.attachHooks, List.map_map]
    rfl
  exact Parted.isolateDebug (tagged.filter _)

theorem parted_branchify (settled : tree.WellFormed)
    (branchified : Selection.branchify tree Tree.rootId options = .ok branches) : Parted branches := by
  obtain ⟨kept, selected, rfl⟩ := Selection.branchify_eq branchified
  obtain ⟨expanded, debugNodes, found, rfl⟩ := Selection.select_eq selected
  exact parted_of_steps (parted_expand settled found) (Selection.map_assignIds (fun _ _ => rfl) [] _)

theorem parted_generate (settled : tree.WellFormed)
    (generated : tree.generate options = .ok suite) : Parted suite.branches := by
  obtain ⟨expanded, debugNodes, order, found, permuted, branches⟩ :=
    Selection.generate_eq generated
  rw [branches]
  exact parted_of_steps ((parted_expand settled found).perm permuted)
    (Selection.map_assignIds (fun _ _ => rfl) [] order)

theorem steps_of_generate (generated : tree.generate options = .ok suite) {branch : Branch}
    (listed : branch ∈ suite.branches) :
    ∃ expanded debugNodes, Expansion.expand tree options Tree.rootId = .ok (expanded, debugNodes) ∧
      ∃ plain ∈ expanded, branch.steps = plain.steps := by
  obtain ⟨expanded, debugNodes, order, found, permuted, branches⟩ :=
    Selection.generate_eq generated
  refine ⟨expanded, debugNodes, found, ?_⟩
  have among : branch.steps ∈ order.map Branch.steps := by
    have steps : (Selection.assignIds [] order).map Branch.steps = order.map Branch.steps :=
      Selection.map_assignIds (fun _ _ => rfl) [] order
    rw [← steps, ← branches]
    exact List.mem_map_of_mem listed
  obtain ⟨ordered, isOrdered, same⟩ := List.mem_map.mp among
  obtain ⟨selected, isSelected, steps⟩ :=
    Selection.exists_of_mem_isolateDebug Branch.steps (fun _ => rfl)
      (permuted.mem_iff.mp isOrdered)
  obtain ⟨plain, isPlain, rfl⟩ := List.mem_map.mp (List.mem_filter.mp isSelected).1
  exact ⟨plain, isPlain, same.symm.trans steps⟩

theorem undebugged_generate (settled : tree.WellFormed)
    (plain : ∀ id, id < tree.size → (tree.node id).step.identifiers.isDebug = false)
    (generated : tree.generate options = .ok suite) : suite.Undebugged := by
  have plain (id : NodeId) : (tree.node id).step.identifiers.isDebug = false := by
    rcases Nat.lt_or_ge id tree.size with inside | outside
    · exact plain id inside
    · rw [Tree.node_of_size_le outside]
  intro index branch found
  obtain ⟨expanded, debugNodes, expands, branch', listed, steps⟩ :=
    steps_of_generate generated (List.mem_of_getElem? found)
  have every := (Expansion.lasting_everyStep fun step => step.identifiers.isDebug = false).expand
    settled (fun id depth => List.forall_mem_singleton.mpr (plain id))
    (fun id declaration depth => List.forall_mem_singleton.mpr (by
      simp [Expansion.callStep, BranchStep.ofNode, BranchStep.ofStep, plain id, plain declaration]))
    expands
  rw [Branch.hasDebugStep, steps, List.any_eq_false]
  intro step passed
  simp [every _ listed step passed]

theorem agree_of_generate (settled : tree.WellFormed) (generated : tree.generate options = .ok suite)
    {index other count : Nat} {branch fellow : Branch} (found : suite.branch? index = some branch)
    (present : suite.branch? other = some fellow)
    (origins : ∀ index, index < count →
      branch.steps[index]?.map (·.origin) = fellow.steps[index]?.map (·.origin)) :
    ∀ index, index < count → branch.steps[index]? = fellow.steps[index]? :=
  (parted_generate settled generated).steps_agree (List.mem_of_getElem? found)
    (List.mem_of_getElem? present) origins

/-- Where two branches of a tree begin with steps from the same nodes, they begin with the same
steps. -/
theorem Selection.take_steps_eq_of_origins (built : tree.Built)
    (branchified : Selection.branchify tree Tree.rootId options = .ok branches)
    {branch fellow : Branch} (listed : branch ∈ branches) (among : fellow ∈ branches) {count : Nat}
    (origins : (branch.steps.take count).map (·.origin) = (fellow.steps.take count).map (·.origin)) :
    branch.steps.take count = fellow.steps.take count := by
  have parted := parted_branchify built.wellFormed branchified
  have agree : ∀ index, index < count → branch.steps[index]? = fellow.steps[index]? := by
    refine parted.steps_agree listed among fun index before => ?_
    have here := congrArg (·[index]?) origins
    simpa only [List.getElem?_map, List.getElem?_take_of_lt before] using here
  apply List.ext_getElem?
  intro index
  rcases Nat.lt_or_ge index count with before | behind
  · rw [List.getElem?_take_of_lt before, List.getElem?_take_of_lt before, agree index before]
  · rw [List.getElem?_eq_none (by simp only [List.length_take]; omega),
      List.getElem?_eq_none (by simp only [List.length_take]; omega)]

/-- A function that calls whichever function of one name stands nearest to its own call. -/
def Selection.nearest : Tree :=
  .grown ("A -\n    F\n\n    * G\n        X -\n        Z -\n\n" ++
    "B -\n    F\n\n    * G\n        Y -\n\n* F\n    G")

theorem Selection.take_steps_eq_of_origins_nearest :
    ∃ branches branch fellow, Selection.branchify nearest Tree.rootId {} = .ok branches ∧
      branches[0]? = some branch ∧ branches[1]? = some fellow ∧ branch.steps ≠ fellow.steps ∧
      (branch.steps.take 3).map (·.origin) = (fellow.steps.take 3).map (·.origin) ∧
      branch.steps.take 3 = fellow.steps.take 3 := by
  have alike : ((Selection.branchify nearest Tree.rootId {}).toOption.any fun branches =>
      branches[0]?.any fun branch => branches[1]?.any fun fellow =>
        decide (branch.steps ≠ fellow.steps ∧
          (branch.steps.take 3).map (·.origin) = (fellow.steps.take 3).map (·.origin))) = true := by
    decide +kernel
  cases branchified : Selection.branchify nearest Tree.rootId {} with
  | error error => rw [branchified] at alike; cases alike
  | ok branches =>
      rw [branchified, Except.toOption, Option.any_some] at alike
      obtain ⟨branch, found, alike⟩ := (Option.any_eq_true _ _).mp alike
      obtain ⟨fellow, present, alike⟩ := (Option.any_eq_true _ _).mp alike
      obtain ⟨different, origins⟩ := of_decide_eq_true alike
      exact ⟨branches, branch, fellow, rfl, found, present, different, origins,
        Selection.take_steps_eq_of_origins (.parseIn .empty _ _ _) branchified
          (List.mem_of_getElem? found) (List.mem_of_getElem? present) origins⟩

end Suites

end TestTree
