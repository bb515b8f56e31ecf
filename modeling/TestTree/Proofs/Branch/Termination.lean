import TestTree.Proofs.Branch.Expands

/-!
Expansion comes to an end. `Ends` says how an expansion runs, one rule for each of its ways, with nothing in it
of the size of the tree or of the calls that may still be nested: a derivation is a run that ends. Every node
has one, for a child stands behind its parent, and a call is refused when its declaration is already being
expanded or when `maxCallDepth` calls are. A run fails as recursive only where it comes to such a call.
-/
namespace TestTree.Expansion

/-- What there is to expand: a step without its children or several of these, or a node with all that is below
it or several of those. -/
inductive Task
  | own (id : NodeId)
  | members (ids : List NodeId)
  | node (id : NodeId)
  | children (ids : List NodeId)

abbrev Task.Answer : Task → Type
  | own _ => Own
  | node _ => List Branch × List NodeId
  | members _ | children _ => Groups

/-- The error at a call that is refused as recursive. -/
def recursionError (call : Node) : TreeError :=
  TreeError.ofFault (.recursiveCall call.step.callText) call.step.filename call.step.lineNumber

/-- A call may be followed: its declaration is not being expanded, and a further call may be nested. -/
structure Follows (tree : Tree) (position : Position) (id declaration : NodeId) : Prop where
  calls : (tree.node id).step.identifiers.isCall = true
  resolved : tree.resolve id position.path = .ok declaration
  fresh : declaration ∉ position.active
  nests : position.active.length < maxCallDepth

/-- A call whose declaration is being expanded, or that stands inside as many calls as may be nested. -/
structure Recurs (tree : Tree) (position : Position) (id declaration : NodeId) : Prop where
  calls : (tree.node id).step.identifiers.isCall = true
  resolved : tree.resolve id position.path = .ok declaration
  nested : declaration ∈ position.active ∨ maxCallDepth ≤ position.active.length

/-- An expansion runs and comes to an answer or to an error. -/
inductive Ends (tree : Tree) (options : BranchOptions) :
    (task : Task) → Position → Except TreeError task.Answer → Prop
  | plain {position : Position} {id : NodeId}
      (plain : (tree.node id).step.identifiers.isCall = false) :
      Ends tree options (.own id) position
        ((checkFlags options id (BranchStep.ofNode (tree.node id) position.active.length)).map
          fun debugNodes =>
            { branches := [{ steps := [BranchStep.ofNode (tree.node id) position.active.length] }]
              debugNodes })
  | unresolved {position : Position} {id : NodeId} {error : TreeError}
      (calls : (tree.node id).step.identifiers.isCall = true)
      (unknown : tree.resolve id position.path = .error error) :
      Ends tree options (.own id) position (.error error)
  | recursive {position : Position} {id declaration : NodeId}
      (recurs : Recurs tree position id declaration) :
      Ends tree options (.own id) position (.error (recursionError (tree.node id)))
  | refused {position : Position} {id declaration : NodeId} {error : TreeError}
      (follows : Follows tree position id declaration)
      (refused : checkFlags options id
        (callStep (tree.node id) (tree.node declaration) position.active.length) = .error error) :
      Ends tree options (.own id) position (.error error)
  | call {position : Position} {id declaration : NodeId} {debugNodes : List NodeId}
      {inside : Except TreeError Groups} (follows : Follows tree position id declaration)
      (allowed : checkFlags options id
        (callStep (tree.node id) (tree.node declaration) position.active.length) = .ok debugNodes)
      (body : Ends tree options (.children (tree.node declaration).children)
        (position.enterCall id declaration) inside) :
      Ends tree options (.own id) position (inside.map fun (groups, inner) =>
        { branches := attachHooks tree declaration (followedBy
            [{ steps := [callStep (tree.node id) (tree.node declaration) position.active.length] }]
            (tree.node declaration).step.identifiers.isSequential groups)
          declaration := some declaration
          debugNodes := debugNodes ++ inner })
  | noMembers {position : Position} : Ends tree options (.members []) position (.ok ([], []))
  | memberFails {position : Position} {member : NodeId} {rest : List NodeId} {error : TreeError}
      (first : Ends tree options (.own member) position (.error error)) :
      Ends tree options (.members (member :: rest)) position (.error error)
  | member {position : Position} {member : NodeId} {rest : List NodeId} {own : Own}
      {others : Except TreeError Groups}
      (first : Ends tree options (.own member) position (.ok own))
      (behind : Ends tree options (.members rest) position others) :
      Ends tree options (.members (member :: rest)) position (others.map fun (groups, debugNodes) =>
        (own.branches :: groups, own.debugNodes ++ debugNodes))
  | root {position : Position} {id : NodeId} {below : Except TreeError Groups}
      (kind : (tree.node id).kind = .root)
      (further : Ends tree options (.children (tree.node id).children) position below) :
      Ends tree options (.node id) position (below.map fun (groups, debugNodes) =>
        (attachHooks tree id (if groups.isEmpty then [] else choose false groups), debugNodes))
  | blockFails {position : Position} {id : NodeId} {members : List NodeId} {error : TreeError}
      (kind : (tree.node id).kind = .block members)
      (alone : Ends tree options (.members members) position (.error error)) :
      Ends tree options (.node id) position (.error error)
  | block {position : Position} {id : NodeId} {members debugNodes : List NodeId}
      {owns : List (List Branch)} {below : Except TreeError Groups}
      (kind : (tree.node id).kind = .block members)
      (alone : Ends tree options (.members members) position (.ok (owns, debugNodes)))
      (further : Ends tree options (.children (tree.node id).children) (position.enter { node := id })
        below) :
      Ends tree options (.node id) position (below.map fun (groups, inner) =>
        (attachHooks tree id (followedBy
          (choose (tree.node id).step.identifiers.isSequential owns) false groups), debugNodes ++ inner))
  | silent {position : Position} {id : NodeId} (kind : (tree.node id).kind = .step)
      (silent : tree.isSilent id = true) : Ends tree options (.node id) position (.ok ([], []))
  | stepFails {position : Position} {id : NodeId} {error : TreeError}
      (kind : (tree.node id).kind = .step) (spoken : tree.isSilent id = false)
      (alone : Ends tree options (.own id) position (.error error)) :
      Ends tree options (.node id) position (.error error)
  | step {position : Position} {id : NodeId} {own : Own} {below : Except TreeError Groups}
      (kind : (tree.node id).kind = .step) (spoken : tree.isSilent id = false)
      (alone : Ends tree options (.own id) position (.ok own))
      (further : Ends tree options (.children (tree.node id).children)
        (position.enter ⟨id, own.declaration⟩) below) :
      Ends tree options (.node id) position (below.map fun (groups, inner) =>
        (attachHooks tree id (followedBy own.branches (tree.node id).step.identifiers.isSequential
          groups), own.debugNodes ++ inner))
  | noChildren {position : Position} : Ends tree options (.children []) position (.ok ([], []))
  | overloaded {position : Position} {child : NodeId} {rest : List NodeId}
      (hooked : (tree.node child).step.hook.isSome = true)
      (loaded : (tree.node child).children ≠ []) :
      Ends tree options (.children (child :: rest)) position
        (.error (TreeError.ofFault (.hookWithChildren (tree.node child).step.text)
          (tree.node child).step.filename (tree.node child).step.lineNumber))
  | passed {position : Position} {child : NodeId} {rest : List NodeId}
      {others : Except TreeError Groups} (silent : tree.isSilent child = true)
      (leaf : (tree.node child).step.hook.isSome = true → (tree.node child).children = [])
      (behind : Ends tree options (.children rest) position others) :
      Ends tree options (.children (child :: rest)) position others
  | childFails {position : Position} {child : NodeId} {rest : List NodeId} {error : TreeError}
      (spoken : tree.isSilent child = false)
      (first : Ends tree options (.node child) position (.error error)) :
      Ends tree options (.children (child :: rest)) position (.error error)
  | child {position : Position} {child : NodeId} {rest : List NodeId} {branches : List Branch}
      {debugNodes : List NodeId} {others : Except TreeError Groups}
      (spoken : tree.isSilent child = false)
      (first : Ends tree options (.node child) position (.ok (branches, debugNodes)))
      (behind : Ends tree options (.children rest) position others) :
      Ends tree options (.children (child :: rest)) position (others.map fun (groups, inner) =>
        (if branches.isEmpty then groups else branches :: groups, debugNodes ++ inner))

section Answers

variable {tree : Tree} {options : BranchOptions} {position : Position} {id declaration : NodeId}

/-- Every child stands behind its parent, so an outline that is deep enough is the whole of what is below. -/
theorem outlineTo_of_enough (settled : tree.WellFormed) {depth other : Nat} :
    ∀ {id : NodeId}, tree.size ≤ id + depth → tree.size ≤ id + other →
      tree.outlineTo depth id = tree.outlineTo other id := by
  induction depth generalizing other with
  | zero =>
      intro id (outside : tree.size ≤ id) _
      have bare : (tree.node id).children = [] := by rw [Tree.node_of_size_le outside]
      cases other with
      | zero => rfl
      | succ other => rw [Tree.outlineTo, Tree.outlineTo, bare, List.map_nil]
  | succ depth ih =>
      intro id enough enoughToo
      cases other with
      | zero =>
          have outside : tree.size ≤ id := enoughToo
          have bare : (tree.node id).children = [] := by rw [Tree.node_of_size_le outside]
          rw [Tree.outlineTo, Tree.outlineTo, bare, List.map_nil]
      | succ other =>
          rw [Tree.outlineTo, Tree.outlineTo]
          congr 1
          apply List.map_congr_left
          intro child listed
          have behind := (settled.child id child listed).1
          exact ih (enough_below enough behind) (enough_below enoughToo behind)

theorem outline_eq (settled : tree.WellFormed) (id : NodeId) :
    tree.outline id = .node id ((tree.node id).children.map tree.outline) := by
  have deeper : tree.outline id = tree.outlineTo (tree.size + 1) id :=
    outlineTo_of_enough settled (Nat.le_add_left _ _) (by omega)
  rw [deeper]
  rfl

/-- The expander of the bodies of calls, by the number of calls that may still be nested. -/
def bodyAt (tree : Tree) (options : BranchOptions) (position : Position) : Option BodyExpander :=
  bodyExpander tree options (maxCallDepth - position.active.length)

/-- What an expansion answers, wherever it stands. -/
def answer (tree : Tree) (options : BranchOptions) (position : Position) :
    (task : Task) → Except TreeError task.Answer
  | .own id => expandOwn tree options (bodyAt tree options position) position id
  | .members ids => expandMembers tree options (bodyAt tree options position) position ids
  | .node id => expandNode tree options (bodyAt tree options position) position (tree.outline id)
  | .children ids =>
      expandChildren tree options (bodyAt tree options position) position (ids.map tree.outline)

/-- Where a further call may be nested, the body of a declaration is expanded as any children are. -/
theorem bodyAt_eq (settled : tree.WellFormed) (nests : position.active.length < maxCallDepth) :
    ∃ expander, bodyAt tree options position = some expander ∧
      ∀ call declaration, expander (position.enterCall call declaration) declaration =
        answer tree options (position.enterCall call declaration)
          (.children (tree.node declaration).children) := by
  obtain ⟨depth, room⟩ := Nat.exists_eq_succ_of_ne_zero (Nat.sub_ne_zero_of_lt nests)
  refine ⟨_, by rw [bodyAt, room]; rfl, fun call declaration => ?_⟩
  have left : maxCallDepth - (position.enterCall call declaration).active.length = depth := by
    simp only [Position.enterCall, List.length_cons]
    omega
  rw [answer, bodyAt, left, outline_eq settled]
  rfl

theorem answer_own_plain (plain : (tree.node id).step.identifiers.isCall = false) :
    answer tree options position (.own id) =
      (checkFlags options id (BranchStep.ofNode (tree.node id) position.active.length)).map
        fun debugNodes =>
          { branches := [{ steps := [BranchStep.ofNode (tree.node id) position.active.length] }]
            debugNodes } := by
  rw [answer, expandOwn, plain]
  rfl

theorem answer_own_unresolved {error : TreeError} (calls : (tree.node id).step.identifiers.isCall = true)
    (unknown : tree.resolve id position.path = .error error) :
    answer tree options position (.own id) = .error error := by
  rw [answer, expandOwn, calls, unknown]
  rfl

theorem answer_own_recursive (recurs : Recurs tree position id declaration) :
    answer tree options position (.own id) = .error (recursionError (tree.node id)) := by
  rw [answer, expandOwn, recurs.calls, recurs.resolved]
  simp only [if_true, bind, Except.bind]
  split
  · rfl
  · next fresh =>
      have full : maxCallDepth - position.active.length = 0 := by
        apply Nat.sub_eq_zero_of_le
        exact recurs.nested.resolve_left fun active => fresh (List.contains_iff_mem.mpr active)
      rw [bodyAt, full]
      rfl

/-- A call that is followed comes to what its body comes to. -/
theorem answer_own_call (settled : tree.WellFormed) (follows : Follows tree position id declaration) :
    answer tree options position (.own id) = (do
      let debugNodes ← checkFlags options id
        (callStep (tree.node id) (tree.node declaration) position.active.length)
      let (groups, inner) ← answer tree options (position.enterCall id declaration)
        (.children (tree.node declaration).children)
      return {
        branches := attachHooks tree declaration (followedBy
          [{ steps := [callStep (tree.node id) (tree.node declaration) position.active.length] }]
          (tree.node declaration).step.identifiers.isSequential groups)
        declaration := some declaration
        debugNodes := debugNodes ++ inner }) := by
  obtain ⟨expander, nested, inside⟩ := @bodyAt_eq tree options _ settled follows.nests
  have fresh : position.active.contains declaration = false := by simpa using follows.fresh
  rw [← inside, answer, expandOwn, follows.calls, follows.resolved, nested]
  simp only [if_true, bind, Except.bind, fresh, Bool.false_eq_true, if_false]

theorem answer_members_cons (member : NodeId) (rest : List NodeId) :
    answer tree options position (.members (member :: rest)) = (do
      let own ← answer tree options position (.own member)
      let (groups, debugNodes) ← answer tree options position (.members rest)
      return (own.branches :: groups, own.debugNodes ++ debugNodes)) := rfl

theorem answer_node (settled : tree.WellFormed) (id : NodeId) :
    answer tree options position (.node id) = expandNode tree options (bodyAt tree options position)
      position (.node id ((tree.node id).children.map tree.outline)) := by
  rw [answer, outline_eq settled]

theorem answer_root (settled : tree.WellFormed) (kind : (tree.node id).kind = .root) :
    answer tree options position (.node id) =
      (answer tree options position (.children (tree.node id).children)).map
        fun (groups, debugNodes) =>
          (attachHooks tree id (if groups.isEmpty then [] else choose false groups), debugNodes) := by
  rw [answer_node settled, expandNode, kind]
  rfl

theorem answer_block (settled : tree.WellFormed) {members : List NodeId}
    (kind : (tree.node id).kind = .block members) :
    answer tree options position (.node id) = (do
      let (owns, debugNodes) ← answer tree options position (.members members)
      let (groups, inner) ← answer tree options (position.enter { node := id })
        (.children (tree.node id).children)
      return (attachHooks tree id (followedBy
        (choose (tree.node id).step.identifiers.isSequential owns) false groups),
        debugNodes ++ inner)) := by
  rw [answer_node settled, expandNode, kind]
  rfl

theorem answer_silent (settled : tree.WellFormed) (kind : (tree.node id).kind = .step)
    (silent : tree.isSilent id = true) : answer tree options position (.node id) = .ok ([], []) := by
  rw [Tree.isSilent] at silent
  rw [answer_node settled, expandNode, kind]
  simp only [silent, if_true]
  rfl

theorem answer_step (settled : tree.WellFormed) (kind : (tree.node id).kind = .step)
    (spoken : tree.isSilent id = false) : answer tree options position (.node id) = (do
      let own ← answer tree options position (.own id)
      let (groups, inner) ← answer tree options (position.enter ⟨id, own.declaration⟩)
        (.children (tree.node id).children)
      return (attachHooks tree id (followedBy own.branches
        (tree.node id).step.identifiers.isSequential groups), own.debugNodes ++ inner)) := by
  rw [Tree.isSilent] at spoken
  rw [answer_node settled, expandNode, kind]
  simp only [spoken, Bool.false_eq_true, if_false]
  rfl

theorem answer_children_cons (settled : tree.WellFormed) (child : NodeId) (rest : List NodeId) :
    answer tree options position (.children (child :: rest)) =
      if (tree.node child).step.hook.isSome = true ∧ (tree.node child).children ≠ [] then
        .error (TreeError.ofFault (.hookWithChildren (tree.node child).step.text)
          (tree.node child).step.filename (tree.node child).step.lineNumber)
      else if tree.isSilent child then answer tree options position (.children rest)
      else do
        let (branches, debugNodes) ← answer tree options position (.node child)
        let (groups, inner) ← answer tree options position (.children rest)
        return (if branches.isEmpty then groups else branches :: groups, debugNodes ++ inner) := by
  rw [answer_node settled, answer, List.map_cons, outline_eq settled, expandChildren, Tree.isSilent]
  dsimp only
  cases hooked : (tree.node child).step.hook.isSome with
  | true =>
      cases (tree.node child).children <;> simp [answer]; rfl
  | false =>
      simp only [Bool.false_eq_true, false_and, if_false, Bool.or_false]
      split <;> rfl

end Answers

section Existence

variable {tree : Tree} {options : BranchOptions} {position : Position}

theorem ends_own (settled : tree.WellFormed) {id : NodeId}
    (body : ∀ declaration, Follows tree position id declaration →
      Ends tree options (.children (tree.node declaration).children) (position.enterCall id declaration)
        (answer tree options (position.enterCall id declaration)
          (.children (tree.node declaration).children))) :
    Ends tree options (.own id) position (answer tree options position (.own id)) := by
  by_cases calls : (tree.node id).step.identifiers.isCall = true
  · cases resolved : tree.resolve id position.path with
    | error error =>
        rw [answer_own_unresolved calls resolved]
        exact .unresolved calls resolved
    | ok declaration =>
        by_cases nested : declaration ∈ position.active ∨ maxCallDepth ≤ position.active.length
        · have recurs : Recurs tree position id declaration := ⟨calls, resolved, nested⟩
          rw [answer_own_recursive recurs]
          exact .recursive recurs
        · obtain ⟨fresh, room⟩ := not_or.mp nested
          have follows : Follows tree position id declaration :=
            ⟨calls, resolved, fresh, Nat.lt_of_not_le room⟩
          rw [answer_own_call settled follows]
          cases allowed : checkFlags options id
            (callStep (tree.node id) (tree.node declaration) position.active.length) with
          | error error => exact .refused follows allowed
          | ok debugNodes => exact .call follows allowed (body declaration follows)
  · have plain := Bool.eq_false_iff.mpr calls
    rw [answer_own_plain plain]
    exact .plain plain

theorem ends_members {ids : List NodeId}
    (each : ∀ id ∈ ids, Ends tree options (.own id) position (answer tree options position (.own id))) :
    Ends tree options (.members ids) position (answer tree options position (.members ids)) := by
  induction ids with
  | nil => exact .noMembers
  | cons member rest ih =>
      obtain ⟨first, others⟩ := List.forall_mem_cons.mp each
      rw [answer_members_cons]
      cases found : answer tree options position (.own member) with
      | error error => exact .memberFails (found ▸ first)
      | ok own => exact .member (found ▸ first) (ih others)

theorem ends_children (settled : tree.WellFormed) {ids : List NodeId}
    (each : ∀ id ∈ ids, Ends tree options (.node id) position (answer tree options position (.node id))) :
    Ends tree options (.children ids) position (answer tree options position (.children ids)) := by
  induction ids with
  | nil => exact .noChildren
  | cons child rest ih =>
      obtain ⟨first, others⟩ := List.forall_mem_cons.mp each
      rw [answer_children_cons settled]
      split
      · next loaded => exact .overloaded loaded.1 loaded.2
      · next unloaded =>
          split
          · next silent =>
              have leaf (hooked : (tree.node child).step.hook.isSome = true) :
                  (tree.node child).children = [] :=
                Decidable.not_not.mp fun loaded => unloaded ⟨hooked, loaded⟩
              exact .passed silent leaf (ih others)
          · next spoken =>
              have spoken := Bool.eq_false_iff.mpr spoken
              cases found : answer tree options position (.node child) with
              | error error => exact .childFails spoken (found ▸ first)
              | ok result => exact .child spoken (found ▸ first) (ih others)

theorem ends_node (settled : tree.WellFormed) {id : NodeId}
    (own : ∀ id, Ends tree options (.own id) position (answer tree options position (.own id)))
    (further : ∀ frame, Ends tree options (.children (tree.node id).children) (position.enter frame)
      (answer tree options (position.enter frame) (.children (tree.node id).children)))
    (below : Ends tree options (.children (tree.node id).children) position
      (answer tree options position (.children (tree.node id).children))) :
    Ends tree options (.node id) position (answer tree options position (.node id)) := by
  cases kind : (tree.node id).kind with
  | root =>
      rw [answer_root settled kind]
      exact .root kind below
  | block members =>
      rw [answer_block settled kind]
      have alone : Ends tree options (.members members) position _ := ends_members fun id _ => own id
      cases found : answer tree options position (.members members) with
      | error error => exact .blockFails kind (found ▸ alone)
      | ok result => exact .block kind (found ▸ alone) (further _)
  | step =>
      by_cases silent : tree.isSilent id = true
      · rw [answer_silent settled kind silent]
        exact .silent kind silent
      · have spoken := Bool.eq_false_iff.mpr silent
        rw [answer_step settled kind spoken]
        cases found : answer tree options position (.own id) with
        | error error => exact .stepFails kind spoken (found ▸ own id)
        | ok result => exact .step kind spoken (found ▸ own id) (further _)

/-- Every expansion comes to an end: a call that is followed leaves less room for further calls, and a child
stands behind its parent. -/
theorem ends (settled : tree.WellFormed) (options : BranchOptions) (position : Position) (id : NodeId) :
    Ends tree options (.node id) position (answer tree options position (.node id)) := by
  apply ends_node settled
  · intro call
    apply ends_own settled
    intro declaration follows
    have room := follows.nests
    exact ends_children settled fun child _ =>
      ends settled options (position.enterCall call declaration) child
  · intro frame
    refine ends_children settled fun child listed => ?_
    obtain ⟨behind, bounded, -⟩ := settled.child id child listed
    exact ends settled options (position.enter frame) child
  · refine ends_children settled fun child listed => ?_
    obtain ⟨behind, bounded, -⟩ := settled.child id child listed
    exact ends settled options position child
termination_by (maxCallDepth - position.active.length, tree.size - id)
decreasing_by
  · apply Prod.Lex.left
    simp only [Position.enterCall, List.length_cons]
    omega
  · exact .right _ (Nat.sub_lt_sub_left (Nat.lt_trans behind bounded) behind)
  · exact .right _ (Nat.sub_lt_sub_left (Nat.lt_trans behind bounded) behind)

/-- A run ends in one way only. -/
theorem Ends.eq_answer (settled : tree.WellFormed) {task : Task} {result : Except TreeError task.Answer}
    (ends : Ends tree options task position result) : result = answer tree options position task := by
  induction ends with
  | plain plain => exact (answer_own_plain plain).symm
  | unresolved calls unknown => exact (answer_own_unresolved calls unknown).symm
  | recursive recurs => exact (answer_own_recursive recurs).symm
  | refused follows refused =>
      rw [answer_own_call settled follows, refused]
      rfl
  | call follows allowed body ih =>
      rw [answer_own_call settled follows, allowed, ← ih]
      rfl
  | noMembers | noChildren => rfl
  | memberFails first ih =>
      rw [answer_members_cons, ← ih]
      rfl
  | member first behind ihFirst ih =>
      rw [answer_members_cons, ← ihFirst, ← ih]
      rfl
  | root kind further ih => rw [answer_root settled kind, ← ih]
  | blockFails kind alone ih =>
      rw [answer_block settled kind, ← ih]
      rfl
  | block kind alone further ihAlone ih =>
      rw [answer_block settled kind, ← ihAlone]
      simp only [bind, Except.bind, ← ih]
      rfl
  | silent kind silent => exact (answer_silent settled kind silent).symm
  | stepFails kind spoken alone ih =>
      rw [answer_step settled kind spoken, ← ih]
      rfl
  | step kind spoken alone further ihAlone ih =>
      rw [answer_step settled kind spoken, ← ihAlone]
      simp only [bind, Except.bind, ← ih]
      rfl
  | overloaded hooked loaded => rw [answer_children_cons settled, if_pos ⟨hooked, loaded⟩]
  | passed silent leaf behind ih =>
      rw [answer_children_cons settled, if_neg fun loaded => loaded.2 (leaf loaded.1), if_pos silent, ih]
  | @childFails position child rest error spoken first ih =>
      have unhooked : (tree.node child).step.hook.isSome = false := (Bool.or_eq_false_iff.mp spoken).2
      rw [answer_children_cons settled, if_neg (by simp [unhooked]), if_neg (by simp [spoken]), ← ih]
      rfl
  | @child position child rest branches debugNodes others spoken first behind ihFirst ih =>
      have unhooked : (tree.node child).step.hook.isSome = false := (Bool.or_eq_false_iff.mp spoken).2
      rw [answer_children_cons settled, if_neg (by simp [unhooked]), if_neg (by simp [spoken]),
        ← ihFirst, ← ih]
      rfl

/-- The run of an expansion from outside: there is one, and it comes to what `expand` answers. -/
theorem ends_iff (settled : tree.WellFormed) {id : NodeId}
    {result : Except TreeError (List Branch × List NodeId)} :
    Ends tree options (.node id) {} result ↔ result = expand tree options id := by
  constructor
  · exact fun ends => ends.eq_answer settled
  · rintro rfl
    exact ends settled options {} id

end Existence

section Recursion

variable {tree : Tree} {options : BranchOptions}

/-- An expansion comes, through members, children and the bodies of calls, to a step alone. -/
inductive Comes (tree : Tree) (call : NodeId) (there : Position) : Task → Position → Prop
  | here : Comes tree call there (.own call) there
  | body {position : Position} {id declaration : NodeId} (follows : Follows tree position id declaration)
      (inside : Comes tree call there (.children (tree.node declaration).children)
        (position.enterCall id declaration)) : Comes tree call there (.own id) position
  | member {position : Position} {ids : List NodeId} {id : NodeId} (listed : id ∈ ids)
      (inside : Comes tree call there (.own id) position) : Comes tree call there (.members ids) position
  | members {position : Position} {id : NodeId} {ids : List NodeId}
      (kind : (tree.node id).kind = .block ids) (inside : Comes tree call there (.members ids) position) :
      Comes tree call there (.node id) position
  | own {position : Position} {id : NodeId} (kind : (tree.node id).kind = .step)
      (spoken : tree.isSilent id = false) (inside : Comes tree call there (.own id) position) :
      Comes tree call there (.node id) position
  | root {position : Position} {id : NodeId} (kind : (tree.node id).kind = .root)
      (inside : Comes tree call there (.children (tree.node id).children) position) :
      Comes tree call there (.node id) position
  | behindMembers {position : Position} {id : NodeId} {ids : List NodeId}
      (kind : (tree.node id).kind = .block ids)
      (inside : Comes tree call there (.children (tree.node id).children) (position.enter { node := id })) :
      Comes tree call there (.node id) position
  | behindOwn {position : Position} {id : NodeId} (kind : (tree.node id).kind = .step)
      (spoken : tree.isSilent id = false) (inside : Comes tree call there (.children (tree.node id).children)
        (position.enter ⟨id, tree.callee position.path id⟩)) : Comes tree call there (.node id) position
  | child {position : Position} {ids : List NodeId} {id : NodeId} (listed : id ∈ ids)
      (spoken : tree.isSilent id = false) (inside : Comes tree call there (.node id) position) :
      Comes tree call there (.children ids) position

theorem Comes.laterMember {call member : NodeId} {there position : Position} {rest : List NodeId}
    (comes : Comes tree call there (.members rest) position) :
    Comes tree call there (.members (member :: rest)) position := by
  cases comes with
  | member listed inside => exact .member (.tail _ listed) inside

theorem Comes.laterChild {call child : NodeId} {there position : Position} {rest : List NodeId}
    (comes : Comes tree call there (.children rest) position) :
    Comes tree call there (.children (child :: rest)) position := by
  cases comes with
  | child listed spoken inside => exact .child (.tail _ listed) spoken inside

theorem eq_error_of_map {α β : Type} {f : α → β} {result : Except TreeError α} {error : TreeError}
    (failed : result.map f = .error error) : result = .error error := by
  cases result with
  | error other => exact congrArg Except.error (Except.error.inj failed)
  | ok value => cases failed

theorem kind_of_checkFlags {id : NodeId} {step : BranchStep} {error : TreeError}
    (refused : checkFlags options id step = .error error) : error.kind = .configuration := by
  rw [checkFlags] at refused
  split at refused
  · cases refused
    rfl
  · cases refused

theorem kind_of_resolve {path : List Frame} {id : NodeId} {error : TreeError}
    (unknown : tree.resolve id path = .error error) : error.kind = .resolution := by
  rw [Tree.resolve] at unknown
  split at unknown
  · cases unknown
  · cases unknown
    rfl

/-- A run that fails as recursive has come to a call that is refused as such. -/
theorem Ends.recurs (settled : tree.WellFormed) {task : Task} {position : Position}
    {result : Except TreeError task.Answer} (ends : Ends tree options task position result)
    {error : TreeError} (failed : result = .error error) (recursion : error.kind = .recursion) :
    ∃ call there declaration, Comes tree call there task position ∧
      Recurs tree there call declaration ∧ error = recursionError (tree.node call) := by
  have via {task other : Task} {position further : Position}
      (found : ∃ call there declaration, Comes tree call there task position ∧
        Recurs tree there call declaration ∧ error = recursionError (tree.node call))
      (comes : ∀ {call there}, Comes tree call there task position → Comes tree call there other further) :
      ∃ call there declaration, Comes tree call there other further ∧
        Recurs tree there call declaration ∧ error = recursionError (tree.node call) := by
    obtain ⟨call, there, declaration, inside, recurs, same⟩ := found
    exact ⟨call, there, declaration, comes inside, recurs, same⟩
  induction ends with
  | plain plain =>
      have kind := kind_of_checkFlags (eq_error_of_map failed)
      cases kind.symm.trans recursion
  | unresolved calls unknown =>
      obtain rfl := Except.error.inj failed
      cases (kind_of_resolve unknown).symm.trans recursion
  | @recursive position id declaration recurs =>
      exact ⟨id, position, declaration, .here, recurs, (Except.error.inj failed).symm⟩
  | refused follows refused =>
      obtain rfl := Except.error.inj failed
      cases (kind_of_checkFlags refused).symm.trans recursion
  | call follows allowed body ih => exact via (ih (eq_error_of_map failed)) (.body follows)
  | noMembers | silent | noChildren => cases failed
  | memberFails first ih =>
      obtain rfl := Except.error.inj failed
      exact via (ih rfl) (.member (.head _))
  | member first behind ihFirst ih => exact via (ih (eq_error_of_map failed)) .laterMember
  | root kind further ih => exact via (ih (eq_error_of_map failed)) (.root kind)
  | blockFails kind alone ih =>
      obtain rfl := Except.error.inj failed
      exact via (ih rfl) (.members kind)
  | block kind alone further ihAlone ih => exact via (ih (eq_error_of_map failed)) (.behindMembers kind)
  | stepFails kind spoken alone ih =>
      obtain rfl := Except.error.inj failed
      exact via (ih rfl) (.own kind spoken)
  | step kind spoken alone further ihAlone ih =>
      have found := (alone.eq_answer settled).symm
      have callee := (expandOwn_expands (sound_bodyExpander settled options _) found).2
      exact via (ih (eq_error_of_map failed)) fun inside => .behindOwn kind spoken (callee ▸ inside)
  | overloaded hooked loaded =>
      obtain rfl := Except.error.inj failed
      cases recursion
  | passed silent leaf behind ih => exact via (ih failed) .laterChild
  | childFails spoken first ih =>
      obtain rfl := Except.error.inj failed
      exact via (ih rfl) (.child (.head _) spoken)
  | child spoken first behind ihFirst ih => exact via (ih (eq_error_of_map failed)) .laterChild

end Recursion

end TestTree.Expansion
