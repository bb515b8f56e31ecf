import TestTree.Proofs.Tree.WellFormed
import TestTree.Branch.Expansion

/-!
How an expansion succeeds. Each of its functions either fails or does one of a few things; the
relations below name these, and statements about what an expansion finds go by cases on them.
-/
namespace TestTree.Expansion

variable {tree : Tree} {options : BranchOptions} {body : Option BodyExpander} {position : Position}
  {id : NodeId} {own : Own} {branches : List Branch} {groups : List (List Branch)}
  {debugNodes : List NodeId}

/-- A step is what its line says, or it is a call and is followed by the body it refers to. -/
inductive OwnFound (tree : Tree) (options : BranchOptions) (body : Option BodyExpander)
    (position : Position) (id : NodeId) : Own → Prop
  | plain {debugNodes : List NodeId} (plain : (tree.node id).step.identifiers.isCall = false)
      (allowed : checkFlags options id (BranchStep.ofNode (tree.node id) position.active.length) =
        .ok debugNodes) :
      OwnFound tree options body position id
        { branches := [{ steps := [BranchStep.ofNode (tree.node id) position.active.length] }]
          debugNodes }
  | call {declaration : NodeId} {expander : BodyExpander} {debugNodes inner : List NodeId}
      {groups : List (List Branch)} (calls : (tree.node id).step.identifiers.isCall = true)
      (resolved : tree.resolve id position.path = .ok declaration)
      (fresh : position.active.contains declaration = false) (nested : body = some expander)
      (allowed : checkFlags options id
        (callStep (tree.node id) (tree.node declaration) position.active.length) = .ok debugNodes)
      (found : expander (position.enterCall id declaration) declaration = .ok (groups, inner)) :
      OwnFound tree options body position id
        { branches := attachHooks tree declaration (followedBy
            [{ steps := [callStep (tree.node id) (tree.node declaration) position.active.length] }]
            (tree.node declaration).step.identifiers.isSequential groups)
          declaration := some declaration
          debugNodes := debugNodes ++ inner }

/-- The root has only children, a block goes on with its members, and a step with itself. -/
inductive NodeFound (tree : Tree) (options : BranchOptions) (body : Option BodyExpander)
    (position : Position) (id : NodeId) (children : List Outline) :
    List Branch → List NodeId → Prop
  | root {groups : List (List Branch)} {debugNodes : List NodeId}
      (kind : (tree.node id).kind = .root)
      (below : expandChildren tree options body position children = .ok (groups, debugNodes)) :
      NodeFound tree options body position id children
        (attachHooks tree id (if groups.isEmpty then [] else choose false groups)) debugNodes
  | block {members : List NodeId} {owns groups : List (List Branch)} {debugNodes inner : List NodeId}
      (kind : (tree.node id).kind = .block members)
      (alone : expandMembers tree options body position members = .ok (owns, debugNodes))
      (below : expandChildren tree options body (position.enter { node := id }) children =
        .ok (groups, inner)) :
      NodeFound tree options body position id children
        (attachHooks tree id (followedBy
          (choose (tree.node id).step.identifiers.isSequential owns) false groups))
        (debugNodes ++ inner)
  | silent (kind : (tree.node id).kind = .step)
      (silent : tree.isSilent id = true) :
      NodeFound tree options body position id children [] []
  | step {own : Own} {groups : List (List Branch)} {inner : List NodeId}
      (kind : (tree.node id).kind = .step)
      (spoken : tree.isSilent id = false)
      (alone : expandOwn tree options body position id = .ok own)
      (below : expandChildren tree options body (position.enter ⟨id, own.declaration⟩) children =
        .ok (groups, inner)) :
      NodeFound tree options body position id children
        (attachHooks tree id
          (followedBy own.branches (tree.node id).step.identifiers.isSequential groups))
        (own.debugNodes ++ inner)

/-- Hooks and declarations are passed over, and so are children without branches. -/
inductive ChildrenFound (tree : Tree) (options : BranchOptions) (body : Option BodyExpander)
    (position : Position) (id : NodeId) (children rest : List Outline) :
    List (List Branch) → List NodeId → Prop
  | silent {groups : List (List Branch)} {debugNodes : List NodeId}
      (silent : tree.isSilent id = true)
      (leaf : (tree.node id).step.hook.isSome = true → children.isEmpty = true)
      (others : expandChildren tree options body position rest = .ok (groups, debugNodes)) :
      ChildrenFound tree options body position id children rest groups debugNodes
  | spoken {branches : List Branch} {groups : List (List Branch)} {debugNodes inner : List NodeId}
      (spoken : tree.isSilent id = false)
      (first : expandNode tree options body position (.node id children) =
        .ok (branches, debugNodes))
      (others : expandChildren tree options body position rest = .ok (groups, inner)) :
      ChildrenFound tree options body position id children rest
        (if branches.isEmpty then groups else branches :: groups) (debugNodes ++ inner)

theorem expandOwn_eq_ok :
    expandOwn tree options body position id = .ok own ↔
      OwnFound tree options body position id own := by
  constructor
  · intro expanded
    rw [expandOwn] at expanded
    by_cases calls : (tree.node id).step.identifiers.isCall = true
    · simp only [calls, if_true] at expanded
      cases resolved : tree.resolve id position.path with
      | error error => simp [resolved, bind, Except.bind] at expanded
      | ok declaration =>
          simp only [resolved, bind, Except.bind] at expanded
          split at expanded
          · cases expanded
          · next fresh =>
            cases nested : body with
            | none => rw [nested] at expanded; cases expanded
            | some expander =>
                simp only [nested, pure, Except.pure] at expanded
                split at expanded
                · cases expanded
                · next debugNodes allowed =>
                  split at expanded
                  · cases expanded
                  · next result found =>
                    obtain rfl := Except.ok.inj expanded
                    exact .call calls resolved (by simpa using fresh) rfl allowed found
    · have plain : (tree.node id).step.identifiers.isCall = false := by simpa using calls
      simp only [plain, Bool.false_eq_true, if_false, bind, Except.bind, pure, Except.pure]
        at expanded
      split at expanded
      · cases expanded
      · next debugNodes allowed =>
        obtain rfl := Except.ok.inj expanded
        exact .plain plain allowed
  · intro found
    rw [expandOwn]
    cases found with
    | plain plain allowed =>
        simp only [plain, Bool.false_eq_true, if_false, allowed, bind, Except.bind, pure, Except.pure]
    | call calls resolved fresh nested allowed found =>
        simp only [calls, if_true, resolved, fresh, nested, allowed, found, bind, Except.bind, pure,
          Except.pure, Bool.false_eq_true, if_false]

theorem expandMembers_cons {member : NodeId} {rest : List NodeId} :
    expandMembers tree options body position (member :: rest) = .ok (groups, debugNodes) ↔
      ∃ own others inner, expandOwn tree options body position member = .ok own ∧
        expandMembers tree options body position rest = .ok (others, inner) ∧
        groups = own.branches :: others ∧ debugNodes = own.debugNodes ++ inner := by
  rw [expandMembers]
  cases expandOwn tree options body position member with
  | error error => simp [bind, Except.bind]
  | ok own =>
      cases expandMembers tree options body position rest with
      | error error => simp [bind, Except.bind]
      | ok result =>
          simp only [bind, Except.bind, pure, Except.pure, Except.ok.injEq, Prod.mk.injEq]
          constructor
          · rintro ⟨rfl, rfl⟩
            exact ⟨own, result.1, result.2, rfl, rfl, rfl, rfl⟩
          · rintro ⟨_, _, _, rfl, rfl, rfl, rfl⟩
            exact ⟨rfl, rfl⟩

theorem expandNode_eq_ok {children : List Outline} :
    expandNode tree options body position (.node id children) = .ok (branches, debugNodes) ↔
      NodeFound tree options body position id children branches debugNodes := by
  constructor
  · intro expanded
    rw [expandNode] at expanded
    cases kind : (tree.node id).kind with
    | root =>
        simp only [kind, bind, Except.bind, pure, Except.pure] at expanded
        split at expanded
        · cases expanded
        · next result below =>
          obtain ⟨rfl, rfl⟩ := Prod.mk.inj (Except.ok.inj expanded)
          exact .root kind below
    | block members =>
        simp only [kind, bind, Except.bind, pure, Except.pure] at expanded
        split at expanded
        · cases expanded
        · next owns alone =>
          split at expanded
          · cases expanded
          · next result below =>
            obtain ⟨rfl, rfl⟩ := Prod.mk.inj (Except.ok.inj expanded)
            exact .block kind alone below
    | step =>
        simp only [kind, bind, Except.bind, pure, Except.pure] at expanded
        split at expanded
        · next silent =>
          obtain ⟨rfl, rfl⟩ := Prod.mk.inj (Except.ok.inj expanded)
          exact .silent kind silent
        · next spoken =>
          split at expanded
          · cases expanded
          · next own alone =>
            split at expanded
            · cases expanded
            · next result below =>
              obtain ⟨rfl, rfl⟩ := Prod.mk.inj (Except.ok.inj expanded)
              exact .step kind (Bool.eq_false_iff.mpr spoken) alone below
  · intro found
    rw [expandNode]
    cases found with
    | root kind below => simp only [kind, below, bind, Except.bind, pure, Except.pure]
    | block kind alone below => simp only [kind, alone, below, bind, Except.bind, pure, Except.pure]
    | silent kind silent =>
        rw [Tree.isSilent] at silent
        simp only [kind, silent, if_true, pure, Except.pure]
    | step kind spoken alone below =>
        rw [Tree.isSilent] at spoken
        simp only [kind, spoken, alone, below, bind, Except.bind, pure, Except.pure,
          Bool.false_eq_true, if_false]

theorem expandChildren_cons {children rest : List Outline} :
    expandChildren tree options body position (.node id children :: rest) =
        .ok (groups, debugNodes) ↔
      ChildrenFound tree options body position id children rest groups debugNodes := by
  rw [expandChildren]
  constructor
  · intro expanded
    split at expanded
    · next hooked =>
      split at expanded
      · next leaf => exact .silent (by simp [Tree.isSilent, hooked]) (fun _ => leaf) expanded
      · cases expanded
    · next unhooked =>
      split at expanded
      · next declared =>
        exact .silent (by simp [Tree.isSilent, declared]) (fun hooked => absurd hooked unhooked)
          expanded
      · next undeclared =>
        simp only [bind, Except.bind, pure, Except.pure] at expanded
        split at expanded
        · cases expanded
        · next result first =>
          split at expanded
          · cases expanded
          · next result others =>
            obtain ⟨rfl, rfl⟩ := Prod.mk.inj (Except.ok.inj expanded)
            exact .spoken (by simp [Tree.isSilent, undeclared, unhooked]) first others
  · intro found
    cases found with
    | silent silent leaf others =>
        cases hooked : (tree.node id).step.hook.isSome with
        | true => simp only [leaf hooked, if_true, others]
        | false =>
            have declared : (tree.node id).step.identifiers.isDeclaration = true := by
              simpa [Tree.isSilent, hooked] using silent
            simp only [declared, if_true, others, Bool.false_eq_true, if_false]
    | spoken spoken first others =>
        simp only [Tree.isSilent, Bool.or_eq_false_iff] at spoken
        simp only [spoken.1, spoken.2, first, others, bind, Except.bind, pure, Except.pure,
          Bool.false_eq_true, if_false]

end TestTree.Expansion
