import TestTree.Proofs.Branch.Divergence
import TestTree.Proofs.Branch.Termination
import TestTree.Proofs.Branch.Passages

/-!
How deep the calls of a branch are nested. A step stands inside those earlier calls behind which all has been
deeper. These are as many as the step's level says, never more than `maxCallDepth`, and no two of them are to
the same declaration; a call that would make it so is an error, and the only one of its kind.
-/
namespace TestTree

/-- The steps that a step inside `depth` calls stands in, innermost first, when `passed` are behind it, the
last one first: each is shallower than all that has come after it. -/
def enclosing (depth : Nat) : List BranchStep → List BranchStep
  | [] => []
  | step :: passed =>
      if step.branchIndents < depth then step :: enclosing step.branchIndents passed
      else enclosing depth passed

/-- The steps around a step are calls to declarations that differ from each other, as many as its level says
and not too many. -/
def Nests (outer : List BranchStep) (step : BranchStep) : Prop :=
  ∃ declarations : List NodeId, outer.map (·.declaration) = declarations.map some ∧
    declarations.Nodup ∧ declarations.length = step.branchIndents ∧
    step.branchIndents ≤ Expansion.maxCallDepth

/-- All of some steps nest, when `passed` are behind the first of them, the last one first. -/
def NestsAll (passed : List BranchStep) : List BranchStep → Prop
  | [] => True
  | step :: rest => Nests (enclosing step.branchIndents passed) step ∧ NestsAll (step :: passed) rest

section Steps

variable {passed steps others : List BranchStep}

/-- What is at least as deep does not enclose. -/
theorem enclosing_append {depth : Nat} {deep : List BranchStep}
    (deeper : ∀ step ∈ deep, depth ≤ step.branchIndents) (passed : List BranchStep) :
    enclosing depth (deep ++ passed) = enclosing depth passed := by
  induction deep with
  | nil => rfl
  | cons step rest ih =>
      obtain ⟨here, others⟩ := List.forall_mem_cons.mp deeper
      rw [List.cons_append, enclosing, if_neg (Nat.not_lt_of_le here), ih others]

/-- The nearest step that encloses is the last one that is shallower. -/
theorem enclosing_eq_cons {depth : Nat} {call : BranchStep} {outer : List BranchStep}
    (nearest : enclosing depth passed = call :: outer) :
    ∃ deep older, passed = deep ++ call :: older ∧ call.branchIndents < depth ∧
      ∀ step ∈ deep, depth ≤ step.branchIndents := by
  induction passed with
  | nil => cases nearest
  | cons step older ih =>
      rw [enclosing] at nearest
      split at nearest
      · next shallower =>
          obtain ⟨rfl, -⟩ := List.cons.inj nearest
          exact ⟨[], older, rfl, shallower, List.forall_mem_nil _⟩
      · next deeper =>
          obtain ⟨deep, older, rfl, shallower, between⟩ := ih nearest
          exact ⟨step :: deep, older, rfl, shallower,
            List.forall_mem_cons.mpr ⟨Nat.le_of_not_lt deeper, between⟩⟩

theorem nestsAll_append : NestsAll passed (steps ++ others) ↔
    NestsAll passed steps ∧ NestsAll (steps.reverse ++ passed) others := by
  induction steps generalizing passed with
  | nil => simp [NestsAll]
  | cons step rest ih =>
      rw [List.cons_append, NestsAll, NestsAll, ih, and_assoc, List.reverse_cons, List.append_assoc]
      rfl

theorem NestsAll.nests {before after : List BranchStep} {step : BranchStep}
    (all : NestsAll [] (before ++ step :: after)) :
    Nests (enclosing step.branchIndents before.reverse) step := by
  rw [nestsAll_append, List.append_nil] at all
  exact all.2.1

end Steps

namespace Expansion

/-- What an expansion inside the calls of `active` may find: no step is shallower, and behind whatever those
calls enclose, the steps nest. -/
structure Nested (active : List NodeId) (branch : Branch) : Prop where
  deep : ∀ step ∈ branch.steps, active.length ≤ step.branchIndents
  nests : ∀ passed : List BranchStep,
    (enclosing active.length passed).map (·.declaration) = active.map some → NestsAll passed branch.steps

variable {tree : Tree} {options : BranchOptions} {active : List NodeId}

theorem lasting_nested (active : List NodeId) : Lasting (Nested active) := by
  constructor
  · constructor
    · intro step absent
      cases absent
    · intro passed _
      trivial
  · intro branch next first second
    constructor
    · exact fun step listed => (List.mem_append.mp listed).elim (first.deep step) (second.deep step)
    · intro passed around
      refine nestsAll_append.mpr ⟨first.nests passed around, second.nests _ ?_⟩
      rw [enclosing_append fun step listed => first.deep step (List.mem_reverse.mp listed), around]
  · intro branch _ _ _ _ nested
    exact ⟨nested.deep, nested.nests⟩

theorem Lasting.further {holds : Branch → Prop} (lasting : Lasting holds) (isSequential : Bool)
    {groups : List (List Branch)} (all : ∀ group ∈ groups, ∀ branch ∈ group, holds branch) :
    ∀ branch ∈ further isSequential groups, holds branch := by
  rw [Expansion.further]
  split
  · exact List.forall_mem_singleton.mpr lasting.empty
  · exact lasting.choose isSequential all

/-- Inside calls to different declarations a step alone nests. -/
theorem nested_single {step : BranchStep} (level : step.branchIndents = active.length)
    (distinct : active.Nodup) (bounded : active.length ≤ maxCallDepth) :
    Nested active { steps := [step] } := by
  constructor
  · exact List.forall_mem_singleton.mpr (Nat.le_of_eq level.symm)
  · intro passed around
    rw [← level] at around
    exact ⟨⟨active, around, distinct, level.symm, level ▸ bounded⟩, trivial⟩

/-- What is found inside the body of a call nests behind that call. -/
theorem Nested.behindCall {step : BranchStep} {declaration : NodeId} {branch : Branch}
    (inside : Nested (declaration :: active) branch) (calls : step.declaration = some declaration)
    (alone : Nested active { steps := [step] }) (level : step.branchIndents = active.length) :
    Nested active (Branch.append { steps := [step] } branch) := by
  constructor
  · refine List.forall_mem_cons.mpr ⟨Nat.le_of_eq level.symm, fun other listed => ?_⟩
    exact Nat.le_of_succ_le (inside.deep other listed)
  · intro passed around
    refine ⟨(alone.nests passed around).1, inside.nests (step :: passed) ?_⟩
    rw [enclosing, if_pos (by simp [level]), List.map_cons, level, around, calls, List.map_cons]

/-- All branches that a task answers nest. -/
def Task.AllNested (active : List NodeId) : (task : Task) → task.Answer → Prop
  | .own _, alone => ∀ branch ∈ alone.branches, Nested active branch
  | .node _, (branches, _) => ∀ branch ∈ branches, Nested active branch
  | .members _, (groups, _) | .children _, (groups, _) =>
      ∀ group ∈ groups, ∀ branch ∈ group, Nested active branch

theorem eq_ok_of_map {α β : Type} {f : α → β} {result : Except TreeError α} {value : β}
    (found : result.map f = .ok value) : ∃ own, result = .ok own ∧ value = f own := by
  cases result with
  | error error => cases found
  | ok own => exact ⟨own, rfl, (Except.ok.inj found).symm⟩

/-- The body of a call runs inside one call more, everything else inside the same ones. -/
theorem Ends.nested (settled : tree.WellFormed) {task : Task} {position : Position}
    {result : Except TreeError task.Answer} (ends : Ends tree options task position result)
    (distinct : position.active.Nodup) (bounded : position.active.length ≤ maxCallDepth)
    {answer : task.Answer} (found : result = .ok answer) : task.AllNested position.active answer := by
  have lasting := lasting_nested position.active
  induction ends with
  | unresolved | recursive | refused | memberFails | blockFails | stepFails | overloaded | childFails =>
      cases found
  | @plain position id plain =>
      obtain ⟨debugNodes, -, rfl⟩ := eq_ok_of_map found
      have level : (BranchStep.ofNode (tree.node id) position.active.length).branchIndents =
          position.active.length := rfl
      exact List.forall_mem_singleton.mpr (nested_single level distinct bounded)
  | @call position id declaration debugNodes inside follows allowed body ih =>
      obtain ⟨⟨groups, inner⟩, rfl, rfl⟩ := eq_ok_of_map found
      have isCallee : (tree.node declaration).id = declaration :=
        settled.id declaration (Tree.lt_of_resolve follows.resolved)
      have nested : ∀ group ∈ groups, ∀ branch ∈ group, Nested (declaration :: position.active) branch :=
        ih (List.nodup_cons.mpr ⟨follows.fresh, distinct⟩) follows.nests rfl (lasting_nested _)
      have alone : Nested position.active
          { steps := [callStep (tree.node id) (tree.node declaration) position.active.length] } :=
        nested_single rfl distinct bounded
      refine lasting.attachHooks ?_
      rw [followedBy_eq]
      intro branch listed
      obtain ⟨own, single, further, follows, rfl⟩ := mem_cross.mp listed
      obtain rfl := List.mem_singleton.mp single
      have inside : Nested (declaration :: position.active) further :=
        (lasting_nested _).further _ nested further follows
      exact inside.behindCall (congrArg some isCallee) alone rfl
  | noMembers | noChildren =>
      obtain rfl := Except.ok.inj found
      exact nofun
  | member first behind ihFirst ih =>
      obtain ⟨⟨groups, inner⟩, rfl, rfl⟩ := eq_ok_of_map found
      exact List.forall_mem_cons.mpr ⟨ihFirst distinct bounded rfl lasting, ih distinct bounded rfl lasting⟩
  | @root position id below kind further ih =>
      obtain ⟨⟨groups, inner⟩, rfl, rfl⟩ := eq_ok_of_map found
      refine lasting.attachHooks ?_
      split
      · exact nofun
      · exact lasting.choose false (ih distinct bounded rfl lasting)
  | @block position id members debugNodes owns below kind alone further ihAlone ih =>
      obtain ⟨⟨groups, inner⟩, rfl, rfl⟩ := eq_ok_of_map found
      exact lasting.attachHooks (lasting.followedBy false
        (lasting.choose _ (ihAlone distinct bounded rfl lasting)) (ih distinct bounded rfl lasting))
  | silent =>
      obtain rfl := Except.ok.inj found
      exact nofun
  | @step position id own below kind spoken alone further ihAlone ih =>
      obtain ⟨⟨groups, inner⟩, rfl, rfl⟩ := eq_ok_of_map found
      exact lasting.attachHooks (lasting.followedBy _ (ihAlone distinct bounded rfl lasting)
        (ih distinct bounded rfl lasting))
  | passed silent leaf behind ih => exact ih distinct bounded found lasting
  | @child position child rest branches debugNodes others spoken first behind ihFirst ih =>
      obtain ⟨⟨groups, inner⟩, rfl, rfl⟩ := eq_ok_of_map found
      have others : ∀ group ∈ groups, ∀ branch ∈ group, Nested position.active branch :=
        ih distinct bounded rfl lasting
      show ∀ group ∈ if branches.isEmpty then groups else branches :: groups, _
      split
      · exact others
      · exact List.forall_mem_cons.mpr ⟨ihFirst distinct bounded rfl lasting, others⟩

/-- All steps of an expansion nest. -/
theorem nestsAll_of_expand (settled : tree.WellFormed) {id : NodeId} {expanded : List Branch}
    {debugNodes : List NodeId} (found : expand tree options id = .ok (expanded, debugNodes)) :
    ∀ plain ∈ expanded, NestsAll [] plain.steps := by
  have run := (ends_iff settled).mpr found.symm
  have nested := run.nested settled List.nodup_nil (Nat.zero_le _) rfl
  exact fun plain listed => (nested plain listed).nests [] rfl

end Expansion

namespace Selection

open Expansion

variable {tree : Tree} {options : BranchOptions} {id : NodeId}

theorem nestsAll_of_generate (settled : tree.WellFormed) {suite : Suite}
    (generated : tree.generate options = .ok suite) {branch : Branch} (listed : branch ∈ suite.branches) :
    NestsAll [] branch.steps := by
  obtain ⟨expanded, debugNodes, found, plain, among, steps⟩ := steps_of_generate generated listed
  rw [steps]
  exact nestsAll_of_expand settled found plain among

theorem kind_of_checkDebugNodes {branches : List Branch} {debugNodes : List NodeId} {error : TreeError}
    (excluded : checkDebugNodes tree branches debugNodes = .error error) :
    error.kind = .configuration := by
  fun_induction checkDebugNodes tree branches debugNodes with
  | case1 => cases excluded
  | case2 id rest debugged ih => exact ih excluded
  | case3 =>
      cases excluded
      rfl

/-- Filters refuse nothing as recursive. -/
theorem expand_of_branchify {error : TreeError} (failed : branchify tree id options = .error error)
    (recursion : error.kind = .recursion) : expand tree options id = .error error := by
  rw [branchify, select] at failed
  cases found : expand tree options id with
  | error other =>
      rw [found] at failed
      exact congrArg Except.error (Except.error.inj failed)
  | ok result =>
      obtain ⟨expanded, debugNodes⟩ := result
      rw [found] at failed
      have unselected := eq_error_of_map failed
      simp only [bind, Except.bind] at unselected
      split at unselected
      · next other excluded =>
          obtain rfl := Except.error.inj unselected
          cases (kind_of_checkDebugNodes excluded).symm.trans recursion
      · cases unselected

/-- Selecting branches leaves their steps as they are. -/
theorem steps_of_branchify {branches : List Branch} {branch : Branch}
    (branchified : branchify tree id options = .ok branches) (listed : branch ∈ branches) :
    ∃ expanded debugNodes, expand tree options id = .ok (expanded, debugNodes) ∧
      ∃ plain ∈ expanded, branch.steps = plain.steps := by
  obtain ⟨kept, selected, rfl⟩ := branchify_eq branchified
  obtain ⟨expanded, debugNodes, found, rfl⟩ := select_eq selected
  have among := List.mem_map_of_mem (f := Branch.steps) listed
  rw [map_assignIds (fun _ _ => rfl), List.mem_map] at among
  obtain ⟨chosen, isKept, same⟩ := among
  obtain ⟨tagged, isTagged, alike⟩ := exists_of_mem_isolateDebug Branch.steps (fun _ => rfl) isKept
  obtain ⟨plain, isPlain, rfl⟩ := List.mem_map.mp (List.mem_filter.mp isTagged).1
  exact ⟨expanded, debugNodes, found, plain, isPlain, same.symm.trans alike⟩

/-- Every expansion of every node runs to one end, and `branchify` selects from what it comes to. It is an error of
recursion only if the run comes to a call whose declaration is already being expanded, or that stands inside
`maxCallDepth` calls; otherwise no branch nests calls deeper, or has two calls to one declaration inside each
other. -/
theorem branchify_ends (built : tree.Built) (id : NodeId) (options : BranchOptions) :
    (∀ result, Ends tree options (.node id) {} result ↔ result = expand tree options id) ∧
    (∀ error, branchify tree id options = .error error → error.kind = .recursion →
      ∃ call there declaration, Comes tree call there (.node id) {} ∧
        Recurs tree there call declaration ∧ error = recursionError (tree.node call)) ∧
    ∀ branches, branchify tree id options = .ok branches → ∀ branch ∈ branches, ∀ before step after,
      branch.steps = before ++ step :: after → Nests (enclosing step.branchIndents before.reverse) step := by
  have settled := built.wellFormed
  refine ⟨fun result => ends_iff settled, ?_, ?_⟩
  · intro error failed recursion
    have expanded := (ends_iff settled).mpr (expand_of_branchify failed recursion).symm
    exact expanded.recurs settled rfl recursion
  · intro branches branchified branch listed before step after same
    obtain ⟨expanded, debugNodes, found, plain, among, steps⟩ := steps_of_branchify branchified listed
    have all := nestsAll_of_expand settled found plain among
    rw [← steps, same] at all
    exact all.nests

/-- A call inside a call. -/
def stair : Tree := .grown "F\n\n* F\n    G\n\n* G\n    A -"

/-- Two declarations that call each other. -/
def knot : Tree := .grown "F\n\n* F\n    G\n\n* G\n    F"

theorem branchify_ends_knot :
    (stair.Built ∧ (∃ result, Ends stair {} (.node Tree.rootId) {} result) ∧
      ∃ branches, branchify stair Tree.rootId {} = .ok branches ∧
        branches.map (fun branch => branch.steps.map (·.branchIndents)) = [[0, 1, 2]] ∧
        ∀ branch ∈ branches, ∀ before step after, branch.steps = before ++ step :: after →
          Nests (enclosing step.branchIndents before.reverse) step) ∧
    knot.Built ∧ ∃ error, branchify knot Tree.rootId {} = .error error ∧ error.kind = .recursion ∧
      ∃ call there declaration, Comes knot call there (.node Tree.rootId) {} ∧
        Recurs knot there call declaration ∧ error = recursionError (knot.node call) := by
  constructor
  · have built : stair.Built := .parseIn .empty _ _ _
    obtain ⟨run, -, nests⟩ := branchify_ends built Tree.rootId {}
    have levels : (branchify stair Tree.rootId {}).toOption.map
        (List.map fun branch => branch.steps.map (·.branchIndents)) = some [[0, 1, 2]] := by
      decide +kernel
    cases branchified : branchify stair Tree.rootId {} with
    | error error => rw [branchified] at levels; cases levels
    | ok branches =>
        rw [branchified] at levels
        exact ⟨built, ⟨_, (run _).mpr rfl⟩, branches, rfl, Option.some.inj levels, nests _ branchified⟩
  · have built : knot.Built := .parseIn .empty _ _ _
    obtain ⟨-, recurs, -⟩ := branchify_ends built Tree.rootId {}
    cases branchified : branchify knot Tree.rootId {} with
    | error error =>
        have kind : error.kind = .recursion := by
          have known : (match branchify knot Tree.rootId {} with
            | .error error => error.kind
            | .ok _ => .line) = .recursion := by decide +kernel
          rw [branchified] at known
          exact known
        exact ⟨built, error, rfl, kind, recurs error branchified kind⟩
    | ok branches =>
        have fails : (branchify knot Tree.rootId {}).isOk = false := by decide +kernel
        rw [branchified] at fails
        cases fails

end Selection

end TestTree
