import TestTree.Proofs.Branch.Passages

/-!
The order of hooks. The scopes of a passage lie inside each other, and a scope gives its hooks behind all
that lies inside it. A call has two things inside it: the declaration, with its body, and what is below the
call. The declaration does not wait for the latter.
-/
namespace TestTree

/-- A way down from a scope to one right inside it: to the declaration that a call refers to, to a member of
a block, or to something below. -/
inductive Turn
  | declaration
  | member (index : Nat)
  | child (index : Nat)
deriving DecidableEq, Repr

/-- A scope that is passed, and the way to it from where the passage starts. -/
structure Scope where
  way : List Turn
  node : NodeId
deriving DecidableEq, Repr

namespace Scope

def via (turn : Turn) (scope : Scope) : Scope := { scope with way := turn :: scope.way }

/-- The way to a scope goes through another one. -/
def Inside (inner outer : Scope) : Prop := outer.way <+: inner.way ∧ outer.way ≠ inner.way

/-- The way to a scope goes from a call to what is below that call, and not into the declaration. -/
def Beside (scope declaration : Scope) : Prop :=
  ∃ call index rest, declaration.way = call ++ [.declaration] ∧ scope.way = call ++ .child index :: rest

/-- Whether one scope may give its hooks in front of another. -/
def MayPrecede (first second : Scope) : Prop := ¬ second.Inside first ∧ ¬ first.Beside second

end Scope

namespace Passage

mutual

/-- The scopes passed, in the order in which they give their hooks. -/
def scopes : Passage → List Scope
  | step id declaration body below =>
      (scopesFrom .child 0 body).map (Scope.via .declaration) ++
        declaration.toList.map (Scope.mk [.declaration]) ++ scopesFrom .child 0 below ++ [⟨[], id⟩]
  | fork id members below =>
      scopesFrom .member 0 members ++ scopesFrom .child 0 below ++ [⟨[], id⟩]

def scopesFrom (turn : Nat → Turn) (index : Nat) : List Passage → List Scope
  | [] => []
  | passage :: rest =>
      (scopes passage).map (Scope.via (turn index)) ++ scopesFrom turn (index + 1) rest

end

end Passage

namespace Scope

variable {turn other : Turn} {first second scope : Scope}

theorem map_node_via (turn : Turn) (scopes : List Scope) :
    (scopes.map (Scope.via turn)).map Scope.node = scopes.map Scope.node := by
  rw [List.map_map]
  rfl

theorem inside_via : (second.via turn).Inside (first.via turn) ↔ second.Inside first := by
  simp [Inside, via, List.cons_prefix_cons]

theorem beside_via : (first.via turn).Beside (second.via turn) ↔ first.Beside second := by
  constructor
  · intro ⟨call, index, rest, way, way'⟩
    cases call with
    | nil =>
        obtain ⟨rfl, -⟩ := List.cons.inj way
        cases (List.cons.inj way').1
    | cons head call =>
        exact ⟨call, index, rest, (List.cons.inj way).2, (List.cons.inj way').2⟩
  · intro ⟨call, index, rest, way, way'⟩
    exact ⟨turn :: call, index, rest, congrArg _ way, congrArg _ way'⟩

theorem MayPrecede.via (may : first.MayPrecede second) (turn : Turn) :
    (first.via turn).MayPrecede (second.via turn) :=
  ⟨fun inside => may.1 (inside_via.mp inside), fun beside => may.2 (beside_via.mp beside)⟩

/-- Scopes on different ways have no order, but for a declaration. -/
theorem mayPrecede_of_head (goes : first.way.head? = some turn) (goes' : second.way.head? = some other)
    (different : turn ≠ other) (notCalled : other ≠ .declaration) : first.MayPrecede second := by
  obtain ⟨rest, way⟩ := List.head?_eq_some_iff.mp goes
  obtain ⟨rest', way'⟩ := List.head?_eq_some_iff.mp goes'
  constructor
  · intro ⟨within, _⟩
    rw [way, way', List.cons_prefix_cons] at within
    exact different within.1
  · intro ⟨call, index, tail, called, further⟩
    rw [way'] at called
    rw [way] at further
    cases call with
    | nil => exact notCalled (List.cons.inj called).1
    | cons head call => exact different ((List.cons.inj further).1.trans (List.cons.inj called).1.symm)

/-- Where a passage starts is outside of all of it. -/
theorem mayPrecede_top (first : Scope) (id : NodeId) : first.MayPrecede ⟨[], id⟩ := by
  constructor
  · intro ⟨goes, different⟩
    exact different (List.prefix_nil.mp goes)
  · intro ⟨call, index, rest, way, _⟩
    cases call <;> cases way

section Positions

variable {scopes : List Scope} {index other : Nat} (ordered : scopes.Pairwise MayPrecede)
include ordered

theorem mayPrecede_of_lt (found : scopes[index]? = some first) (present : scopes[other]? = some second)
    (before : index < other) : first.MayPrecede second := by
  obtain ⟨bounded, rfl⟩ := List.getElem?_eq_some_iff.mp found
  obtain ⟨bounded', rfl⟩ := List.getElem?_eq_some_iff.mp present
  exact List.pairwise_iff_getElem.mp ordered index other bounded bounded' before

theorem lt_of_inside (found : scopes[index]? = some first) (present : scopes[other]? = some second)
    (inside : first.Inside second) : index < other := by
  apply Nat.lt_of_not_le
  intro behind
  cases Nat.eq_or_lt_of_le behind with
  | inl same =>
      subst same
      obtain rfl := Option.some.inj (found.symm.trans present)
      exact inside.2 rfl
  | inr before => exact (mayPrecede_of_lt ordered present found before).1 inside

theorem lt_of_beside (found : scopes[index]? = some first) (present : scopes[other]? = some second)
    (beside : first.Beside second) : other < index := by
  apply Nat.lt_of_not_le
  intro behind
  cases Nat.eq_or_lt_of_le behind with
  | inl same =>
      subst same
      obtain rfl := Option.some.inj (found.symm.trans present)
      obtain ⟨call, step, rest, way, way'⟩ := beside
      have heads := List.append_cancel_left (way.symm.trans way')
      cases (List.cons.inj heads).1
  | inr before => exact (mayPrecede_of_lt ordered found present before).2 beside

end Positions

end Scope

namespace Passage

open Scope (map_node_via)

variable {turn : Nat → Turn} {scope : Scope} {scopes : List Scope}

theorem head_of_mem_scopesFrom {passages : List Passage} {index : Nat}
    (listed : scope ∈ scopesFrom turn index passages) :
    ∃ later, index ≤ later ∧ scope.way.head? = some (turn later) := by
  induction passages generalizing index with
  | nil => cases listed
  | cons passage rest ih =>
      rw [scopesFrom, List.mem_append, List.mem_map] at listed
      cases listed with
      | inl here =>
          obtain ⟨inner, _, rfl⟩ := here
          exact ⟨index, Nat.le_refl _, rfl⟩
      | inr there =>
          obtain ⟨later, behind, goes⟩ := ih there
          exact ⟨later, Nat.le_of_succ_le behind, goes⟩

theorem pairwise_via (ordered : scopes.Pairwise Scope.MayPrecede) (turn : Turn) :
    (scopes.map (Scope.via turn)).Pairwise Scope.MayPrecede :=
  ordered.map _ fun _ _ may => may.via turn

theorem pairwise_snoc (ordered : scopes.Pairwise Scope.MayPrecede) (id : NodeId) :
    (scopes ++ [Scope.mk [] id]).Pairwise Scope.MayPrecede := by
  rw [List.pairwise_append]
  refine ⟨ordered, List.pairwise_singleton _ _, ?_⟩
  intro first _ top isTop
  obtain rfl := List.mem_singleton.mp isTop
  exact Scope.mayPrecede_top first id

/-- A declaration gives its hooks behind all that lies inside it. -/
theorem pairwise_declaration (ordered : scopes.Pairwise Scope.MayPrecede) (declaration : Option NodeId) :
    (scopes.map (Scope.via .declaration) ++
      declaration.toList.map (Scope.mk [.declaration])).Pairwise Scope.MayPrecede := by
  cases declaration with
  | none =>
      rw [Option.toList_none, List.map_nil, List.append_nil]
      exact pairwise_via ordered _
  | some id =>
      have whole := pairwise_via (pairwise_snoc ordered id) .declaration
      rw [List.map_append] at whole
      exact whole

/-- What is below a node comes behind what is passed of the node itself. -/
theorem pairwise_below {below : List Passage} (ordered : scopes.Pairwise Scope.MayPrecede)
    (apart : ∀ scope ∈ scopes, ∃ turn, scope.way.head? = some turn ∧ ∀ index, turn ≠ .child index)
    (behind : (scopesFrom .child 0 below).Pairwise Scope.MayPrecede) :
    (scopes ++ scopesFrom .child 0 below).Pairwise Scope.MayPrecede := by
  rw [List.pairwise_append]
  refine ⟨ordered, behind, ?_⟩
  intro first here second there
  obtain ⟨turn, goes, different⟩ := apart first here
  obtain ⟨index, _, goes'⟩ := head_of_mem_scopesFrom there
  exact Scope.mayPrecede_of_head goes goes' (different index) nofun

mutual

theorem pairwise_scopes : ∀ passage : Passage, passage.scopes.Pairwise Scope.MayPrecede
  | step id declaration body below => by
      have inside := pairwise_scopesFrom .child (fun _ _ => Turn.child.inj) nofun body 0
      have behind := pairwise_scopesFrom .child (fun _ _ => Turn.child.inj) nofun below 0
      rw [Passage.scopes]
      apply pairwise_snoc
      apply pairwise_below (pairwise_declaration inside declaration) _ behind
      intro scope listed
      refine ⟨.declaration, ?_, nofun⟩
      rw [List.mem_append, List.mem_map, List.mem_map] at listed
      cases listed with
      | inl inBody =>
          obtain ⟨inner, _, rfl⟩ := inBody
          rfl
      | inr called =>
          obtain ⟨callee, _, rfl⟩ := called
          rfl
  | fork id members below => by
      have inside := pairwise_scopesFrom .member (fun _ _ => Turn.member.inj) nofun members 0
      have behind := pairwise_scopesFrom .child (fun _ _ => Turn.child.inj) nofun below 0
      rw [Passage.scopes]
      apply pairwise_snoc
      apply pairwise_below inside _ behind
      intro scope listed
      obtain ⟨index, _, goes⟩ := head_of_mem_scopesFrom listed
      exact ⟨.member index, goes, nofun⟩

theorem pairwise_scopesFrom (turn : Nat → Turn) (injective : Function.Injective turn)
    (free : ∀ index, turn index ≠ .declaration) : ∀ (passages : List Passage) (index : Nat),
      (scopesFrom turn index passages).Pairwise Scope.MayPrecede
  | [], index => .nil
  | passage :: rest, index => by
      rw [scopesFrom, List.pairwise_append]
      refine ⟨pairwise_via (pairwise_scopes passage) _,
        pairwise_scopesFrom turn injective free rest (index + 1), ?_⟩
      intro first here second there
      obtain ⟨inner, _, rfl⟩ := List.mem_map.mp here
      obtain ⟨later, behind, goes⟩ := head_of_mem_scopesFrom there
      apply Scope.mayPrecede_of_head rfl goes _ (free later)
      intro same
      exact Nat.ne_of_lt behind (injective same)

end

mutual

theorem order_eq_scopes : ∀ passage : Passage, passage.order = passage.scopes.map Scope.node
  | step id declaration body below => by
      have inside := orderAll_eq_scopesFrom .child body 0
      have behind := orderAll_eq_scopesFrom .child below 0
      have called : (declaration.toList.map (Scope.mk [.declaration])).map Scope.node =
          declaration.toList := by
        rw [List.map_map]
        exact List.map_id _
      simp only [order, Passage.scopes, List.map_append, called, inside, behind, map_node_via]
      rfl
  | fork id members below => by
      have inside := orderAll_eq_scopesFrom .member members 0
      have behind := orderAll_eq_scopesFrom .child below 0
      simp only [order, Passage.scopes, List.map_append, inside, behind]
      rfl

theorem orderAll_eq_scopesFrom (turn : Nat → Turn) : ∀ (passages : List Passage) (index : Nat),
    orderAll passages = (scopesFrom turn index passages).map Scope.node
  | [], index => rfl
  | passage :: rest, index => by
      rw [orderAll, scopesFrom, List.map_append, map_node_via, order_eq_scopes passage,
        orderAll_eq_scopesFrom turn rest (index + 1)]

end

end Passage

namespace Selection

variable {tree : Tree} {options : BranchOptions} {branches : List Branch} {branch : Branch}

/-- The hooks of a branch are those declared right below the scopes it passes, each scope giving its own in the order
in which they run. What lies inside a scope comes before it; but the declaration that a call refers to comes before
what is below that call. -/
theorem hooks_of_branchify {id : NodeId} (built : tree.Built)
    (branchified : branchify tree id options = .ok branches) (listed : branch ∈ branches) :
    ∃ passage : Passage, passage.node = id ∧ tree.Allows .whole [] passage ∧
      branch.steps = passage.steps tree 0 ∧
      (∀ kind, kind.isTreeLevel = false → tree.Declare
        (passage.scopes.flatMap fun scope => tree.hookNodesAt kind scope.node) (branch.hooks kind)) ∧
      ∀ (index other : Nat) (scope outer : Scope),
        passage.scopes[index]? = some scope → passage.scopes[other]? = some outer →
          (scope.Inside outer → index < other) ∧ (scope.Beside outer → other < index) := by
  obtain ⟨settled, nested⟩ := built.nested
  obtain ⟨passage, isNode, allows, consists⟩ := readable_of_branchify built branchified branch listed
  refine ⟨passage, isNode, allows, consists.steps, ?_, ?_⟩
  · intro kind branchLevel
    have declare := Tree.declare_contributed settled nested kind passage.order
    rw [passage.order_eq_scopes, List.flatMap_map] at declare
    rw [consists.hooks kind branchLevel, passage.order_eq_scopes]
    exact declare
  · intro index other scope outer found present
    have ordered := passage.pairwise_scopes
    exact ⟨Scope.lt_of_inside ordered found present, Scope.lt_of_beside ordered found present⟩

/-- A call with a step below it, and a hook of that step; the function has two hooks of its own. -/
def porch : Tree :=
  .grown ("F\n    C -\n        * Before Every Branch \x7b\n            inner\n        \x7d\n\n" ++
    "        X -\n\n* F\n    * Before Every Branch \x7b\n        outer\n    \x7d\n\n" ++
    "    * Before Every Branch \x7b\n        later\n    \x7d\n\n    D -")

theorem hooks_of_branchify_porch :
    ∃ branches branch, branchify porch Tree.rootId {} = .ok branches ∧ branch ∈ branches ∧
      branch.beforeEveryBranch.map (fun hook => (hook.lineNumber, hook.codeBlock)) =
        [(14, "        later".toList), (10, "        outer".toList), (3, "            inner".toList)] ∧
      ∃ passage : Passage, passage.node = Tree.rootId ∧ porch.Allows .whole [] passage ∧
        branch.steps = passage.steps porch 0 ∧
        (∀ kind, kind.isTreeLevel = false → porch.Declare
          (passage.scopes.flatMap fun scope => porch.hookNodesAt kind scope.node) (branch.hooks kind)) ∧
        ∀ (index other : Nat) (scope outer : Scope),
          passage.scopes[index]? = some scope → passage.scopes[other]? = some outer →
            (scope.Inside outer → index < other) ∧ (scope.Beside outer → other < index) := by
  have given : (branchify porch Tree.rootId {}).toOption.map (fun branches => branches.map fun branch =>
      branch.beforeEveryBranch.map fun hook => (hook.lineNumber, hook.codeBlock)) =
        some [[(14, "        later".toList), (10, "        outer".toList), (3, "            inner".toList)]] := by
    decide +kernel
  cases branchified : branchify porch Tree.rootId {} with
  | error error => rw [branchified] at given; cases given
  | ok branches =>
      rw [branchified] at given
      cases branches with
      | nil => cases given
      | cons branch rest =>
          have first := (List.cons.inj (Option.some.inj given)).1
          exact ⟨_, branch, rfl, .head _, first,
            hooks_of_branchify (.parseIn .empty _ _ _) branchified (.head _)⟩

/-- The same with one hook of the function. -/
def doorway : Tree :=
  .grown ("F\n    C -\n        * Before Every Branch \x7b\n            inner\n        \x7d\n\n" ++
    "        X -\n\n* F\n    * Before Every Branch \x7b\n        outer\n    \x7d\n\n    D -")

/-- The hook of the step below the call comes behind the hook of the function. -/
theorem declaration_before_step_below :
    ∃ branches branch, branchify doorway Tree.rootId {} = .ok branches ∧ branch ∈ branches ∧
      branch.steps.map (fun step => (step.origin, step.declaration)) =
        [(some 1, some 5), (some 7, none), (some 2, none), (some 4, none)] ∧
      (doorway.node 2).parent = some 1 ∧ doorway.hookNodesBelow .beforeEveryBranch 2 = [3] ∧
      doorway.hookNodesBelow .beforeEveryBranch 5 = [6] ∧ doorway.Declare [6, 3] branch.beforeEveryBranch := by
  have passed : (branchify doorway Tree.rootId {}).toOption.map (fun branches =>
      branches.map fun branch => (branch.steps.map (fun step => (step.origin, step.declaration)),
        branch.beforeEveryBranch)) =
      some [([(some 1, some 5), (some 7, none), (some 2, none), (some 4, none)],
        Expansion.hooksAt doorway 5 .beforeEveryBranch ++
          Expansion.hooksAt doorway 2 .beforeEveryBranch)] := by
    decide +kernel
  have above : (doorway.node 2).parent = some 1 := by decide +kernel
  have below : doorway.hookNodesBelow .beforeEveryBranch 2 = [3] := by decide +kernel
  have called : doorway.hookNodesBelow .beforeEveryBranch 5 = [6] := by decide +kernel
  obtain ⟨settled, nested⟩ : doorway.WellFormed ∧ doorway.Nested := (Tree.Built.parseIn .empty _ _ _).nested
  have inner := Tree.declare_hooksAt settled nested .beforeEveryBranch 2
  have outer := Tree.declare_hooksAt settled nested .beforeEveryBranch 5
  rw [below] at inner
  rw [called] at outer
  cases branchified : branchify doorway Tree.rootId {} with
  | error error => rw [branchified] at passed; cases passed
  | ok branches =>
      rw [branchified] at passed
      cases branches with
      | nil => cases passed
      | cons branch rest =>
          obtain ⟨steps, hooks⟩ := Prod.mk.inj (List.cons.inj (Option.some.inj passed)).1
          have order : doorway.Declare ([6] ++ [3]) branch.beforeEveryBranch := by
            rw [show branch.beforeEveryBranch = _ from hooks]
            exact List.rel_append outer inner
          exact ⟨_, branch, rfl, .head _, steps, above, below, called, order⟩

end Selection

end TestTree
