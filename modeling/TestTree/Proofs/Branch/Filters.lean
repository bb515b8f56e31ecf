import TestTree.Proofs.Branch.Isolation
import TestTree.Proofs.Branch.NonParallel
import TestTree.Proofs.Branch.Tags
import TestTree.Proofs.Tree.Screening

namespace TestTree

namespace Expansion

variable {tree : Tree} {options other : BranchOptions} {body : Option BodyExpander}

section Restrictions

theorem expandOwn_congr (same : options.noDebug = other.noDebug) : expandOwn tree options = expandOwn tree other := by
  have checks : checkFlags options = checkFlags other := by
    funext id step
    rw [checkFlags, checkFlags, same]
  funext body position id
  rw [expandOwn, expandOwn, checks]

theorem expandMembers_congr (same : options.noDebug = other.noDebug) (position : Position) (members : List NodeId) :
    expandMembers tree options body position members = expandMembers tree other body position members := by
  induction members with
  | nil => rfl
  | cons member rest ih => rw [expandMembers, expandMembers, expandOwn_congr same, ih]

mutual

theorem expandNode_congr (same : options.noDebug = other.noDebug) (position : Position) :
    ∀ outline, expandNode tree options body position outline = expandNode tree other body position outline
  | .node id children => by
      have below (position : Position) : expandChildren tree options body position children =
          expandChildren tree other body position children := expandChildren_congr same position children
      simp only [expandNode, below, expandMembers_congr same, expandOwn_congr same]

theorem expandChildren_congr (same : options.noDebug = other.noDebug) (position : Position) :
    ∀ outlines, expandChildren tree options body position outlines =
      expandChildren tree other body position outlines
  | [] => rfl
  | .node id children :: rest => by
      rw [expandChildren, expandChildren, expandNode_congr same position (.node id children),
        expandChildren_congr same position rest]

end

theorem bodyExpander_congr (same : options.noDebug = other.noDebug) (depth : Nat) :
    bodyExpander tree options depth = bodyExpander tree other depth := by
  induction depth with
  | zero => rfl
  | succ depth ih =>
      rw [bodyExpander, bodyExpander, ih]
      congr
      funext position declaration
      exact expandChildren_congr same position _

/-- An expansion knows of the restrictions only whether debugging is disabled. -/
theorem expand_congr (same : options.noDebug = other.noDebug) (id : NodeId) :
    expand tree options id = expand tree other id := by
  rw [expand, expand, bodyExpander_congr same, expandNode_congr same]

end Restrictions

section Unmet

variable {holds : Branch → Prop} {position : Position} {id : NodeId} {branches : List Branch}
  {groups : List (List Branch)} {debugNodes : List NodeId}

/-- A lasting property that every step has which is not to debug. -/
structure Undebugged (tree : Tree) (options : BranchOptions) (holds : Branch → Prop) : Prop
    extends Lasting holds where
  plain (id : NodeId) (depth : Nat) : checkFlags options id (BranchStep.ofNode (tree.node id) depth) = .ok [] →
    holds { steps := [BranchStep.ofNode (tree.node id) depth] }
  call (id declaration : NodeId) (depth : Nat) :
    checkFlags options id (callStep (tree.node id) (tree.node declaration) depth) = .ok [] →
      holds { steps := [callStep (tree.node id) (tree.node declaration) depth] }

/-- An expander of the bodies of calls that has the property wherever it meets no step to debug. -/
def Upholds (holds : Branch → Prop) (body : Option BodyExpander) : Prop :=
  ∀ expander, body = some expander → ∀ position declaration groups,
    expander position declaration = .ok (groups, []) → ∀ group ∈ groups, ∀ branch ∈ group, holds branch

theorem Undebugged.own (undebugged : Undebugged tree options holds) (upholds : Upholds holds body) {own : Own}
    (expanded : expandOwn tree options body position id = .ok own)
    (unmet : own.debugNodes = []) : ∀ branch ∈ own.branches, holds branch := by
  cases expandOwn_eq_ok.mp expanded with
  | plain plain allowed =>
      obtain rfl := unmet
      exact List.forall_mem_singleton.mpr (undebugged.plain _ _ allowed)
  | call calls resolved fresh nested allowed found =>
      obtain ⟨rfl, rfl⟩ := List.append_eq_nil_iff.mp unmet
      exact undebugged.attachHooks (undebugged.followedBy _
        (List.forall_mem_singleton.mpr (undebugged.call _ _ _ allowed)) (upholds _ nested _ _ _ found))

theorem Undebugged.members (undebugged : Undebugged tree options holds) (upholds : Upholds holds body)
    (members : List NodeId)
    (expanded : expandMembers tree options body position members = .ok (groups, debugNodes))
    (unmet : debugNodes = []) : ∀ group ∈ groups, ∀ branch ∈ group, holds branch := by
  induction members generalizing groups debugNodes with
  | nil =>
      cases expanded
      exact fun group absent => by cases absent
  | cons member rest ih =>
      obtain ⟨own, others, inner, first, behind, rfl, rfl⟩ := expandMembers_cons.mp expanded
      obtain ⟨here, later⟩ := List.append_eq_nil_iff.mp unmet
      exact List.forall_mem_cons.mpr ⟨undebugged.own upholds first here, ih behind later⟩

mutual

theorem Undebugged.node (undebugged : Undebugged tree options holds) (upholds : Upholds holds body)
    {position : Position} {branches : List Branch} {debugNodes : List NodeId} :
    ∀ outline, expandNode tree options body position outline = .ok (branches, debugNodes) → debugNodes = [] →
      ∀ branch ∈ branches, holds branch
  | .node id children, expanded, unmet => by
      cases expandNode_eq_ok.mp expanded with
      | root kind below =>
          apply undebugged.attachHooks
          split
          · exact fun branch absent => by cases absent
          · exact undebugged.choose false (undebugged.children upholds children below unmet)
      | block kind alone below =>
          obtain ⟨here, later⟩ := List.append_eq_nil_iff.mp unmet
          exact undebugged.attachHooks (undebugged.followedBy false
            (undebugged.choose _ (undebugged.members upholds _ alone here))
            (undebugged.children upholds children below later))
      | silent => exact fun branch absent => by cases absent
      | step kind spoken alone below =>
          obtain ⟨here, later⟩ := List.append_eq_nil_iff.mp unmet
          exact undebugged.attachHooks (undebugged.followedBy _ (undebugged.own upholds alone here)
            (undebugged.children upholds children below later))

theorem Undebugged.children (undebugged : Undebugged tree options holds) (upholds : Upholds holds body)
    {position : Position} {groups : List (List Branch)} {debugNodes : List NodeId} :
    ∀ outlines, expandChildren tree options body position outlines = .ok (groups, debugNodes) → debugNodes = [] →
      ∀ group ∈ groups, ∀ branch ∈ group, holds branch
  | [], expanded, _ => by
      cases expanded
      exact fun group absent => by cases absent
  | .node id children :: rest, expanded, unmet => by
      cases expandChildren_cons.mp expanded with
      | silent silent leaf others => exact undebugged.children upholds rest others unmet
      | spoken spoken first others =>
          obtain ⟨here, later⟩ := List.append_eq_nil_iff.mp unmet
          have behind := undebugged.children upholds rest others later
          split
          · exact behind
          · exact List.forall_mem_cons.mpr
              ⟨undebugged.node upholds (.node id children) first here, behind⟩

end

theorem Undebugged.bodies (undebugged : Undebugged tree options holds) (depth : Nat) :
    Upholds holds (bodyExpander tree options depth) := by
  induction depth with
  | zero =>
      intro expander absent
      cases absent
  | succ depth ih =>
      intro expander present
      obtain rfl := Option.some.inj present
      intro position declaration groups expanded
      exact undebugged.children ih _ expanded rfl

/-- Where an expansion meets no step to debug, all its branches have a lasting property of the other steps. -/
theorem Undebugged.expand (undebugged : Undebugged tree options holds)
    (expanded : expand tree options id = .ok (branches, [])) :
    ∀ branch ∈ branches, holds branch :=
  undebugged.node (undebugged.bodies _) _ expanded rfl

end Unmet

end Expansion

/-- A frequency and those above it: high is above med, and med above low. -/
def Frequency.orAbove : Frequency → List Frequency
  | .low => [.low, .med, .high]
  | .med => [.med, .high]
  | .high => [.high]

theorem Frequency.rank_le_iff {least own : Frequency} : least.rank ≤ own.rank ↔ own ∈ least.orAbove := by
  cases least <;> cases own <;> decide

namespace Branch

variable {branch fellow : Branch} {options : BranchOptions}

/-- The branch but for its id. -/
def unnumbered (branch : Branch) : Branch := { branch with nonParallelId := none }

theorem nonParallelNode_congr (same : branch.unnumbered = fellow.unnumbered) :
    branch.nonParallelNode = fellow.nonParallelNode :=
  show branch.unnumbered.nonParallelNode = fellow.unnumbered.nonParallelNode from
    congrArg Branch.nonParallelNode same

theorem Tagged.congr (tagged : branch.Tagged) (same : fellow.unnumbered = branch.unnumbered) : fellow.Tagged := by
  have unnumbered : branch.unnumbered.Tagged := ⟨tagged.frequency, tagged.groups⟩
  rw [← same] at unnumbered
  exact ⟨unnumbered.frequency, unnumbered.groups⟩

/-- Two branches that must not overlap. -/
def Shares (branch fellow : Branch) : Prop :=
  branch.nonParallelId.isSome = true ∧ branch.nonParallelId = fellow.nonParallelId

/-- A branch that the restrictions leave: it has no frequency or one that is high enough, and one of the groups. -/
structure Admitted (options : BranchOptions) (branch : Branch) : Prop where
  frequency (least : Frequency) : options.minFrequency = some least →
    branch.frequency = none ∨ ∃ own ∈ least.orAbove, branch.frequency = some own
  groups (wanted : List Text) : options.groups = some wanted → ∃ group ∈ branch.groups, group ∈ wanted

theorem isSelected_iff : branch.isSelected options = true ↔ branch.Admitted options := by
  have frequent :
      (options.minFrequency.all fun least => branch.frequency.all fun own => own.rank ≥ least.rank) = true ↔
      ∀ least, options.minFrequency = some least →
        branch.frequency = none ∨ ∃ own ∈ least.orAbove, branch.frequency = some own := by
    cases options.minFrequency <;> cases branch.frequency <;> simp [Frequency.rank_le_iff]
  have grouped : (options.groups.all fun wanted => branch.groups.any (wanted.contains ·)) = true ↔
      ∀ wanted, options.groups = some wanted → ∃ group ∈ branch.groups, group ∈ wanted := by
    cases options.groups <;> simp
  rw [isSelected, Bool.and_eq_true, frequent, grouped]
  exact ⟨fun both => ⟨both.1, both.2⟩, fun admitted => ⟨admitted.frequency, admitted.groups⟩⟩

instance (options : BranchOptions) (branch : Branch) : Decidable (branch.Admitted options) :=
  decidable_of_iff _ isSelected_iff

/-- What every branch is before it is tagged, where no step to debug is met in a tree of checked lines. -/
structure Fresh (branch : Branch) : Prop where
  undebugged : branch.hasDebugStep = false
  unnumbered : branch.nonParallelId = none
  checked : ∀ step ∈ branch.steps, ∀ assignment ∈ step.assignments, assignment.checkSpecial = .ok ()

end Branch

namespace Expansion

variable {tree : Tree} {options : BranchOptions} {id : NodeId}

theorem undebugged_of_checkFlags {step : BranchStep} (allowed : checkFlags options id step = .ok []) :
    step.identifiers.isDebug = false := by
  rw [checkFlags] at allowed
  split at allowed
  · cases allowed
  · cases debugs : step.identifiers.isDebug with
    | false => rfl
    | true =>
        rw [debugs] at allowed
        cases allowed

theorem fresh_step {step : BranchStep} (allowed : checkFlags options id step = .ok [])
    (checked : ∀ assignment ∈ step.assignments, assignment.checkSpecial = .ok ()) :
    Branch.Fresh { steps := [step] } where
  undebugged := by
    rw [Branch.hasDebugStep, List.any_cons, undebugged_of_checkFlags allowed]
    rfl
  unnumbered := rfl
  checked := List.forall_mem_singleton.mpr checked

theorem undebugged_fresh (built : tree.Built) (options : BranchOptions) :
    Undebugged tree options Branch.Fresh where
  empty := ⟨rfl, rfl, fun step absent => by cases absent⟩
  append {branch next} before after := by
    refine ⟨?_, before.unnumbered, (lasting_everyStep _).append before.checked after.checked⟩
    have joined : (branch.append next).hasDebugStep = (branch.hasDebugStep || next.hasDebugStep) := List.any_append
    rw [joined, before.undebugged, after.undebugged]
    rfl
  hooked _ _ _ _ fresh := ⟨fresh.undebugged, fresh.unnumbered, fresh.checked⟩
  plain id _ allowed := fresh_step allowed (Tree.guaranteed_checkSpecial.node built id)
  call id _ _ allowed := fresh_step allowed (Tree.guaranteed_checkSpecial.node built id)

end Expansion

namespace Selection

variable {tree : Tree} {options : BranchOptions} {id : NodeId} {branches : List Branch} {branch fellow : Branch}

/-- What restrictions leave of the branches: those that pass, in order and unchanged but for their ids, which two of
them share exactly if they did before. -/
structure Narrows (options : BranchOptions) (whole left : List Branch) : Prop where
  branches : left.map Branch.unnumbered = (whole.filter (·.Admitted options)).map Branch.unnumbered
  shared : ∀ pair ∈ (whole.filter (·.Admitted options)).zip left,
    ∀ other ∈ (whole.filter (·.Admitted options)).zip left,
    (pair.1.Shares other.1 ↔ pair.2.Shares other.2)

theorem shares_iff_of_assignIds (fresh : ∀ branch ∈ branches, branch.nonParallelId = none)
    (listed : branch ∈ assignIds [] branches) (among : fellow ∈ assignIds [] branches) :
    branch.Shares fellow ↔
      branch.nonParallelNode.isSome = true ∧ branch.nonParallelNode = fellow.nonParallelNode := by
  obtain ⟨nodes, -, numbered⟩ := ids_of_assignIds [] branches fresh
  obtain ⟨ids, inside⟩ := numbered branch listed
  obtain ⟨fellowIds, -⟩ := numbered fellow among
  rw [Branch.Shares, ids, fellowIds, Option.isSome_map]
  cases found : branch.nonParallelNode with
  | none => simp
  | some id =>
      cases fellow.nonParallelNode with
      | none => simp
      | some other => simp [nonParallelId_inj, List.idxOf_inj (inside id found)]

/-- Whether branches are restricted before or after they are given ids makes no difference but to the ids. -/
theorem narrows_assignIds (fresh : ∀ branch ∈ branches, branch.nonParallelId = none) :
    Narrows options (assignIds [] branches) (assignIds [] (branches.filter (·.isSelected options))) := by
  have passes : (fun branch : Branch => decide (branch.Admitted options)) = (·.isSelected options) := by
    funext branch
    exact Bool.eq_iff_iff.mpr (decide_eq_true_iff.trans Branch.isSelected_iff.symm)
  have forget (branches : List Branch) :
      (assignIds [] branches).map Branch.unnumbered = branches.map Branch.unnumbered :=
    map_assignIds (fun _ _ => rfl) [] branches
  have commute (branches : List Branch) : (branches.filter (·.isSelected options)).map Branch.unnumbered =
      (branches.map Branch.unnumbered).filter (·.isSelected options) := by
    rw [List.filter_map]
    rfl
  have same : (assignIds [] (branches.filter (·.isSelected options))).map Branch.unnumbered =
      ((assignIds [] branches).filter (·.Admitted options)).map Branch.unnumbered := by
    rw [passes, forget, commute, commute, forget]
  refine ⟨same, ?_⟩
  have alike : List.Forall₂ (fun before after => before.unnumbered = after.unnumbered)
      ((assignIds [] branches).filter (·.Admitted options)) (assignIds [] (branches.filter (·.isSelected options))) :=
    List.forall₂_map_left_iff.mp (List.forall₂_map_right_iff.mp (List.forall₂_eq_eq_eq ▸ same.symm))
  intro pair listed other among
  have nodes := Branch.nonParallelNode_congr ((List.forall₂_iff_zip.mp alike).2 listed)
  have others := Branch.nonParallelNode_congr ((List.forall₂_iff_zip.mp alike).2 among)
  have before := shares_iff_of_assignIds fresh (List.mem_filter.mp (List.of_mem_zip listed).1).1
    (List.mem_filter.mp (List.of_mem_zip among).1).1
  have after := shares_iff_of_assignIds (fun branch listed => fresh branch (List.mem_filter.mp listed).1)
    (List.of_mem_zip listed).2 (List.of_mem_zip among).2
  rw [before, after, nodes, others]

theorem branchify_of_unmet (built : tree.Built)
    (expanded : Expansion.expand tree options id = .ok (branches, [])) :
    branchify tree id options = .ok (assignIds [] (kept options branches)) := by
  have fresh := (Expansion.undebugged_fresh built options).expand expanded
  have undebugged : (kept options branches).find? Branch.hasDebugStep = none := by
    refine List.find?_eq_none.mpr fun branch listed debugs => ?_
    obtain ⟨plain, among, rfl⟩ := exists_of_mem_kept listed
    exact Bool.false_ne_true ((fresh plain among).undebugged.symm.trans debugs)
  rw [branchify_of_expand expanded, isolateDebug, undebugged]
  rfl

theorem tagged_of_kept (fresh : ∀ branch ∈ branches, branch.Fresh) :
    ∀ branch ∈ assignIds [] (kept options branches), branch.Tagged := by
  intro branch listed
  have forgotten : branch.unnumbered ∈ (kept options branches).map Branch.unnumbered := by
    rw [← map_assignIds (fun _ _ => rfl) []]
    exact List.mem_map_of_mem listed
  obtain ⟨tagged, isKept, same⟩ := List.mem_map.mp forgotten
  obtain ⟨plain, among, rfl⟩ := exists_of_mem_kept isKept
  exact (Branch.tagged_tag (fresh plain among).checked).congr same.symm

theorem kept_unrestricted {noDebug : Bool} (branches : List Branch) :
    kept { noDebug } branches = branches.map Branch.tag :=
  List.filter_eq_self.mpr fun _ _ => rfl

/-- Restrictions leave out the branches that do not pass them and change nothing else but ids, where an expansion
meets no step to debug. Every branch is tagged with what its steps set. -/
theorem narrows_of_branchify (built : tree.Built)
    (expanded : Expansion.expand tree options id = .ok (branches, [])) :
    ∃ whole left, branchify tree id { noDebug := options.noDebug } = .ok whole ∧
      branchify tree id options = .ok left ∧ Narrows options whole left ∧
      (∀ branch ∈ whole, branch.Tagged) ∧ ∀ branch ∈ left, branch.Tagged := by
  have same : ({ noDebug := options.noDebug } : BranchOptions).noDebug = options.noDebug := rfl
  have unrestricted := (Expansion.expand_congr same id).trans expanded
  have fresh := (Expansion.undebugged_fresh built options).expand expanded
  refine ⟨_, _, branchify_of_unmet built unrestricted, branchify_of_unmet built expanded, ?_,
    tagged_of_kept fresh, tagged_of_kept fresh⟩
  rw [kept_unrestricted]
  exact narrows_assignIds (List.forall_mem_map.mpr fun branch listed => (fresh branch listed).unnumbered)

/-- Of the four branches one has too low a frequency and one no requested group; two share a non-parallel step, and
one has exactly the least frequency, set behind a lower one. -/
def studio : Tree :=
  .grown ("A - +\n    \x7bgroup\x7d = 'y', \x7bfrequency\x7d = 'low'\n\n" ++
    "B -\n    \x7bgroup\x7d = 'x', \x7bfrequency\x7d = 'high'\n\nC - +\n    \x7bgroup\x7d = 'y'\n" ++
    "        \x7bfrequency\x7d = 'low'\n            \x7bgroup\x7d = 'y', \x7bfrequency\x7d = 'med'\n" ++
    "    \x7bgroup\x7d = 'z'")

def onAir : BranchOptions := { groups := some ["y".toList, "z".toList], minFrequency := some .med }

theorem narrows_of_branchify_studio : studio.Built ∧ ∃ branches whole left,
    Expansion.expand studio onAir Tree.rootId = .ok (branches, []) ∧
      branchify studio Tree.rootId {} = .ok whole ∧ branchify studio Tree.rootId onAir = .ok left ∧
      whole.map (fun branch => (branch.nonParallelId, branch.frequency, branch.groups)) =
        [(some "np0".toList, some .low, ["y".toList]), (none, some .high, ["x".toList]),
          (some "np1".toList, some .med, ["y".toList]), (some "np1".toList, none, ["z".toList])] ∧
      left.map (fun branch => (branch.nonParallelId, branch.frequency, branch.groups)) =
        [(some "np0".toList, some .med, ["y".toList]), (some "np0".toList, none, ["z".toList])] ∧
      Narrows onAir whole left ∧ (∀ branch ∈ whole, branch.Tagged) ∧ ∀ branch ∈ left, branch.Tagged := by
  have built : studio.Built := .parseIn .empty _ _ _
  have unmet : (Expansion.expand studio onAir Tree.rootId).toOption.map (·.2) = some [] := by decide +kernel
  have ofWhole : (branchify studio Tree.rootId {}).toOption.map
      (·.map fun branch => (branch.nonParallelId, branch.frequency, branch.groups)) =
        some [(some "np0".toList, some .low, ["y".toList]), (none, some .high, ["x".toList]),
          (some "np1".toList, some .med, ["y".toList]), (some "np1".toList, none, ["z".toList])] := by
    decide +kernel
  have ofLeft : (branchify studio Tree.rootId onAir).toOption.map
      (·.map fun branch => (branch.nonParallelId, branch.frequency, branch.groups)) =
        some [(some "np0".toList, some .med, ["y".toList]), (some "np0".toList, none, ["z".toList])] := by
    decide +kernel
  cases expanded : Expansion.expand studio onAir Tree.rootId with
  | error error =>
      rw [expanded] at unmet
      cases unmet
  | ok result =>
      obtain ⟨branches, debugNodes⟩ := result
      rw [expanded] at unmet
      obtain rfl : debugNodes = [] := Option.some.inj unmet
      obtain ⟨whole, left, isWhole, isLeft, narrows, tagged⟩ := narrows_of_branchify built expanded
      have isWhole : branchify studio Tree.rootId {} = .ok whole := isWhole
      rw [isWhole] at ofWhole
      rw [isLeft] at ofLeft
      exact ⟨built, branches, whole, left, rfl, isWhole, isLeft, Option.some.inj ofWhole, Option.some.inj ofLeft,
        narrows, tagged⟩

end Selection

end TestTree
