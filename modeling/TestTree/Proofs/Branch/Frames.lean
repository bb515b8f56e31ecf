import TestTree.Proofs.Branch.Passages
import TestTree.Run.Runner

/-!
The frames that lead to a step. An expansion knows its path, and a call is resolved along it. Of a branch
only the list of its steps is left, from which a runner finds its way back by the levels: it keeps a frame
for every step that no shallower one has followed. The frames kept retrace the path, but among them are
those of steps that the path has already left again.
-/
namespace TestTree

open Passage (stepsAll head)

namespace Passage

mutual

/-- The steps passed, each with the path along which the expansion came to it. -/
def visits (tree : Tree) (depth : Nat) (path : List Frame) : Passage → List (List Frame × BranchStep)
  | step id declaration body below =>
      (path, head tree depth id declaration) ::
        (visitsAll tree (depth + 1) (⟨id, declaration⟩ :: path) body ++
          visitsAll tree depth (⟨id, declaration⟩ :: path) below)
  | fork id members below =>
      visitsAll tree depth path members ++
        visitsAll tree depth (if id = Tree.rootId then path else { node := id } :: path) below

def visitsAll (tree : Tree) (depth : Nat) (path : List Frame) :
    List Passage → List (List Frame × BranchStep)
  | [] => []
  | passage :: rest => visits tree depth path passage ++ visitsAll tree depth path rest

end

mutual

theorem steps_eq_visits (tree : Tree) (depth : Nat) (path : List Frame) :
    ∀ passage, steps tree depth passage = (visits tree depth path passage).map Prod.snd
  | step id declaration body below => by
      simp only [steps, visits, List.map_cons, List.map_append]
      rw [← stepsAll_eq_visits tree (depth + 1) _ body, ← stepsAll_eq_visits tree depth _ below]
  | fork id members below => by
      simp only [steps, visits, List.map_append]
      rw [← stepsAll_eq_visits tree depth _ members, ← stepsAll_eq_visits tree depth _ below]

theorem stepsAll_eq_visits (tree : Tree) (depth : Nat) (path : List Frame) :
    ∀ passages, stepsAll tree depth passages = (visitsAll tree depth path passages).map Prod.snd
  | [] => rfl
  | passage :: rest => by
      rw [stepsAll, visitsAll, List.map_append, steps_eq_visits tree depth path passage,
        stepsAll_eq_visits tree depth path rest]

end

mutual

theorem exists_head_of_mem_steps (tree : Tree) (depth : Nat) : ∀ passage,
    ∀ step ∈ steps tree depth passage, ∃ deeper id declaration,
      depth ≤ deeper ∧ step = head tree deeper id declaration
  | step id declaration body below => by
      intro passed listed
      rw [steps, List.mem_cons, List.mem_append] at listed
      obtain here | inside | further := listed
      · exact ⟨depth, id, declaration, Nat.le_refl depth, here⟩
      · obtain ⟨deeper, id, declaration, behind, same⟩ :=
          exists_head_of_mem_stepsAll tree (depth + 1) body passed inside
        exact ⟨deeper, id, declaration, Nat.le_of_succ_le behind, same⟩
      · exact exists_head_of_mem_stepsAll tree depth below passed further
  | fork id members below => by
      intro passed listed
      rw [steps, List.mem_append] at listed
      obtain inside | further := listed
      · exact exists_head_of_mem_stepsAll tree depth members passed inside
      · exact exists_head_of_mem_stepsAll tree depth below passed further

theorem exists_head_of_mem_stepsAll (tree : Tree) (depth : Nat) : ∀ passages,
    ∀ step ∈ stepsAll tree depth passages, ∃ deeper id declaration,
      depth ≤ deeper ∧ step = head tree deeper id declaration
  | [] => by
      intro passed listed
      rw [stepsAll] at listed
      cases listed
  | passage :: rest => by
      intro passed listed
      rw [stepsAll, List.mem_append] at listed
      obtain here | there := listed
      · exact exists_head_of_mem_steps tree depth passage passed here
      · exact exists_head_of_mem_stepsAll tree depth rest passed there

end

variable {tree : Tree} {depth : Nat} {passage : Passage} {passages : List Passage}

theorem depth_le_of_mem_steps : ∀ step ∈ steps tree depth passage, depth ≤ step.branchIndents := by
  intro step listed
  obtain ⟨deeper, id, declaration, behind, rfl⟩ := exists_head_of_mem_steps tree depth passage step listed
  cases declaration <;> exact behind

theorem depth_le_of_mem_stepsAll :
    ∀ step ∈ stepsAll tree depth passages, depth ≤ step.branchIndents := by
  intro step listed
  obtain ⟨deeper, id, declaration, behind, rfl⟩ :=
    exists_head_of_mem_stepsAll tree depth passages step listed
  cases declaration <;> exact behind

end Passage

namespace Run.Runner

/-- Frames with their levels, innermost first. -/
abbrev Kept := List (Nat × Frame)

/-- The frames kept behind one more step. -/
def keep (kept : Kept) (step : BranchStep) : Kept :=
  match step.origin with
  | none => kept
  | some origin =>
      (step.branchIndents, ⟨origin, step.declaration⟩) ::
        kept.filter fun entry => entry.1 ≤ step.branchIndents

/-- The frames that are kept at a level. -/
def framesAt (kept : Kept) (depth : Nat) : List Frame :=
  (kept.filter fun entry => entry.1 ≤ depth).map Prod.snd

theorem callPath_eq (steps : List BranchStep) :
    callPath steps = (steps.foldl keep []).map Prod.snd := rfl

/-- Where a call is resolved that comes behind a step: what the step shows is the nearest. -/
theorem callPath_take {steps : List BranchStep} {index : Nat} {step : BranchStep} {origin : NodeId}
    (found : steps[index]? = some step) (stands : step.origin = some origin) :
    callPath (steps.take (index + 1)) = ⟨origin, step.declaration⟩ ::
      framesAt ((steps.take index).foldl keep []) step.branchIndents := by
  rw [callPath_eq, List.take_add_one, found, List.foldl_append]
  simp only [Option.toList_some, List.foldl_cons, List.foldl_nil]
  rw [keep, stands]
  rfl

/-- What a run does to the steps of a branch leaves the frames as they are. -/
theorem callPath_map_reset (steps : List BranchStep) :
    callPath (steps.map BranchStep.reset) = callPath steps := by
  rw [callPath_eq, callPath_eq, List.foldl_map]
  rfl

theorem filter_filter_level {depth deeper : Nat} (below : depth ≤ deeper) (kept : Kept) :
    (kept.filter fun entry => entry.1 ≤ deeper).filter (fun entry => entry.1 ≤ depth) =
      kept.filter fun entry => entry.1 ≤ depth := by
  rw [List.filter_filter]
  apply List.filter_congr
  intro entry _
  rw [Bool.and_eq_left_iff_imp]
  intro within
  exact decide_eq_true (Nat.le_trans (of_decide_eq_true within) below)

/-- At and above a level, deeper steps only add frames of that level. -/
theorem framesAt_foldl_keep {steps : List BranchStep} {depth : Nat}
    (deep : ∀ step ∈ steps, depth ≤ step.branchIndents) (kept : Kept) :
    ∃ more, framesAt (steps.foldl keep kept) depth = more ++ framesAt kept depth := by
  induction steps generalizing kept with
  | nil => exact ⟨[], rfl⟩
  | cons step rest ih =>
      obtain ⟨more, same⟩ := ih (fun other listed => deep other (.tail _ listed)) (keep kept step)
      have here : ∃ one, framesAt (keep kept step) depth = one ++ framesAt kept depth := by
        rw [keep]
        split
        · exact ⟨[], rfl⟩
        · simp only [framesAt, List.filter_cons]
          rw [filter_filter_level (deep step (.head _))]
          split
          · exact ⟨[_], rfl⟩
          · exact ⟨[], rfl⟩
      obtain ⟨one, added⟩ := here
      exact ⟨more ++ one, by rw [List.foldl_cons, same, added, List.append_assoc]⟩

end Run.Runner

namespace Tree

/-- Each frame kept, with the frame of the path that it stands for: the same one, or the one of the block
that its step is a member of. -/
structure Retraces (tree : Tree) (path kept : List Frame) (marks : List (Frame × Option Frame)) :
    Prop where
  kept : marks.map Prod.fst = kept
  path : marks.filterMap Prod.snd = path
  stands : ∀ frame own, (frame, some own) ∈ marks → own = frame ∨
    ∃ block, (tree.node frame.node).block = some block ∧ own = { node := block }

variable {tree : Tree} {path kept more : List Frame} {marks : List (Frame × Option Frame)}

theorem retraces_nil (tree : Tree) : tree.Retraces [] [] [] := ⟨rfl, rfl, nofun⟩

/-- The frames of steps that were left stand for nothing. -/
theorem Retraces.left (retraces : tree.Retraces path kept marks) (more : List Frame) :
    tree.Retraces path (more ++ kept) (more.map (·, none) ++ marks) := by
  constructor
  · rw [List.map_append, retraces.kept, List.map_map]
    exact congrArg (· ++ kept) (List.map_id more)
  · rw [List.filterMap_append, retraces.path]
    simp
  · intro frame own listed
    rw [List.mem_append, List.mem_map] at listed
    cases listed with
    | inl left =>
        obtain ⟨other, _, same⟩ := left
        cases same
    | inr old => exact retraces.stands frame own old

theorem Retraces.enter (retraces : tree.Retraces path kept marks) {frame own : Frame}
    (stands : own = frame ∨
      ∃ block, (tree.node frame.node).block = some block ∧ own = { node := block }) :
    tree.Retraces (own :: path) (frame :: kept) ((frame, some own) :: marks) := by
  constructor
  · rw [List.map_cons, retraces.kept]
  · rw [List.filterMap_cons, retraces.path]
  · intro other stood listed
    cases listed with
    | head => exact stands
    | tail _ old => exact retraces.stands other stood old

end Tree

section Tracking

open Expansion (Part)
open Passage (visitsAll stepsAll_eq_visits)
open Run.Runner (Kept keep framesAt framesAt_foldl_keep)

/-- What holds where a step is reached: the frames kept at its level retrace the path that leads to it, and
along that path the step itself was resolved. -/
structure Reaches (tree : Tree) (kept : Kept) (path : List Frame) (step : BranchStep) : Prop where
  frames : ∃ marks, tree.Retraces path (framesAt kept step.branchIndents) marks
  resolved : ∃ origin, step.origin = some origin ∧ step.declaration = tree.callee path origin

def Tracks (tree : Tree) (kept : Kept) : List (List Frame × BranchStep) → Prop
  | [] => True
  | (path, step) :: rest => Reaches tree kept path step ∧ Tracks tree (keep kept step) rest

variable {tree : Tree} {kept : Kept} {id : NodeId} {path : List Frame} {depth : Nat}

theorem tracks_append {first second : List (List Frame × BranchStep)} :
    Tracks tree kept (first ++ second) ↔
      Tracks tree kept first ∧ Tracks tree ((first.map Prod.snd).foldl keep kept) second := by
  induction first generalizing kept with
  | nil => simp [Tracks]
  | cons visit rest ih =>
      obtain ⟨path, step⟩ := visit
      rw [List.cons_append, Tracks, Tracks, ih, List.map_cons, List.foldl_cons, and_assoc]

theorem Tracks.reaches {visits : List (List Frame × BranchStep)} (tracks : Tracks tree kept visits)
    {index : Nat} {step : BranchStep} (found : visits[index]? = some (path, step)) :
    Reaches tree (((visits.map Prod.snd).take index).foldl keep kept) path step := by
  induction visits generalizing kept index with
  | nil => cases found
  | cons visit rest ih =>
      obtain ⟨reached, passed⟩ := visit
      cases index with
      | zero =>
          cases found
          exact tracks.1
      | succ index => exact ih tracks.2 found

theorem framesAt_keep (settled : tree.WellFormed) (inside : id < tree.size)
    {declaration : Option NodeId} (known : ∀ callee, declaration = some callee → callee < tree.size)
    {deeper : Nat} (below : depth ≤ deeper) :
    framesAt (keep kept (head tree depth id declaration)) deeper =
      ⟨id, declaration⟩ :: framesAt kept depth := by
  obtain ⟨origin, callee, level⟩ := settled.head inside known depth
  have all : (kept.filter fun entry => entry.1 ≤ depth).filter (fun entry => entry.1 ≤ deeper) =
      kept.filter fun entry => entry.1 ≤ depth := by
    apply List.filter_eq_self.mpr
    intro entry listed
    have within := of_decide_eq_true (List.mem_filter.mp listed).2
    exact decide_eq_true (Nat.le_trans within below)
  rw [keep, origin, callee, level]
  simp only [framesAt]
  rw [List.filter_cons, if_pos (decide_eq_true below), all, List.map_cons]

/-- A part of a node that is reached with the right frames goes on so. -/
def Tracked (tree : Tree) (path : List Frame) (passage : Passage) : Prop :=
  ∀ (depth : Nat) (kept : Kept), passage.node < tree.size →
    (∃ marks, tree.Retraces path (framesAt kept depth) marks) →
    Tracks tree kept (passage.visits tree depth path)

theorem tracks_all {passages : List Passage}
    (inside : ∀ passage ∈ passages, passage.node < tree.size)
    (tracked : ∀ passage ∈ passages, Tracked tree path passage)
    (retraces : ∃ marks, tree.Retraces path (framesAt kept depth) marks) :
    Tracks tree kept (visitsAll tree depth path passages) := by
  induction passages generalizing kept with
  | nil => trivial
  | cons passage rest ih =>
      rw [visitsAll, tracks_append, ← Passage.steps_eq_visits]
      constructor
      · exact tracked passage (.head _) depth kept (inside passage (.head _)) retraces
      · apply ih (fun other listed => inside other (.tail _ listed))
          fun other listed => tracked other (.tail _ listed)
        obtain ⟨marks, retraces⟩ := retraces
        have deep : ∀ step ∈ Passage.steps tree depth passage, depth ≤ step.branchIndents :=
          Passage.depth_le_of_mem_steps
        obtain ⟨more, same⟩ := framesAt_foldl_keep deep kept
        rw [same]
        exact ⟨_, retraces.left more⟩

theorem reaches_head (settled : tree.WellFormed) (inside : id < tree.size) {declaration : Option NodeId}
    {body : List Passage} (allows : tree.Allows .own path (.step id declaration body []))
    (reached : ∃ marks, tree.Retraces path (framesAt kept depth) marks) :
    Reaches tree kept path (head tree depth id declaration) := by
  obtain ⟨origin, callee, level⟩ := settled.head inside allows.declaration_lt depth
  constructor
  · rw [level]
    exact reached
  · exact ⟨id, origin, callee.trans allows.callee⟩

/-- Behind a step alone its frame is kept at its level, and may stand for that of its block. -/
theorem retraces_behind (settled : tree.WellFormed) (inside : id < tree.size)
    {declaration : Option NodeId} {body : List Passage}
    (allows : tree.Allows .own path (.step id declaration body []))
    (reached : ∃ marks, tree.Retraces path (framesAt kept depth) marks) {own : Frame}
    (stands : own = ⟨id, declaration⟩ ∨
      ∃ block, (tree.node id).block = some block ∧ own = { node := block }) :
    ∃ marks, tree.Retraces (own :: path) (framesAt
      ((Passage.steps tree depth (.step id declaration body [])).foldl keep kept) depth) marks := by
  obtain ⟨marks, retraces⟩ := reached
  have deep : ∀ step ∈ stepsAll tree (depth + 1) body ++ stepsAll tree depth [],
      depth ≤ step.branchIndents := by
    intro step listed
    have among : step ∈ Passage.steps tree depth (.step id declaration body []) := .tail _ listed
    exact Passage.depth_le_of_mem_steps step among
  obtain ⟨more, same⟩ := framesAt_foldl_keep deep (keep kept (head tree depth id declaration))
  rw [Passage.steps, List.foldl_cons, same,
    framesAt_keep settled inside allows.declaration_lt (Nat.le_refl depth)]
  exact ⟨_, (retraces.enter stands).left more⟩

theorem Tree.Allows.tracked (settled : tree.WellFormed) {part : Part} {passage : Passage}
    (allows : tree.Allows part path passage) : Tracked tree path passage := by
  induction allows with
  | @plain path id plain =>
      intro depth kept inside reached
      have allows : tree.Allows .own path (.step id none [] []) := .plain plain
      exact ⟨reaches_head settled inside allows reached, trivial⟩
  | @call path id declaration body calls resolved taken further ih =>
      intro depth kept inside reached
      have inside : id < tree.size := inside
      have allows := Tree.Allows.call calls resolved taken further
      rw [Passage.visits, visitsAll, List.append_nil]
      constructor
      · exact reaches_head settled inside allows reached
      · apply tracks_all (fun passage among => (settled.below taken passage among).1) ih
        rw [framesAt_keep settled inside allows.declaration_lt (Nat.le_add_right depth 1)]
        obtain ⟨marks, retraces⟩ := reached
        exact ⟨_, retraces.enter (.inl rfl)⟩
  | @step path id declaration body below kind spoken own taken further ihOwn ih =>
      intro depth kept inside reached
      have split : Passage.visits tree depth path (.step id declaration body below) =
          Passage.visits tree depth path (.step id declaration body []) ++
            visitsAll tree depth (⟨id, declaration⟩ :: path) below := by
        simp [Passage.visits, visitsAll]
      rw [split, tracks_append, ← Passage.steps_eq_visits]
      constructor
      · exact ihOwn depth kept inside reached
      · apply tracks_all (fun passage among => (settled.below taken passage among).1) ih
        exact retraces_behind settled inside own reached (.inl rfl)
  | @block path id ids members below kind chosen own taken further ihOwn ih =>
      intro depth kept inside reached
      have notRoot : id ≠ Tree.rootId := by
        rintro rfl
        cases kind.symm.trans settled.root
      have bounded := settled.members kind chosen
      rw [Passage.visits, if_neg notRoot, tracks_append, ← stepsAll_eq_visits]
      constructor
      · exact tracks_all (fun passage among => (bounded passage among).1) ihOwn reached
      · apply tracks_all (fun passage among => (settled.below taken passage among).1) ih
        cases members with
        | nil =>
            exact absurd chosen.eq_nil (settled.filled id ids kind).1
        | cons first rest =>
            obtain ⟨within, _, owned⟩ := bounded first (.head _)
            have alone := own first (.head _)
            obtain ⟨declaration, body, same⟩ := alone.shape
            rw [same] at alone
            obtain ⟨marks, retraces⟩ := retraces_behind settled within alone reached
              (.inr ⟨id, owned, rfl⟩)
            rw [← same] at retraces
            have deep : ∀ step ∈ stepsAll tree depth rest, depth ≤ step.branchIndents :=
              Passage.depth_le_of_mem_stepsAll
            obtain ⟨more, added⟩ := framesAt_foldl_keep deep
              ((Passage.steps tree depth first).foldl keep kept)
            rw [stepsAll, List.foldl_append, added]
            exact ⟨_, retraces.left more⟩
  | @root path id below kind taken further ih =>
      intro depth kept inside reached
      have isRoot : id = Tree.rootId := by
        by_contra other
        exact settled.kind id other kind
      rw [Passage.visits, if_pos isRoot, visitsAll, List.nil_append]
      exact tracks_all (fun passage among => (settled.below taken passage among).1) ih reached

end Tracking

namespace Tree

section Resolving

variable {tree : Tree} {call : Text} {own : List NodeId} {path kept : List Frame} {frame : Frame}
  {marks : List (Frame × Option Frame)}

/-- A frame kept shows other nodes than the frame of the path that it stands for. -/
def Strays (tree : Tree) (mark : Frame × Option Frame) : Prop :=
  mark.2.toList.flatMap tree.frameScope ≠ tree.frameScope mark.1

/-- A frame that strays never is the nearest one that shows what is called. -/
def Unobstructed (tree : Tree) (call : Text) (own : List NodeId)
    (marks : List (Frame × Option Frame)) : Prop :=
  ∀ nearer mark further, marks = nearer ++ mark :: further → tree.Strays mark →
    (tree.findDeclaration call [] [mark.1]).isSome = true →
      (tree.findDeclaration call own (nearer.map Prod.fst)).isSome = true

/-- The declaration that a call would refer to that stood beside a step. -/
def resolveBeside (tree : Tree) (call : Text) (id : NodeId) (path : List Frame) :
    Except TreeError NodeId :=
  match tree.findDeclaration call (tree.siblings id) path with
  | some declaration => .ok declaration
  | none => .error (TreeError.ofFault (.unknownFunction call) none 0)

theorem findDeclaration_append (call : Text) (own : List NodeId) (nearer path : List Frame) :
    tree.findDeclaration call own (nearer ++ path) =
      tree.findDeclaration call (own ++ nearer.flatMap tree.frameScope) path := by
  simp only [findDeclaration, scope, List.flatMap_append, List.append_assoc]

theorem findDeclaration_cons (call : Text) (own : List NodeId) (frame : Frame) (path : List Frame) :
    tree.findDeclaration call own (frame :: path) =
      tree.findDeclaration call (own ++ tree.frameScope frame) path := by
  simp only [findDeclaration, scope, List.flatMap_cons, List.append_assoc]

/-- The frame of a step whose own declaration is out of reach shows the siblings of the step. -/
theorem resolveText_eq (call : Text) (id : NodeId) (path : List Frame) :
    tree.resolveText call (⟨id, none⟩ :: path) = tree.resolveBeside call id path := by
  have same : tree.findDeclaration call [] (⟨id, none⟩ :: path) =
      tree.findDeclaration call (tree.siblings id) path := findDeclaration_cons call [] ⟨id, none⟩ path
  rw [resolveText, resolveBeside, same]
  rfl

theorem findDeclaration_of_own (found : (tree.findDeclaration call own []).isSome = true)
    (path : List Frame) : tree.findDeclaration call own path = tree.findDeclaration call own [] := by
  obtain ⟨declaration, found⟩ := Option.isSome_iff_exists.mp found
  rw [found]
  simp only [findDeclaration, scope, List.flatMap_nil, List.append_nil] at found
  simp only [findDeclaration, scope, List.find?_append, found, Option.some_or]

/-- A frame that shows nothing of the kind makes no difference. -/
theorem findDeclaration_of_blind (blind : tree.findDeclaration call [] [frame] = none)
    (own : List NodeId) (path : List Frame) :
    tree.findDeclaration call own (frame :: path) = tree.findDeclaration call own path := by
  simp only [findDeclaration, scope, List.flatMap_cons, List.flatMap_nil, List.append_nil,
    List.nil_append] at blind
  simp only [findDeclaration, scope, List.flatMap_cons, List.find?_append, blind, Option.none_or]

/-- The members of a block stand where the block stands. -/
theorem siblings_of_block (nested : tree.Nested) {id block : NodeId}
    (owned : (tree.node id).block = some block) : tree.siblings block = tree.siblings id := by
  have inside : id < tree.size := by
    apply Nat.lt_of_not_le
    intro outside
    rw [node_of_size_le outside] at owned
    cases owned
  have notRoot : id ≠ rootId := by
    rintro rfl
    cases owned.symm.trans nested.root.1
  obtain ⟨parent, isParent, _, _, placed⟩ := nested.parent id inside notRoot
  rw [Placed, owned] at placed
  rw [siblings, siblings, isParent, nested.child parent block placed.1]

/-- What a frame of the path shows, the frame kept for it shows too. -/
theorem Retraces.shows (retraces : tree.Retraces path kept marks) (nested : tree.Nested)
    {stood : Frame} (listed : (frame, some stood) ∈ marks) :
    ∀ id ∈ tree.frameScope stood, id ∈ tree.frameScope frame := by
  intro id shown
  cases retraces.stands frame stood listed with
  | inl same => exact same ▸ shown
  | inr inBlock =>
      obtain ⟨block, owned, rfl⟩ := inBlock
      rw [frameScope, siblings_of_block nested owned] at shown
      exact List.mem_append_right _ shown

/-- Whatever can be called along the path can be called along the frames kept. -/
theorem Retraces.isSome (retraces : tree.Retraces path kept marks) (nested : tree.Nested)
    (found : (tree.findDeclaration call own path).isSome = true) :
    (tree.findDeclaration call own kept).isSome = true := by
  rw [findDeclaration, List.find?_isSome] at found ⊢
  obtain ⟨id, visible, declares⟩ := found
  refine ⟨id, ?_, declares⟩
  rw [scope, List.mem_append, List.mem_flatMap] at visible ⊢
  cases visible with
  | inl here => exact .inl here
  | inr shown =>
      obtain ⟨stood, onPath, shown⟩ := shown
      rw [← retraces.path, List.mem_filterMap] at onPath
      obtain ⟨⟨frame, _⟩, listed, rfl⟩ := onPath
      refine .inr ⟨frame, ?_, retraces.shows nested listed id shown⟩
      rw [← retraces.kept]
      exact List.mem_map_of_mem listed

theorem Retraces.tail {mark : Frame × Option Frame} (retraces : tree.Retraces path kept (mark :: marks)) :
    tree.Retraces (marks.filterMap Prod.snd) (marks.map Prod.fst) marks :=
  ⟨rfl, rfl, fun frame own listed => retraces.stands frame own (.tail _ listed)⟩

theorem Retraces.blind (retraces : tree.Retraces path kept marks) (nested : tree.Nested)
    {stood : Frame} (listed : (frame, some stood) ∈ marks)
    (blind : tree.findDeclaration call [] [frame] = none) :
    tree.findDeclaration call [] [stood] = none := by
  have alone : tree.Retraces [stood] [frame] [(frame, some stood)] := by
    refine ⟨rfl, rfl, fun other own among => ?_⟩
    cases List.mem_singleton.mp among
    exact retraces.stands frame stood listed
  cases found : tree.findDeclaration call [] [stood] with
  | none => rfl
  | some declaration =>
      have shown := alone.isSome nested (congrArg Option.isSome found)
      rw [blind] at shown
      cases shown

/-- Where no frame that strays is in the way, the frames kept lead where the path leads. -/
theorem Retraces.findDeclaration_eq (retraces : tree.Retraces path kept marks) (nested : tree.Nested)
    (clear : tree.Unobstructed call own marks) :
    tree.findDeclaration call own kept = tree.findDeclaration call own path := by
  induction marks generalizing path kept own with
  | nil => rw [← retraces.kept, ← retraces.path]; rfl
  | cons mark rest ih =>
      obtain ⟨frame, stands⟩ := mark
      have later := retraces.tail
      have ahead : path = stands.toList ++ rest.filterMap Prod.snd := by
        rw [← retraces.path]
        cases stands <;> rfl
      rw [← retraces.kept, ahead, List.map_cons]
      have further (nearer : List (Frame × Option Frame)) (mark : Frame × Option Frame)
          (others : List (Frame × Option Frame)) (same : rest = nearer ++ mark :: others) :=
        clear ((frame, stands) :: nearer) mark others (congrArg _ same)
      by_cases strays : tree.Strays (frame, stands)
      · cases shows : tree.findDeclaration call [] [frame] with
        | some declaration =>
            have found := clear [] _ rest rfl strays (congrArg Option.isSome shows)
            exact (findDeclaration_of_own found _).trans (findDeclaration_of_own found _).symm
        | none =>
            have passed : tree.findDeclaration call own (stands.toList ++ rest.filterMap Prod.snd) =
                tree.findDeclaration call own (rest.filterMap Prod.snd) := by
              cases stands with
              | none => rfl
              | some stood =>
                  exact findDeclaration_of_blind (retraces.blind nested (.head _) shows) own _
            rw [passed, findDeclaration_of_blind shows]
            apply ih later
            intro nearer mark others same strays shown
            have found := further nearer mark others same strays shown
            rwa [List.map_cons, findDeclaration_of_blind shows] at found
      · rw [findDeclaration_append, not_not.mp strays, findDeclaration_cons]
        apply ih later
        intro nearer mark others same strays shown
        have found := further nearer mark others same strays shown
        rwa [List.map_cons, findDeclaration_cons] at found

variable {id : NodeId}

theorem isOk_resolveBeside : (tree.resolveBeside call id path).isOk =
    (tree.findDeclaration call (tree.siblings id) path).isSome := by
  rw [resolveBeside]
  cases tree.findDeclaration call (tree.siblings id) path <;> rfl

theorem Retraces.resolveBeside_isOk (retraces : tree.Retraces path kept marks) (nested : tree.Nested)
    (resolved : (tree.resolveBeside call id path).isOk = true) :
    (tree.resolveBeside call id kept).isOk = true := by
  rw [isOk_resolveBeside] at resolved ⊢
  exact retraces.isSome nested resolved

theorem Retraces.resolveBeside_eq (retraces : tree.Retraces path kept marks) (nested : tree.Nested)
    (clear : tree.Unobstructed call (tree.siblings id) marks) :
    tree.resolveBeside call id kept = tree.resolveBeside call id path := by
  rw [resolveBeside, resolveBeside, retraces.findDeclaration_eq nested clear]

end Resolving

end Tree

end TestTree
