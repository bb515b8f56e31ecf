import Mathlib.Data.List.TakeWhile
import TestTree.Proofs.Run.Faults

namespace TestTree

/-- The marks of which a branch bears at most one. -/
def Status.marks (status : Status) : List Bool :=
  [status.isRunning, status.isPassed, status.isFailed, status.isSkipped]

/-- The marks of which a step bears at most one. Behind its outcome it stays the running step until the
next one is taken. -/
def Status.outcomes (status : Status) : List Bool :=
  [status.isPassed, status.isFailed, status.isSkipped]

namespace Branch

/-- No step has two outcomes. -/
def Decided (branch : Branch) : Prop := ∀ step ∈ branch.steps, step.status.outcomes.count true ≤ 1

/-- What the marks of a branch mean. A passed branch has come to its first step by hand. -/
structure Consistent (branch : Branch) : Prop where
  exclusive : branch.status.marks.count true ≤ 1
  passed : branch.status.isPassed = true →
    (∀ step ∈ branch.steps, step.status.isFailed = false) ∧
      ∀ step ∈ branch.steps.takeWhile (!·.isByHand),
        step.status.isPassed = true ∨ step.status.isSkipped = true
  failed : branch.status.isFailed = true →
    (∃ step ∈ branch.steps, step.status.isFailed = true) ∨
      ∃ hook ∈ branch.beforeEveryBranch ++ branch.afterEveryBranch, hook.error.isSome = true
  skipped : branch.status.isSkipped = true → ∀ step ∈ branch.steps, step.status = {}
  decided : branch.Decided

variable {branch after : Branch} {front index : Nat}

theorem Decided.of_same (decided : branch.Decided)
    (same : after.steps.map (·.status.outcomes) = branch.steps.map (·.status.outcomes)) :
    after.Decided := by
  intro step listed
  have among : step.status.outcomes ∈ after.steps.map (·.status.outcomes) :=
    List.mem_map_of_mem listed
  rw [same] at among
  obtain ⟨other, isOther, same⟩ := List.mem_map.mp among
  rw [← same]
  exact decided other isOther

theorem Decided.finish (decided : branch.Decided) : branch.finish.Decided := by
  refine decided.of_same ?_
  rw [Branch.finish, List.map_map]
  rfl

theorem Decided.advanceTo (decided : branch.Decided) (index : Nat) :
    (branch.advanceTo index).Decided := by
  refine decided.of_same ?_
  rw [Branch.advanceTo, map_setAt (by intro _; rfl), List.map_map]
  rfl

/-- The step that a cursor faces has no outcome, so it may be given one. -/
theorem Decided.settleAt {change : BranchStep → BranchStep} (decided : branch.Decided)
    (faces : branch.Faces index) (steps : after.steps = setAt change index branch.steps)
    (settles : ∀ step, step.status.isCompleted = false →
      (change step).status.outcomes.count true ≤ 1) : after.Decided := by
  intro step listed
  obtain ⟨other, found⟩ := List.getElem?_of_mem listed
  rw [steps, getElem?_setAt] at found
  split at found
  · next same =>
    obtain ⟨before, present, rfl⟩ := Option.map_eq_some_iff.mp found
    refine settles before ?_
    simpa [same] using (faces.settled.outcome other before present).not.mpr (by omega)
  · exact decided step (List.mem_of_getElem? found)

theorem Decided.recordAt (decided : branch.Decided) (faces : branch.Faces index) (outcome : Outcome) :
    (branch.recordAt index outcome).Decided := by
  refine decided.settleAt faces rfl fun step undecided => ?_
  simp only [Status.isCompleted, Bool.or_eq_false_iff] at undecided
  cases passed : outcome.isPassed <;>
    simp [BranchStep.record, Status.outcomes, passed, undecided]

theorem Decided.skipStepAt (decided : branch.Decided) (faces : branch.Faces index) :
    (Run.Cursor.skipStepAt index branch).Decided := by
  refine decided.settleAt faces rfl fun step undecided => ?_
  simp only [Status.isCompleted, Bool.or_eq_false_iff] at undecided
  simp [Status.outcomes, undecided]

theorem Untouched.status_eq (untouched : branch.Untouched) : ∀ step ∈ branch.steps, step.status = {} := by
  intro step listed
  obtain ⟨index, found⟩ := List.getElem?_of_mem listed
  have undecided := (untouched.settled.outcome index step found).not.mpr (Nat.not_lt_zero index)
  have idle := (untouched.marks index step found).not.mpr nofun
  cases status : step.status
  simp_all [Status.isCompleted]

theorem Untouched.decided (untouched : branch.Untouched) : branch.Decided := by
  intro step listed
  rw [untouched.status_eq step listed]
  decide

/-- A branch that is not at its end has no outcome to account for. -/
theorem consistent_of_unfinished (unfinished : branch.status.isCompleted = false)
    (decided : branch.Decided) : branch.Consistent := by
  simp only [Status.isCompleted, Bool.or_eq_false_iff] at unfinished
  obtain ⟨⟨passed, failed⟩, skipped⟩ := unfinished
  refine ⟨?_, by simp [passed], by simp [failed], by simp [skipped], decided⟩
  cases running : branch.status.isRunning <;>
    simp [Status.marks, passed, failed, skipped, running]

/-- All steps in front of the first one by hand have an outcome if the front is at a step by hand, or
behind all steps. -/
theorem Settled.completed_of_mem (settled : branch.Settled front)
    (stops : ∀ step, branch.steps[front]? = some step → step.isByHand = true) :
    ∀ step ∈ branch.steps.takeWhile (!·.isByHand), step.status.isCompleted = true := by
  intro step listed
  obtain ⟨index, found⟩ := List.getElem?_of_mem listed
  have inside := (List.getElem?_eq_some_iff.mp found).1
  obtain ⟨rest, whole⟩ := List.takeWhile_prefix (l := branch.steps) (!·.isByHand)
  have within (index : Nat) (inside : index < (branch.steps.takeWhile (!·.isByHand)).length) :
      branch.steps[index]? = (branch.steps.takeWhile (!·.isByHand))[index]? := by
    conv_lhs => rw [← whole]
    exact List.getElem?_append_left inside
  refine (settled.outcome index step ((within index inside).trans found)).mpr ?_
  by_contra behind
  have bound : front < (branch.steps.takeWhile (!·.isByHand)).length := by omega
  have first := List.getElem?_eq_getElem bound
  have byHand := stops _ ((within front bound).trans first)
  have automatic := List.mem_takeWhile_imp (List.getElem_mem bound)
  simp [byHand] at automatic

/-- A branch that comes to its end is consistent, if without a failed step it has passed all steps in
front of the first one by hand. -/
theorem consistent_finish (unfinished : branch.status.isCompleted = false) (decided : branch.Decided)
    (completed : branch.firstFailure = none →
      ∀ step ∈ branch.steps.takeWhile (!·.isByHand), step.status.isCompleted = true) :
    branch.finish.Consistent := by
  simp only [Status.isCompleted, Bool.or_eq_false_iff] at unfinished
  obtain ⟨-, skipped⟩ := unfinished
  have exclusive : branch.finish.status.marks.count true ≤ 1 := by
    cases first : branch.firstFailure <;>
      simp [finish, Status.marks, first, skipped]
  refine ⟨exclusive, ?_, ?_, by simp [finish, skipped], decided.finish⟩
  · intro passed
    have none : branch.firstFailure = none := by simpa [finish] using passed
    have clean := List.findIdx?_eq_none_iff.mp none
    constructor
    · intro step listed
      obtain ⟨before, among, rfl⟩ := List.mem_map.mp listed
      exact clean before among
    · intro step listed
      rw [finish, List.takeWhile_map] at listed
      obtain ⟨before, among, rfl⟩ := List.mem_map.mp listed
      have unfailed := clean before ((List.takeWhile_sublist _).subset among)
      simpa [Status.isCompleted, unfailed] using completed none before among
  · intro failed
    have found : branch.firstFailure.isSome = true := by simpa [finish] using failed
    obtain ⟨step, listed, failed⟩ := List.any_eq_true.mp (List.findIdx?_isSome.symm.trans found)
    exact .inl ⟨_, List.mem_map_of_mem listed, failed⟩

theorem consistent_skip (line : Text) (idle : branch.isIdle = true) (untouched : branch.Untouched) :
    (Suite.skip line branch).Consistent := by
  simp only [isIdle, Status.isCompleted, Bool.and_eq_true, Bool.not_eq_true', Bool.or_eq_false_iff] at idle
  obtain ⟨running, ⟨passed, failed⟩, skipped⟩ := idle
  refine ⟨?_, ?_, ?_, fun _ => untouched.status_eq, untouched.decided⟩
  · simp [Suite.skip, Status.marks, running, passed, failed]
  · simp [Suite.skip, passed]
  · simp [Suite.skip, failed]

/-- Recording the error of a declared hook leaves a hook with an error. -/
theorem exists_error_of_setErrorAt {hooks : List Hook} (declared : index < hooks.length)
    (error : StepError) :
    ∃ hook ∈ Run.Cursor.setErrorAt index error hooks, hook.error.isSome = true := by
  have found : (Run.Cursor.setErrorAt index error hooks)[index]? =
      some { hooks[index] with error := some error } := by
    rw [Run.Cursor.setErrorAt, getElem?_setAt, if_pos rfl, List.getElem?_eq_getElem declared]
    rfl
  exact ⟨_, List.mem_of_getElem? found, rfl⟩

theorem consistent_recordBeforeBranch (unfinished : branch.status.isCompleted = false)
    (decided : branch.Decided) (declared : index < branch.beforeEveryBranch.length)
    (error : StepError) : (Run.Cursor.recordBeforeBranch index error branch).Consistent := by
  simp only [Status.isCompleted, Bool.or_eq_false_iff] at unfinished
  obtain ⟨⟨passed, failed⟩, skipped⟩ := unfinished
  refine ⟨?_, ?_, ?_, ?_, decided⟩
  · simp [Run.Cursor.recordBeforeBranch, Status.marks, skipped]
  · simp [Run.Cursor.recordBeforeBranch]
  · intro _
    obtain ⟨hook, among, broken⟩ := exists_error_of_setErrorAt declared error
    exact .inr ⟨hook, List.mem_append_left _ among, broken⟩
  · simp [Run.Cursor.recordBeforeBranch, skipped]

/-- A passed branch fails with a hook behind it, and any other keeps its outcome. -/
theorem Consistent.recordAfterBranch (consistent : branch.Consistent)
    (declared : index < branch.afterEveryBranch.length) (error : StepError) :
    (Run.Cursor.recordAfterBranch index error branch).Consistent := by
  obtain ⟨hook, among, broken⟩ := exists_error_of_setErrorAt declared error
  have exclusive := consistent.exclusive
  by_cases passed : branch.status.isPassed = true
  · have others : branch.status.isRunning = false ∧ branch.status.isFailed = false ∧
        branch.status.isSkipped = false := by
      simp only [Status.marks, passed] at exclusive
      revert exclusive
      cases branch.status.isRunning <;> cases branch.status.isFailed <;>
        cases branch.status.isSkipped <;> decide
    obtain ⟨running, failed, skipped⟩ := others
    refine ⟨?_, ?_, ?_, ?_, consistent.decided⟩
    · simp [Run.Cursor.recordAfterBranch, Status.marks, passed, running, skipped]
    · simp [Run.Cursor.recordAfterBranch, passed]
    · exact fun _ => .inr ⟨hook, List.mem_append_right _ among, broken⟩
    · simp [Run.Cursor.recordAfterBranch, passed, skipped]
  · have same : (Run.Cursor.recordAfterBranch index error branch).status = branch.status := by
      simp [Run.Cursor.recordAfterBranch, passed]
    refine ⟨same ▸ exclusive, fun marked => absurd (same ▸ marked) passed, ?_, ?_, consistent.decided⟩
    · exact fun _ => .inr ⟨hook, List.mem_append_right _ among, broken⟩
    · intro skipped
      exact consistent.skipped (same ▸ skipped)

end Branch

def Suite.Consistent (suite : Suite) : Prop := ∀ branch ∈ suite.branches, branch.Consistent

namespace Run

variable {Call Env : Type} {setting : Setting Call Env}

/-- Between two steps, the front of a branch is at its next step. -/
theorem settled_of_between {branch : Branch} (between : Between branch)
    (unfinished : branch.status.isCompleted = false) : branch.Settled branch.nextIndex := by
  rcases between with completed | ⟨-, untouched | ⟨last, passes⟩⟩
  · simp [unfinished] at completed
  · rw [Branch.nextIndex_of_marks_none untouched.marks]
    exact untouched.settled
  · rw [Branch.nextIndex_of_marks_some passes.marks passes.inside]
    exact passes.settled

theorem consistent_of_advances {branch after : Branch} {taken : Option Nat}
    (consistent : branch.Consistent) (between : Between branch)
    (advances : branch.Advances taken after) : after.Consistent := by
  cases advances with
  | ended => exact consistent
  | exhausted unfinished behind =>
      have settled := settled_of_between between unfinished
      exact Branch.consistent_finish unfinished consistent.decided fun _ =>
        settled.completed_of_mem (by simp [behind])
  | blocked unfinished found byHand =>
      have settled := settled_of_between between unfinished
      refine Branch.consistent_finish unfinished consistent.decided fun _ =>
        settled.completed_of_mem fun step present => ?_
      obtain rfl := Option.some.inj (found.symm.trans present)
      exact byHand
  | advanced unfinished found automatic =>
      exact Branch.consistent_of_unfinished unfinished
        (consistent.decided.advanceTo _)

/-- A branch stops at a recorded step only if the step has failed, or is the last one. -/
theorem consistent_markAt {branch : Branch} {step : Nat} {outcome : Outcome} {stopBranch : Bool}
    (consistent : branch.Consistent) (active : branch.isActive = true) (faces : branch.Faces step)
    (stops : stopBranch = true → outcome.isPassed = false) :
    (branch.markAt step outcome stopBranch).Consistent := by
  have unfinished : (branch.recordAt step outcome).status.isCompleted = false :=
    (Branch.isActive_iff.mp active).2
  have decided := consistent.decided.recordAt faces outcome
  have passes := faces.recordAt outcome
  unfold Branch.markAt
  split
  · next ends =>
    refine Branch.consistent_finish unfinished decided fun unfailed => ?_
    refine passes.settled.completed_of_mem fun next present => ?_
    have inside : step + 1 < branch.steps.length := by
      simpa [Branch.recordAt] using (List.getElem?_eq_some_iff.mp present).1
    have stopped : stopBranch = true := by
      simp only [ge_iff_le, Bool.or_eq_true, decide_eq_true_eq] at ends
      exact ends.resolve_left (by omega)
    have clean := List.findIdx?_eq_none_iff.mp unfailed
    have recorded : (branch.recordAt step outcome).steps[step]? =
        some (BranchStep.record outcome branch.steps[step]) := by
      rw [Branch.recordAt, getElem?_setAt, if_pos rfl, List.getElem?_eq_getElem faces.inside]
      rfl
    have failed := clean _ (List.mem_of_getElem? recorded)
    simp [BranchStep.record, stops stopped] at failed
  · exact Branch.consistent_of_unfinished unfinished decided

/-- A failed hook that is about to be recorded is one of the hooks of the branch. -/
def Stage.Declares (branch : Branch) : Stage → Prop
  | .refused index _ => index < branch.beforeEveryBranch.length
  | .faulted index _ => index < branch.afterEveryBranch.length
  | _ => True

section Walks

variable {purpose : Purpose} {cursor next : Cursor} {shared after : Shared Env} {branch later : Branch}
  {stage : Stage} {arrival : Arrival} {walker : Walker}

theorem Walk.declares (walk : Walk setting purpose cursor shared stage after next arrival)
    (found : shared.suite.branch? cursor.branch = some branch)
    (present : after.suite.branch? cursor.branch = some later)
    (remains : next.remains arrival = some walker) : walker.2.Declares later := by
  cases walk with
  | refused world scope index error declared | tarnished world scope index error declared =>
      obtain rfl := Option.some.inj (found.symm.trans present)
      rw [Shared.branch_eq found] at declared
      cases remains
      exact declared
  | marked =>
      cases remains
      dsimp only
      split <;> trivial
  | recorded index error arrival goes =>
      rcases goes with rfl | rfl
      · cases remains
        trivial
      · cases remains
  | halted | left => cases remains
  | opened | unguarded | entering | admitted | turnedAway | interrupted | continued | exhausted | taken
  | passedOver | paused | skipped | preparing | begun | unbegun | sleeping | ended | trailing | facing
  | atEnd | leaving =>
      cases remains
      trivial

theorem consistent_of_nextStep {taken : Option Nat} {suite : Suite}
    (found : shared.suite.branch? cursor.branch = some branch) (consistent : branch.Consistent)
    (between : Between branch)
    (next : shared.suite.nextStep cursor.branch true setting.skipRepeat = (taken, suite))
    (present : suite.branch? cursor.branch = some later) : later.Consistent := by
  obtain ⟨after, advances, there, -⟩ := Suite.nextStep_advances found setting.skipRepeat
  rw [next] at advances there
  obtain rfl := Option.some.inj (there.symm.trans present)
  exact consistent_of_advances consistent between advances

theorem consistent_of_takes {step : Nat} {suite : Suite}
    (found : shared.suite.branch? cursor.branch = some branch) (consistent : branch.Consistent)
    (stands : Stage.taking.Stands cursor branch) (takes : cursor.Takes setting shared.suite step suite)
    (present : suite.branch? cursor.branch = some later) : later.Consistent := by
  rcases takes with ⟨-, rfl⟩ | ⟨free, next⟩
  · obtain rfl := Option.some.inj (found.symm.trans present)
    exact consistent
  · obtain ⟨-, ⟨step, pending, -⟩ | ⟨-, between⟩⟩ := stands
    · simp [free] at pending
    · exact consistent_of_nextStep found consistent between next present

/-- Every turn of a walk leaves its branch consistent. -/
theorem Walk.consistent (walk : Walk setting purpose cursor shared stage after next arrival)
    (found : shared.suite.branch? cursor.branch = some branch) (stands : stage.Stands cursor branch)
    (declares : stage.Declares branch) (consistent : branch.Consistent)
    (present : after.suite.branch? cursor.branch = some later) : later.Consistent := by
  cases walk with
  | opened | unguarded | entering | admitted | refused | halted | interrupted | continued | preparing
  | begun | unbegun | sleeping | ended | trailing | leaving | tarnished | left =>
      obtain rfl := Option.some.inj (found.symm.trans present)
      exact consistent
  | turnedAway index error =>
      obtain ⟨-, active, untouched, -⟩ := stands
      rw [Shared.modify, Suite.branch?_modify_self found] at present
      obtain rfl := Option.some.inj present
      exact Branch.consistent_recordBeforeBranch (Branch.isActive_iff.mp active).2 consistent.decided
        declares error
  | exhausted suite absent next =>
      obtain ⟨-, ⟨step, pending, -⟩ | ⟨-, between⟩⟩ := stands
      · simp [absent] at pending
      · exact consistent_of_nextStep found consistent between next present
  | taken step suite takes | passedOver step suite takes | paused step suite takes =>
      exact consistent_of_takes found consistent stands takes present
  | skipped step =>
      obtain ⟨-, active, faces, -⟩ := stands
      rw [Shared.modify, Suite.branch?_modify_self found] at present
      obtain rfl := Option.some.inj present
      exact Branch.consistent_of_unfinished (Branch.isActive_iff.mp active).2
        (consistent.decided.skipStepAt faces)
  | marked step error =>
      obtain ⟨-, active, faces, -⟩ := stands
      obtain ⟨there, -⟩ := Suite.markStep_marks found step
        (outcomeOf (shared.branch cursor.branch) step error)
        (!error.isNone && !(shared.branch cursor.branch).hasDebugStep) setting.skipRepeat
      obtain rfl := Option.some.inj (there.symm.trans present)
      refine consistent_markAt consistent active faces fun stops => ?_
      simp only [Bool.and_eq_true, Bool.not_eq_true'] at stops
      exact stops.1
  | facing step suite next | atEnd suite next =>
      obtain ⟨-, -, between⟩ := stands
      refine consistent_of_nextStep found consistent ?_ next present
      exact between.imp_right fun under => ⟨under.1, .inr under.2⟩
  | recorded index error =>
      rw [Shared.modify, Suite.branch?_modify_self found] at present
      obtain rfl := Option.some.inj present
      exact consistent.recordAfterBranch declares error

end Walks

namespace Process

variable {process between : Process Call Env} {action : Action} {index : Nat} {branch : Branch}

/-- What holds of the outcomes of a process at every moment. -/
structure Accounted (process : Process Call Env) : Prop where
  order : process.InOrder
  declared : ∀ course ∈ process.courses, ∀ branch,
    process.suite.branch? course.1.branch = some branch → course.2.stage.Declares branch
  consistent : ∀ index branch, process.suite.branch? index = some branch → branch.Consistent

theorem running_of_walk? (sound : process.Sound) {thread : Nat}
    {walk : Purpose × Cursor × Activity Call} (walking : process.walk? thread = some walk) :
    process.runner.control.phase ≠ .stopped := by
  unfold walk? at walking
  split at walking
  · next working =>
    exact sound.phase_ne (by simp [isFinished, working]) (by simp [working, Operation.ending?])
  · next single =>
    exact sound.phase_ne (by simp [isFinished, single]) (by simp [single, Operation.ending?])
  · cases walking

theorem Accounted.declared_steers (accounted : process.Accounted)
    (steers : Steers setting process action between) {course : Course Call}
    (listed : course ∈ between.courses)
    (found : between.suite.branch? course.1.branch = some branch) :
    course.2.stage.Declares branch := by
  refine accounted.order.courses_steers steers (fun course branch => course.2.stage.Declares branch)
    accounted.declared ?walked ?claimed ?taken ?prepared listed found
  case walked =>
    intro thread purpose cursor activity walking rests branch found course kept
    obtain ⟨own, present, -⟩ := accounted.order.stands rests
    have walk := Cursor.turn_walks setting purpose cursor process.runner.shared activity
    have remains := Cursor.remains_eq (cursor.turn setting purpose process.runner.shared activity).cursor
      (cursor.turn setting purpose process.runner.shared activity).turn
    rw [kept] at remains
    exact walk.declares present found remains
  case claimed =>
    intro index branch claims present
    trivial
  case taken =>
    intro cursor scope activity branch goes same declares
    rcases goes with rfl | rfl <;> trivial
  case prepared =>
    intro still course branch declares
    exact declares

theorem Accounted.consistent_steers (accounted : process.Accounted)
    (steers : Steers setting process action between)
    (found : between.suite.branch? index = some branch) : branch.Consistent := by
  cases steers with
  | walked purpose cursor activity others walking held suite holds =>
      have listed := held.mem_iff.mpr (.head others)
      obtain ⟨own, after, present, stands, treads⟩ := accounted.order.treads setting purpose listed
      rw [suite] at found
      by_cases same : index = cursor.branch
      · subst same
        exact (Cursor.turn_walks setting purpose cursor process.runner.shared activity).consistent
          present stands (accounted.declared _ listed own present)
          (accounted.consistent _ own present) found
      · rcases treads.others.others index same with kept | ⟨idling, line, there, idle, skipped⟩
        · exact accounted.consistent index branch (kept.symm.trans found)
        · obtain rfl := Option.some.inj (skipped.symm.trans found)
          have running := running_of_walk? accounted.order.sound walking
          exact Branch.consistent_skip line idle
            (accounted.order.tidy.resolve_left running index idling there idle)
  | claimed claim claims still suite holds =>
      rw [suite] at found
      by_cases same : index = claim
      · subst same
        obtain ⟨before, present, idle, untouched, -⟩ := accounted.order.fresh claims
        rw [Suite.branch?_modify_self present] at found
        obtain rfl := Option.some.inj found
        simp only [Branch.isIdle, Bool.and_eq_true, Bool.not_eq_true'] at idle
        exact Branch.consistent_of_unfinished idle.2 untouched.decided
      · rw [Suite.branch?_modify_of_ne same] at found
        exact accounted.consistent index branch found
  | restaged cursor scope activity others still unclaimed held branches taken same holds =>
      rw [Suite.branch?_congr branches] at found
      exact accounted.consistent index branch found
  | stayed still unclaimed branches holds =>
      rw [Suite.branch?_congr branches] at found
      exact accounted.consistent index branch found
  | prepared still fresh branches holds =>
      rw [Suite.branch?_map branches] at found
      obtain ⟨before, present, rfl⟩ := Option.map_eq_some_iff.mp found
      obtain ⟨exclusive, passed, failed, skipped, decided⟩ :=
        accounted.consistent index before present
      exact ⟨exclusive, passed, failed, skipped, decided⟩
  | swept still unclaimed branches dropped stopped stopping =>
      rw [Suite.branch?_map branches] at found
      obtain ⟨before, present, rfl⟩ := Option.map_eq_some_iff.mp found
      have consistent := accounted.consistent index before present
      dsimp only
      split
      · exact consistent
      · next unfinished =>
        exact Branch.consistent_of_unfinished (by simpa [Status.isCompleted] using unfinished)
          consistent.decided

theorem Accounted.perform (accounted : process.Accounted) (action : Action) :
    (process.perform setting action).Accounted := by
  have order := accounted.order
  obtain ⟨between, steers, settles⟩ := perform_steers setting order.sound order.started action
  have same (index : Nat) : (process.perform setting action).suite.branch? index =
      between.suite.branch? index := Suite.branch?_congr settles.branches index
  refine ⟨order.perform action, ?_, ?_⟩
  · intro course listed branch found
    rw [same] at found
    rcases settles.courses with kept | ⟨-, dropped⟩
    · exact accounted.declared_steers steers (kept.mem_iff.mp listed) found
    · rw [dropped] at listed
      cases listed
  · intro index branch found
    rw [same] at found
    exact accounted.consistent_steers steers found

theorem accounted_ready (setting : Setting Call Env) (runner : Runner Env) :
    (runner.ready setting).Accounted := by
  refine ⟨inOrder_ready setting runner, ?_, ?_⟩
  · intro course listed
    rw [courses_ready] at listed
    cases listed
  · intro index branch found
    obtain ⟨before, known, -, rfl, -⟩ := branch?_ready found
    exact Branch.consistent_of_unfinished rfl (Branch.untouched_reset before).decided

theorem accounted_after (setting : Setting Call Env) (runner : Runner Env) (schedule : List Action) :
    ((runner.ready setting).after setting schedule).Accounted := by
  induction schedule using List.reverseRecOn with
  | nil => exact accounted_ready setting runner
  | append_singleton schedule action ih =>
      rw [after_concat]
      exact ih.perform action

/-- At every moment of every run, whatever is asked of the runner and whoever has a turn, the outcomes
of every branch are consistent. -/
theorem consistent_after (setting : Setting Call Env) (runner : Runner Env) (schedule : List Action) :
    ((runner.ready setting).after setting schedule).suite.Consistent := by
  intro branch listed
  obtain ⟨index, found⟩ := List.getElem?_of_mem listed
  exact (accounted_after setting runner schedule).consistent index branch found

end Process

end Run

end TestTree
