import TestTree.Proofs.Run.Walkers

namespace TestTree

namespace Branch

/-- The steps that have an outcome are those in front of `front`. -/
structure Settled (front : Nat) (branch : Branch) : Prop where
  inside : front ≤ branch.steps.length
  outcome : ∀ (index : Nat) (step : BranchStep), branch.steps[index]? = some step →
    (step.status.isCompleted = true ↔ index < front)

/-- The step that is marked as running. -/
def Marks (mark : Option Nat) (branch : Branch) : Prop :=
  ∀ (index : Nat) (step : BranchStep), branch.steps[index]? = some step →
    (step.status.isRunning = true ↔ mark = some index)

/-- No step was ever taken. -/
structure Untouched (branch : Branch) : Prop where
  settled : branch.Settled 0
  marks : branch.Marks none

/-- The step was taken and has no outcome yet. -/
structure Faces (step : Nat) (branch : Branch) : Prop where
  inside : step < branch.steps.length
  settled : branch.Settled step
  marks : branch.Marks (some step)

/-- The step has its outcome, and none behind it was taken. -/
structure Passes (step : Nat) (branch : Branch) : Prop where
  settled : branch.Settled (step + 1)
  marks : branch.Marks (some step)

variable {branch : Branch} {front step : Nat}

theorem Passes.inside (passes : branch.Passes step) : step < branch.steps.length :=
  passes.settled.inside

theorem nextIndex_of_marks_none (marks : branch.Marks none) : branch.nextIndex = 0 := by
  have absent : branch.steps.findIdx? (·.status.isRunning) = none := by
    rw [List.findIdx?_eq_none_iff]
    intro step member
    obtain ⟨index, found⟩ := List.getElem?_of_mem member
    have := (marks index step found).not.mpr nofun
    simpa using this
  simp [nextIndex, absent]

theorem nextIndex_of_marks_some (marks : branch.Marks (some step))
    (inside : step < branch.steps.length) : branch.nextIndex = step + 1 := by
  have first : branch.steps.findIdx? (·.status.isRunning) = some step := by
    rw [List.findIdx?_eq_some_iff_getElem]
    refine ⟨inside, (marks step _ (List.getElem?_eq_getElem inside)).mpr rfl, ?_⟩
    intro earlier before running
    have marked := (marks earlier _ (List.getElem?_eq_getElem (by omega))).mp running
    cases marked
    omega
  simp [nextIndex, first]

theorem steps_advanceTo (index other : Nat) (branch : Branch) :
    (branch.advanceTo index).steps[other]? = branch.steps[other]?.map fun step =>
      { step with status := { step.status with isRunning := decide (index = other) } } := by
  simp only [advanceTo, getElem?_setAt, List.getElem?_map]
  cases branch.steps[other]? <;> by_cases same : index = other <;> simp [same]

theorem Settled.advanceTo (settled : branch.Settled front) (index : Nat) :
    (branch.advanceTo index).Settled front := by
  refine ⟨by simpa [Branch.advanceTo] using settled.inside, ?_⟩
  intro other step found
  rw [steps_advanceTo] at found
  obtain ⟨before, present, rfl⟩ := Option.map_eq_some_iff.mp found
  exact settled.outcome other before present

theorem marks_advanceTo (index : Nat) (branch : Branch) :
    (branch.advanceTo index).Marks (some index) := by
  intro other step found
  rw [steps_advanceTo] at found
  obtain ⟨before, _, rfl⟩ := Option.map_eq_some_iff.mp found
  simp

theorem Settled.finish (settled : branch.Settled front) : branch.finish.Settled front := by
  refine ⟨by simpa [Branch.finish] using settled.inside, ?_⟩
  intro other step found
  simp only [Branch.finish, List.getElem?_map] at found
  obtain ⟨before, present, rfl⟩ := Option.map_eq_some_iff.mp found
  exact settled.outcome other before present

/-- Giving an outcome to the step at the front moves the front behind it. -/
theorem Settled.settleAt {change : BranchStep → BranchStep} {after : Branch}
    (settled : branch.Settled step) (inside : step < branch.steps.length)
    (steps : after.steps = setAt change step branch.steps)
    (completes : ∀ before, (change before).status.isCompleted = true) :
    after.Settled (step + 1) := by
  refine ⟨by rw [steps, length_setAt]; exact inside, ?_⟩
  intro other reached found
  rw [steps, getElem?_setAt] at found
  split at found
  · next same =>
    subst same
    obtain ⟨before, _, rfl⟩ := Option.map_eq_some_iff.mp found
    simp [completes]
  · next different =>
    rw [settled.outcome other reached found]
    omega

theorem Marks.settleAt {mark : Option Nat} {change : BranchStep → BranchStep} {after : Branch}
    (marks : branch.Marks mark) (steps : after.steps = setAt change step branch.steps)
    (keeps : ∀ before, (change before).status.isRunning = before.status.isRunning) :
    after.Marks mark := by
  intro other reached found
  rw [steps, getElem?_setAt] at found
  split at found
  · obtain ⟨before, present, rfl⟩ := Option.map_eq_some_iff.mp found
    rw [keeps]
    exact marks other before present
  · exact marks other reached found

theorem Faces.recordAt (faces : branch.Faces step) (outcome : Outcome) :
    (branch.recordAt step outcome).Passes step where
  settled := faces.settled.settleAt faces.inside rfl fun before => by
    cases passed : outcome.isPassed <;> simp [BranchStep.record, Status.isCompleted, passed]
  marks := faces.marks.settleAt rfl fun _ => rfl

theorem Faces.skipStepAt (faces : branch.Faces step) :
    (Run.Cursor.skipStepAt step branch).Passes step where
  settled := faces.settled.settleAt faces.inside rfl fun _ => by simp [Status.isCompleted]
  marks := faces.marks.settleAt rfl fun _ => rfl

theorem untouched_reset (branch : Branch) : branch.reset.Untouched := by
  refine ⟨⟨Nat.zero_le _, ?_⟩, ?_⟩
  · intro index step found
    simp only [reset, List.getElem?_map] at found
    obtain ⟨before, _, rfl⟩ := Option.map_eq_some_iff.mp found
    simp [BranchStep.reset, Status.isCompleted]
  · intro index step found
    simp only [reset, List.getElem?_map] at found
    obtain ⟨before, _, rfl⟩ := Option.map_eq_some_iff.mp found
    simp [BranchStep.reset]

/-- Whether a branch is active or at its end, and never idle again. -/
theorem isIdle_eq_false : branch.isIdle = false ↔
    branch.isActive = true ∨ branch.status.isCompleted = true := by
  cases running : branch.status.isRunning <;> cases completed : branch.status.isCompleted <;>
    simp [isIdle, isActive, running, completed]

theorem isActive_iff : branch.isActive = true ↔
    branch.status.isRunning = true ∧ branch.status.isCompleted = false := by
  simp [isActive]

/-- What a branch that is under way never loses, and what it never gets back. -/
structure Follows (before after : Branch) : Prop where
  plan : after.plan = before.plan
  known : after.passedLastTime = before.passedLastTime
  ends : before.status.isCompleted = true → after.status.isCompleted = true
  busy : after.isIdle = false
  settled : ∃ front, after.Settled front

end Branch

namespace Run

variable {Call Env : Type}

/-- A cursor in front of a step that it will not pause at again. -/
structure Cursor.Waits (cursor : Cursor) (branch : Branch) (step : Nat) : Prop where
  active : branch.isActive = true
  faces : branch.Faces step
  paused : cursor.debugPausedOn = some step
  calm : cursor.pauseBeforeNext = false

/-- A branch between two steps, or at its end. -/
def Between (branch : Branch) : Prop :=
  branch.status.isCompleted = true ∨
    branch.isActive = true ∧ (branch.Untouched ∨ ∃ step, branch.Passes step)

/-- A cursor at a step. -/
structure Cursor.At (cursor : Cursor) (branch : Branch) (step : Nat) : Prop where
  active : branch.isActive = true
  faces : branch.Faces step
  free : cursor.pending = none

theorem Cursor.At.withScope {cursor : Cursor} {branch : Branch} {step : Nat}
    (stands : cursor.At branch step) (scope : Variables) :
    ({ cursor with scope } : Cursor).At branch step :=
  ⟨stands.active, stands.faces, stands.free⟩

/-- Where a cursor and its branch stand at a stage. -/
def Stage.Stands (cursor : Cursor) (branch : Branch) : Stage → Prop
  | .opening => branch.isActive = true ∧ branch.Untouched ∧ cursor.pending = none
  | .entering | .refused _ _ => cursor.isStarted = true ∧ branch.isActive = true ∧
      branch.Untouched ∧ cursor.pending = none
  | .looping | .taking => cursor.isStarted = true ∧
      ((∃ step, cursor.pending = some step ∧ cursor.Waits branch step) ∨
        cursor.pending = none ∧ Between branch)
  | .skipping step | .before step | .within step | .behind step _ =>
      cursor.isStarted = true ∧ cursor.At branch step
  | .lookingAhead => cursor.isStarted = true ∧ cursor.pending = none ∧
      (branch.status.isCompleted = true ∨ branch.isActive = true ∧ ∃ step, branch.Passes step)
  | .closing | .faulted _ _ => branch.status.isCompleted = true

/-- A cursor owns a branch that is no longer idle. -/
theorem Stage.Stands.busy {cursor : Cursor} {branch : Branch} {stage : Stage}
    (stands : stage.Stands cursor branch) : branch.isIdle = false := by
  rw [Branch.isIdle_eq_false]
  cases stage with
  | opening => exact .inl stands.1
  | entering | refused => exact .inl stands.2.1
  | looping | taking =>
      obtain ⟨_, ⟨_, _, waits⟩ | ⟨_, completed | ⟨active, _⟩⟩⟩ := stands
      · exact .inl waits.active
      · exact .inr completed
      · exact .inl active
  | skipping | before | within | behind => exact .inl stands.2.active
  | lookingAhead =>
      obtain ⟨_, _, completed | ⟨active, _⟩⟩ := stands
      · exact .inr completed
      · exact .inl active
  | closing | faulted => exact .inr stands

/-- The step taken by a cursor between two steps is the one behind the last. -/
theorem faces_of_advances {branch after : Branch} {step : Nat} (between : Between branch)
    (advances : branch.Advances (some step) after) :
    after.isActive = true ∧ after.Faces step ∧
      (branch.Untouched ∧ step = 0 ∨ ∃ last, branch.Passes last ∧ step = last + 1) := by
  cases advances with
  | advanced unfinished found automatic =>
      have inside := (List.getElem?_eq_some_iff.mp found).1
      have active : (branch.advanceTo branch.nextIndex).isActive = true :=
        Branch.isActive_iff.mpr ⟨rfl, unfinished⟩
      have inside : branch.nextIndex < (branch.advanceTo branch.nextIndex).steps.length := by
        simpa [Branch.advanceTo] using inside
      rcases between with completed | ⟨_, untouched | ⟨last, passes⟩⟩
      · simp [completed] at unfinished
      · have first := Branch.nextIndex_of_marks_none untouched.marks
        refine ⟨active, ⟨inside, ?_, Branch.marks_advanceTo _ _⟩, .inl ⟨untouched, first⟩⟩
        rw [first]
        exact untouched.settled.advanceTo 0
      · have next := Branch.nextIndex_of_marks_some passes.marks passes.inside
        refine ⟨active, ⟨inside, ?_, Branch.marks_advanceTo _ _⟩, .inr ⟨last, passes, next⟩⟩
        rw [next]
        exact passes.settled.advanceTo (last + 1)

/-- What a turn of a walk leaves behind: its own branch as `after`, all others untouched or skipped,
and the cursor where it should stand. -/
structure Treads (cursor : Cursor) (before : Suite) (branch : Branch) (suite : Suite) (next : Cursor)
    (arrival : Arrival) (after : Branch) : Prop where
  own : next.branch = cursor.branch
  found : suite.branch? cursor.branch = some after
  others : Suite.KeepsOthers cursor.branch before suite
  follows : branch.Follows after
  stands : ∀ walker, next.remains arrival = some walker → walker.2.Stands next after
  done : arrival = .away .done → after.status.isCompleted = true

section Treads

variable {setting : Setting Call Env} {purpose : Purpose} {cursor next : Cursor}
  {shared : Shared Env} {branch after : Branch} {arrival : Arrival} {suite : Suite}

theorem follows_refl (busy : branch.isIdle = false) (settled : ∃ front, branch.Settled front) :
    branch.Follows branch :=
  ⟨rfl, rfl, id, busy, settled⟩

theorem follows_completed {front : Nat} (plan : after.plan = branch.plan)
    (known : after.passedLastTime = branch.passedLastTime) (completed : after.status.isCompleted = true)
    (settled : after.Settled front) : branch.Follows after :=
  ⟨plan, known, fun _ => completed, Branch.isIdle_eq_false.mpr (.inr completed), front, settled⟩

theorem treads_at {stage : Stage} (own : next.branch = cursor.branch)
    (found : suite.branch? cursor.branch = some after)
    (others : Suite.KeepsOthers cursor.branch shared.suite suite) (follows : branch.Follows after)
    (stands : stage.Stands next after) :
    Treads cursor shared.suite branch suite next (.at stage) after :=
  ⟨own, found, others, follows, by rintro _ ⟨⟩; exact stands, nofun⟩

theorem treads_paused (own : next.branch = cursor.branch)
    (found : suite.branch? cursor.branch = some after)
    (others : Suite.KeepsOthers cursor.branch shared.suite suite) (follows : branch.Follows after)
    (stands : Stage.looping.Stands next after) :
    Treads cursor shared.suite branch suite next (.away .paused) after :=
  ⟨own, found, others, follows,
    by rintro _ ⟨⟩; exact stands, nofun⟩

theorem follows_of_advances {taken : Option Nat} (advances : branch.Advances taken after)
    (busy : branch.isIdle = false) (settled : ∃ front, branch.Settled front) :
    branch.Follows after ∧ (taken = none → after.status.isCompleted = true) := by
  obtain ⟨front, settled⟩ := settled
  cases advances with
  | ended completed => exact ⟨follows_refl busy ⟨front, settled⟩, fun _ => completed⟩
  | exhausted | blocked =>
      have completed := branch.completed_of_finish
      exact ⟨follows_completed branch.plan_finish rfl completed settled.finish, fun _ => completed⟩
  | advanced unfinished found automatic =>
      exact ⟨⟨branch.plan_advanceTo _, rfl, id, Branch.isIdle_eq_false.mpr (.inl
        (Branch.isActive_iff.mpr ⟨rfl, unfinished⟩)), front, settled.advanceTo _⟩, nofun⟩

theorem takes_faces {step : Nat} (found : shared.suite.branch? cursor.branch = some branch)
    (stands : Stage.taking.Stands cursor branch) (settled : ∃ front, branch.Settled front)
    (takes : cursor.Takes setting shared.suite step suite) :
    ∃ after, suite.branch? cursor.branch = some after ∧
      Suite.KeepsOthers cursor.branch shared.suite suite ∧ branch.Follows after ∧
      after.isActive = true ∧ after.Faces step := by
  have busy := stands.busy
  rcases takes with ⟨pending, rfl⟩ | ⟨absent, next⟩
  · obtain ⟨_, ⟨step', pending', waits⟩ | ⟨absent, _⟩⟩ := stands
    · obtain rfl : step' = step := Option.some.inj (pending'.symm.trans pending)
      exact ⟨branch, found, .refl _ _, follows_refl busy settled, waits.active, waits.faces⟩
    · simp [pending] at absent
  · obtain ⟨_, ⟨step', pending', _⟩ | ⟨_, between⟩⟩ := stands
    · simp [absent] at pending'
    · obtain ⟨after, advances, present, others⟩ :=
        Suite.nextStep_advances found setting.skipRepeat
      rw [next] at advances present others
      obtain ⟨active, faces, _⟩ := faces_of_advances between advances
      exact ⟨after, present, others, (follows_of_advances advances busy settled).1, active, faces⟩

theorem follows_markAt {step : Nat} (faces : branch.Faces step) (active : branch.isActive = true)
    (outcome : Outcome) (stopBranch : Bool) :
    branch.Follows (branch.markAt step outcome stopBranch) ∧
      ((branch.markAt step outcome stopBranch).status.isCompleted = true ∨
        (branch.markAt step outcome stopBranch).isActive = true ∧
          (branch.markAt step outcome stopBranch).Passes step) := by
  have passes := faces.recordAt outcome
  unfold Branch.markAt
  split
  · have completed := (branch.recordAt step outcome).completed_of_finish
    have plan := (branch.recordAt step outcome).plan_finish.trans (branch.plan_recordAt step outcome)
    exact ⟨follows_completed plan rfl completed passes.settled.finish, .inl completed⟩
  · exact ⟨⟨branch.plan_recordAt step outcome, rfl, id, Branch.isIdle_eq_false.mpr (.inl active), _,
      passes.settled⟩, .inr ⟨active, passes⟩⟩

theorem completed_of_recordAfterBranch {index : Nat} {error : StepError}
    (completed : branch.status.isCompleted = true) :
    (Cursor.recordAfterBranch index error branch).status.isCompleted = true := by
  unfold Cursor.recordAfterBranch
  dsimp only
  split
  · simp [Status.isCompleted]
  · exact completed

theorem Cursor.map_setErrorAt (index : Nat) (error : StepError) (hooks : List Hook) :
    (setErrorAt index error hooks).map Hook.plan = hooks.map Hook.plan :=
  map_setAt (by intro _; rfl) index hooks

theorem Cursor.plan_recordBeforeBranch (index : Nat) (error : StepError) (branch : Branch) :
    (recordBeforeBranch index error branch).plan = branch.plan := by
  simp only [Branch.plan, Branch.reset, recordBeforeBranch, map_setErrorAt]

theorem Cursor.plan_recordAfterBranch (index : Nat) (error : StepError) (branch : Branch) :
    (recordAfterBranch index error branch).plan = branch.plan := by
  simp only [Branch.plan, Branch.reset, recordAfterBranch, map_setErrorAt]

theorem Cursor.plan_skipStepAt (step : Nat) (branch : Branch) :
    (skipStepAt step branch).plan = branch.plan :=
  Branch.plan_withSteps branch.status branch.log (map_setAt (by intro _; rfl) _ _)

/-- Every turn of a walk keeps its cursor and its branch where they should stand. -/
theorem Walk.treads {after : Shared Env} {stage : Stage}
    (walk : Walk setting purpose cursor shared stage after next arrival)
    (found : shared.suite.branch? cursor.branch = some branch) (stands : stage.Stands cursor branch)
    (settled : ∃ front, branch.Settled front) :
    ∃ branch', Treads cursor shared.suite branch after.suite next arrival branch' := by
  have busy := stands.busy
  have same := follows_refl busy settled
  have others := Suite.KeepsOthers.refl cursor.branch shared.suite
  cases walk with
  | opened => exact ⟨_, treads_at rfl found others same ⟨rfl, stands⟩⟩
  | unguarded =>
      obtain ⟨active, untouched, free⟩ := stands
      exact ⟨_, treads_at rfl found others same ⟨rfl, .inr ⟨free, .inr ⟨active, .inl untouched⟩⟩⟩⟩
  | entering | refused | continued | sleeping | leaving | tarnished =>
      exact ⟨_, treads_at rfl found others same stands⟩
  | admitted world scope =>
      obtain ⟨started, active, untouched, free⟩ := stands
      exact ⟨_, treads_at rfl found others same
        ⟨started, .inr ⟨free, .inr ⟨active, .inl untouched⟩⟩⟩⟩
  | turnedAway index error =>
      obtain ⟨front, settled⟩ := settled
      have completed :
          (Cursor.recordBeforeBranch index error branch).status.isCompleted = true := by
        simp [Cursor.recordBeforeBranch, Status.isCompleted]
      exact ⟨_, treads_at rfl (Suite.branch?_modify_self found _) (Suite.keepsOthers_modify _ _ _)
        (follows_completed (Cursor.plan_recordBeforeBranch index error branch) rfl completed
          ⟨settled.inside, settled.outcome⟩)
        completed⟩
  | halted stopped => exact ⟨branch, rfl, found, others, same, by simp [Cursor.remains], by simp⟩
  | interrupted unstopped requested => exact ⟨_, treads_paused rfl found others same stands⟩
  | exhausted _ _ next | atEnd _ next =>
      obtain ⟨after, advances, present, others⟩ := Suite.nextStep_advances found setting.skipRepeat
      rw [next] at advances present others
      obtain ⟨follows, completed⟩ := follows_of_advances advances busy settled
      exact ⟨after, treads_at rfl present others follows (completed rfl)⟩
  | taken _ _ takes | passedOver _ _ takes =>
      obtain ⟨after, present, others, follows, active, faces⟩ :=
        takes_faces found stands settled takes
      exact ⟨after, treads_at rfl present others follows ⟨stands.1, active, faces, rfl⟩⟩
  | paused step suite takes runs pauses =>
      obtain ⟨after, present, others, follows, active, faces⟩ :=
        takes_faces found stands settled takes
      exact ⟨after, treads_paused rfl present others follows
        ⟨stands.1, .inl ⟨step, rfl, active, faces, rfl, rfl⟩⟩⟩
  | skipped step =>
      obtain ⟨started, active, faces, free⟩ := stands
      have passes := faces.skipStepAt
      exact ⟨_, treads_at rfl (Suite.branch?_modify_self found _) (Suite.keepsOthers_modify _ _ _)
        ⟨Cursor.plan_skipStepAt step branch, rfl, id, busy, _, passes.settled⟩ ⟨started, free, .inr ⟨active, step, passes⟩⟩⟩
  | preparing _ _ scope | begun _ _ scope | unbegun _ _ scope | ended _ _ scope | trailing _ _ scope =>
      exact ⟨_, treads_at rfl found others same ⟨stands.1, stands.2.withScope scope⟩⟩
  | marked step error =>
      obtain ⟨started, active, faces, free⟩ := stands
      obtain ⟨present, others⟩ := Suite.markStep_marks found step
        (outcomeOf (shared.branch cursor.branch) step error)
        (!error.isNone && !(shared.branch cursor.branch).hasDebugStep) setting.skipRepeat
      obtain ⟨follows, settles⟩ := follows_markAt faces active
        (outcomeOf (shared.branch cursor.branch) step error)
        (!error.isNone && !(shared.branch cursor.branch).hasDebugStep)
      refine ⟨_, treads_at rfl present others follows ?_⟩
      split
      · exact ⟨started, .inr ⟨free, settles.imp_right fun under =>
          ⟨under.1, .inr ⟨step, under.2⟩⟩⟩⟩
      · exact ⟨started, free, settles.imp_right fun under => ⟨under.1, step, under.2⟩⟩
  | facing step suite next =>
      obtain ⟨started, free, between⟩ := stands
      obtain ⟨after, advances, present, others⟩ := Suite.nextStep_advances found setting.skipRepeat
      rw [next] at advances present others
      obtain ⟨follows, _⟩ := follows_of_advances advances busy settled
      obtain ⟨active, faces, _⟩ := faces_of_advances
        (between.imp_right fun under => ⟨under.1, .inr under.2⟩) advances
      exact ⟨after, treads_paused rfl present others follows
        ⟨started, .inl ⟨step, rfl, active, faces, rfl, rfl⟩⟩⟩
  | left world scope pending => exact ⟨_, rfl, found, others, same, by simp [Cursor.remains], fun _ => stands⟩
  | recorded index error arrival goes =>
      obtain ⟨front, settled⟩ := settled
      have completed : (Cursor.recordAfterBranch index error branch).status.isCompleted = true :=
        completed_of_recordAfterBranch stands
      have follows : branch.Follows (Cursor.recordAfterBranch index error branch) :=
        follows_completed (Cursor.plan_recordAfterBranch index error branch) rfl completed
          ⟨settled.inside, settled.outcome⟩
      have present := Suite.branch?_modify_self found (Cursor.recordAfterBranch index error)
      rcases goes with rfl | rfl
      · exact ⟨_, treads_at rfl present (Suite.keepsOthers_modify _ _ _) follows completed⟩
      · exact ⟨_, rfl, present, Suite.keepsOthers_modify _ _ _, follows, by simp [Cursor.remains],
          fun _ => completed⟩

end Treads

end Run

end TestTree
