import TestTree.Proofs.Run.Faults

namespace TestTree

namespace Branch

variable {results : Run.Results} {branch : Branch}

theorem FailsAt.inside {index : Nat} {error : StepError} (fails : branch.FailsAt results index error) :
    index < branch.steps.length := by
  obtain ⟨step, scope, starts, -⟩ := fails
  exact (List.getElem?_eq_some_iff.mp starts.found).1

theorem FailsAt.unique {index other : Nat} {error fault : StepError}
    (fails : branch.FailsAt results index error) (also : branch.FailsAt results other fault) :
    other = index ∧ fault = error := by
  obtain ⟨step, scope, starts, failed⟩ := fails
  obtain ⟨fellow, start, begins, faulty⟩ := also
  have after : other ≤ index := FailsAt.last ⟨step, scope, starts, failed⟩ begins.reached
  have before : index ≤ other := FailsAt.last ⟨fellow, start, begins, faulty⟩ starts.reached
  obtain rfl := Nat.le_antisymm after before
  obtain rfl := Option.some.inj (starts.found.symm.trans begins.found)
  obtain rfl := Option.some.inj (starts.reached.symm.trans begins.reached)
  exact ⟨rfl, Option.some.inj (faulty.symm.trans failed)⟩

theorem FailsAt.passes {index earlier : Nat} {error : StepError}
    (fails : branch.FailsAt results index error) (before : earlier ≤ index) :
    ∃ step scope, branch.Starts results earlier step scope := by
  obtain ⟨step, scope, starts, -⟩ := fails
  rcases Nat.lt_or_eq_of_le before with less | rfl
  · obtain ⟨body, start, -, begins, -⟩ := reaches_earlier starts.reached less
    exact ⟨body, start, begins⟩
  · exact ⟨step, scope, starts⟩

/-- The branch has failed at a step with this error. -/
structure FailedAt (step : Nat) (error : StepError) (branch : Branch) : Prop where
  failed : branch.status.isFailed = true
  unpassed : branch.status.isPassed = false
  first : branch.firstFailure = some step
  error : branch.errorAt step = some error

theorem failedAt_markAt {step : Nat} {error : StepError} {outcome : Outcome}
    (inside : step < branch.steps.length) (clean : ∀ step ∈ branch.steps, step.status.isFailed = false)
    (failed : outcome.isPassed = false) (recorded : outcome.error = some error) :
    (branch.markAt step outcome true).FailedAt step error := by
  have ends : branch.markAt step outcome true = (branch.recordAt step outcome).finish := by
    rw [markAt, if_pos (by simp)]
  have first : (branch.recordAt step outcome).firstFailure = some step := by
    rw [firstFailure_recordAt inside clean, failed]
    rfl
  refine ⟨?_, ?_, ?_, (errorAt_markAt inside).trans recorded⟩
  · rw [ends, finish, first]
    rfl
  · rw [ends, finish, first]
    rfl
  · rw [ends, firstFailure_finish]
    exact first

end Branch

namespace Run

variable {Call Env : Type} {setting : Setting Call Env} {pure : setting.executor.Functional}
  {cursor : Cursor} {shared : Shared Env} {branch later : Branch} {step : Nat} {error : StepError}

theorem ended_of_advances {taken : Option Nat} (fails : branch.FailsAt pure.results step error)
    (reached : branch.status.isCompleted = false →
      branch.reaches pure.results branch.nextIndex = some cursor.scope)
    (advances : branch.Advances taken later) (ended : later.status.isCompleted = true) :
    later = branch := by
  cases advances with
  | ended => rfl
  | exhausted unfinished behind =>
      have front := fails.last (reached unfinished)
      obtain ⟨body, start, begins⟩ := fails.passes front
      rw [begins.found] at behind
      cases behind
  | blocked unfinished found byHand =>
      have front := fails.last (reached unfinished)
      obtain ⟨body, start, begins⟩ := fails.passes front
      obtain rfl := Option.some.inj (found.symm.trans begins.found)
      have automatic := begins.automatic
      rw [BranchStep.isByHand, byHand] at automatic
      cases automatic
  | advanced unfinished =>
      have same : (branch.advanceTo branch.nextIndex).status.isCompleted = branch.status.isCompleted := rfl
      rw [same, unfinished] at ended
      cases ended

/-- A branch without a step to debug ends with the step that it is bound to fail at. -/
theorem failedAt_of_marking {reached : Nat} {result : Option StepError}
    (fails : branch.FailsAt pure.results step error)
    (clean : ∀ step ∈ branch.steps, step.status.isFailed = false)
    (unfinished : branch.status.isCompleted = false)
    (foretold : Comes pure branch reached fun _ => (cursor.scope, result))
    (ended : (branch.markAt reached (outcomeOf branch reached result)
      (!result.isNone)).status.isCompleted = true) :
    (branch.markAt reached (outcomeOf branch reached result) (!result.isNone)).FailedAt step error := by
  obtain ⟨body, start, starts, fated⟩ := foretold
  cases result with
  | some fault =>
      obtain ⟨rfl, rfl⟩ := fails.unique ⟨body, start, starts, (congrArg (·.2) fated).symm⟩
      exact Branch.failedAt_markAt fails.inside clean rfl rfl
  | none =>
      have front := fails.last (starts.next fated.symm)
      have inside := Nat.lt_of_le_of_lt front fails.inside
      have goes : branch.markAt reached (outcomeOf branch reached none) (!Option.isNone (none : Option StepError)) =
          branch.recordAt reached (outcomeOf branch reached none) := by
        rw [Branch.markAt, if_neg]
        simpa using inside
      have same : (branch.recordAt reached (outcomeOf branch reached none)).status.isCompleted =
          branch.status.isCompleted := rfl
      rw [goes, same, unfinished] at ended
      cases ended

/-- A branch that is bound to fail ends a turn of its walk either unfinished or failed as it must. -/
theorem failedAt_turn {activity : Activity Call} {purpose : Purpose}
    (found : shared.suite.branch? cursor.branch = some branch)
    (stands : activity.stage.Stands cursor branch) (flows : cursor.Flows activity.stage)
    (undebugged : branch.hasDebugStep = false) (spotless : branch.Spotless)
    (foretold : Foretells pure branch cursor activity) (fails : branch.FailsAt pure.results step error)
    (kept : branch.status.isCompleted = true → branch.FailedAt step error)
    (present : (cursor.turn setting purpose shared activity).shared.suite.branch? cursor.branch =
      some later) (ended : later.status.isCompleted = true) : later.FailedAt step error := by
  have still (same : (cursor.turn setting purpose shared activity).shared.suite = shared.suite) :
      later.FailedAt step error := by
    rw [same] at present
    obtain rfl := Option.some.inj (found.symm.trans present)
    exact kept ended
  cases activity with
  | opening | beforeBranch | looping | preparing | beforeStep | body | afterStep | closing
  | afterBranch => exact still (suite_turn rfl)
  | skipping | lookingAhead => cases flows.along
  | beforeBranchFailed index fault =>
      obtain ⟨body, start, begins⟩ := fails.passes (Nat.zero_le _)
      have absent : branch.reaches pure.results 0 = none := foretold
      rw [begins.reached] at absent
      cases absent
  | taking =>
      rw [foretells_looping (.inr (.inl rfl)), flows.free] at foretold
      obtain ⟨after, advances, there, -⟩ := Suite.nextStep_advances found setting.skipRepeat
      rw [suite_taking flows.free] at present
      obtain rfl := Option.some.inj (there.symm.trans present)
      obtain rfl := ended_of_advances fails foretold advances ended
      exact kept ended
  | marking reached result =>
      obtain ⟨started, active, faces, free⟩ := stands
      have unfinished := (Branch.isActive_iff.mp active).2
      have clean := spotless.resolve_left (by simp [unfinished])
      obtain ⟨there, -⟩ := Suite.markStep_marks found reached (outcomeOf branch reached result)
        (!result.isNone) setting.skipRepeat
      rw [suite_marking found undebugged] at present
      obtain rfl := Option.some.inj (there.symm.trans present)
      exact failedAt_of_marking fails clean unfinished foretold ended
  | afterBranchFailed index fault =>
      have present : (shared.modify cursor.branch (Cursor.recordAfterBranch index fault)).suite.branch?
          cursor.branch = some later := present
      rw [Shared.modify, Suite.branch?_modify_self found] at present
      obtain rfl := Option.some.inj present
      obtain ⟨failed, unpassed, first, recorded⟩ := kept stands
      have same : (Cursor.recordAfterBranch index fault branch).status = branch.status := by
        simp [Cursor.recordAfterBranch, unpassed]
      refine ⟨?_, ?_, first, recorded⟩
      · rw [same]
        exact failed
      · rw [same]
        exact unpassed

end Run

end TestTree
