import Mathlib.Algebra.Ring.Nat
import TestTree.Proofs.Run.Foresight

namespace TestTree

namespace Branch

/-- What is left of a branch: its claim, the steps not yet taken, and its end. -/
def left (branch : Branch) : Nat :=
  if branch.status.isCompleted then 0
  else branch.steps.length - branch.nextIndex + (if branch.status.isRunning then 1 else 2)

variable {branch : Branch}

theorem left_of_completed (completed : branch.status.isCompleted = true) : branch.left = 0 := by
  rw [left, if_pos completed]

theorem left_of_active (active : branch.isActive = true) :
    branch.left = branch.steps.length - branch.nextIndex + 1 := by
  obtain ⟨running, unfinished⟩ := isActive_iff.mp active
  rw [left, running, unfinished]
  rfl

/-- How many hooks there are around a branch and its steps is laid down in its plan. -/
theorem lengths_of_plan {later : Branch} (plan : later.plan = branch.plan) :
    later.beforeEveryBranch.length = branch.beforeEveryBranch.length ∧
      later.afterEveryBranch.length = branch.afterEveryBranch.length ∧
      later.beforeEveryStep.length = branch.beforeEveryStep.length ∧
      later.afterEveryStep.length = branch.afterEveryStep.length := by
  have entry := congrArg (·.beforeEveryBranch.length) plan
  have exit := congrArg (·.afterEveryBranch.length) plan
  have before := congrArg (·.beforeEveryStep.length) plan
  have after := congrArg (·.afterEveryStep.length) plan
  simp only [Branch.plan, Branch.reset, List.length_map] at entry exit before after
  exact ⟨entry, exit, before, after⟩

theorem left_le (branch : Branch) : branch.left ≤ branch.steps.length + 2 := by
  rw [left]
  split
  · exact Nat.zero_le _
  · split <;> omega

end Branch

namespace Run

variable {Call Env : Type} {setting : Setting Call Env}

theorem sum_map_set {α : Type} (value : α → Nat) {list : List α} {index : Nat} {old : α}
    (found : list[index]? = some old) (new : α) :
    ((list.set index new).map value).sum + value old = (list.map value).sum + value new := by
  obtain ⟨rest, before, after⟩ := perm_set found new
  rw [(before.map value).sum_nat, (after.map value).sum_nat, List.map_cons, List.map_cons, List.sum_cons,
    List.sum_cons]
  omega

/-- How far an activity is from the end of the walk, if no further step is taken. -/
def Activity.weight (branch : Branch) : Activity Call → Nat
  | .afterBranchFailed index _ => 2 * (branch.afterEveryBranch.length - index) + 3
  | .afterBranch index _ => 2 * (branch.afterEveryBranch.length - index) + 4
  | .closing => 2 * branch.afterEveryBranch.length + 5
  | .lookingAhead => 2 * branch.afterEveryBranch.length + 6
  | .skipping _ => 2 * branch.afterEveryBranch.length + 7
  | .taking => 2 * branch.afterEveryBranch.length + 8
  | .looping => 2 * branch.afterEveryBranch.length + 9
  | .marking _ _ => 2 * branch.afterEveryBranch.length + 10
  | .afterStep _ index _ _ =>
      2 * branch.afterEveryBranch.length + (branch.afterEveryStep.length - index) + 11
  | .body _ _ => 2 * branch.afterEveryBranch.length + branch.afterEveryStep.length + 12
  | .beforeStep _ index _ => 2 * branch.afterEveryBranch.length + branch.afterEveryStep.length +
      (branch.beforeEveryStep.length - index) + 13
  | .preparing _ | .beforeBranchFailed _ _ => 2 * branch.afterEveryBranch.length +
      branch.afterEveryStep.length + branch.beforeEveryStep.length + 14
  | .beforeBranch index _ => 2 * branch.afterEveryBranch.length + branch.afterEveryStep.length +
      branch.beforeEveryStep.length + (branch.beforeEveryBranch.length - index) + 15
  | .opening => 2 * branch.afterEveryBranch.length + branch.afterEveryStep.length +
      branch.beforeEveryStep.length + branch.beforeEveryBranch.length + 16

/-- The call of the body that an activity runs. -/
def Activity.call? : Activity Call → Option Call
  | .beforeBranch _ call | .beforeStep _ _ call | .body _ call | .afterStep _ _ _ call
  | .afterBranch _ call => some call
  | _ => none

/-- A step in front of which a cursor waits is yet to be gone over. -/
def Cursor.held (cursor : Cursor) : Nat := if cursor.pending.isSome then 1 else 0

/-- How often the body of an activity may still go to sleep. -/
def Activity.patience (pure : setting.executor.Pure) : Activity Call → Nat
  | .beforeBranch _ call | .beforeStep _ _ call | .body _ call | .afterStep _ _ _ call
  | .afterBranch _ call => pure.length call
  | _ => 0

theorem three_le_weight (branch : Branch) (activity : Activity Call) : 3 ≤ activity.weight branch := by
  cases activity <;> simp only [Activity.weight] <;> omega

theorem weight_congr {branch other : Branch} (same : other.plan = branch.plan) (activity : Activity Call) :
    activity.weight other = activity.weight branch := by
  obtain ⟨entry, exit, before, after⟩ := Branch.lengths_of_plan same
  cases activity <;> simp only [Activity.weight, entry, exit, before, after]

section Beginnings

variable {branch : Branch} {cursor : Cursor} {step index : Nat}

theorem weight_beginBeforeBranch : (cursor.beginBeforeBranch setting branch index).weight branch <
    2 * branch.afterEveryBranch.length + branch.afterEveryStep.length + branch.beforeEveryStep.length +
      (branch.beforeEveryBranch.length + 1 - index) + 15 := by
  unfold Cursor.beginBeforeBranch Cursor.hookOr
  split
  · next found =>
      have inside := (List.getElem?_eq_some_iff.mp found).1
      simp only [Activity.weight]
      omega
  · simp only [Activity.weight]
    omega

theorem weight_beginAfterBranch {next : Activity Call}
    (begins : cursor.beginAfterBranch setting branch index = .onward next) :
    next.weight branch < 2 * (branch.afterEveryBranch.length + 1 - index) + 3 := by
  unfold Cursor.beginAfterBranch at begins
  split at begins
  · next found =>
      have inside := (List.getElem?_eq_some_iff.mp found).1
      obtain rfl := Turn.onward.inj begins
      simp only [Activity.weight]
      omega
  · cases begins

theorem weight_beginAfterStep {error : Option StepError} :
    (cursor.beginAfterStep setting branch step index error).weight branch <
      2 * branch.afterEveryBranch.length + (branch.afterEveryStep.length + 1 - index) + 11 := by
  unfold Cursor.beginAfterStep Cursor.hookOr
  split
  · next found =>
      have inside := (List.getElem?_eq_some_iff.mp found).1
      simp only [Activity.weight]
      omega
  · simp only [Activity.weight]
    omega

theorem weight_endBody {value : Option Text} :
    (cursor.endBody setting branch step value).2.weight branch <
      2 * branch.afterEveryBranch.length + branch.afterEveryStep.length + 12 := by
  unfold Cursor.endBody
  split
  · simp only [Activity.weight]
    omega
  · refine Nat.lt_of_lt_of_le weight_beginAfterStep ?_
    omega

theorem weight_beginBody : (cursor.beginBody setting branch step).2.weight branch <
    2 * branch.afterEveryBranch.length + branch.afterEveryStep.length + 13 := by
  unfold Cursor.beginBody
  split
  · simp only [Activity.weight]
    omega
  · dsimp only
    split
    · refine Nat.lt_of_lt_of_le weight_beginAfterStep ?_
      omega
    · simp only [Activity.weight]
      omega
    · exact Nat.lt_succ_of_lt weight_endBody

theorem weight_beginBeforeStep : (cursor.beginBeforeStep setting branch step index).2.weight branch <
    2 * branch.afterEveryBranch.length + branch.afterEveryStep.length +
      (branch.beforeEveryStep.length + 1 - index) + 13 := by
  unfold Cursor.beginBeforeStep
  split
  · next found =>
      have inside := (List.getElem?_eq_some_iff.mp found).1
      simp only [Activity.weight]
      omega
  · refine Nat.lt_of_lt_of_le weight_beginBody ?_
    omega

end Beginnings

theorem pending_beginBeforeStep (cursor : Cursor) (branch : Branch) (step index : Nat) :
    (cursor.beginBeforeStep setting branch step index).1.pending = cursor.pending := by
  obtain ⟨scope, same, -⟩ := Cursor.beginBeforeStep_eq setting branch cursor step index
  rw [same]

theorem pending_endBody (cursor : Cursor) (branch : Branch) (step : Nat) (value : Option Text) :
    (cursor.endBody setting branch step value).1.pending = cursor.pending := by
  obtain ⟨scope, error, same, -⟩ := Cursor.endBody_eq setting branch cursor step value
  rw [same]

section Turns

variable {purpose : Purpose} {branch later : Branch} {cursor next : Cursor} {shared after : Shared Env}
  {activity further : Activity Call}

/-- A turn takes a step, or comes nearer to the end, or gives a turn to a body that sleeps on. -/
structure Nears (branch later : Branch) (cursor : Cursor) (activity : Activity Call)
    (move : Move Call Env) : Prop where
  left : later.left + move.cursor.held ≤ branch.left + cursor.held
  onward : ∀ next, move.turn = .onward next →
    later.left + move.cursor.held < branch.left + cursor.held ∨
      next.weight branch < activity.weight branch
  asleep : ∀ time next, move.turn = .asleep time next → next.weight branch = activity.weight branch

theorem nears_onward (left : later.left + next.held ≤ branch.left + cursor.held)
    (nearer : later.left + next.held < branch.left + cursor.held ∨
      further.weight branch < activity.weight branch) :
    Nears branch later cursor activity (⟨after, next, .onward further⟩ : Move Call Env) := by
  refine ⟨left, ?_, nofun⟩
  intro _ same
  obtain rfl := Turn.onward.inj same
  exact nearer

theorem nears_lighter {bound : Nat} (lighter : further.weight branch < bound)
    (pending : next.pending = cursor.pending) (within : bound ≤ activity.weight branch) :
    Nears branch branch cursor activity (⟨after, next, .onward further⟩ : Move Call Env) := by
  refine nears_onward ?_ (.inr (Nat.lt_of_lt_of_le lighter within))
  rw [Cursor.held, pending]
  exact Nat.le_refl _

theorem nears_left {departure : Departure}
    (left : later.left + next.held ≤ branch.left + cursor.held) :
    Nears branch later cursor activity (⟨after, next, .left departure⟩ : Move Call Env) :=
  ⟨left, nofun, nofun⟩

theorem nears_beginAfterBranch {index : Nat}
    (left : later.left + next.held ≤ branch.left + cursor.held) (plan : later.plan = branch.plan)
    (weight : 2 * (branch.afterEveryBranch.length + 1 - index) + 3 ≤ activity.weight branch) :
    Nears branch later cursor activity
      (⟨after, next, next.beginAfterBranch setting later index⟩ : Move Call Env) := by
  obtain ⟨-, same, -⟩ := Branch.lengths_of_plan plan
  refine ⟨left, ?_, ?_⟩
  · intro further begins
    have lighter := weight_beginAfterBranch begins
    rw [same, weight_congr plan] at lighter
    exact .inr (Nat.lt_of_lt_of_le lighter weight)
  · intro time further begins
    dsimp only at begins
    unfold Cursor.beginAfterBranch at begins
    split at begins <;> cases begins

theorem left_advances {taken : Option Nat} (between : Between branch)
    (advances : branch.Advances taken later) :
    later.left ≤ branch.left ∧ (taken ≠ none → later.left < branch.left) := by
  cases taken with
  | none =>
      refine ⟨?_, fun some => absurd rfl some⟩
      cases advances with
      | ended => exact Nat.le_refl _
      | exhausted | blocked =>
          rw [Branch.left_of_completed branch.completed_of_finish]
          exact Nat.zero_le _
  | some step =>
      obtain ⟨after, faces, -⟩ := faces_of_advances between advances
      have next := Branch.nextIndex_of_marks_some faces.marks faces.inside
      cases advances with
      | advanced unfinished found automatic =>
          have inside := (List.getElem?_eq_some_iff.mp found).1
          have active : branch.isActive = true := by
            rcases between with completed | ⟨active, -⟩
            · simp [completed] at unfinished
            · exact active
          have length : (branch.advanceTo branch.nextIndex).steps.length = branch.steps.length := by
            simp [Branch.advanceTo]
          have less : (branch.advanceTo branch.nextIndex).left < branch.left := by
            rw [Branch.left_of_active after, Branch.left_of_active active, next, length]
            omega
          exact ⟨Nat.le_of_lt less, fun _ => less⟩

theorem left_markAt {step : Nat} {outcome : Outcome} {stopBranch : Bool}
    (active : branch.isActive = true) (faces : branch.Faces step) :
    (branch.markAt step outcome stopBranch).left ≤ branch.left := by
  unfold Branch.markAt
  split
  · rw [Branch.left_of_completed (Branch.completed_of_finish _)]
    exact Nat.zero_le _
  · have passes := faces.recordAt outcome
    have still : (branch.recordAt step outcome).isActive = true := active
    rw [Branch.left_of_active active, Branch.left_of_active still,
      Branch.nextIndex_of_marks_some passes.marks passes.inside,
      Branch.nextIndex_of_marks_some faces.marks faces.inside]
    simp [Branch.recordAt]

theorem left_skipStepAt {step : Nat} (active : branch.isActive = true) (faces : branch.Faces step) :
    (Cursor.skipStepAt step branch).left ≤ branch.left := by
  have passes := faces.skipStepAt
  have still : (Cursor.skipStepAt step branch).isActive = true := active
  rw [Branch.left_of_active active, Branch.left_of_active still,
    Branch.nextIndex_of_marks_some passes.marks passes.inside,
    Branch.nextIndex_of_marks_some faces.marks faces.inside]
  simp [Cursor.skipStepAt]

/-- Whoever takes a step has one less to go over. -/
theorem nears_onTaken {step : Nat}
    (less : later.left < branch.left + cursor.held) :
    Nears branch later cursor .taking
      (({ cursor with pending := none } : Cursor).onTaken purpose after step : Move Call Env) := by
  cases purpose with
  | step | skip => exact nears_onward (Nat.le_of_lt less) (.inl less)
  | run =>
      simp only [Cursor.onTaken]
      split
      · exact nears_left less
      · exact nears_onward (Nat.le_of_lt less) (.inl less)

theorem nears_taking (found : shared.suite.branch? cursor.branch = some branch)
    (stands : Stage.taking.Stands cursor branch)
    (present : (cursor.turn setting purpose shared .taking).shared.suite.branch? cursor.branch =
      some later) :
    Nears branch later cursor .taking (cursor.turn setting purpose shared .taking) := by
  obtain ⟨-, ⟨step, pending, waits⟩ | ⟨free, between⟩⟩ := stands
  · have same : later = branch := by
      simp only [Cursor.turn, Cursor.take, pending] at present
      rw [Cursor.suite_onTaken] at present
      exact Option.some.inj (present.symm.trans found)
    subst same
    simp only [Cursor.turn, Cursor.take, pending]
    refine nears_onTaken ?_
    rw [Cursor.held, pending]
    exact Nat.lt_succ_self _
  · obtain ⟨after, advances, there, -⟩ := Suite.nextStep_advances found setting.skipRepeat
    obtain ⟨left, takes⟩ := left_advances between advances
    simp only [Cursor.turn, Cursor.take, free] at present ⊢
    cases taken : (shared.suite.nextStep cursor.branch true setting.skipRepeat).1 with
    | none =>
        simp only [taken] at present
        obtain rfl := Option.some.inj (there.symm.trans present)
        refine nears_onward (Nat.add_le_add left (Nat.zero_le _)) (.inr ?_)
        simp only [Activity.weight]
        omega
    | some step =>
        simp only [taken] at present
        rw [Cursor.suite_onTaken] at present
        obtain rfl := Option.some.inj (there.symm.trans present)
        exact nears_onTaken (Nat.lt_add_right _ (takes (by simp [taken])))

/-- A body that sleeps on leaves the walk where it is. -/
theorem nears_waiting {call later : Call} {time : Nat} (runs : activity.call? = some call)
    (advanced : shared.advance setting call = (.waiting time later, after)) :
    Nears branch branch cursor activity (cursor.turn setting purpose shared activity) := by
  cases activity with
  | beforeBranch | beforeStep | body | afterStep | afterBranch =>
      obtain rfl := Option.some.inj runs
      simp only [Cursor.turn, advanced]
      refine ⟨Nat.le_refl _, ?_, ?_⟩
      · rintro _ ⟨⟩
      · rintro _ _ ⟨⟩
        rfl
  | opening | beforeBranchFailed | looping | taking | skipping | preparing | marking | lookingAhead
  | closing | afterBranchFailed => cases runs

/-- A body that ends leads on to what stands behind it. -/
theorem nears_done {call : Call} {result : Except Text (Option Text)} {scope : Variables}
    {world : World Env} (found : shared.suite.branch? cursor.branch = some branch)
    (runs : activity.call? = some call)
    (advanced : shared.advance setting call = (.done result scope, { shared with world })) :
    Nears branch branch cursor activity (cursor.turn setting purpose shared activity) := by
  have own := branch_of_found found world
  cases activity with
  | beforeBranch index call =>
      obtain rfl := Option.some.inj runs
      simp only [Cursor.turn, advanced, own]
      split
      · refine nears_lighter (Nat.lt_succ_self _) rfl ?_
        simp only [Activity.weight]
        omega
      · refine nears_lighter weight_beginBeforeBranch rfl ?_
        simp only [Activity.weight]
        omega
  | beforeStep step index call =>
      obtain rfl := Option.some.inj runs
      simp only [Cursor.turn, advanced, own]
      split
      · refine nears_lighter weight_beginAfterStep rfl ?_
        simp only [Activity.weight]
        omega
      · refine nears_lighter weight_beginBeforeStep (pending_beginBeforeStep _ _ _ _) ?_
        simp only [Activity.weight]
        omega
  | body step call =>
      obtain rfl := Option.some.inj runs
      simp only [Cursor.turn, advanced, own]
      split
      · refine nears_lighter weight_beginAfterStep rfl ?_
        simp only [Activity.weight]
        omega
      · exact nears_lighter weight_endBody (pending_endBody _ _ _ _) (Nat.le_refl _)
  | afterStep step index error call =>
      obtain rfl := Option.some.inj runs
      simp only [Cursor.turn, advanced, own]
      refine nears_lighter weight_beginAfterStep rfl ?_
      simp only [Activity.weight]
      omega
  | afterBranch index call =>
      obtain rfl := Option.some.inj runs
      simp only [Cursor.turn, advanced, own]
      split
      · refine nears_lighter (Nat.lt_succ_self _) rfl ?_
        simp only [Activity.weight]
        omega
      · refine nears_beginAfterBranch (Nat.le_refl _) rfl ?_
        simp only [Activity.weight]
        omega
  | opening | beforeBranchFailed | looping | taking | skipping | preparing | marking | lookingAhead
  | closing | afterBranchFailed => cases runs

theorem nears_beforeBranchFailed {index : Nat} {error : StepError}
    (found : shared.suite.branch? cursor.branch = some branch)
    (present : (shared.modify cursor.branch (Cursor.recordBeforeBranch index error)).suite.branch?
      cursor.branch = some later) :
    Nears branch later cursor (.beforeBranchFailed index error)
      (⟨after, cursor, .onward .closing⟩ : Move Call Env) := by
  rw [Shared.modify, Suite.branch?_modify_self found] at present
  obtain rfl := Option.some.inj present
  have ended : (Cursor.recordBeforeBranch index error branch).status.isCompleted = true := by
    simp [Cursor.recordBeforeBranch, Status.isCompleted]
  refine nears_onward ?_ (.inr ?_)
  · rw [Branch.left_of_completed ended]
    exact Nat.add_le_add_right (Nat.zero_le _) _
  · simp only [Activity.weight]
    omega

theorem nears_afterBranchFailed {index : Nat} {error : StepError}
    (found : shared.suite.branch? cursor.branch = some branch)
    (completed : branch.status.isCompleted = true)
    (present : (shared.modify cursor.branch (Cursor.recordAfterBranch index error)).suite.branch?
      cursor.branch = some later) :
    Nears branch later cursor (.afterBranchFailed index error)
      (cursor.turn setting purpose shared (.afterBranchFailed index error)) := by
  have own := Shared.branch_eq present
  rw [Shared.modify, Suite.branch?_modify_self found] at present
  have recorded := Option.some.inj present
  have ended : later.status.isCompleted = true := by
    rw [← recorded]
    exact completed_of_recordAfterBranch completed
  have plan : later.plan = branch.plan := by
    rw [← recorded]
    exact Cursor.plan_recordAfterBranch index error branch
  simp only [Cursor.turn]
  rw [own]
  refine nears_beginAfterBranch ?_ plan ?_
  · rw [Branch.left_of_completed ended]
    exact Nat.add_le_add_right (Nat.zero_le _) _
  · simp only [Activity.weight]
    omega

theorem nears_marking {step : Nat} {error : Option StepError}
    (found : shared.suite.branch? cursor.branch = some branch)
    (stands : (Stage.behind step error).Stands cursor branch)
    (present : (cursor.turn setting purpose shared (.marking step error)).shared.suite.branch?
      cursor.branch = some later) :
    Nears branch later cursor (.marking step error)
      (cursor.turn setting purpose shared (.marking step error)) := by
  obtain ⟨started, active, faces, free⟩ := stands
  have own := branch_of_found found shared.world
  simp only [Cursor.turn, Cursor.mark] at present ⊢
  rw [(Suite.markStep_marks found step _ _ setting.skipRepeat).1] at present
  obtain rfl := Option.some.inj present
  refine nears_onward (Nat.add_le_add_right (left_markAt active faces) _) (.inr ?_)
  split <;> simp only [Activity.weight] <;> omega

theorem nears_lookingAhead (found : shared.suite.branch? cursor.branch = some branch)
    (stands : Stage.lookingAhead.Stands cursor branch)
    (present : (cursor.turn setting purpose shared .lookingAhead).shared.suite.branch? cursor.branch =
      some later) :
    Nears branch later cursor .lookingAhead (cursor.turn setting purpose shared .lookingAhead) := by
  obtain ⟨started, free, stands⟩ := stands
  have between : Between branch := stands.imp_right fun ⟨active, passes⟩ => ⟨active, .inr passes⟩
  obtain ⟨after, advances, there, -⟩ := Suite.nextStep_advances found setting.skipRepeat
  obtain ⟨left, takes⟩ := left_advances between advances
  simp only [Cursor.turn, Cursor.lookAhead] at present ⊢
  cases taken : (shared.suite.nextStep cursor.branch true setting.skipRepeat).1 with
  | none =>
      simp only [taken] at present
      obtain rfl := Option.some.inj (there.symm.trans present)
      refine nears_onward (Nat.add_le_add_right left _) (.inr ?_)
      simp only [Activity.weight]
      omega
  | some step =>
      simp only [taken] at present
      obtain rfl := Option.some.inj (there.symm.trans present)
      exact nears_left (Nat.lt_add_right _ (takes (by simp [taken])))

/-- Every turn of a walk brings it nearer to its end, but for one of a body that sleeps on. -/
theorem nears_turn (purpose : Purpose) (found : shared.suite.branch? cursor.branch = some branch)
    (stands : activity.stage.Stands cursor branch)
    (present : (cursor.turn setting purpose shared activity).shared.suite.branch? cursor.branch =
      some later) :
    Nears branch later cursor activity (cursor.turn setting purpose shared activity) := by
  have own := branch_of_found found shared.world
  have still (quiet : activity.isClerical = false) : later = branch := by
    rw [suite_turn quiet] at present
    exact Option.some.inj (present.symm.trans found)
  cases activity with
  | beforeBranch | beforeStep | body | afterStep | afterBranch =>
      obtain rfl := still rfl
      obtain ⟨reply, world, advanced⟩ := Cursor.advance_eq setting shared _
      rcases reply with ⟨time, next⟩ | ⟨result, scope⟩
      · exact nears_waiting rfl advanced
      · exact nears_done found rfl advanced
  | opening =>
      obtain rfl := still rfl
      simp only [Cursor.turn]
      rw [own]
      refine nears_lighter weight_beginBeforeBranch rfl ?_
      simp only [Activity.weight]
      omega
  | beforeBranchFailed index error => exact nears_beforeBranchFailed found present
  | looping =>
      obtain rfl := still rfl
      simp only [Cursor.turn]
      split
      · exact nears_left (Nat.le_refl _)
      · split
        · exact nears_left (Nat.le_refl _)
        · exact nears_lighter (Nat.lt_succ_self _) rfl (Nat.le_refl _)
  | taking => exact nears_taking found stands present
  | skipping step =>
      obtain ⟨started, active, faces, free⟩ := stands
      simp only [Cursor.turn, Shared.modify, Suite.branch?_modify_self found] at present ⊢
      obtain rfl := Option.some.inj present
      refine nears_onward (Nat.add_le_add_right (left_skipStepAt active faces) _) (.inr ?_)
      simp only [Activity.weight]
      omega
  | preparing step =>
      obtain rfl := still rfl
      simp only [Cursor.turn]
      rw [own]
      refine nears_lighter weight_beginBeforeStep (pending_beginBeforeStep _ _ _ _) ?_
      simp only [Activity.weight]
      omega
  | marking step error => exact nears_marking found stands present
  | lookingAhead => exact nears_lookingAhead found stands present
  | closing =>
      obtain rfl := still rfl
      simp only [Cursor.turn]
      rw [own]
      refine nears_beginAfterBranch (Nat.add_le_add_left (Nat.zero_le _) _) rfl ?_
      simp only [Activity.weight]
      omega
  | afterBranchFailed index error => exact nears_afterBranchFailed found stands present

theorem ne_asleep_beginAfterBranch {index time : Nat} :
    cursor.beginAfterBranch setting branch index ≠ .asleep time further := by
  unfold Cursor.beginAfterBranch
  split <;> exact nofun

/-- A body that ends does not sleep on. -/
theorem ne_asleep_of_done {call : Call} {result : Except Text (Option Text)} {scope : Variables}
    {time : Nat} (runs : activity.call? = some call)
    (advanced : shared.advance setting call = (.done result scope, after)) :
    (cursor.turn setting purpose shared activity).turn ≠ .asleep time further := by
  cases activity with
  | beforeBranch | beforeStep | body =>
      obtain rfl := Option.some.inj runs
      simp only [Cursor.turn, advanced]
      split <;> rintro ⟨⟩
  | afterStep =>
      obtain rfl := Option.some.inj runs
      simp only [Cursor.turn, advanced]
      rintro ⟨⟩
  | afterBranch =>
      obtain rfl := Option.some.inj runs
      simp only [Cursor.turn, advanced]
      split
      · rintro ⟨⟩
      · exact ne_asleep_beginAfterBranch
  | opening | beforeBranchFailed | looping | taking | skipping | preparing | marking | lookingAhead
  | closing | afterBranchFailed => cases runs

/-- Only a body whose call waits makes a walk sleep. -/
theorem waiting_of_asleep {time : Nat}
    (asleep : (cursor.turn setting purpose shared activity).turn = .asleep time further) :
    ∃ call next, activity.call? = some call ∧ further.call? = some next ∧
      (setting.executor.advance call shared.world).1 = .waiting time next := by
  cases activity with
  | beforeBranch _ call | beforeStep _ _ call | body _ call | afterStep _ _ _ call
  | afterBranch _ call =>
      rcases replied : setting.executor.advance call shared.world with ⟨⟨wait, next⟩ | ⟨result, scope⟩, world⟩
      · simp only [Cursor.turn, Shared.advance, replied] at asleep
        obtain ⟨rfl, rfl⟩ := Turn.asleep.inj asleep
        exact ⟨call, next, rfl, rfl, by rw [replied]⟩
      · have advanced : shared.advance setting call = (.done result scope, { shared with world }) := by
          rw [Shared.advance, replied]
        exact absurd asleep (ne_asleep_of_done rfl advanced)
  | opening | beforeBranchFailed | skipping | preparing | marking => cases asleep
  | closing | afterBranchFailed => exact absurd asleep ne_asleep_beginAfterBranch
  | looping =>
      simp only [Cursor.turn] at asleep
      split at asleep
      · cases asleep
      · split at asleep <;> cases asleep
  | taking =>
      simp only [Cursor.turn] at asleep
      split at asleep
      · cases purpose with
        | step | skip => cases asleep
        | run =>
            simp only [Cursor.onTaken] at asleep
            split at asleep <;> cases asleep
      · cases asleep
  | lookingAhead =>
      simp only [Cursor.turn, Cursor.lookAhead] at asleep
      split at asleep <;> cases asleep

/-- A body whose calls do not sleep for ever has less to wait for when it sleeps on. -/
theorem patience_of_asleep (pure : setting.executor.Pure) {time : Nat}
    (asleep : (cursor.turn setting purpose shared activity).turn = .asleep time further) :
    further.patience pure < activity.patience pure := by
  obtain ⟨call, next, runs, sleeps, waits⟩ := waiting_of_asleep asleep
  have patient {activity : Activity Call} {call : Call} (runs : activity.call? = some call) :
      activity.patience pure = pure.length call := by
    cases activity <;> cases runs <;> rfl
  rw [patient runs, patient sleeps]
  exact pure.shortens call shared.world time next waits

end Turns

end Run

end TestTree
