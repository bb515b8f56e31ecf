import TestTree.Proofs.Run.Faults

namespace TestTree

open Run

section Destinies

variable (results : Results)

namespace Branch

/-- All hooks after the branch run, the first of these at `index`. -/
def closing : List Hook → Nat → Variables → Branch → Branch
  | [], _, _, branch => branch
  | hook :: rest, index, scope, branch =>
      match results hook.codeBlock hook.text scope with
      | (.ok _, scope) => closing rest (index + 1) scope branch
      | (.error message, scope) =>
          closing rest (index + 1) scope
            (Cursor.recordAfterBranch index (hook.failure message) branch)

def closed (scope : Variables) (branch : Branch) : Branch :=
  branch.closing results branch.afterEveryBranch 0 scope

/-- The branch behind these steps, the first of which is at `index`. A failed step, and one that is to be
done by hand, is the last. -/
def following : List BranchStep → Nat → Variables → Branch → Branch
  | [], _, scope, branch =>
      (if branch.status.isCompleted then branch else branch.finish).closed results scope
  | step :: rest, index, scope, branch =>
      if branch.status.isCompleted then branch.closed results scope
      else if step.isByHand then branch.finish.closed results scope
      else
        let taken := branch.advanceTo index
        let (after, error) := taken.fate results step scope
        following rest (index + 1) after
          (taken.markAt index (outcomeOf taken index error) (!error.isNone))

/-- The branch behind a step that it is at. -/
def passing (index : Nat) (step : BranchStep) (scope : Variables) (branch : Branch) : Branch :=
  let (after, error) := branch.fate results step scope
  (branch.markAt index (outcomeOf branch index error) (!error.isNone)).following results
    (branch.plan.steps.drop (index + 1)) (index + 1) after

/-- The branch behind these hooks in front of it; the first that fails keeps it from running. -/
def entered : List Hook → Nat → Variables → Branch → Branch
  | [], _, scope, branch => branch.following results branch.plan.steps 0 scope
  | hook :: rest, index, scope, branch =>
      match results hook.codeBlock hook.text scope with
      | (.ok _, scope) => entered rest (index + 1) scope branch
      | (.error message, scope) =>
          (Cursor.recordBeforeBranch index (hook.failure message) branch).closed results scope

/-- What becomes of the branch once it is claimed. -/
def destiny (branch : Branch) : Branch :=
  (Suite.markRunning branch).entered results branch.beforeEveryBranch 0 {}

variable {results} {branch after : Branch} {scope : Variables}

theorem completed_closing (hooks : List Hook) (index : Nat)
    (completed : branch.status.isCompleted = true) :
    (branch.closing results hooks index scope).status.isCompleted = true := by
  induction hooks generalizing index scope branch with
  | nil => exact completed
  | cons hook rest ih =>
      rw [closing]
      split
      · exact ih _ completed
      · exact ih _ (completed_of_recordAfterBranch completed)

theorem completed_following (steps : List BranchStep) (index : Nat) :
    (branch.following results steps index scope).status.isCompleted = true := by
  induction steps generalizing index scope branch with
  | nil =>
      rw [following]
      apply completed_closing
      split
      · assumption
      · exact branch.completed_of_finish
  | cons step rest ih =>
      rw [following]
      split
      · next completed => exact completed_closing _ _ completed
      · split
        · exact completed_closing _ _ branch.completed_of_finish
        · exact ih _

/-- A branch that is claimed is bound to come to its end. -/
theorem completed_destiny (branch : Branch) :
    (branch.destiny results).status.isCompleted = true := by
  have entered (hooks : List Hook) (index : Nat) (scope : Variables) (branch : Branch) :
      (branch.entered results hooks index scope).status.isCompleted = true := by
    induction hooks generalizing index scope branch with
    | nil => exact completed_following _ _
    | cons hook rest ih =>
        rw [Branch.entered]
        split
        · exact ih _ _ _
        · exact completed_closing _ _ (by simp [Cursor.recordBeforeBranch, Status.isCompleted])
  exact entered _ _ _ _

theorem following_of_completed (steps : List BranchStep) (index : Nat)
    (completed : branch.status.isCompleted = true) :
    branch.following results steps index scope = branch.closed results scope := by
  cases steps with
  | nil => rw [following, if_pos completed]
  | cons step rest => rw [following, if_pos completed]

theorem drop_plan (branch : Branch) (index : Nat) :
    branch.plan.steps.drop index = (branch.steps[index]?.map fun step =>
      step.reset :: branch.plan.steps.drop (index + 1)).getD [] := by
  have planned := branch.steps_plan index
  cases found : branch.steps[index]? with
  | none =>
      rw [found, Option.map_none] at planned
      exact List.drop_eq_nil_of_le (List.getElem?_eq_none_iff.mp planned)
  | some step =>
      rw [found, Option.map_some] at planned
      exact drop_cons planned

theorem following_of_ended (advances : branch.Advances none after) :
    branch.following results (branch.plan.steps.drop branch.nextIndex) branch.nextIndex scope =
      after.closed results scope := by
  cases advances with
  | ended completed => exact following_of_completed _ _ completed
  | exhausted unfinished behind =>
      rw [drop_plan, behind, Option.map_none, Option.getD_none, following, unfinished]
      rfl
  | @blocked step unfinished found byHand =>
      have byHand : step.reset.isByHand = true := byHand
      rw [drop_plan, found, Option.map_some, Option.getD_some, following, unfinished, byHand]
      rfl

theorem following_of_taken {index : Nat} {step : BranchStep}
    (advances : branch.Advances (some index) after)
    (starts : after.Starts results index step scope) :
    branch.following results (branch.plan.steps.drop branch.nextIndex) branch.nextIndex scope =
      after.passing results index step scope := by
  cases advances with
  | @advanced taken unfinished found automatic =>
      have plan := plan_advanceTo branch.nextIndex branch
      have same : taken.reset = step.reset := by
        have planned := (branch.advanceTo branch.nextIndex).steps_plan branch.nextIndex
        rw [plan, steps_plan, found, starts.found] at planned
        exact Option.some.inj planned
      have automatic : step.reset.isByHand = false := starts.automatic
      rw [drop_plan, found, Option.map_some, Option.getD_some, following]
      simp only [unfinished, automatic, Bool.false_eq_true, if_false, same, fate_reset, passing, plan]

end Branch

end Destinies

namespace Run

variable {Call Env : Type} {setting : Setting Call Env}

section Destined

variable (pure : setting.executor.Functional) (final branch : Branch)

/-- What is left to do along the branch makes it `final`. At a step it does not matter how far the step
has come. -/
def Destined (cursor : Cursor) : Activity Call → Prop
  | .opening => final = branch.entered pure.results branch.beforeEveryBranch 0 cursor.scope
  | .beforeBranch index call => ∃ scope hook, branch.beforeEveryBranch[index]? = some hook ∧
      pure.Computes call hook.codeBlock hook.text scope ∧
      final = branch.entered pure.results (branch.beforeEveryBranch.drop index) index scope
  | .beforeBranchFailed index error =>
      final = (Cursor.recordBeforeBranch index error branch).closed pure.results cursor.scope
  | .looping | .taking => final = branch.following pure.results
      (branch.plan.steps.drop branch.nextIndex) branch.nextIndex cursor.scope
  | .preparing step | .beforeStep step _ _ | .body step _ | .afterStep step _ _ _ | .marking step _ =>
      ∃ body scope, branch.Starts pure.results step body scope ∧
        final = branch.passing pure.results step body scope
  | .closing => final = branch.closed pure.results cursor.scope
  | .afterBranch index call => ∃ scope hook, branch.afterEveryBranch[index]? = some hook ∧
      pure.Computes call hook.codeBlock hook.text scope ∧
      final = branch.closing pure.results (branch.afterEveryBranch.drop index) index scope
  | .afterBranchFailed index error =>
      final = (Cursor.recordAfterBranch index error branch).closing pure.results
        (branch.afterEveryBranch.drop (index + 1)) (index + 1) cursor.scope
  | .skipping _ | .lookingAhead => False

/-- What a turn leaves of its cursor is destined, and if it leaves none, the branch is final. -/
structure Fulfils (move : Move Call Env) : Prop where
  onward : ∀ course, move.cursor.keeps move.turn = some course →
    Destined pure final branch course.1 course.2
  done : move.turn = .left .done → branch = final

end Destined

section Turns

variable {pure : setting.executor.Functional} {final branch : Branch} {cursor : Cursor}
  {shared : Shared Env} {step index : Nat}

theorem fulfils_onward {activity : Activity Call} (destined : Destined pure final branch cursor activity) :
    Fulfils pure final branch ⟨shared, cursor, .onward activity⟩ :=
  ⟨fun _ kept => Option.some.inj kept ▸ destined, nofun⟩

theorem fulfils_asleep {activity : Activity Call} {time : Nat}
    (destined : Destined pure final branch cursor activity) :
    Fulfils pure final branch ⟨shared, cursor, .asleep time activity⟩ :=
  ⟨fun _ kept => Option.some.inj kept ▸ destined, nofun⟩

/-- The step that a stage is about, once it is taken. -/
def Stage.step? : Stage → Option Nat
  | .before step | .within step | .behind step _ => some step
  | _ => none

theorem destined_at {activity : Activity Call} (at_ : activity.stage.step? = some step)
    (destined : ∃ body scope, branch.Starts pure.results step body scope ∧
      final = branch.passing pure.results step body scope) :
    Destined pure final branch cursor activity := by
  cases activity with
  | preparing | beforeStep | body | afterStep | marking =>
      obtain rfl := Option.some.inj at_
      exact destined
  | opening | beforeBranch | beforeBranchFailed | looping | taking | skipping | lookingAhead | closing
  | afterBranch | afterBranchFailed => cases at_

theorem Walk.step? {purpose : Purpose} {next : Cursor} {after : Shared Env} {stage : Stage}
    {arrival : Arrival} (walk : Walk setting purpose cursor shared stage after next arrival)
    (at_ : stage.step? = some step) (unended : ∀ error, stage ≠ .behind step error) :
    ∃ reached, arrival = .at reached ∧ reached.step? = some step := by
  cases walk with
  | preparing | begun | unbegun | sleeping | ended => exact ⟨_, rfl, at_⟩
  | trailing | marked =>
      obtain rfl := Option.some.inj at_
      exact absurd rfl (unended _)
  | _ => cases at_

theorem fulfils_stays {move : Move Call Env} {reached : Stage}
    (arrived : move.turn.arrival = .at reached) (stays : reached.step? = some step)
    (destined : ∃ body scope, branch.Starts pure.results step body scope ∧
      final = branch.passing pure.results step body scope) : Fulfils pure final branch move := by
  obtain ⟨shared, cursor, turn⟩ := move
  cases turn with
  | onward activity =>
      cases arrived
      exact fulfils_onward (destined_at stays destined)
  | asleep time activity =>
      cases arrived
      exact fulfils_asleep (destined_at stays destined)
  | left departure => cases arrived

theorem fulfils_at {activity : Activity Call} {purpose : Purpose}
    (at_ : activity.stage.step? = some step) (unended : ∀ error, activity.stage ≠ .behind step error)
    (destined : ∃ body scope, branch.Starts pure.results step body scope ∧
      final = branch.passing pure.results step body scope) :
    Fulfils pure final branch (cursor.turn setting purpose shared activity) := by
  obtain ⟨reached, arrived, stays⟩ :=
    (Cursor.turn_walks setting purpose cursor shared activity).step? at_ unended
  exact fulfils_stays arrived stays destined

theorem fulfils_beginBeforeBranch (first : branch.nextIndex = 0)
    (destined : final = branch.entered pure.results (branch.beforeEveryBranch.drop index) index
      cursor.scope) :
    Fulfils pure final branch
      ⟨shared, cursor, .onward (cursor.beginBeforeBranch setting branch index)⟩ := by
  apply fulfils_onward
  unfold Cursor.beginBeforeBranch Cursor.hookOr
  cases found : branch.beforeEveryBranch[index]? with
  | some hook => exact ⟨cursor.scope, hook, found, pure.starts _ _, destined⟩
  | none =>
      rw [List.drop_eq_nil_of_le (List.getElem?_eq_none_iff.mp found), Branch.entered] at destined
      simp only [Destined, first, List.drop_zero]
      exact destined

theorem fulfils_beginAfterBranch
    (destined : final = branch.closing pure.results (branch.afterEveryBranch.drop index) index
      cursor.scope) :
    Fulfils pure final branch ⟨shared, cursor, cursor.beginAfterBranch setting branch index⟩ := by
  unfold Cursor.beginAfterBranch
  cases found : branch.afterEveryBranch[index]? with
  | some hook =>
      exact fulfils_onward ⟨cursor.scope, hook, found, pure.starts _ _, destined⟩
  | none =>
      rw [List.drop_eq_nil_of_le (List.getElem?_eq_none_iff.mp found), Branch.closing] at destined
      exact ⟨nofun, fun _ => destined.symm⟩

theorem fulfils_beforeBranch {call : Call} {purpose : Purpose}
    (found : shared.suite.branch? cursor.branch = some branch)
    (stands : Stage.entering.Stands cursor branch)
    (destined : Destined pure final branch cursor (.beforeBranch index call)) :
    Fulfils pure final branch (cursor.turn setting purpose shared (.beforeBranch index call)) := by
  obtain ⟨scope, hook, listed, computes, enters⟩ := destined
  obtain ⟨started, active, untouched, free⟩ := stands
  simp only [Cursor.turn]
  obtain ⟨time, later, world, advanced, runs⟩ | ⟨value, after, world, advanced, results⟩ :=
    advance_cases shared computes
  · rw [advanced]
    exact fulfils_asleep ⟨scope, hook, listed, runs, enters⟩
  · rw [drop_cons listed, Branch.entered, results] at enters
    rw [advanced]
    dsimp only
    rw [branch_of_found found]
    cases value with
    | error message =>
        simp only [listed]
        exact fulfils_onward enters
    | ok value =>
        exact fulfils_beginBeforeBranch (Branch.nextIndex_of_marks_none untouched.marks) enters

theorem fulfils_afterBranch {call : Call} {purpose : Purpose}
    (found : shared.suite.branch? cursor.branch = some branch)
    (destined : Destined pure final branch cursor (.afterBranch index call)) :
    Fulfils pure final branch (cursor.turn setting purpose shared (.afterBranch index call)) := by
  obtain ⟨scope, hook, listed, computes, closes⟩ := destined
  simp only [Cursor.turn]
  obtain ⟨time, later, world, advanced, runs⟩ | ⟨value, after, world, advanced, results⟩ :=
    advance_cases shared computes
  · rw [advanced]
    exact fulfils_asleep ⟨scope, hook, listed, runs, closes⟩
  · rw [drop_cons listed, Branch.closing, results] at closes
    rw [advanced]
    dsimp only
    rw [branch_of_found found]
    cases value with
    | error message =>
        simp only [listed]
        exact fulfils_onward closes
    | ok value => exact fulfils_beginAfterBranch closes

theorem drop_recordAfterBranch (index : Nat) (error : StepError) (branch : Branch) :
    (Cursor.recordAfterBranch index error branch).afterEveryBranch.drop (index + 1) =
      branch.afterEveryBranch.drop (index + 1) := by
  apply List.ext_getElem?
  intro other
  simp only [Cursor.recordAfterBranch, Cursor.setErrorAt, List.getElem?_drop, getElem?_setAt]
  rw [if_neg (by omega)]

theorem fulfils_afterBranchFailed {error : StepError} {purpose : Purpose}
    (found : shared.suite.branch? cursor.branch = some branch)
    (destined : Destined pure final branch cursor (.afterBranchFailed index error : Activity Call)) :
    Fulfils pure final (Cursor.recordAfterBranch index error branch)
      (cursor.turn setting purpose shared (.afterBranchFailed index error)) := by
  have own : (shared.modify cursor.branch (Cursor.recordAfterBranch index error)).branch
      cursor.branch = Cursor.recordAfterBranch index error branch :=
    Shared.branch_eq (Suite.branch?_modify_self found _)
  simp only [Cursor.turn, own]
  apply fulfils_beginAfterBranch
  rw [drop_recordAfterBranch]
  exact destined

theorem fulfils_looping {purpose : Purpose}
    (destined : Destined pure final branch cursor (.looping : Activity Call)) :
    Fulfils pure final branch (cursor.turn setting purpose shared .looping) := by
  simp only [Cursor.turn]
  split
  · exact ⟨by simp [Cursor.keeps], by simp⟩
  · split
    · refine ⟨?_, by simp⟩
      rintro _ ⟨⟩
      exact destined
    · exact fulfils_onward destined

theorem fulfils_taking (found : shared.suite.branch? cursor.branch = some branch)
    (undebugged : branch.hasDebugStep = false) (flows : cursor.Flows .taking)
    (foretold : Foretells pure branch cursor (.taking : Activity Call))
    (destined : Destined pure final branch cursor (.taking : Activity Call)) :
    ∃ after, (cursor.turn setting .run shared .taking).shared.suite.branch? cursor.branch =
        some after ∧ Fulfils pure final after (cursor.turn setting .run shared .taking) := by
  obtain ⟨free, eager, along⟩ := flows
  obtain ⟨after, advances, present, -⟩ := Suite.nextStep_advances found setting.skipRepeat
  rw [foretells_looping (.inr (.inl rfl)), free] at foretold
  refine ⟨after, (congrArg (·.branch? cursor.branch) (suite_taking free)).trans present, ?_⟩
  simp only [Cursor.turn, Cursor.take, free]
  cases next : shared.suite.nextStep cursor.branch true setting.skipRepeat with
  | mk taken suite =>
      rw [next] at advances present
      cases taken with
      | none => exact fulfils_onward (destined.trans (Branch.following_of_ended advances))
      | some step =>
          obtain ⟨body, starts⟩ := starts_of_advances advances foretold
          have own : ({ shared with suite } : Shared Env).branch cursor.branch = after :=
            Shared.branch_eq present
          have takes : cursor.Takes setting shared.suite step suite := .inr ⟨free, next⟩
          have passes : after.hasDebugStep = false := by
            rw [← undebugged, ← takes.hasDebugStep found, present, Option.getD_some]
          have goes : ({ cursor with pending := none } : Cursor).pausesAt after step = false :=
            pausesAt_eq_false eager passes step
          dsimp only [Cursor.onTaken]
          rw [own, goes, if_neg Bool.false_ne_true]
          exact fulfils_onward
            ⟨body, cursor.scope, starts, destined.trans (Branch.following_of_taken advances starts)⟩

theorem nextIndex_markAt {outcome : Outcome} {stopBranch : Bool} (faces : branch.Faces step)
    (active : branch.isActive = true)
    (unfinished : (branch.markAt step outcome stopBranch).status.isCompleted = false) :
    (branch.markAt step outcome stopBranch).nextIndex = step + 1 := by
  obtain ⟨-, completed | ⟨-, passes⟩⟩ := follows_markAt faces active outcome stopBranch
  · rw [completed] at unfinished
    cases unfinished
  · exact Branch.nextIndex_of_marks_some passes.marks passes.inside

theorem passing_of_fate {body : BranchStep} {scope after : Variables} {error : Option StepError}
    (faces : branch.Faces step) (active : branch.isActive = true)
    (fated : branch.fate pure.results body scope = (after, error)) :
    let later := branch.markAt step (outcomeOf branch step error) (!error.isNone)
    branch.passing pure.results step body scope =
      later.following pure.results (later.plan.steps.drop later.nextIndex) later.nextIndex after := by
  intro later
  have plan : later.plan = branch.plan := Branch.plan_markAt _ _ _ branch
  have passing : branch.passing pure.results step body scope =
      later.following pure.results (branch.plan.steps.drop (step + 1)) (step + 1) after := by
    rw [Branch.passing, fated]
  rw [passing, plan]
  cases ends : later.status.isCompleted with
  | true => rw [Branch.following_of_completed _ _ ends, Branch.following_of_completed _ _ ends]
  | false => rw [nextIndex_markAt faces active ends]

theorem fulfils_marking {error : Option StepError}
    (found : shared.suite.branch? cursor.branch = some branch)
    (stands : (Stage.behind step error).Stands cursor branch)
    (undebugged : branch.hasDebugStep = false)
    (foretold : Foretells pure branch cursor (.marking step error : Activity Call))
    (destined : Destined pure final branch cursor (.marking step error : Activity Call)) :
    ∃ after, (cursor.turn setting .run shared (.marking step error)).shared.suite.branch?
        cursor.branch = some after ∧
      Fulfils pure final after (cursor.turn setting .run shared (.marking step error)) := by
  obtain ⟨started, active, faces, free⟩ := stands
  obtain ⟨body, scope, starts, fated⟩ := foretold
  have fated : branch.fate pure.results body scope = (cursor.scope, error) := fated.symm
  obtain ⟨other, start, begins, destined⟩ := destined
  obtain rfl := Option.some.inj (starts.found.symm.trans begins.found)
  obtain rfl := Option.some.inj (starts.reached.symm.trans begins.reached)
  obtain ⟨present, -⟩ := Suite.markStep_marks found step (outcomeOf branch step error) (!error.isNone)
    setting.skipRepeat
  rw [← suite_marking found undebugged] at present
  refine ⟨_, present, fulfils_onward ?_⟩
  rw [if_pos rfl]
  exact destined.trans (passing_of_fate faces active fated)

/-- A turn of a walk that flows keeps its branch on the way to its destiny. -/
theorem fulfils_turn {activity : Activity Call}
    (found : shared.suite.branch? cursor.branch = some branch)
    (stands : activity.stage.Stands cursor branch) (undebugged : branch.hasDebugStep = false)
    (flows : cursor.Flows activity.stage) (foretold : Foretells pure branch cursor activity)
    (destined : Destined pure final branch cursor activity) :
    ∃ after, (cursor.turn setting .run shared activity).shared.suite.branch? cursor.branch =
      some after ∧ Fulfils pure final after (cursor.turn setting .run shared activity) := by
  have own := Shared.branch_eq found
  have still (same : (cursor.turn setting .run shared activity).shared.suite = shared.suite)
      (fulfils : Fulfils pure final branch (cursor.turn setting .run shared activity)) :
      ∃ after, (cursor.turn setting .run shared activity).shared.suite.branch? cursor.branch =
        some after ∧ Fulfils pure final after (cursor.turn setting .run shared activity) :=
    ⟨branch, by rw [same]; exact found, fulfils⟩
  cases activity with
  | opening =>
      obtain ⟨active, untouched, free⟩ := stands
      apply still rfl
      simp only [Cursor.turn, own]
      exact fulfils_beginBeforeBranch (Branch.nextIndex_of_marks_none untouched.marks) destined
  | beforeBranch index call => exact still (suite_turn rfl) (fulfils_beforeBranch found stands destined)
  | beforeBranchFailed index error =>
      exact ⟨_, Suite.branch?_modify_self found _, fulfils_onward destined⟩
  | looping => exact still (suite_turn rfl) (fulfils_looping destined)
  | taking => exact fulfils_taking found undebugged flows foretold destined
  | preparing step => exact still (suite_turn rfl) (fulfils_at rfl (by simp [Activity.stage]) destined)
  | beforeStep step index call => exact still (suite_turn rfl) (fulfils_at rfl (by simp [Activity.stage]) destined)
  | body step call => exact still (suite_turn rfl) (fulfils_at rfl (by simp [Activity.stage]) destined)
  | afterStep step index error call =>
      obtain ⟨reply, world, advanced⟩ := Cursor.advance_eq setting shared call
      apply still (suite_turn rfl)
      simp only [Cursor.turn, advanced]
      rcases reply with ⟨time, later⟩ | ⟨result, scope⟩
      · exact fulfils_asleep destined
      · exact fulfils_onward
          (destined_at (congrArg Stage.step? (Cursor.stage_beginAfterStep _ _ _ _ _ _)) destined)
  | marking step error => exact fulfils_marking found stands undebugged foretold destined
  | closing =>
      apply still rfl
      simp only [Cursor.turn, own]
      exact fulfils_beginAfterBranch destined
  | afterBranch index call => exact still (suite_turn rfl) (fulfils_afterBranch found destined)
  | afterBranchFailed index error =>
      exact ⟨_, Suite.branch?_modify_self found _, fulfils_afterBranchFailed found destined⟩
  | skipping | lookingAhead => cases destined

end Turns

end Run

end TestTree
