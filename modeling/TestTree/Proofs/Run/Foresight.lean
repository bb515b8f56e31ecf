import TestTree.Proofs.Run.Fate
import TestTree.Proofs.Run.Ownership

namespace TestTree.Run

variable {Call Env : Type} {setting : Setting Call Env}

section Foretells

variable (pure : setting.executor.Functional) (branch : Branch)

/-- The step is at hand, and what is left of it has this outcome. -/
def Comes (step : Nat) (outcome : BranchStep → Variables × Option StepError) : Prop :=
  ∃ body scope, branch.Starts pure.results step body scope ∧
    outcome body = branch.fate pure.results body scope

/-- What is known of a cursor from its branch. -/
def Foretells (cursor : Cursor) : Activity Call → Prop
  | .opening => cursor.scope = {}
  | .beforeBranch index call => ∃ scope hook, branch.beforeEveryBranch[index]? = some hook ∧
      pure.Computes call hook.codeBlock hook.text scope ∧
      entering pure.results (branch.beforeEveryBranch.drop index) scope =
        branch.reaches pure.results 0
  | .beforeBranchFailed _ _ => branch.reaches pure.results 0 = none
  | .looping | .taking | .lookingAhead =>
      match cursor.pending with
      | some step => ∃ body, branch.Starts pure.results step body cursor.scope
      | none => branch.status.isCompleted = false →
          branch.reaches pure.results branch.nextIndex = some cursor.scope
  | .preparing step => ∃ body, branch.Starts pure.results step body cursor.scope
  | .beforeStep step index call => ∃ scope hook, branch.beforeEveryStep[index]? = some hook ∧
      pure.Computes call hook.codeBlock hook.text scope ∧
      Comes pure branch step fun body =>
        branch.leading pure.results body (branch.beforeEveryStep.drop index) scope
  | .body step call => ∃ code text scope, pure.Computes call code text scope ∧
      Comes pure branch step fun body => branch.returning pure.results body (pure.results code text scope)
  | .afterStep step index error call => ∃ scope hook, branch.afterEveryStep[index]? = some hook ∧
      pure.Computes call hook.codeBlock hook.text scope ∧
      Comes pure branch step fun _ =>
        trailing pure.results (branch.afterEveryStep.drop index) error scope
  | .marking step error => Comes pure branch step fun _ => (cursor.scope, error)
  | .skipping _ | .closing | .afterBranch _ _ | .afterBranchFailed _ _ => True

end Foretells

section Beginnings

variable {pure : setting.executor.Functional} {branch : Branch} {cursor : Cursor} {step : Nat}

theorem foretells_beginBeforeBranch {index : Nat} (free : cursor.pending = none)
    (first : branch.nextIndex = 0)
    (enters : entering pure.results (branch.beforeEveryBranch.drop index) cursor.scope =
      branch.reaches pure.results 0) :
    Foretells pure branch cursor (cursor.beginBeforeBranch setting branch index) := by
  unfold Cursor.beginBeforeBranch Cursor.hookOr
  cases found : branch.beforeEveryBranch[index]? with
  | some hook => exact ⟨cursor.scope, hook, found, pure.starts _ _, enters⟩
  | none =>
      rw [List.drop_eq_nil_of_le (List.getElem?_eq_none_iff.mp found), entering] at enters
      simp only [Foretells, free, first]
      exact fun _ => enters.symm

theorem foretells_beginAfterStep {index : Nat} {error : Option StepError}
    (comes : Comes pure branch step fun _ =>
      trailing pure.results (branch.afterEveryStep.drop index) error cursor.scope) :
    Foretells pure branch cursor (cursor.beginAfterStep setting branch step index error) := by
  unfold Cursor.beginAfterStep Cursor.hookOr
  cases found : branch.afterEveryStep[index]? with
  | some hook => exact ⟨cursor.scope, hook, found, pure.starts _ _, comes⟩
  | none =>
      rw [List.drop_eq_nil_of_le (List.getElem?_eq_none_iff.mp found)] at comes
      exact comes

theorem foretells_endBody {value : Option Text} (comes : Comes pure branch step fun body =>
      branch.assigning pure.results body value cursor.scope) :
    Foretells pure branch (cursor.endBody setting branch step value).1
      (cursor.endBody setting branch step value).2 := by
  obtain ⟨body, scope, starts, fated⟩ := comes
  simp only [Cursor.endBody, starts.found]
  exact foretells_beginAfterStep ⟨body, scope, starts, fated⟩

theorem foretells_beginBody (comes : Comes pure branch step fun body =>
      branch.performing pure.results body cursor.scope) :
    Foretells pure branch (cursor.beginBody setting branch step).1
      (cursor.beginBody setting branch step).2 := by
  obtain ⟨body, scope, starts, fated⟩ := comes
  simp only [Cursor.beginBody, starts.found]
  rcases prepared : body.prepare cursor.scope with ⟨bound, _ | error⟩
  · cases coded : body.codeBlock with
    | none =>
        simp only [Branch.performing, prepared, coded] at fated
        exact foretells_endBody ⟨body, scope, starts, fated⟩
    | some code =>
        simp only [Branch.performing, prepared, coded] at fated
        exact ⟨code, body.text, bound, pure.starts _ _, body, scope, starts, fated⟩
  · simp only [Branch.performing, prepared] at fated
    exact foretells_beginAfterStep ⟨body, scope, starts, fated⟩

theorem foretells_beginBeforeStep {index : Nat} (comes : Comes pure branch step fun body =>
      branch.leading pure.results body (branch.beforeEveryStep.drop index) cursor.scope) :
    Foretells pure branch (cursor.beginBeforeStep setting branch step index).1
      (cursor.beginBeforeStep setting branch step index).2 := by
  unfold Cursor.beginBeforeStep
  cases found : branch.beforeEveryStep[index]? with
  | some hook => exact ⟨cursor.scope, hook, found, pure.starts _ _, comes⟩
  | none =>
      rw [List.drop_eq_nil_of_le (List.getElem?_eq_none_iff.mp found)] at comes
      exact foretells_beginBody comes

end Beginnings

section Advances

variable {pure : setting.executor.Functional} {branch after : Branch} {cursor : Cursor} {step : Nat}

theorem starts_of_advances (advances : branch.Advances (some step) after)
    (reached : branch.status.isCompleted = false →
      branch.reaches pure.results branch.nextIndex = some cursor.scope) :
    ∃ body, after.Starts pure.results step body cursor.scope := by
  cases advances with
  | @advanced body unfinished found automatic =>
      have starts : branch.Starts pure.results branch.nextIndex body cursor.scope :=
        ⟨found, automatic, reached unfinished⟩
      obtain ⟨fellow, begins, -⟩ :=
        starts.alike (Branch.alike_of_plan (Branch.plan_advanceTo branch.nextIndex branch) _)
      exact ⟨fellow, begins⟩

/-- What is foretold depends on the plan of the branch, its status and its steps only. -/
theorem Foretells.of_same {activity : Activity Call}
    (foretold : Foretells pure branch cursor activity) (plan : after.plan = branch.plan)
    (status : after.status = branch.status) (steps : after.steps = branch.steps) :
    Foretells pure after cursor activity := by
  have entry : after.beforeEveryBranch.map Hook.plan = branch.beforeEveryBranch.map Hook.plan :=
    congrArg (·.beforeEveryBranch) plan
  have before : after.beforeEveryStep = branch.beforeEveryStep := congrArg (·.beforeEveryStep) plan
  have behind : after.afterEveryStep = branch.afterEveryStep := congrArg (·.afterEveryStep) plan
  have reaches (index : Nat) : after.reaches pure.results index = branch.reaches pure.results index :=
    (Branch.alike_of_plan plan index).reaches (Nat.le_refl _)
  have starts {step : Nat} {body : BranchStep} {scope : Variables}
      (starts : branch.Starts pure.results step body scope) :
      after.Starts pure.results step body scope :=
    ⟨by rw [steps]; exact starts.found, starts.automatic, (reaches step).trans starts.reached⟩
  have comes {step : Nat} {outcome other : BranchStep → Variables × Option StepError}
      (same : ∀ body, other body = outcome body) (comes : Comes pure branch step outcome) :
      Comes pure after step other := by
    obtain ⟨body, scope, begun, fated⟩ := comes
    refine ⟨body, scope, starts begun, ?_⟩
    rw [same, fated, (Branch.alike_of_plan plan step).fate rfl]
  have next : after.nextIndex = branch.nextIndex := by rw [Branch.nextIndex, Branch.nextIndex, steps]
  have between (waits : match cursor.pending with
        | some step => ∃ body, branch.Starts pure.results step body cursor.scope
        | none => branch.status.isCompleted = false →
            branch.reaches pure.results branch.nextIndex = some cursor.scope) :
      match cursor.pending with
        | some step => ∃ body, after.Starts pure.results step body cursor.scope
        | none => after.status.isCompleted = false →
            after.reaches pure.results after.nextIndex = some cursor.scope := by
    cases pending : cursor.pending with
    | some step =>
        rw [pending] at waits
        exact waits.imp fun body => starts
    | none =>
        rw [pending] at waits
        dsimp only at waits ⊢
        rw [status, next, reaches]
        exact waits
  cases activity with
  | opening => exact foretold
  | beforeBranch index call =>
      obtain ⟨scope, hook, listed, computes, enters⟩ := foretold
      have listed' : (after.beforeEveryBranch.map Hook.plan)[index]? = some hook.plan := by
        rw [entry, List.getElem?_map, listed]
        rfl
      obtain ⟨other, found, same⟩ := List.getElem?_map .. |>.symm.trans listed' |>
        Option.map_eq_some_iff.mp
      have code : other.codeBlock = hook.codeBlock := congrArg (·.codeBlock) same
      have text : other.text = hook.text := congrArg (·.text) same
      refine ⟨scope, other, found, code ▸ text ▸ computes, ?_⟩
      rw [reaches, ← enters, ← entering_plan, List.map_drop, entry, ← List.map_drop, entering_plan]
  | beforeBranchFailed index error => exact (reaches 0).trans foretold
  | looping => exact between foretold
  | taking => exact between foretold
  | lookingAhead => exact between foretold
  | preparing step => exact foretold.imp fun body => starts
  | beforeStep step index call =>
      obtain ⟨scope, hook, listed, computes, coming⟩ := foretold
      refine ⟨scope, hook, by rw [before]; exact listed, computes, comes (fun body => ?_) coming⟩
      rw [before, Branch.leading_congr behind]
  | body step call =>
      obtain ⟨code, text, scope, computes, coming⟩ := foretold
      exact ⟨code, text, scope, computes, comes (fun body => Branch.returning_congr behind body _) coming⟩
  | afterStep step index error call =>
      obtain ⟨scope, hook, listed, computes, coming⟩ := foretold
      refine ⟨scope, hook, by rw [behind]; exact listed, computes, comes (fun body => ?_) coming⟩
      rw [behind]
  | marking step error => exact comes (fun _ => rfl) foretold
  | skipping | closing | afterBranch | afterBranchFailed => trivial

end Advances

section Turns

variable {pure : setting.executor.Functional} {branch : Branch} {cursor : Cursor} {shared : Shared Env}
  {purpose : Purpose}

/-- A turn of a call of a hook or a step: it sleeps on, or ends with what it computes. -/
theorem advance_cases (shared : Shared Env) {call : Call} {code text : Text} {scope : Variables}
    (computes : pure.Computes call code text scope) :
    (∃ time later world, shared.advance setting call = (.waiting time later, { shared with world }) ∧
      pure.Computes later code text scope) ∨
    ∃ value after world, shared.advance setting call = (.done value after, { shared with world }) ∧
      pure.results code text scope = (value, after) := by
  rcases replied : setting.executor.advance call shared.world with ⟨reply, world⟩
  have advanced : shared.advance setting call = (reply, { shared with world }) := by
    rw [Shared.advance, replied]
  cases reply with
  | waiting time later =>
      exact .inl ⟨time, later, world, advanced, pure.waits call code text scope shared.world time later
        computes (by rw [replied])⟩
  | done value after =>
      exact .inr ⟨value, after, world, advanced, pure.ends call code text scope shared.world value after
        computes (by rw [replied])⟩

/-- Whatever a turn leaves of a cursor is foretold. -/
def Foreseen (pure : setting.executor.Functional) (branch : Branch) (move : Move Call Env) : Prop :=
  ∀ course, move.cursor.keeps move.turn = some course → Foretells pure branch course.1 course.2

theorem foreseen_onward {activity : Activity Call}
    (foretells : Foretells pure branch cursor activity) :
    Foreseen pure branch ⟨shared, cursor, .onward activity⟩ := by
  rintro _ ⟨⟩
  exact foretells

theorem foreseen_asleep {activity : Activity Call} {time : Nat}
    (foretells : Foretells pure branch cursor activity) :
    Foreseen pure branch ⟨shared, cursor, .asleep time activity⟩ := by
  rintro _ ⟨⟩
  exact foretells

theorem foreseen_paused (foretells : Foretells pure branch cursor (.looping : Activity Call)) :
    Foreseen pure branch ⟨shared, cursor, .left .paused⟩ := by
  rintro _ ⟨⟩
  exact foretells

theorem foreseen_gone {departure : Departure} (goes : departure ≠ .paused) :
    Foreseen pure branch ⟨shared, cursor, .left departure⟩ := by
  intro course kept
  cases departure with
  | paused => exact absurd rfl goes
  | done | stopped => cases kept

theorem foreseen_beginAfterBranch (cursor : Cursor) (index : Nat) (other : Branch) :
    Foreseen pure branch ⟨shared, cursor, cursor.beginAfterBranch setting other index⟩ := by
  unfold Cursor.beginAfterBranch
  split
  · exact foreseen_onward trivial
  · exact foreseen_gone (by simp)

theorem drop_cons {α : Type} {index : Nat} {list : List α} {element : α}
    (found : list[index]? = some element) : list.drop index = element :: list.drop (index + 1) := by
  obtain ⟨inside, rfl⟩ := List.getElem?_eq_some_iff.mp found
  exact List.drop_eq_getElem_cons inside

theorem Shared.branch_eq {index : Nat} (found : shared.suite.branch? index = some branch) :
    shared.branch index = branch := by
  rw [Shared.branch, found]
  rfl

theorem branch_of_found (found : shared.suite.branch? cursor.branch = some branch)
    (world : World Env) : ({ shared with world } : Shared Env).branch cursor.branch = branch :=
  Shared.branch_eq found

theorem foreseen_opening (found : shared.suite.branch? cursor.branch = some branch)
    (stands : Stage.opening.Stands cursor branch)
    (foretold : Foretells pure branch cursor (.opening : Activity Call)) :
    Foreseen pure branch (cursor.turn setting purpose shared .opening) := by
  obtain ⟨active, untouched, free⟩ := stands
  have own := branch_of_found found shared.world
  simp only [Cursor.turn]
  refine foreseen_onward ?_
  rw [own]
  refine foretells_beginBeforeBranch free (Branch.nextIndex_of_marks_none untouched.marks) ?_
  rw [foretold]
  rfl

theorem foreseen_beforeBranch {index : Nat} {call : Call}
    (found : shared.suite.branch? cursor.branch = some branch)
    (stands : Stage.entering.Stands cursor branch)
    (foretold : Foretells pure branch cursor (.beforeBranch index call)) :
    Foreseen pure branch (cursor.turn setting purpose shared (.beforeBranch index call)) := by
  obtain ⟨scope, hook, listed, computes, enters⟩ := foretold
  obtain ⟨started, active, untouched, free⟩ := stands
  simp only [Cursor.turn]
  obtain ⟨time, later, world, advanced, runs⟩ | ⟨value, after, world, advanced, results⟩ :=
    advance_cases shared computes
  · rw [advanced]
    exact foreseen_asleep ⟨scope, hook, listed, runs, enters⟩
  · rw [drop_cons listed, entering, results] at enters
    rw [advanced]
    dsimp only
    rw [branch_of_found found]
    cases value with
    | error message =>
        simp only [listed]
        exact foreseen_onward enters.symm
    | ok value =>
        exact foreseen_onward (foretells_beginBeforeBranch free
          (Branch.nextIndex_of_marks_none untouched.marks) enters)

theorem foreseen_preparing {step : Nat} (found : shared.suite.branch? cursor.branch = some branch)
    (foretold : Foretells pure branch cursor (.preparing step : Activity Call)) :
    Foreseen pure branch (cursor.turn setting purpose shared (.preparing step)) := by
  obtain ⟨body, starts⟩ := foretold
  have own := branch_of_found found shared.world
  simp only [Cursor.turn]
  refine foreseen_onward ?_
  rw [own]
  exact foretells_beginBeforeStep ⟨body, cursor.scope, starts, rfl⟩

theorem foreseen_beforeStep {step index : Nat} {call : Call}
    (found : shared.suite.branch? cursor.branch = some branch)
    (foretold : Foretells pure branch cursor (.beforeStep step index call)) :
    Foreseen pure branch (cursor.turn setting purpose shared (.beforeStep step index call)) := by
  obtain ⟨scope, hook, listed, computes, body, start, starts, fated⟩ := foretold
  simp only [Cursor.turn]
  obtain ⟨time, later, world, advanced, runs⟩ | ⟨value, after, world, advanced, results⟩ :=
    advance_cases shared computes
  · rw [advanced]
    exact foreseen_asleep ⟨scope, hook, listed, runs, body, start, starts, fated⟩
  · simp only [drop_cons listed, Branch.leading, results] at fated
    rw [advanced]
    dsimp only
    rw [branch_of_found found]
    cases value with
    | error message =>
        simp only [listed]
        exact foreseen_onward (foretells_beginAfterStep ⟨body, start, starts, fated⟩)
    | ok value => exact foreseen_onward (foretells_beginBeforeStep ⟨body, start, starts, fated⟩)

theorem foreseen_body {step : Nat} {call : Call}
    (found : shared.suite.branch? cursor.branch = some branch)
    (foretold : Foretells pure branch cursor (.body step call)) :
    Foreseen pure branch (cursor.turn setting purpose shared (.body step call)) := by
  obtain ⟨code, text, scope, computes, body, start, starts, fated⟩ := foretold
  simp only [Cursor.turn]
  obtain ⟨time, later, world, advanced, runs⟩ | ⟨value, after, world, advanced, results⟩ :=
    advance_cases shared computes
  · rw [advanced]
    exact foreseen_asleep ⟨code, text, scope, runs, body, start, starts, fated⟩
  · rw [results] at fated
    rw [advanced]
    dsimp only
    rw [branch_of_found found]
    cases value with
    | error message =>
        simp only [starts.found, Option.map_some]
        exact foreseen_onward (foretells_beginAfterStep ⟨body, start, starts, fated⟩)
    | ok value => exact foreseen_onward (foretells_endBody ⟨body, start, starts, fated⟩)

theorem foreseen_afterStep {step index : Nat} {error : Option StepError} {call : Call}
    (found : shared.suite.branch? cursor.branch = some branch)
    (foretold : Foretells pure branch cursor (.afterStep step index error call)) :
    Foreseen pure branch (cursor.turn setting purpose shared (.afterStep step index error call)) := by
  obtain ⟨scope, hook, listed, computes, body, start, starts, fated⟩ := foretold
  simp only [Cursor.turn]
  obtain ⟨time, later, world, advanced, runs⟩ | ⟨value, after, world, advanced, results⟩ :=
    advance_cases shared computes
  · rw [advanced]
    exact foreseen_asleep ⟨scope, hook, listed, runs, body, start, starts, fated⟩
  · simp only [drop_cons listed, trailing, results] at fated
    rw [advanced]
    dsimp only
    rw [branch_of_found found]
    refine foreseen_onward (foretells_beginAfterStep ⟨body, start, starts, ?_⟩)
    cases value with
    | error message =>
        simp only [listed]
        exact fated
    | ok value => simpa [Hook.failureOf] using fated

/-- The variables of a cursor between two steps are those with which its branch reaches the next. -/
theorem foretells_looping {activity : Activity Call} (at_ : activity = .looping ∨ activity = .taking ∨
      activity = .lookingAhead) :
    Foretells pure branch cursor activity ↔
      match cursor.pending with
      | some step => ∃ body, branch.Starts pure.results step body cursor.scope
      | none => branch.status.isCompleted = false →
          branch.reaches pure.results branch.nextIndex = some cursor.scope := by
  rcases at_ with rfl | rfl | rfl <;> rfl

theorem foreseen_onTaken {step : Nat}
    (starts : ∃ body, branch.Starts pure.results step body cursor.scope) :
    Foreseen pure branch (cursor.onTaken purpose shared step : Move Call Env) := by
  unfold Cursor.onTaken
  cases purpose with
  | step => exact foreseen_onward starts
  | skip => exact foreseen_onward trivial
  | run =>
      dsimp only
      split
      · exact foreseen_paused starts
      · exact foreseen_onward starts

theorem foreseen_taking (found : shared.suite.branch? cursor.branch = some branch)
    (foretold : Foretells pure branch cursor (.taking : Activity Call)) :
    ∃ after, (cursor.turn setting purpose shared .taking).shared.suite.branch? cursor.branch =
        some after ∧ Foreseen pure after (cursor.turn setting purpose shared .taking) := by
  rw [foretells_looping (.inr (.inl rfl))] at foretold
  simp only [Cursor.turn, Cursor.take]
  cases pending : cursor.pending with
  | some step =>
      rw [pending] at foretold
      refine ⟨branch, ?_, foreseen_onTaken foretold⟩
      dsimp only
      rw [Cursor.suite_onTaken]
      exact found
  | none =>
      rw [pending] at foretold
      obtain ⟨after, advances, present, -⟩ := Suite.nextStep_advances found setting.skipRepeat
      dsimp only
      cases next : shared.suite.nextStep cursor.branch true setting.skipRepeat with
      | mk taken suite =>
          rw [next] at advances present
          cases taken with
          | none => exact ⟨after, present, foreseen_onward trivial⟩
          | some step =>
              refine ⟨after, ?_, foreseen_onTaken (starts_of_advances advances foretold)⟩
              rw [Cursor.suite_onTaken]
              exact present

theorem foreseen_lookingAhead (found : shared.suite.branch? cursor.branch = some branch)
    (stands : Stage.lookingAhead.Stands cursor branch)
    (foretold : Foretells pure branch cursor (.lookingAhead : Activity Call)) :
    ∃ after, (cursor.turn setting purpose shared .lookingAhead).shared.suite.branch? cursor.branch =
        some after ∧ Foreseen pure after (cursor.turn setting purpose shared .lookingAhead) := by
  rw [foretells_looping (.inr (.inr rfl)), stands.2.1] at foretold
  obtain ⟨after, advances, present, -⟩ := Suite.nextStep_advances found setting.skipRepeat
  simp only [Cursor.turn, Cursor.lookAhead]
  cases next : shared.suite.nextStep cursor.branch true setting.skipRepeat with
  | mk taken suite =>
      rw [next] at advances present
      cases taken with
      | none => exact ⟨after, present, foreseen_onward trivial⟩
      | some step =>
          exact ⟨after, present, foreseen_paused (starts_of_advances advances foretold)⟩

/-- A branch without a step to debug goes on behind a step only if that passed. -/
theorem foreseen_marking {step : Nat} {error : Option StepError}
    (found : shared.suite.branch? cursor.branch = some branch)
    (stands : (Stage.behind step error).Stands cursor branch)
    (undebugged : branch.hasDebugStep = false)
    (foretold : Foretells pure branch cursor (.marking step error : Activity Call)) :
    ∃ after, (cursor.turn setting purpose shared (.marking step error)).shared.suite.branch?
        cursor.branch = some after ∧
      Foreseen pure after (cursor.turn setting purpose shared (.marking step error)) := by
  obtain ⟨started, active, faces, free⟩ := stands
  obtain ⟨body, start, starts, fated⟩ := foretold
  have own : shared.branch cursor.branch = branch := branch_of_found found shared.world
  simp only [Cursor.turn, Cursor.mark, own]
  obtain ⟨present, -⟩ := Suite.markStep_marks found step (outcomeOf branch step error)
    (!error.isNone && !branch.hasDebugStep) setting.skipRepeat
  refine ⟨_, present, foreseen_onward ?_⟩
  have loops : (if purpose = .run then .looping else .lookingAhead : Activity Call) = .looping ∨
      (if purpose = .run then .looping else .lookingAhead : Activity Call) = .taking ∨
      (if purpose = .run then .looping else .lookingAhead : Activity Call) = .lookingAhead := by
    split
    · exact .inl rfl
    · exact .inr (.inr rfl)
  rw [foretells_looping loops, free]
  intro unfinished
  have passes := faces.recordAt (outcomeOf branch step error)
  unfold Branch.markAt at unfinished ⊢
  split at unfinished
  · rw [Branch.completed_of_finish] at unfinished
    cases unfinished
  · next goes =>
      rw [if_neg goes]
      cases error with
      | some error => simp [undebugged] at goes
      | none =>
          have plan := Branch.plan_recordAt step (outcomeOf branch step none) branch
          rw [(Branch.alike_of_plan plan (step + 1)).reaches
              (Nat.le_of_eq (Branch.nextIndex_of_marks_some passes.marks passes.inside)),
            Branch.nextIndex_of_marks_some passes.marks passes.inside]
          exact starts.next fated.symm

/-- Whether a turn is about the suite. -/
def Activity.isClerical : Activity Call → Bool
  | .beforeBranchFailed _ _ | .taking | .skipping _ | .marking _ _ | .lookingAhead
  | .afterBranchFailed _ _ => true
  | _ => false

/-- Turns that run bodies leave the suite alone. -/
theorem suite_turn {activity : Activity Call} (runs : activity.isClerical = false) :
    (cursor.turn setting purpose shared activity).shared.suite = shared.suite := by
  cases activity with
  | opening | preparing | closing => rfl
  | looping =>
      simp only [Cursor.turn]
      split
      · rfl
      · split <;> rfl
  | beforeBranch index call | beforeStep step index call | body step call | afterBranch index call =>
      obtain ⟨reply, world, advanced⟩ := Cursor.advance_eq setting shared call
      simp only [Cursor.turn, advanced]
      rcases reply with ⟨time, later⟩ | ⟨result, scope⟩
      · rfl
      · dsimp only
        split <;> rfl
  | afterStep step index error call =>
      obtain ⟨reply, world, advanced⟩ := Cursor.advance_eq setting shared call
      simp only [Cursor.turn, advanced]
      rcases reply with ⟨time, later⟩ | ⟨result, scope⟩ <;> rfl
  | beforeBranchFailed | taking | skipping | marking | lookingAhead | afterBranchFailed => cases runs

theorem suite_taking (free : cursor.pending = none) :
    (cursor.turn setting purpose shared .taking).shared.suite =
      (shared.suite.nextStep cursor.branch true setting.skipRepeat).2 := by
  simp only [Cursor.turn, Cursor.take, free]
  cases shared.suite.nextStep cursor.branch true setting.skipRepeat with
  | mk taken suite =>
      cases taken with
      | none => rfl
      | some step =>
          simp only [Cursor.onTaken]
          split
          · rfl
          · rfl
          · split <;> rfl

theorem suite_marking {step : Nat} {error : Option StepError}
    (found : shared.suite.branch? cursor.branch = some branch)
    (undebugged : branch.hasDebugStep = false) :
    (cursor.turn setting purpose shared (.marking step error)).shared.suite =
      shared.suite.markStep cursor.branch step (outcomeOf branch step error) (!error.isNone)
        setting.skipRepeat := by
  have own : shared.branch cursor.branch = branch := branch_of_found found shared.world
  simp only [Cursor.turn, Cursor.mark, own, undebugged, outcomeOf, Bool.not_false, Bool.and_true]

/-- What is foretold of a cursor is foretold of what its turn leaves, unless that skips a step. -/
theorem foreseen_turn (setting : Setting Call Env) {pure : setting.executor.Functional} (purpose : Purpose)
    {activity : Activity Call}
    (found : shared.suite.branch? cursor.branch = some branch)
    (stands : activity.stage.Stands cursor branch) (undebugged : branch.hasDebugStep = false)
    (kept : ∀ step, activity ≠ .skipping step) (foretold : Foretells pure branch cursor activity) :
    ∃ after, (cursor.turn setting purpose shared activity).shared.suite.branch? cursor.branch =
      some after ∧ Foreseen pure after (cursor.turn setting purpose shared activity) := by
  have still (same : (cursor.turn setting purpose shared activity).shared.suite = shared.suite)
      (foreseen : Foreseen pure branch (cursor.turn setting purpose shared activity)) :
      ∃ after, (cursor.turn setting purpose shared activity).shared.suite.branch? cursor.branch =
        some after ∧ Foreseen pure after (cursor.turn setting purpose shared activity) :=
    ⟨branch, by rw [same]; exact found, foreseen⟩
  cases activity with
  | opening => exact still rfl (foreseen_opening found stands foretold)
  | beforeBranch index call =>
      exact still (suite_turn rfl) (foreseen_beforeBranch found stands foretold)
  | beforeBranchFailed index error =>
      exact ⟨_, Suite.branch?_modify_self found _, foreseen_onward trivial⟩
  | looping =>
      refine still (suite_turn rfl) ?_
      simp only [Cursor.turn]
      split
      · exact foreseen_gone (by simp)
      · split
        · exact foreseen_paused foretold
        · exact foreseen_onward foretold
  | taking => exact foreseen_taking found foretold
  | skipping step => exact absurd rfl (kept step)
  | preparing step =>
      exact still (suite_turn rfl) (foreseen_preparing found foretold)
  | beforeStep step index call =>
      exact still (suite_turn rfl) (foreseen_beforeStep found foretold)
  | body step call =>
      exact still (suite_turn rfl) (foreseen_body found foretold)
  | afterStep step index error call =>
      exact still (suite_turn rfl) (foreseen_afterStep found foretold)
  | marking step error => exact foreseen_marking found stands undebugged foretold
  | lookingAhead => exact foreseen_lookingAhead found stands foretold
  | closing => exact still rfl (foreseen_beginAfterBranch _ _ _)
  | afterBranch index call =>
      obtain ⟨reply, world, advanced⟩ := Cursor.advance_eq setting shared call
      simp only [Cursor.turn, advanced]
      rcases reply with ⟨time, later⟩ | ⟨result, scope⟩
      · exact ⟨branch, found, foreseen_asleep trivial⟩
      · dsimp only
        split
        · exact ⟨branch, found, foreseen_onward trivial⟩
        · exact ⟨branch, found, foreseen_beginAfterBranch _ _ _⟩
  | afterBranchFailed index error =>
      exact ⟨_, Suite.branch?_modify_self found _, foreseen_beginAfterBranch _ _ _⟩

end Turns

end TestTree.Run
