import TestTree.Proofs.Run.Nearing
import TestTree.Proofs.Run.Once

namespace TestTree.Run

variable {Call Env : Type}

/-- An executor whose bodies end with the variables that they were started with. -/
structure Executor.KeepsVariables (executor : Executor Call Env) (scopeOf : Call → Variables) : Prop where
  starts : ∀ body scope, scopeOf (executor.start body scope) = scope
  waits : ∀ call world time later, (executor.advance call world).1 = .waiting time later →
    scopeOf later = scopeOf call
  ends : ∀ call world result scope, (executor.advance call world).1 = .done result scope →
    scope = scopeOf call

/-- The body in progress has the variables of its cursor. -/
def Carries (scopeOf : Call → Variables) (scope : Variables) (activity : Activity Call) : Prop :=
  ∀ call, activity.call? = some call → scopeOf call = scope

namespace Cursor

/-- The step to begin when the hooks before it up to `index` are over. -/
def behindHooks (branch : Branch) (step index : Nat) : Option Nat :=
  if branch.beforeEveryStep[index]?.isNone then some step else none

/-- The step that a turn begins: its level is entered and its parameters are bound, whether or not it has code. A
step whose hooks fail is not begun. -/
def begins (setting : Setting Call Env) (cursor : Cursor) (shared : Shared Env) :
    Activity Call → Option Nat
  | .preparing step => behindHooks (shared.branch cursor.branch) step 0
  | .beforeStep step index call =>
      match shared.advance setting call with
      | (.waiting _ _, _) => none
      | (.done result _, shared) =>
          let branch := shared.branch cursor.branch
          match result, branch.beforeEveryStep[index]? with
          | .error _, some _ => none
          | _, _ => behindHooks branch step (index + 1)
  | _ => none

end Cursor

/-- What a turn does to the variables of its cursor. -/
inductive Alters (steps : List BranchStep) (stage : Stage) (scope : Variables) : Option Nat → Variables → Prop
  | kept : Alters steps stage scope none scope
  | absent (index : Nat) (stands : stage = .before index) (missing : steps[index]? = none) :
      Alters steps stage scope (some index) scope
  | begun (index : Nat) (step : BranchStep) (stands : stage = .before index)
      (found : steps[index]? = some step) : Alters steps stage scope (some index) (step.prepare scope).1
  | passed (index : Nat) (step : BranchStep) (value : Option Text) (stands : stage = .before index)
      (found : steps[index]? = some step) :
      Alters steps stage scope (some index) (step.assign value (step.prepare scope).1).1
  | ended (index : Nat) (step : BranchStep) (value : Option Text) (stands : stage = .within index)
      (found : steps[index]? = some step) : Alters steps stage scope none (step.assign value scope).1

theorem Alters.stands {steps : List BranchStep} {stage : Stage} {scope after : Variables} {index : Nat}
    (alters : Alters steps stage scope (some index) after) : stage = .before index := by
  cases alters with
  | absent _ stands => exact stands
  | begun _ _ stands => exact stands
  | passed _ _ _ stands => exact stands

namespace Cursor

variable {setting : Setting Call Env} {scopeOf : Call → Variables} {purpose : Purpose} {cursor : Cursor}
  {shared : Shared Env} {branch : Branch} {activity : Activity Call}

section Beginnings

variable (keeps : setting.executor.KeepsVariables scopeOf)

include keeps

theorem carries_hookOr (cursor : Cursor) (hooks : List Hook) (index : Nat) (role : Role)
    {running : Call → Activity Call} {next : Activity Call}
    (runs : ∀ call, (running call).call? = some call) (rests : next.call? = none) :
    Carries scopeOf cursor.scope (hookOr setting cursor hooks index role running next) := by
  intro call inProgress
  unfold hookOr at inProgress
  split at inProgress
  · rw [runs] at inProgress
    cases inProgress
    exact keeps.starts _ _
  · rw [rests] at inProgress
    cases inProgress

theorem carries_beginBeforeBranch (branch : Branch) (cursor : Cursor) (index : Nat) :
    Carries scopeOf cursor.scope (beginBeforeBranch setting branch cursor index) :=
  carries_hookOr keeps cursor _ index _ (fun _ => rfl) rfl

theorem carries_beginAfterStep (branch : Branch) (cursor : Cursor) (step index : Nat)
    (error : Option StepError) :
    Carries scopeOf cursor.scope (beginAfterStep setting branch cursor step index error) :=
  carries_hookOr keeps cursor _ index _ (fun _ => rfl) rfl

theorem carries_beginAfterBranch (branch : Branch) (cursor : Cursor) (index : Nat) {course : Course Call}
    (kept : cursor.keeps (beginAfterBranch setting branch cursor index) = some course) :
    Carries scopeOf course.1.scope course.2 := by
  unfold beginAfterBranch at kept
  split at kept
  · cases kept
    rintro call ⟨⟩
    exact keeps.starts _ _
  · cases kept

/-- Behind its body a step assigns what it assigns. -/
theorem endBody_alters (branch : Branch) (cursor : Cursor) (step : Nat) (value : Option Text) :
    Carries scopeOf (endBody setting branch cursor step value).1.scope
        (endBody setting branch cursor step value).2 ∧
      (branch.steps[step]? = none ∧ (endBody setting branch cursor step value).1.scope = cursor.scope ∨
        ∃ here, branch.steps[step]? = some here ∧
          (endBody setting branch cursor step value).1.scope = (here.assign value cursor.scope).1) := by
  unfold endBody
  split
  · next missing => exact ⟨nofun, .inl ⟨missing, rfl⟩⟩
  · next here found =>
      exact ⟨carries_beginAfterStep keeps branch _ step 0 _, .inr ⟨here, found, rfl⟩⟩

theorem beginBody_alters (branch : Branch) (cursor : Cursor) (step : Nat) :
    Carries scopeOf (beginBody setting branch cursor step).1.scope (beginBody setting branch cursor step).2 ∧
      Alters branch.steps (.before step) cursor.scope (some step)
        (beginBody setting branch cursor step).1.scope := by
  unfold beginBody
  split
  · next missing => exact ⟨nofun, .absent step rfl missing⟩
  · next here found =>
      dsimp only
      split
      · exact ⟨carries_beginAfterStep keeps branch _ step 0 _, .begun step here rfl found⟩
      · refine ⟨?_, .begun step here rfl found⟩
        rintro call ⟨⟩
        exact keeps.starts _ _
      · obtain ⟨carries, ⟨missing, -⟩ | ⟨other, present, same⟩⟩ :=
          endBody_alters keeps branch { cursor with scope := (here.prepare cursor.scope).1 } step none
        · rw [found] at missing
          cases missing
        · obtain rfl := Option.some.inj (found.symm.trans present)
          refine ⟨carries, ?_⟩
          rw [same]
          exact .passed step here none rfl found

/-- A step is begun when there is no hook left before it. -/
theorem beginBeforeStep_alters (branch : Branch) (cursor : Cursor) (step index : Nat) :
    Carries scopeOf (beginBeforeStep setting branch cursor step index).1.scope
        (beginBeforeStep setting branch cursor step index).2 ∧
      Alters branch.steps (.before step) cursor.scope (behindHooks branch step index)
        (beginBeforeStep setting branch cursor step index).1.scope := by
  unfold beginBeforeStep behindHooks
  split
  · next hook declared =>
      rw [declared]
      refine ⟨?_, .kept⟩
      rintro call ⟨⟩
      exact keeps.starts _ _
  · next done =>
      rw [done]
      exact beginBody_alters keeps branch cursor step

end Beginnings

/-- A step that is begun is at its body or behind it. -/
theorem stage_of_behindHooks {step index begun : Nat} (begins : behindHooks branch step index = some begun) :
    (beginBeforeStep setting branch cursor step index).2.stage.begun = 1 := by
  unfold behindHooks at begins
  split at begins
  · next done =>
      rw [beginBeforeStep, Option.isNone_iff_eq_none.mp done]
      obtain ⟨_, _, within | ⟨error, behind⟩⟩ := beginBody_eq setting branch cursor step
      · exact congrArg Stage.begun within
      · exact congrArg Stage.begun behind
  · cases begins

/-- To come to the body of a step is to begin that step. -/
theorem behindHooks_of_stage {step index within : Nat}
    (enters : (beginBeforeStep setting branch cursor step index).2.stage = .within within) :
    behindHooks branch step index = some within := by
  unfold beginBeforeStep at enters
  split at enters
  · cases enters
  · next done =>
      obtain ⟨_, _, inside | ⟨error, behind⟩⟩ := beginBody_eq setting branch cursor step
      · rw [inside] at enters
        cases enters
        rw [behindHooks, done]
        rfl
      · rw [behind] at enters
        cases enters

/-- The body of a step is started with the variables that the step was prepared with. -/
theorem body_of_beginBody {step within : Nat} {call : Call}
    (starts : (beginBody setting branch cursor step).2 = .body within call) :
    ∃ here code, branch.steps[within]? = some here ∧
      (beginBody setting branch cursor step).1.scope = (here.prepare cursor.scope).1 ∧
      call = setting.executor.start (here.body (.step cursor.branch within) code)
        (beginBody setting branch cursor step).1.scope := by
  unfold beginBody at starts ⊢
  cases found : branch.steps[step]? with
  | none =>
      rw [found] at starts
      cases starts
  | some here =>
      rw [found] at starts
      dsimp only at starts ⊢
      split at starts
      · next error _ =>
          have behind := stage_beginAfterStep setting branch
            { cursor with scope := (here.prepare cursor.scope).1 } step 0 (some error)
          cases (congrArg Activity.stage starts).symm.trans behind
      · next code _ _ =>
          cases starts
          exact ⟨here, code, found, rfl, rfl⟩
      · obtain ⟨_, error, _, behind⟩ := endBody_eq setting branch
          { cursor with scope := (here.prepare cursor.scope).1 } step none
        cases (congrArg Activity.stage starts).symm.trans behind

theorem body_of_beginBeforeStep {step index within : Nat} {call : Call}
    (starts : (beginBeforeStep setting branch cursor step index).2 = .body within call) :
    ∃ here code, branch.steps[within]? = some here ∧
      (beginBeforeStep setting branch cursor step index).1.scope = (here.prepare cursor.scope).1 ∧
      call = setting.executor.start (here.body (.step cursor.branch within) code)
        (beginBeforeStep setting branch cursor step index).1.scope := by
  unfold beginBeforeStep at starts ⊢
  split at starts
  · cases starts
  · exact body_of_beginBody starts

/-- What a turn of a cursor does to its variables, and which step it begins. -/
structure Conveys (setting : Setting Call Env) (scopeOf : Call → Variables) (cursor : Cursor)
    (shared : Shared Env) (activity : Activity Call) (move : Move Call Env) : Prop where
  alters : Alters (shared.branch cursor.branch).steps activity.stage cursor.scope
    (cursor.begins setting shared activity) move.cursor.scope
  carries : ∀ course, move.cursor.keeps move.turn = some course → Carries scopeOf course.1.scope course.2
  begins : ∀ step, cursor.begins setting shared activity = some step →
    ∃ stage, move.turn.arrival = .at stage ∧ stage.begun = 1
  enters : ∀ step, move.turn.arrival = .at (.within step) →
    activity.stage = .within step ∨ cursor.begins setting shared activity = some step
  hands : ∀ step call, move.turn = .onward (.body step call) → ∃ here code,
    (shared.branch cursor.branch).steps[step]? = some here ∧
    move.cursor.scope = (here.prepare cursor.scope).1 ∧
    call = setting.executor.start (here.body (.step cursor.branch step) code) move.cursor.scope

theorem conveys_of_still (still : cursor.begins setting shared activity = none)
    (elsewhere : ∀ step, activity.stage ≠ .before step)
    (same : (cursor.turn setting purpose shared activity).cursor.scope = cursor.scope ∨
      ∃ step here value, activity.stage = .within step ∧
        (shared.branch cursor.branch).steps[step]? = some here ∧
        (cursor.turn setting purpose shared activity).cursor.scope = (here.assign value cursor.scope).1)
    (carries : ∀ course, (cursor.turn setting purpose shared activity).cursor.keeps
      (cursor.turn setting purpose shared activity).turn = some course →
      Carries scopeOf course.1.scope course.2) :
    Conveys setting scopeOf cursor shared activity (cursor.turn setting purpose shared activity) where
  alters := by
    rw [still]
    rcases same with same | ⟨step, here, value, within, found, same⟩
    · rw [same]
      exact .kept
    · rw [same]
      exact .ended step here value within found
  carries := carries
  begins := by
    intro step begun
    rw [still] at begun
    cases begun
  enters := by
    intro step arrives
    exact .inl (((turn_walks setting purpose cursor shared activity).enters arrives).resolve_left
      (elsewhere step))
  hands := by
    intro step call goes
    have arrives : (cursor.turn setting purpose shared activity).turn.arrival = .at (.within step) := by
      rw [goes]
      rfl
    have inside := ((turn_walks setting purpose cursor shared activity).enters arrives).resolve_left
      (elsewhere step)
    cases activity with
    | body =>
        obtain ⟨error, behind⟩ := onward_body goes
        cases behind
    | opening | beforeBranch | beforeBranchFailed | looping | taking | skipping | preparing | beforeStep
    | afterStep | marking | lookingAhead | closing | afterBranch | afterBranchFailed => cases inside

theorem carries_of_left {course : Course Call} {next : Cursor} {departure : Departure}
    (kept : next.keeps (.left departure) = some course) : Carries scopeOf course.1.scope course.2 := by
  cases departure <;> cases kept
  exact nofun

theorem carries_of_onward {course : Course Call} {next : Cursor} {later : Activity Call}
    (carries : Carries scopeOf next.scope later) (kept : next.keeps (.onward later) = some course) :
    Carries scopeOf course.1.scope course.2 := by
  cases kept
  exact carries

theorem carries_of_asleep {course : Course Call} {next : Cursor} {time : Nat} {later : Activity Call}
    (carries : Carries scopeOf next.scope later) (kept : next.keeps (.asleep time later) = some course) :
    Carries scopeOf course.1.scope course.2 := by
  cases kept
  exact carries

theorem carries_of_rest {scope : Variables} {later : Activity Call} (rests : later.call? = none) :
    Carries scopeOf scope later := by
  intro call inProgress
  rw [rests] at inProgress
  cases inProgress

/-- A body goes on with the variables of its cursor, or gives them back. -/
theorem advance_keeps (keeps : setting.executor.KeepsVariables scopeOf) (shared : Shared Env) {call : Call}
    {scope : Variables} (carries : scopeOf call = scope) :
    ∃ world, (∃ time later, shared.advance setting call = (.waiting time later, { shared with world }) ∧
        scopeOf later = scope) ∨
      ∃ result, shared.advance setting call = (.done result scope, { shared with world }) := by
  rw [Shared.advance]
  cases advanced : setting.executor.advance call shared.world with
  | mk reply world =>
      refine ⟨world, ?_⟩
      have replied := congrArg Prod.fst advanced
      cases reply with
      | waiting time later =>
          exact .inl ⟨time, later, rfl, (keeps.waits call _ time later replied).trans carries⟩
      | done result after =>
          obtain rfl := (keeps.ends call _ result after replied).trans carries
          exact .inr ⟨result, rfl⟩

/-- Behind a hook of a step, either the failure of the hook is handed to the hooks behind the step, or the
next hook or the step itself is started. -/
theorem turn_beforeStep_done (purpose : Purpose) {shared : Shared Env} {step index : Nat} {call : Call}
    {result : Except Text (Option Text)} {world : World Env}
    (advanced : shared.advance setting call = (.done result cursor.scope, { shared with world })) :
    (∃ failure, cursor.begins setting shared (.beforeStep step index call) = none ∧
        cursor.turn setting purpose shared (.beforeStep step index call) =
          ⟨{ shared with world }, cursor,
            .onward (beginAfterStep setting (shared.branch cursor.branch) cursor step 0 (some failure))⟩) ∨
      let begun := beginBeforeStep setting (shared.branch cursor.branch) cursor step (index + 1)
      cursor.begins setting shared (.beforeStep step index call) =
          behindHooks (shared.branch cursor.branch) step (index + 1) ∧
        cursor.turn setting purpose shared (.beforeStep step index call) =
          ⟨{ shared with world }, begun.1, .onward begun.2⟩ := by
  have branch : ({ shared with world } : Shared Env).branch cursor.branch = shared.branch cursor.branch := rfl
  simp only [begins, turn, advanced, branch]
  cases result with
  | error message =>
      cases (shared.branch cursor.branch).beforeEveryStep[index]? with
      | some hook => exact .inl ⟨hook.failure message, rfl, rfl⟩
      | none => exact .inr ⟨rfl, rfl⟩
  | ok value => exact .inr ⟨rfl, rfl⟩

/-- A hook before a step goes on with the variables of its cursor, fails, or is the last before the step. -/
theorem conveys_beforeStep (keeps : setting.executor.KeepsVariables scopeOf) (purpose : Purpose)
    (shared : Shared Env) {step index : Nat} {call : Call}
    (carries : Carries scopeOf cursor.scope (.beforeStep step index call)) :
    Conveys setting scopeOf cursor shared (.beforeStep step index call)
      (cursor.turn setting purpose shared (.beforeStep step index call)) := by
  obtain ⟨world, ⟨time, later, advanced, kept⟩ | ⟨result, advanced⟩⟩ :=
    advance_keeps keeps shared (carries call rfl)
  · have still : cursor.begins setting shared (.beforeStep step index call) = none := by
      simp only [begins, advanced]
    refine ⟨?_, ?_, ?_, ?_, ?_⟩ <;> simp only [turn, advanced, still]
    · exact .kept
    · exact fun _ => carries_of_asleep (by rintro _ ⟨⟩; exact kept)
    · rintro _ ⟨⟩
    · rintro _ ⟨⟩
    · rintro _ _ ⟨⟩
  · rcases turn_beforeStep_done purpose advanced with ⟨failure, still, turned⟩ | ⟨begins, turned⟩
    · rw [turned]
      refine ⟨still ▸ .kept, fun _ => carries_of_onward (carries_beginAfterStep keeps _ _ _ _ _), ?_, ?_, ?_⟩
      · intro begun begins
        cases still.symm.trans begins
      · intro within enters
        rw [Turn.arrival, stage_beginAfterStep] at enters
        cases enters
      · intro within call starts
        have behind := stage_beginAfterStep setting (shared.branch cursor.branch) cursor step 0 (some failure)
        rw [Turn.onward.inj starts] at behind
        cases behind
    · rw [turned]
      obtain ⟨kept, alters⟩ :=
        beginBeforeStep_alters keeps (shared.branch cursor.branch) cursor step (index + 1)
      exact ⟨begins ▸ alters, fun _ => carries_of_onward kept,
        fun begun starts => ⟨_, rfl, stage_of_behindHooks (begins.symm.trans starts)⟩,
        fun within enters => .inr (begins.trans (behindHooks_of_stage (Arrival.at.inj enters))),
        fun within call starts => body_of_beginBeforeStep (Turn.onward.inj starts)⟩

/-- A turn gives a body the variables of its cursor, and changes these only where a step is begun or assigns. -/
theorem turn_conveys (keeps : setting.executor.KeepsVariables scopeOf) (purpose : Purpose)
    (shared : Shared Env) (carries : Carries scopeOf cursor.scope activity) :
    Conveys setting scopeOf cursor shared activity (cursor.turn setting purpose shared activity) := by
  cases activity with
  | opening =>
      exact conveys_of_still rfl (by rintro _ ⟨⟩) (.inl rfl) fun _ =>
        carries_of_onward (carries_beginBeforeBranch keeps _ _ 0)
  | beforeBranchFailed | skipping =>
      exact conveys_of_still rfl (by rintro _ ⟨⟩) (.inl rfl) fun _ => carries_of_onward (carries_of_rest rfl)
  | marking step error =>
      refine conveys_of_still rfl (by rintro _ ⟨⟩) (.inl rfl) fun _ => carries_of_onward (carries_of_rest ?_)
      split <;> rfl
  | looping =>
      refine conveys_of_still rfl (by rintro _ ⟨⟩) (.inl ?_) fun course => ?_
      · simp only [turn]
        split
        · rfl
        · split <;> rfl
      · simp only [turn]
        split
        · exact carries_of_left
        · split
          · exact carries_of_left
          · exact carries_of_onward (carries_of_rest rfl)
  | taking =>
      refine conveys_of_still rfl (by rintro _ ⟨⟩) (.inl ?_) fun course => ?_
      · simp only [turn]
        split
        · cases purpose with
          | step | skip => rfl
          | run =>
              simp only [onTaken]
              split <;> rfl
        · rfl
      · simp only [turn]
        split
        · cases purpose with
          | step | skip => exact carries_of_onward (carries_of_rest rfl)
          | run =>
              simp only [onTaken]
              split
              · exact carries_of_left
              · exact carries_of_onward (carries_of_rest rfl)
        · exact carries_of_onward (carries_of_rest rfl)
  | lookingAhead =>
      refine conveys_of_still rfl (by rintro _ ⟨⟩) (.inl ?_) fun course => ?_
      · simp only [turn, lookAhead]
        split <;> rfl
      · simp only [turn, lookAhead]
        split
        · exact carries_of_left
        · exact carries_of_onward (carries_of_rest rfl)
  | closing =>
      exact conveys_of_still rfl (by rintro _ ⟨⟩) (.inl rfl) fun _ => carries_beginAfterBranch keeps _ _ 0
  | afterBranchFailed index error =>
      exact conveys_of_still rfl (by rintro _ ⟨⟩) (.inl rfl) fun _ => carries_beginAfterBranch keeps _ _ _
  | beforeBranch index call =>
      obtain ⟨world, ⟨time, later, advanced, kept⟩ | ⟨result, advanced⟩⟩ :=
        advance_keeps keeps shared (carries call rfl)
      · refine conveys_of_still rfl (by rintro _ ⟨⟩) (.inl ?_) fun course => ?_ <;> simp only [turn, advanced]
        exact carries_of_asleep (by rintro _ ⟨⟩; exact kept)
      · refine conveys_of_still rfl (by rintro _ ⟨⟩) (.inl ?_) fun course => ?_ <;> simp only [turn, advanced]
        · split <;> rfl
        · split
          · exact carries_of_onward (carries_of_rest rfl)
          · exact carries_of_onward (carries_beginBeforeBranch keeps _ _ _)
  | afterBranch index call =>
      obtain ⟨world, ⟨time, later, advanced, kept⟩ | ⟨result, advanced⟩⟩ :=
        advance_keeps keeps shared (carries call rfl)
      · refine conveys_of_still rfl (by rintro _ ⟨⟩) (.inl ?_) fun course => ?_ <;> simp only [turn, advanced]
        exact carries_of_asleep (by rintro _ ⟨⟩; exact kept)
      · refine conveys_of_still rfl (by rintro _ ⟨⟩) (.inl ?_) fun course => ?_ <;> simp only [turn, advanced]
        · split <;> rfl
        · split
          · exact carries_of_onward (carries_of_rest rfl)
          · exact carries_beginAfterBranch keeps _ _ _
  | afterStep step index error call =>
      obtain ⟨world, ⟨time, later, advanced, kept⟩ | ⟨result, advanced⟩⟩ :=
        advance_keeps keeps shared (carries call rfl)
      · refine conveys_of_still rfl (by rintro _ ⟨⟩) (.inl ?_) fun course => ?_ <;> simp only [turn, advanced]
        exact carries_of_asleep (by rintro _ ⟨⟩; exact kept)
      · refine conveys_of_still rfl (by rintro _ ⟨⟩) (.inl ?_) fun course => ?_ <;> simp only [turn, advanced]
        exact carries_of_onward (carries_beginAfterStep keeps _ _ _ _ _)
  | body step call =>
      obtain ⟨world, ⟨time, later, advanced, kept⟩ | ⟨result, advanced⟩⟩ :=
        advance_keeps keeps shared (carries call rfl)
      · refine conveys_of_still rfl (by rintro _ ⟨⟩) (.inl ?_) fun course => ?_ <;> simp only [turn, advanced]
        exact carries_of_asleep (by rintro _ ⟨⟩; exact kept)
      · cases result with
        | error message =>
            refine conveys_of_still rfl (by rintro _ ⟨⟩) (.inl ?_) fun course => ?_ <;> simp only [turn, advanced]
            exact carries_of_onward (carries_beginAfterStep keeps _ _ _ _ _)
        | ok value =>
            have ended := endBody_alters keeps (shared.branch cursor.branch) cursor step value
            refine conveys_of_still rfl (by rintro _ ⟨⟩) ?_ fun course => ?_ <;> simp only [turn, advanced]
            · refine ended.2.imp And.right ?_
              rintro ⟨here, found, same⟩
              exact ⟨step, here, value, rfl, found, same⟩
            · exact carries_of_onward ended.1
  | preparing step =>
      obtain ⟨kept, alters⟩ := beginBeforeStep_alters keeps (shared.branch cursor.branch) cursor step 0
      exact ⟨alters, fun _ => carries_of_onward kept,
        fun begun begins => ⟨_, rfl, stage_of_behindHooks begins⟩,
        fun within enters => .inr (behindHooks_of_stage (Arrival.at.inj enters)),
        fun within call starts => body_of_beginBeforeStep (Turn.onward.inj starts)⟩
  | beforeStep step index call => exact conveys_beforeStep keeps purpose shared carries

end Cursor

end TestTree.Run
