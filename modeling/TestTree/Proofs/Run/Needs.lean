import TestTree.Proofs.Run.Deeds
import TestTree.Proofs.Run.Locals

namespace TestTree

/-- To enter a level drops the frames that are deeper. -/
theorem Variables.enter_append (scope : Variables) (deeper : List Bindings) {level : Nat}
    (inside : level < scope.frames.length) :
    ({ scope with frames := scope.frames ++ deeper } : Variables).enter level = scope.enter level := by
  simp only [enter]
  rw [List.take_append_of_le_length (by omega)]

namespace BranchStep

/-- A step is prepared with what is not deeper than its level. -/
theorem prepare_congr (step : BranchStep) {scope other : Variables}
    (same : scope.enter step.branchIndents = other.enter step.branchIndents) :
    step.prepare scope = step.prepare other := by
  unfold prepare
  rw [same]

/-- To prepare a step leaves alone what is not deeper than its level. -/
theorem enter_prepare (step : BranchStep) (scope : Variables) {level : Nat}
    (shallow : level ≤ step.branchIndents) : (step.prepare scope).1.enter level = scope.enter level := by
  rcases step.prepare_cases scope with bare | ⟨resolved, -, bound⟩
  · rw [bare, scope.enter_enter shallow]
  · have full := scope.length_enter step.branchIndents
    rw [bound, Variables.enter_append _ _ (by omega), scope.enter_enter shallow]

end BranchStep

namespace Run

variable {Call Env : Type}

/-- The same in other surroundings. -/
def Shared.within (env : Env) (shared : Shared Env) : Shared Env :=
  { shared with world := { shared.world with env } }

/-- Bodies do the same in surroundings that are alike, and leave them alike. -/
structure Executor.Respects (executor : Executor Call Env) (alike : Env → Env → Prop) : Prop where
  refl : ∀ env, alike env env
  advances : ∀ call world env, alike world.env env → ∃ after,
    alike (executor.advance call world).2.env after ∧
    executor.advance call { world with env } =
      ((executor.advance call world).1, { (executor.advance call world).2 with env := after })

theorem Executor.respects_eq (executor : Executor Call Env) : executor.Respects Eq where
  refl _ := rfl
  advances call world env := by
    rintro rfl
    exact ⟨_, rfl, rfl⟩

variable {setting : Setting Call Env} {alike : Env → Env → Prop} {shared : Shared Env} {env : Env}

theorem Shared.advance_within (respects : setting.executor.Respects alike) (kin : alike shared.world.env env)
    (call : Call) : ∃ after, alike (shared.advance setting call).2.world.env after ∧
      (shared.within env).advance setting call =
        ((shared.advance setting call).1, (shared.advance setting call).2.within after) := by
  obtain ⟨after, kin, same⟩ := respects.advances call shared.world env kin
  refine ⟨after, kin, ?_⟩
  simp only [advance, within, same]

@[simp] theorem Shared.branch_within (shared : Shared Env) (env : Env) (index : Nat) :
    (shared.within env).branch index = shared.branch index := rfl

namespace Cursor

def Move.within (env : Env) (move : Move Call Env) : Move Call Env :=
  { move with shared := move.shared.within env }

theorem take_within (setting : Setting Call Env) (cursor : Cursor) (shared : Shared Env) (env : Env) :
    cursor.take setting (shared.within env) =
      ((cursor.take setting shared).1, (cursor.take setting shared).2.within env) := by
  unfold take
  split <;> rfl

theorem onTaken_within (purpose : Purpose) (cursor : Cursor) (shared : Shared Env) (step : Nat) (env : Env) :
    (cursor.onTaken purpose (shared.within env) step : Move Call Env) =
      Move.within env (cursor.onTaken purpose shared step) := by
  cases purpose with
  | step | skip => rfl
  | run =>
      cases pauses : cursor.pausesAt (shared.branch cursor.branch) step <;>
        simp only [onTaken, Shared.branch_within, pauses] <;> rfl

theorem lookAhead_within (setting : Setting Call Env) (cursor : Cursor) (shared : Shared Env) (env : Env) :
    cursor.lookAhead setting (shared.within env) = Move.within env (cursor.lookAhead setting shared) := by
  unfold lookAhead
  dsimp only [Shared.within]
  split <;> rfl

theorem turn_within (respects : setting.executor.Respects alike) (kin : alike shared.world.env env)
    (purpose : Purpose) (cursor : Cursor) (activity : Activity Call) :
    ∃ after, alike (cursor.turn setting purpose shared activity).shared.world.env after ∧
      cursor.turn setting purpose (shared.within env) activity =
        Move.within after (cursor.turn setting purpose shared activity) := by
  cases activity with
  | opening | beforeBranchFailed | skipping | preparing | marking | closing | afterBranchFailed =>
      exact ⟨env, kin, rfl⟩
  | looping =>
      obtain ⟨suite, ⟨persistent, isStopped, known⟩, pauseRequested⟩ := shared
      cases isStopped <;> cases pauseRequested <;> exact ⟨env, kin, rfl⟩
  | taking =>
      obtain ⟨suite, taken, -⟩ := take_eq setting cursor shared
      refine ⟨env, ?_, ?_⟩
      · simp only [turn]
        rw [taken]
        cases (cursor.take setting shared).1 with
        | none => exact kin
        | some step =>
            simp only [world_onTaken]
            exact kin
      · simp only [turn, take_within]
        cases (cursor.take setting shared).1 with
        | none => rfl
        | some step => exact onTaken_within ..
  | lookingAhead =>
      refine ⟨env, ?_, lookAhead_within ..⟩
      simp only [turn, lookAhead]
      split <;> exact kin
  | beforeBranch index call =>
      obtain ⟨after, kin, same⟩ := Shared.advance_within respects kin call
      refine ⟨after, ?_⟩
      simp only [turn, same]
      generalize shared.advance setting call = answer at kin
      obtain ⟨⟨time, later⟩ | ⟨message | value, scope⟩, between⟩ := answer
      · exact ⟨kin, rfl⟩
      · simp only [Shared.branch_within]
        cases (between.branch cursor.branch).beforeEveryBranch[index]? <;> exact ⟨kin, rfl⟩
      · exact ⟨kin, rfl⟩
  | beforeStep step index call =>
      obtain ⟨after, kin, same⟩ := Shared.advance_within respects kin call
      refine ⟨after, ?_⟩
      simp only [turn, same]
      generalize shared.advance setting call = answer at kin
      obtain ⟨⟨time, later⟩ | ⟨message | value, scope⟩, between⟩ := answer
      · exact ⟨kin, rfl⟩
      · simp only [Shared.branch_within]
        cases (between.branch cursor.branch).beforeEveryStep[index]? <;> exact ⟨kin, rfl⟩
      · exact ⟨kin, rfl⟩
  | body step call =>
      obtain ⟨after, kin, same⟩ := Shared.advance_within respects kin call
      refine ⟨after, ?_⟩
      simp only [turn, same]
      generalize shared.advance setting call = answer at kin
      obtain ⟨⟨time, later⟩ | ⟨message | value, scope⟩, between⟩ := answer <;> exact ⟨kin, rfl⟩
  | afterStep step index error call =>
      obtain ⟨after, kin, same⟩ := Shared.advance_within respects kin call
      refine ⟨after, ?_⟩
      simp only [turn, same]
      generalize shared.advance setting call = answer at kin
      obtain ⟨⟨time, later⟩ | ⟨result, scope⟩, between⟩ := answer <;> exact ⟨kin, rfl⟩
  | afterBranch index call =>
      obtain ⟨after, kin, same⟩ := Shared.advance_within respects kin call
      refine ⟨after, ?_⟩
      simp only [turn, same]
      generalize shared.advance setting call = answer at kin
      obtain ⟨⟨time, later⟩ | ⟨message | value, scope⟩, between⟩ := answer
      · exact ⟨kin, rfl⟩
      · simp only [Shared.branch_within]
        cases (between.branch cursor.branch).afterEveryBranch[index]? <;> exact ⟨kin, rfl⟩
      · exact ⟨kin, rfl⟩

theorem idle_of_onward {next : Cursor} {later : Activity Call} (idle : later.call? = none) (course : Course Call)
    (kept : next.keeps (.onward later) = some course) : course.2.call? = none := by
  cases kept
  exact idle

theorem idle_of_left {next : Cursor} {departure : Departure} (course : Course Call)
    (kept : next.keeps (.left departure) = some course) : course.2.call? = none := by
  cases departure <;> cases kept
  rfl

/-- What is done with a step that has been taken needs no variables. -/
theorem onTaken_unused (purpose : Purpose) (cursor : Cursor) (shared : Shared Env) (step : Nat)
    (scope : Variables) :
    let move : Move Call Env := cursor.onTaken purpose shared step
    move.cursor.scope = cursor.scope ∧
      (∀ course, move.cursor.keeps move.turn = some course → course.2.call? = none) ∧
      ({ cursor with scope } : Cursor).onTaken purpose shared step =
        { move with cursor := { move.cursor with scope } } := by
  cases purpose with
  | step | skip => exact ⟨rfl, idle_of_onward rfl, rfl⟩
  | run =>
      have test : ({ cursor with scope } : Cursor).pausesAt (shared.branch cursor.branch) step =
        cursor.pausesAt (shared.branch cursor.branch) step := rfl
      cases pauses : cursor.pausesAt (shared.branch cursor.branch) step <;>
        simp only [onTaken, test, pauses]
      · exact ⟨rfl, idle_of_onward rfl, rfl⟩
      · exact ⟨rfl, idle_of_left, rfl⟩

/-- A turn that needs no variables leaves them as they are, starts no body, and is the same with others. -/
theorem turn_unused {cursor : Cursor} {activity : Activity Call}
    (unused : cursor.uses shared activity = none) (setting : Setting Call Env) (purpose : Purpose)
    (scope : Variables) :
    let move := cursor.turn setting purpose shared activity
    move.cursor.scope = cursor.scope ∧
      (∀ course, move.cursor.keeps move.turn = some course → course.2.call? = none) ∧
      ({ cursor with scope } : Cursor).turn setting purpose shared activity =
        { move with cursor := { move.cursor with scope } } := by
  dsimp only
  cases activity with
  | beforeBranch | beforeStep | body | afterStep | afterBranch | afterBranchFailed => cases unused
  | beforeBranchFailed | skipping => exact ⟨rfl, idle_of_onward rfl, rfl⟩
  | opening =>
      have none : (shared.branch cursor.branch).beforeEveryBranch = [] := by simpa [uses] using unused
      simp only [turn, beginBeforeBranch, hookOr, none, List.getElem?_nil]
      exact ⟨trivial, idle_of_onward rfl, trivial⟩
  | looping =>
      simp only [turn]
      split
      · exact ⟨rfl, idle_of_left, rfl⟩
      · split
        · exact ⟨rfl, idle_of_left, rfl⟩
        · exact ⟨rfl, idle_of_onward rfl, rfl⟩
  | taking =>
      have same : ({ cursor with scope } : Cursor).take setting shared = cursor.take setting shared := rfl
      simp only [turn, same]
      generalize cursor.take setting shared = answer
      obtain ⟨_ | step, after⟩ := answer
      · exact ⟨rfl, idle_of_onward rfl, rfl⟩
      · exact onTaken_unused purpose { cursor with pending := none } after step scope
  | preparing step =>
      rw [uses] at unused
      split at unused
      · next bare =>
        have missing := Option.map_eq_none_iff.mp unused
        rw [List.isEmpty_iff] at bare
        simp only [turn, beginBeforeStep, bare, List.getElem?_nil, beginBody, missing]
        exact ⟨trivial, idle_of_onward rfl, trivial⟩
      · cases unused
  | marking step error =>
      refine ⟨rfl, idle_of_onward ?_, rfl⟩
      split <;> rfl
  | lookingAhead =>
      simp only [turn, lookAhead]
      split
      · exact ⟨rfl, idle_of_left, rfl⟩
      · exact ⟨rfl, idle_of_onward rfl, rfl⟩
  | closing =>
      have none : (shared.branch cursor.branch).afterEveryBranch = [] := by simpa [uses] using unused
      simp only [turn, beginAfterBranch, none, List.getElem?_nil]
      exact ⟨trivial, idle_of_left, trivial⟩

/-- A turn that begins a step is the same with variables that agree up to the level of the step. -/
theorem turn_settled {cursor : Cursor} {activity : Activity Call} {level : Nat}
    (used : cursor.uses shared activity = some (.upTo level)) (setting : Setting Call Env) (purpose : Purpose)
    {scope : Variables} (same : scope.enter level = cursor.scope.enter level) :
    ({ cursor with scope } : Cursor).turn setting purpose shared activity =
      cursor.turn setting purpose shared activity := by
  cases activity with
  | beforeBranch | beforeStep | body | afterStep | afterBranch | beforeBranchFailed | afterBranchFailed | looping
  | taking | skipping | marking | lookingAhead => cases used
  | opening | closing =>
      obtain ⟨_, _, whole⟩ := Option.map_eq_some_iff.mp used
      cases whole
  | preparing step =>
      rw [uses] at used
      split at used
      · next bare =>
        obtain ⟨here, found, level⟩ := Option.map_eq_some_iff.mp used
        cases level
        rw [List.isEmpty_iff] at bare
        have prepared := here.prepare_congr same
        simp only [turn, beginBeforeStep, bare, List.getElem?_nil, beginBody, found, prepared]
      · cases used

end Cursor

end Run

end TestTree
