import TestTree.Proofs.Branch.Bookkeeping
import TestTree.Proofs.Run.Schedule

/-!
The graph of a walk. A stage is what an activity is about, whichever body it runs, and `Walk` says all
that one turn of a cursor can do: from which stage it leads where, what it does to the suite, and what
to the cursor. Statements about walks go by cases on its edges.
-/
namespace TestTree.Run

variable {Call Env : Type}

inductive Stage
  | opening
  /-- At the hooks before the branch. -/
  | entering
  | refused (index : Nat) (error : StepError)
  | looping
  | taking
  | skipping (step : Nat)
  /-- At the hooks before the step. -/
  | before (step : Nat)
  | within (step : Nat)
  /-- At the hooks after the step, or about to record its outcome. -/
  | behind (step : Nat) (error : Option StepError)
  | lookingAhead
  | closing
  | faulted (index : Nat) (error : StepError)
deriving DecidableEq, Repr

def Activity.stage : Activity Call → Stage
  | .opening => .opening
  | .beforeBranch _ _ => .entering
  | .beforeBranchFailed index error => .refused index error
  | .looping => .looping
  | .taking => .taking
  | .skipping step => .skipping step
  | .preparing step => .before step
  | .beforeStep step _ _ => .before step
  | .body step _ => .within step
  | .afterStep step _ error _ => .behind step error
  | .marking step error => .behind step error
  | .lookingAhead => .lookingAhead
  | .closing => .closing
  | .afterBranch _ _ => .closing
  | .afterBranchFailed index error => .faulted index error

/-- Where a turn leads. -/
inductive Arrival
  | at (stage : Stage)
  | away (departure : Departure)
deriving DecidableEq, Repr

def Turn.arrival : Turn Call → Arrival
  | .onward activity => .at activity.stage
  | .asleep _ activity => .at activity.stage
  | .left departure => .away departure

/-- The step that a cursor takes, and the suite behind that. -/
def Cursor.Takes (setting : Setting Call Env) (cursor : Cursor) (suite : Suite) (step : Nat)
    (after : Suite) : Prop :=
  cursor.pending = some step ∧ after = suite ∨
    cursor.pending = none ∧
      suite.nextStep cursor.branch true setting.skipRepeat = (some step, after)

/-- The outcome that a step has when it ends with or without an error. -/
def outcomeOf (branch : Branch) (step : Nat) (error : Option StepError) : Outcome :=
  { isPassed := error.isNone
    asExpected := error.isNone != branch.steps[step]?.any (·.identifiers.isExpectedFail)
    error }

/-- One turn of a cursor, with all that it can do. -/
inductive Walk (setting : Setting Call Env) (purpose : Purpose) (cursor : Cursor)
    (shared : Shared Env) : Stage → Shared Env → Cursor → Arrival → Prop
  | opened : Walk setting purpose cursor shared .opening shared { cursor with isStarted := true }
      (.at .entering)
  | unguarded : Walk setting purpose cursor shared .opening shared { cursor with isStarted := true }
      (.at .looping)
  | entering (world : World Env) (scope : Variables) :
      Walk setting purpose cursor shared .entering { shared with world } { cursor with scope }
        (.at .entering)
  | admitted (world : World Env) (scope : Variables) :
      Walk setting purpose cursor shared .entering { shared with world } { cursor with scope }
        (.at .looping)
  | refused (world : World Env) (scope : Variables) (index : Nat) (error : StepError)
      (declared : index < (shared.branch cursor.branch).beforeEveryBranch.length) :
      Walk setting purpose cursor shared .entering { shared with world } { cursor with scope }
        (.at (.refused index error))
  | turnedAway (index : Nat) (error : StepError) :
      Walk setting purpose cursor shared (.refused index error)
        (shared.modify cursor.branch (Cursor.recordBeforeBranch index error)) cursor (.at .closing)
  | halted (stopped : shared.world.isStopped = true) :
      Walk setting purpose cursor shared .looping shared cursor (.away .stopped)
  | interrupted (unstopped : shared.world.isStopped = false)
      (requested : shared.pauseRequested = true) :
      Walk setting purpose cursor shared .looping shared cursor (.away .paused)
  | continued (unstopped : shared.world.isStopped = false)
      (unrequested : shared.pauseRequested = false) :
      Walk setting purpose cursor shared .looping shared cursor (.at .taking)
  | exhausted (suite : Suite) (absent : cursor.pending = none)
      (next : shared.suite.nextStep cursor.branch true setting.skipRepeat = (none, suite)) :
      Walk setting purpose cursor shared .taking { shared with suite } cursor (.at .closing)
  | taken (step : Nat) (suite : Suite) (takes : cursor.Takes setting shared.suite step suite)
      (executes : purpose ≠ .skip)
      (passes : purpose = .run → ({ cursor with pending := none } : Cursor).pausesAt
        ((suite.branch? cursor.branch).getD {}) step = false) :
      Walk setting purpose cursor shared .taking { shared with suite } { cursor with pending := none }
        (.at (.before step))
  | passedOver (step : Nat) (suite : Suite) (takes : cursor.Takes setting shared.suite step suite)
      (skips : purpose = .skip) :
      Walk setting purpose cursor shared .taking { shared with suite } { cursor with pending := none }
        (.at (.skipping step))
  | paused (step : Nat) (suite : Suite) (takes : cursor.Takes setting shared.suite step suite)
      (runs : purpose = .run)
      (pauses : ({ cursor with pending := none } : Cursor).pausesAt
        ((suite.branch? cursor.branch).getD {}) step = true) :
      Walk setting purpose cursor shared .taking { shared with suite, pauseRequested := true }
        { cursor with pauseBeforeNext := false, debugPausedOn := some step, pending := some step }
        (.away .paused)
  | skipped (step : Nat) :
      Walk setting purpose cursor shared (.skipping step)
        (shared.modify cursor.branch (Cursor.skipStepAt step)) cursor (.at .lookingAhead)
  | preparing (step : Nat) (world : World Env) (scope : Variables) :
      Walk setting purpose cursor shared (.before step) { shared with world } { cursor with scope }
        (.at (.before step))
  | begun (step : Nat) (world : World Env) (scope : Variables) :
      Walk setting purpose cursor shared (.before step) { shared with world } { cursor with scope }
        (.at (.within step))
  | unbegun (step : Nat) (world : World Env) (scope : Variables) (error : Option StepError) :
      Walk setting purpose cursor shared (.before step) { shared with world } { cursor with scope }
        (.at (.behind step error))
  | sleeping (step : Nat) (world : World Env) :
      Walk setting purpose cursor shared (.within step) { shared with world } cursor
        (.at (.within step))
  | ended (step : Nat) (world : World Env) (scope : Variables) (error : Option StepError) :
      Walk setting purpose cursor shared (.within step) { shared with world } { cursor with scope }
        (.at (.behind step error))
  | trailing (step : Nat) (world : World Env) (scope : Variables) (error after : Option StepError) :
      Walk setting purpose cursor shared (.behind step error) { shared with world }
        { cursor with scope } (.at (.behind step after))
  | marked (step : Nat) (error : Option StepError) :
      Walk setting purpose cursor shared (.behind step error)
        { shared with
          suite := shared.suite.markStep cursor.branch step
            (outcomeOf (shared.branch cursor.branch) step error)
            (!error.isNone && !(shared.branch cursor.branch).hasDebugStep) setting.skipRepeat }
        { cursor with
          pauseBeforeNext := cursor.pauseBeforeNext ||
            (!error.isNone && (shared.branch cursor.branch).hasDebugStep) }
        (.at (if purpose = .run then .looping else .lookingAhead))
  | facing (step : Nat) (suite : Suite)
      (next : shared.suite.nextStep cursor.branch true setting.skipRepeat = (some step, suite)) :
      Walk setting purpose cursor shared .lookingAhead { shared with suite }
        { cursor with pending := some step, debugPausedOn := some step, pauseBeforeNext := false }
        (.away .paused)
  | atEnd (suite : Suite)
      (next : shared.suite.nextStep cursor.branch true setting.skipRepeat = (none, suite)) :
      Walk setting purpose cursor shared .lookingAhead { shared with suite } cursor (.at .closing)
  | leaving (world : World Env) (scope : Variables) (pending : Option Nat)
      (cleared : pending = cursor.pending ∨ pending = none) :
      Walk setting purpose cursor shared .closing { shared with world } { cursor with scope, pending }
        (.at .closing)
  | tarnished (world : World Env) (scope : Variables) (index : Nat) (error : StepError)
      (declared : index < (shared.branch cursor.branch).afterEveryBranch.length) :
      Walk setting purpose cursor shared .closing { shared with world } { cursor with scope }
        (.at (.faulted index error))
  | left (world : World Env) (scope : Variables) (pending : Option Nat) :
      Walk setting purpose cursor shared .closing { shared with world } { cursor with scope, pending }
        (.away .done)
  | recorded (index : Nat) (error : StepError) (arrival : Arrival)
      (goes : arrival = .at .closing ∨ arrival = .away .done) :
      Walk setting purpose cursor shared (.faulted index error)
        (shared.modify cursor.branch (Cursor.recordAfterBranch index error)) cursor arrival

namespace Cursor

variable {setting : Setting Call Env} {purpose : Purpose} {cursor : Cursor} {shared : Shared Env}
  {branch : Branch}

section Beginnings

variable (setting : Setting Call Env) (branch : Branch) (cursor : Cursor)

theorem stage_beginBeforeBranch (index : Nat) :
    (beginBeforeBranch setting branch cursor index).stage = .entering ∨
      (beginBeforeBranch setting branch cursor index).stage = .looping := by
  unfold beginBeforeBranch hookOr
  split
  · exact .inl rfl
  · exact .inr rfl

theorem arrival_beginAfterBranch (index : Nat) :
    (beginAfterBranch setting branch cursor index).arrival = .at .closing ∨
      (beginAfterBranch setting branch cursor index).arrival = .away .done := by
  unfold beginAfterBranch
  split
  · exact .inl rfl
  · exact .inr rfl

theorem stage_beginAfterStep (step index : Nat) (error : Option StepError) :
    (beginAfterStep setting branch cursor step index error).stage = .behind step error := by
  unfold beginAfterStep hookOr
  split <;> rfl

theorem endBody_eq (step : Nat) (value : Option Text) :
    ∃ scope error, (endBody setting branch cursor step value).1 = { cursor with scope } ∧
      (endBody setting branch cursor step value).2.stage = .behind step error := by
  unfold endBody
  split
  · exact ⟨cursor.scope, none, rfl, rfl⟩
  · exact ⟨_, _, rfl, stage_beginAfterStep _ _ _ _ _ _⟩

theorem beginBody_eq (step : Nat) :
    ∃ scope, (beginBody setting branch cursor step).1 = { cursor with scope } ∧
      ((beginBody setting branch cursor step).2.stage = .within step ∨
        ∃ error, (beginBody setting branch cursor step).2.stage = .behind step error) := by
  unfold beginBody
  split
  · exact ⟨cursor.scope, rfl, .inr ⟨none, rfl⟩⟩
  · next branchStep found =>
    dsimp only
    split
    · exact ⟨_, rfl, .inr ⟨_, stage_beginAfterStep _ _ _ _ _ _⟩⟩
    · exact ⟨_, rfl, .inl rfl⟩
    · obtain ⟨scope, error, same, stage⟩ := endBody_eq setting branch
        { cursor with scope := (branchStep.prepare cursor.scope).1 } step none
      exact ⟨scope, same, .inr ⟨error, stage⟩⟩

theorem beginBeforeStep_eq (step index : Nat) :
    ∃ scope, (beginBeforeStep setting branch cursor step index).1 = { cursor with scope } ∧
      ((beginBeforeStep setting branch cursor step index).2.stage = .before step ∨
        (beginBeforeStep setting branch cursor step index).2.stage = .within step ∨
        ∃ error, (beginBeforeStep setting branch cursor step index).2.stage = .behind step error) := by
  unfold beginBeforeStep
  split
  · exact ⟨cursor.scope, rfl, .inl rfl⟩
  · obtain ⟨scope, same, stage⟩ := beginBody_eq setting branch cursor step
    exact ⟨scope, same, .inr stage⟩

end Beginnings

theorem walk_beginBeforeStep (step index : Nat) (world : World Env) (scope : Variables) :
    Walk setting purpose cursor shared (.before step) { shared with world }
      (beginBeforeStep setting branch { cursor with scope } step index).1
      (.at (beginBeforeStep setting branch { cursor with scope } step index).2.stage) := by
  obtain ⟨scope, same, before | within | ⟨error, behind⟩⟩ :=
    beginBeforeStep_eq setting branch { cursor with scope } step index
  · rw [same, before]
    exact .preparing step world scope
  · rw [same, within]
    exact .begun step world scope
  · rw [same, behind]
    exact .unbegun step world scope error

theorem advance_eq (setting : Setting Call Env) (shared : Shared Env) (call : Call) :
    ∃ reply world, shared.advance setting call = (reply, { shared with world }) :=
  ⟨_, _, rfl⟩

theorem take_eq (setting : Setting Call Env) (cursor : Cursor) (shared : Shared Env) :
    ∃ suite, cursor.take setting shared =
        ((cursor.take setting shared).1, { shared with suite }) ∧
      (∀ step, (cursor.take setting shared).1 = some step →
        cursor.Takes setting shared.suite step suite) ∧
      ((cursor.take setting shared).1 = none → cursor.pending = none ∧
        shared.suite.nextStep cursor.branch true setting.skipRepeat = (none, suite)) := by
  unfold take
  cases pending : cursor.pending with
  | some step =>
      refine ⟨shared.suite, rfl, ?_, nofun⟩
      rintro _ ⟨⟩
      exact .inl ⟨pending, rfl⟩
  | none =>
      cases next : shared.suite.nextStep cursor.branch true setting.skipRepeat with
      | mk taken suite =>
          refine ⟨suite, rfl, ?_, ?_⟩
          · rintro step rfl
            exact .inr ⟨pending, next⟩
          · rintro rfl
            exact ⟨rfl, rfl⟩

theorem suite_onTaken (purpose : Purpose) (cursor : Cursor) (shared : Shared Env) (step : Nat) :
    (cursor.onTaken purpose shared step : Move Call Env).shared.suite = shared.suite := by
  cases purpose with
  | step | skip => rfl
  | run =>
      simp only [onTaken]
      split <;> rfl

theorem world_onTaken (purpose : Purpose) (cursor : Cursor) (shared : Shared Env) (step : Nat) :
    (cursor.onTaken purpose shared step : Move Call Env).shared.world = shared.world := by
  cases purpose with
  | step | skip => rfl
  | run =>
      simp only [onTaken]
      split <;> rfl

theorem walk_onTaken {step : Nat} {suite : Suite}
    (takes : cursor.Takes setting shared.suite step suite) :
    let move : Move Call Env :=
      onTaken purpose { cursor with pending := none } { shared with suite } step
    Walk setting purpose cursor shared .taking move.shared move.cursor move.turn.arrival := by
  cases purpose with
  | step => exact .taken step suite takes nofun nofun
  | skip => exact .passedOver step suite takes rfl
  | run =>
      simp only [onTaken]
      split
      · next pauses => exact .paused step suite takes rfl pauses
      · next passes => exact .taken step suite takes nofun fun _ => by simpa [Shared.branch] using passes

theorem walk_mark (setting : Setting Call Env) (purpose : Purpose) (cursor : Cursor)
    (shared : Shared Env) (step : Nat) (error : Option StepError) :
    let move : Move Call Env := cursor.mark setting purpose shared step error
    Walk setting purpose cursor shared (.behind step error) move.shared move.cursor
      move.turn.arrival := by
  have marked : Walk setting purpose cursor shared (.behind step error) _ _ _ := .marked step error
  by_cases runs : purpose = .run
  · simpa [mark, Turn.arrival, runs, outcomeOf, Activity.stage] using marked
  · simpa [mark, Turn.arrival, runs, outcomeOf, Activity.stage] using marked

/-- A turn of a cursor is an edge of the graph. -/
theorem turn_walks (setting : Setting Call Env) (purpose : Purpose) (cursor : Cursor)
    (shared : Shared Env) (activity : Activity Call) :
    let move := cursor.turn setting purpose shared activity
    Walk setting purpose cursor shared activity.stage move.shared move.cursor move.turn.arrival := by
  cases activity with
  | opening =>
      simp only [turn, Turn.arrival]
      rcases stage_beginBeforeBranch setting (shared.branch cursor.branch)
        { cursor with isStarted := true } 0
        with stage | stage
      · rw [stage]
        exact .opened
      · rw [stage]
        exact .unguarded
  | beforeBranch index call =>
      obtain ⟨reply, world, advanced⟩ := advance_eq setting shared call
      simp only [turn, advanced]
      rcases reply with ⟨time, later⟩ | ⟨result, scope⟩
      · exact .entering world cursor.scope
      · dsimp only
        split
        · next found =>
          exact .refused world scope index _ (List.getElem?_eq_some_iff.mp found).1
        · simp only [Turn.arrival]
          rcases stage_beginBeforeBranch setting
            (({ shared with world } : Shared Env).branch cursor.branch) { cursor with scope }
            (index + 1) with stage | stage
          · rw [stage]
            exact .entering world scope
          · rw [stage]
            exact .admitted world scope
  | beforeBranchFailed index error => exact .turnedAway index error
  | looping =>
      simp only [turn]
      split
      · next stopped => exact .halted stopped
      · next unstopped =>
        have unstopped : shared.world.isStopped = false := by simpa using unstopped
        split
        · next requested => exact .interrupted unstopped requested
        · next unrequested => exact .continued unstopped (by simpa using unrequested)
  | taking =>
      obtain ⟨suite, same, takes, absent⟩ := take_eq setting cursor shared
      simp only [turn]
      rw [same]
      dsimp only
      split
      · next step taken => exact walk_onTaken (takes step taken)
      · next taken =>
        obtain ⟨pending, next⟩ := absent taken
        have unchanged : ({ cursor with pending := none } : Cursor) = cursor := by
          cases cursor; simp_all
        simp only [unchanged]
        exact .exhausted suite pending next
  | skipping step => exact .skipped step
  | preparing step =>
      exact walk_beginBeforeStep step 0 shared.world cursor.scope
  | beforeStep step index call =>
      obtain ⟨reply, world, advanced⟩ := advance_eq setting shared call
      simp only [turn, advanced]
      rcases reply with ⟨time, later⟩ | ⟨result, scope⟩
      · exact .preparing step world cursor.scope
      · dsimp only
        split
        · simp only [Turn.arrival, stage_beginAfterStep]
          exact .unbegun step world scope _
        · exact walk_beginBeforeStep step (index + 1) world scope
  | body step call =>
      obtain ⟨reply, world, advanced⟩ := advance_eq setting shared call
      simp only [turn, advanced]
      rcases reply with ⟨time, later⟩ | ⟨result, scope⟩
      · exact .sleeping step world
      · dsimp only
        split
        · simp only [Turn.arrival, stage_beginAfterStep]
          exact .ended step world scope _
        · next value =>
          obtain ⟨after, error, same, stage⟩ := endBody_eq setting
            (({ shared with world } : Shared Env).branch cursor.branch) { cursor with scope } step value
          simp only [Turn.arrival, same, stage]
          exact .ended step world after error
  | afterStep step index error call =>
      obtain ⟨reply, world, advanced⟩ := advance_eq setting shared call
      simp only [turn, advanced]
      rcases reply with ⟨time, later⟩ | ⟨result, scope⟩
      · exact .trailing step world cursor.scope error error
      · simp only [Turn.arrival, stage_beginAfterStep]
        exact .trailing step world scope error _
  | marking step error => exact walk_mark setting purpose cursor shared step error
  | lookingAhead =>
      simp only [turn, lookAhead]
      cases next : shared.suite.nextStep cursor.branch true setting.skipRepeat with
      | mk taken suite =>
          cases taken with
          | some step => exact .facing step suite next
          | none => exact .atEnd suite next
  | closing =>
      simp only [turn]
      rcases arrival_beginAfterBranch setting (shared.branch cursor.branch)
        { cursor with pending := none } 0
        with arrival | arrival
      · rw [arrival]
        exact .leaving shared.world cursor.scope none (.inr rfl)
      · rw [arrival]
        exact .left shared.world cursor.scope none
  | afterBranch index call =>
      obtain ⟨reply, world, advanced⟩ := advance_eq setting shared call
      simp only [turn, advanced]
      rcases reply with ⟨time, later⟩ | ⟨result, scope⟩
      · exact .leaving world cursor.scope cursor.pending (.inl rfl)
      · dsimp only
        split
        · next found =>
          exact .tarnished world scope index _ (List.getElem?_eq_some_iff.mp found).1
        · rcases arrival_beginAfterBranch setting
            (({ shared with world } : Shared Env).branch cursor.branch) { cursor with scope }
            (index + 1) with arrival | arrival
          · rw [arrival]
            exact .leaving world scope cursor.pending (.inl rfl)
          · rw [arrival]
            exact .left world scope cursor.pending
  | afterBranchFailed index error =>
      exact .recorded index error _ (arrival_beginAfterBranch setting _ cursor (index + 1))

end Cursor

end TestTree.Run
