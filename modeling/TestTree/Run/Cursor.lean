import TestTree.Branch.Progress
import TestTree.Run.Executor

/-!
The walk along one branch. A cursor is the state of a worker in its branch, and an activity says what
it does next; every activity is a point at which other workers may have their turn. `Cursor.step` is
one turn: it reads and changes what is shared at most once, or gives a body one turn.
-/
namespace TestTree.Run

/-- What stays the same in all runs. -/
structure Setting (Call Env : Type) where
  executor : Executor Call Env
  tree : Tree
  maxParallel : Nat := 5
  skipRepeat : Bool := true
  skipPassed : Bool := false

/-- What all workers share. -/
structure Shared (Env : Type) where
  suite : Suite
  world : World Env
  pauseRequested : Bool := false

/-- Where a worker stands in its branch. It is paused in front of `pending`; a step to debug pauses
only once, and after a failure in a branch to debug the next step pauses. -/
structure Cursor where
  branch : Nat
  scope : Variables := {}
  pending : Option Nat := none
  debugPausedOn : Option Nat := none
  pauseBeforeNext : Bool := false
  isStarted : Bool := false
deriving DecidableEq, Repr

/-- How far to walk: to the end, over the pending step, or past it without running it. -/
inductive Purpose
  | run
  | step
  | skip
deriving DecidableEq, Repr

inductive Activity (Call : Type)
  /-- About to run the hooks before the branch. -/
  | opening
  | beforeBranch (index : Nat) (call : Call)
  | beforeBranchFailed (index : Nat) (error : StepError)
  /-- About to see whether to stop or to pause. -/
  | looping
  /-- About to take the next step. -/
  | taking
  | skipping (step : Nat)
  /-- About to run the hooks before the step. -/
  | preparing (step : Nat)
  | beforeStep (step index : Nat) (call : Call)
  | body (step : Nat) (call : Call)
  | afterStep (step index : Nat) (error : Option StepError) (call : Call)
  /-- About to record the outcome of the step. -/
  | marking (step : Nat) (error : Option StepError)
  | lookingAhead
  /-- About to run the hooks after the branch. -/
  | closing
  | afterBranch (index : Nat) (call : Call)
  | afterBranchFailed (index : Nat) (error : StepError)

/-- How a walk ends: at the end of the branch, in front of a step, or because the run is to stop. -/
inductive Departure
  | done
  | paused
  | stopped
deriving DecidableEq, Repr

inductive Turn (Call : Type)
  | onward (activity : Activity Call)
  | asleep (milliseconds : Nat) (activity : Activity Call)
  | left (departure : Departure)

structure Move (Call Env : Type) where
  shared : Shared Env
  cursor : Cursor
  turn : Turn Call

variable {Call Env : Type}

namespace Shared

def branch (shared : Shared Env) (index : Nat) : Branch := (shared.suite.branch? index).getD {}

def modify (shared : Shared Env) (index : Nat) (change : Branch → Branch) : Shared Env :=
  { shared with suite := shared.suite.modify index change }

def advance (shared : Shared Env) (setting : Setting Call Env) (call : Call) :
    Reply Call × Shared Env :=
  let (reply, world) := setting.executor.advance call shared.world
  (reply, { shared with world })

end Shared

namespace Cursor

/-- Starts the hook at `index`; behind the last hook comes the activity `next`. -/
def hookOr (setting : Setting Call Env) (cursor : Cursor) (hooks : List Hook) (index : Nat)
    (role : Role) (running : Call → Activity Call) (next : Activity Call) : Activity Call :=
  match hooks[index]? with
  | some hook => running (setting.executor.start (hook.body role) cursor.scope)
  | none => next

def beginBeforeBranch (setting : Setting Call Env) (branch : Branch) (cursor : Cursor)
    (index : Nat) : Activity Call :=
  hookOr setting cursor branch.beforeEveryBranch index (.beforeBranch cursor.branch index)
    (.beforeBranch index) .looping

def beginAfterBranch (setting : Setting Call Env) (branch : Branch) (cursor : Cursor)
    (index : Nat) : Turn Call :=
  match branch.afterEveryBranch[index]? with
  | some hook =>
      .onward (.afterBranch index
        (setting.executor.start (hook.body (.afterBranch cursor.branch index)) cursor.scope))
  | none => .left .done

def beginAfterStep (setting : Setting Call Env) (branch : Branch) (cursor : Cursor)
    (step index : Nat) (error : Option StepError) : Activity Call :=
  hookOr setting cursor branch.afterEveryStep index (.afterStep cursor.branch step index)
    (.afterStep step index error) (.marking step error)

/-- Sets the variables of a step whose code returned `value`. -/
def endBody (setting : Setting Call Env) (branch : Branch) (cursor : Cursor) (step : Nat)
    (value : Option Text) : Cursor × Activity Call :=
  match branch.steps[step]? with
  | none => (cursor, .marking step none)
  | some branchStep =>
      let (scope, error) := branchStep.assign value cursor.scope
      let cursor := { cursor with scope }
      (cursor, beginAfterStep setting branch cursor step 0 error)

def beginBody (setting : Setting Call Env) (branch : Branch) (cursor : Cursor) (step : Nat) :
    Cursor × Activity Call :=
  match branch.steps[step]? with
  | none => (cursor, .marking step none)
  | some branchStep =>
      let (scope, error) := branchStep.prepare cursor.scope
      let cursor := { cursor with scope }
      match error, branchStep.codeBlock with
      | some error, _ => (cursor, beginAfterStep setting branch cursor step 0 (some error))
      | none, some code =>
          let body := branchStep.body (.step cursor.branch step) code
          (cursor, .body step (setting.executor.start body scope))
      | none, none => endBody setting branch cursor step none

/-- Starts the hook before the step at `index`, or the step itself. -/
def beginBeforeStep (setting : Setting Call Env) (branch : Branch) (cursor : Cursor)
    (step index : Nat) : Cursor × Activity Call :=
  match branch.beforeEveryStep[index]? with
  | some hook =>
      (cursor, .beforeStep step index
        (setting.executor.start (hook.body (.beforeStep cursor.branch step index))
          cursor.scope))
  | none => beginBody setting branch cursor step

def setErrorAt (index : Nat) (error : StepError) (hooks : List Hook) : List Hook :=
  setAt (fun hook => { hook with error := some error }) index hooks

/-- A branch whose hook before it failed has failed. -/
def recordBeforeBranch (index : Nat) (error : StepError) (branch : Branch) : Branch :=
  { branch with
    log := branch.log ++ ["Before Every Branch hook failed: " ++ error.describe]
    beforeEveryBranch := setErrorAt index error branch.beforeEveryBranch
    status := { branch.status with isFailed := true, isPassed := false, isRunning := false } }

/-- A branch that had passed fails with a hook after it. -/
def recordAfterBranch (index : Nat) (error : StepError) (branch : Branch) : Branch :=
  { branch with
    log := branch.log ++ ["After Every Branch hook failed: " ++ error.describe]
    afterEveryBranch := setErrorAt index error branch.afterEveryBranch
    status :=
      if branch.status.isPassed then { branch.status with isPassed := false, isFailed := true }
      else branch.status }

def skipStepAt (step : Nat) (branch : Branch) : Branch :=
  { branch with
    steps := setAt (fun step => { step with status := { step.status with isSkipped := true } })
      step branch.steps }

def pausesAt (cursor : Cursor) (branch : Branch) (step : Nat) : Bool :=
  cursor.pauseBeforeNext ||
    (branch.steps[step]?.any (·.identifiers.isDebug) && cursor.debugPausedOn != some step)

/-- Takes the pending step, or else the next one. -/
def take (setting : Setting Call Env) (cursor : Cursor) (shared : Shared Env) :
    Option Nat × Shared Env :=
  match cursor.pending with
  | some step => (some step, shared)
  | none =>
      let (next, suite) := shared.suite.nextStep cursor.branch true setting.skipRepeat
      (next, { shared with suite })

/-- Decides what to do with the step taken. -/
def onTaken (purpose : Purpose) (cursor : Cursor) (shared : Shared Env) (step : Nat) :
    Move Call Env :=
  match purpose with
  | .step => ⟨shared, cursor, .onward (.preparing step)⟩
  | .skip => ⟨shared, cursor, .onward (.skipping step)⟩
  | .run =>
      if cursor.pausesAt (shared.branch cursor.branch) step then
        let cursor :=
          { cursor with
            pauseBeforeNext := false
            debugPausedOn := some step
            pending := some step }
        ⟨{ shared with pauseRequested := true }, cursor, .left .paused⟩
      else ⟨shared, cursor, .onward (.preparing step)⟩

/-- Records the outcome of a step. In a branch to debug a failure pauses the walk instead of ending the
branch. -/
def mark (setting : Setting Call Env) (purpose : Purpose) (cursor : Cursor) (shared : Shared Env)
    (step : Nat) (error : Option StepError) : Move Call Env :=
  let branch := shared.branch cursor.branch
  let isPassed := error.isNone
  let isExpectedFail := branch.steps[step]?.any (·.identifiers.isExpectedFail)
  let outcome : Outcome := { isPassed, asExpected := isPassed != isExpectedFail, error }
  let stopBranch := !isPassed && !branch.hasDebugStep
  let suite := shared.suite.markStep cursor.branch step outcome stopBranch setting.skipRepeat
  let cursor :=
    { cursor with
      pauseBeforeNext := cursor.pauseBeforeNext || (!isPassed && branch.hasDebugStep) }
  ⟨{ shared with suite }, cursor,
    .onward (if purpose = .run then .looping else .lookingAhead)⟩

/-- Stops in front of the next step, if there is one. -/
def lookAhead (setting : Setting Call Env) (cursor : Cursor) (shared : Shared Env) :
    Move Call Env :=
  let (next, suite) := shared.suite.nextStep cursor.branch true setting.skipRepeat
  let shared := { shared with suite }
  match next with
  | some step =>
      let cursor :=
        { cursor with pending := some step, debugPausedOn := some step, pauseBeforeNext := false }
      ⟨shared, cursor, .left .paused⟩
  | none => ⟨shared, cursor, .onward .closing⟩

def turn (setting : Setting Call Env) (purpose : Purpose) (cursor : Cursor) (shared : Shared Env) :
    Activity Call → Move Call Env
  | .opening =>
      let cursor := { cursor with isStarted := true }
      ⟨shared, cursor, .onward (beginBeforeBranch setting (shared.branch cursor.branch) cursor 0)⟩
  | .beforeBranch index call =>
      match shared.advance setting call with
      | (.waiting time call, shared) => ⟨shared, cursor, .asleep time (.beforeBranch index call)⟩
      | (.done result scope, shared) =>
          let cursor := { cursor with scope }
          let branch := shared.branch cursor.branch
          match result, branch.beforeEveryBranch[index]? with
          | .error message, some hook =>
              ⟨shared, cursor, .onward (.beforeBranchFailed index (hook.failure message))⟩
          | _, _ => ⟨shared, cursor, .onward (beginBeforeBranch setting branch cursor (index + 1))⟩
  | .beforeBranchFailed index error =>
      ⟨shared.modify cursor.branch (recordBeforeBranch index error), cursor, .onward .closing⟩
  | .looping =>
      if shared.world.isStopped then ⟨shared, cursor, .left .stopped⟩
      else if shared.pauseRequested then ⟨shared, cursor, .left .paused⟩
      else ⟨shared, cursor, .onward .taking⟩
  | .taking =>
      let (taken, shared) := cursor.take setting shared
      let cursor := { cursor with pending := none }
      match taken with
      | some step => onTaken purpose cursor shared step
      | none => ⟨shared, cursor, .onward .closing⟩
  | .skipping step =>
      ⟨shared.modify cursor.branch (skipStepAt step), cursor, .onward .lookingAhead⟩
  | .preparing step =>
      let (cursor, activity) :=
        beginBeforeStep setting (shared.branch cursor.branch) cursor step 0
      ⟨shared, cursor, .onward activity⟩
  | .beforeStep step index call =>
      match shared.advance setting call with
      | (.waiting time call, shared) => ⟨shared, cursor, .asleep time (.beforeStep step index call)⟩
      | (.done result scope, shared) =>
          let cursor := { cursor with scope }
          let branch := shared.branch cursor.branch
          match result, branch.beforeEveryStep[index]? with
          | .error message, some hook =>
              ⟨shared, cursor, .onward
                (beginAfterStep setting branch cursor step 0 (some (hook.failure message)))⟩
          | _, _ =>
              let (cursor, activity) := beginBeforeStep setting branch cursor step (index + 1)
              ⟨shared, cursor, .onward activity⟩
  | .body step call =>
      match shared.advance setting call with
      | (.waiting time call, shared) => ⟨shared, cursor, .asleep time (.body step call)⟩
      | (.done result scope, shared) =>
          let cursor := { cursor with scope }
          let branch := shared.branch cursor.branch
          match result with
          | .error message =>
              let error := branch.steps[step]?.map (·.failure message)
              ⟨shared, cursor, .onward (beginAfterStep setting branch cursor step 0 error)⟩
          | .ok value =>
              let (cursor, activity) := endBody setting branch cursor step value
              ⟨shared, cursor, .onward activity⟩
  | .afterStep step index error call =>
      match shared.advance setting call with
      | (.waiting time call, shared) =>
          ⟨shared, cursor, .asleep time (.afterStep step index error call)⟩
      | (.done result scope, shared) =>
          let cursor := { cursor with scope }
          let branch := shared.branch cursor.branch
          let error :=
            match result, branch.afterEveryStep[index]? with
            | .error message, some hook => error.or (some (hook.failure message))
            | _, _ => error
          ⟨shared, cursor, .onward (beginAfterStep setting branch cursor step (index + 1) error)⟩
  | .marking step error => cursor.mark setting purpose shared step error
  | .lookingAhead => cursor.lookAhead setting shared
  | .closing =>
      let cursor := { cursor with pending := none }
      ⟨shared, cursor, beginAfterBranch setting (shared.branch cursor.branch) cursor 0⟩
  | .afterBranch index call =>
      match shared.advance setting call with
      | (.waiting time call, shared) => ⟨shared, cursor, .asleep time (.afterBranch index call)⟩
      | (.done result scope, shared) =>
          let cursor := { cursor with scope }
          let branch := shared.branch cursor.branch
          match result, branch.afterEveryBranch[index]? with
          | .error message, some hook =>
              ⟨shared, cursor, .onward (.afterBranchFailed index (hook.failure message))⟩
          | _, _ => ⟨shared, cursor, beginAfterBranch setting branch cursor (index + 1)⟩
  | .afterBranchFailed index error =>
      let shared := shared.modify cursor.branch (recordAfterBranch index error)
      ⟨shared, cursor, beginAfterBranch setting (shared.branch cursor.branch) cursor (index + 1)⟩

end Cursor

end TestTree.Run
