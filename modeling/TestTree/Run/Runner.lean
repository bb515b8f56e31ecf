import TestTree.Call.Resolution
import TestTree.Run.Cursor
import TestTree.Step.Line

/-!
The runner. Between its operations it is at rest: a suite, the world, and the cursors that are paused.
An operation in progress is a process, made of one or more threads; `Process.turn` gives one of them
one turn. Any order of turns is a run; `Run/Clock` chooses one of them.
-/
namespace TestTree.Run

inductive Phase
  | notStarted
  | running
  | paused
  | stopped
  | complete
deriving DecidableEq, Repr

/-- What the runner keeps between operations, its suite and world apart. Times are in milliseconds. -/
structure Control where
  phase : Phase := .notStarted
  ranBeforeEverything : Bool := false
  ranAfterEverything : Bool := false
  hasPaused : Bool := false
  startedAt : Option Nat := none
  stoppedAt : Option Nat := none
  paused : List Cursor := []
deriving DecidableEq, Repr

structure Runner (Env : Type) where
  shared : Shared Env
  control : Control := {}
  now : Nat := 0

inductive RunError
  | notPausedToStep
  | notPausedToSkip
  | notPausedToInject
  | alreadyStopped
  | tree (error : TreeError)
deriving DecidableEq, Repr

def RunError.message : RunError → Text
  | notPausedToStep => "Must be paused to run a step"
  | notPausedToSkip => "Must be paused to skip a step"
  | notPausedToInject => "Must be paused to inject a step"
  | alreadyStopped => "Cannot run a stopped runner"
  | tree error => error.describe

inductive Answer
  | nothing
  | flag (value : Bool)
  | step (step : BranchStep)
  | refused (error : RunError)
deriving DecidableEq, Repr

/-- A worker: it claims one branch after the other and walks along each. -/
inductive Worker (Call : Type)
  /-- About to see whether to stop or to pause. -/
  | seeking
  /-- About to claim a branch. -/
  | claiming
  | walking (cursor : Cursor) (activity : Activity Call)
  | ended

/-- The operation whose hooks after everything run. -/
inductive Ending
  | run
  | single (isComplete : Bool)
  | stop
deriving DecidableEq, Repr

inductive Operation (Call : Type)
  /-- About to run the hook before everything at `index`. -/
  | beforeEverything (index : Nat) (scope : Variables)
  | beforeHook (index : Nat) (call : Call)
  /-- About to let the workers start. -/
  | starting
  | working (workers : List (Worker Call)) (paused : List Cursor)
  /-- About to run the hook after everything at `index`. -/
  | afterEverything (index : Nat) (scope : Variables) (ending : Ending)
  | afterHook (index : Nat) (call : Call) (ending : Ending)
  | concluding (ending : Ending)
  | single (purpose : Purpose) (cursor : Cursor) (activity : Activity Call)
  | injecting (cursor : Cursor) (step : BranchStep) (call : Call)
  | finished (answer : Answer)

structure Process (Call Env : Type) where
  runner : Runner Env
  operation : Operation Call

variable {Call Env : Type}

def pollInterval : Nat := 10

namespace Worker

def hasEnded : Worker Call → Bool
  | ended => true
  | _ => false

/-- The worker after its turn, how long it sleeps, and its cursor if it paused. -/
structure Move (Call Env : Type) where
  shared : Shared Env
  worker : Worker Call
  sleep : Option Nat := none
  paused : Option Cursor := none

/-- One turn. A worker that finds only branches whose id is busy looks again a little later. -/
def turn (setting : Setting Call Env) (shared : Shared Env) : Worker Call → Move Call Env
  | seeking =>
      if shared.world.isStopped || shared.pauseRequested then { shared, worker := ended }
      else { shared, worker := claiming }
  | claiming =>
      match shared.suite.claimNext with
      | some (index, suite) =>
          { shared := { shared with suite }, worker := walking { branch := index } .opening }
      | none =>
          if shared.suite.branches.any Branch.isWaiting then
            { shared, worker := seeking, sleep := some pollInterval }
          else { shared, worker := ended }
  | walking cursor activity =>
      let move := cursor.turn setting .run shared activity
      match move.turn with
      | .onward activity => { shared := move.shared, worker := walking move.cursor activity }
      | .asleep time activity =>
          { shared := move.shared, worker := walking move.cursor activity, sleep := some time }
      | .left .done => { shared := move.shared, worker := seeking }
      | .left .paused => { shared := move.shared, worker := ended, paused := some move.cursor }
      | .left .stopped => { shared := move.shared, worker := ended }
  | ended => { shared, worker := ended }

/-- A worker that takes up a paused cursor. -/
def resume (cursor : Cursor) : Worker Call :=
  walking cursor (if cursor.isStarted then .looping else .opening)

end Worker

namespace Runner

def initial (suite : Suite) (env : Env) : Runner Env := { shared := { suite, world := { env } } }

def suite (runner : Runner Env) : Suite := runner.shared.suite

def withSuite (runner : Runner Env) (suite : Suite) : Runner Env :=
  { runner with shared := { runner.shared with suite } }

def withControl (runner : Runner Env) (change : Control → Control) : Runner Env :=
  { runner with control := change runner.control }

def raiseStop (runner : Runner Env) : Runner Env :=
  { runner with
    shared := { runner.shared with world := { runner.shared.world with isStopped := true } }
    control := { runner.control with stoppedAt := some runner.now } }

/-- Records the duration, unless the run was paused, and the final phase. -/
def conclude (runner : Runner Env) : Runner Env :=
  let isStopped := runner.shared.world.isStopped
  let finish := if isStopped then runner.control.stoppedAt.getD runner.now else runner.now
  let elapsed : Int :=
    match runner.control.startedAt with
    | some start => if runner.control.hasPaused then -1 else ((finish - start : Nat) : Int)
    | none => 0
  { runner with
    shared := { runner.shared with suite := { runner.suite with elapsed } }
    control :=
      { runner.control with phase := if isStopped then .stopped else .complete } }

/-- Prepares a run. Before a first run every branch is reset. -/
def init (setting : Setting Call Env) (isFirst : Bool) (runner : Runner Env) : Runner Env :=
  let fresh : Runner Env :=
    if isFirst then
      { runner with
        control := {}
        shared :=
          { runner.shared with
            suite :=
              { runner.suite with
                branches := runner.suite.branches.map Branch.reset
                elapsed := 0 }
            world := { runner.shared.world with isStopped := false }
            pauseRequested := false } }
    else runner
  if setting.skipPassed then fresh
  else
    fresh.withSuite
      { fresh.suite with
        branches := fresh.suite.branches.map fun branch => { branch with passedLastTime := false } }

/-- Goes over to the hooks after everything, which run once. -/
def enterAfterEverything (runner : Runner Env) (ending : Ending) : Process Call Env :=
  if runner.control.ranAfterEverything then ⟨runner, .concluding ending⟩
  else
    ⟨runner.withControl fun control => { control with ranAfterEverything := true },
      .afterEverything 0 {} ending⟩

def finish (runner : Runner Env) (answer : Answer) : Process Call Env := ⟨runner, .finished answer⟩

/-- Puts a cursor in front of the paused ones. -/
def putBack (runner : Runner Env) (cursor : Cursor) : Runner Env :=
  runner.withControl fun control => { control with paused := cursor :: control.paused }

/-- Takes the first paused cursor. -/
def takePaused (runner : Runner Env) : Option (Cursor × Runner Env) :=
  match runner.control.phase, runner.control.paused with
  | .paused, cursor :: rest =>
      some (cursor, runner.withControl fun control => { control with paused := rest })
  | _, _ => none

/-- Starts a run, or goes on with it. -/
def run (runner : Runner Env) : Process Call Env :=
  if runner.control.phase = .stopped then runner.finish (.refused .alreadyStopped)
  else
    let isFirst := !runner.control.ranBeforeEverything
    let started := runner.withControl fun control =>
      { control with
        phase := .running
        startedAt := control.startedAt.or (some runner.now)
        ranBeforeEverything := true }
    ⟨started, if isFirst then .beforeEverything 0 {} else .starting⟩

def runOneStep (runner : Runner Env) : Process Call Env :=
  match runner.takePaused with
  | some (cursor, runner) => ⟨runner, .single .step cursor .taking⟩
  | none => runner.finish (.refused .notPausedToStep)

def skipOneStep (runner : Runner Env) : Process Call Env :=
  match runner.takePaused with
  | some (cursor, runner) => ⟨runner, .single .skip cursor .taking⟩
  | none => runner.finish (.refused .notPausedToSkip)

def stop (runner : Runner Env) : Process Call Env := runner.raiseStop.enterAfterEverything .stop

/-- The frames that lead to the last of some steps, innermost first. A step is at the level of its
caller, so the frames of deeper levels are left. -/
def callPath (steps : List BranchStep) : List Frame :=
  (steps.foldl (fun path step =>
    match step.origin with
    | none => path
    | some origin =>
        (step.branchIndents, (⟨origin, step.declaration⟩ : Frame)) ::
          path.filter fun entry => entry.1 ≤ step.branchIndents) []).map (·.2)

/-- The path from which an injected call is resolved. The pending step has not run, so the body of its
own declaration is out of reach. -/
def injectionPath (cursor : Cursor) (lead : List BranchStep) : List Frame :=
  match cursor.pending, callPath lead with
  | some _, last :: outer => { last with declaration := none } :: outer
  | _, path => path

def injectionLead (cursor : Cursor) (steps : List BranchStep) : List BranchStep :=
  match cursor.pending with
  | some step => steps.take (step + 1)
  | none => steps

/-- Reads a line as a step in front of which a cursor waits. -/
def injectedStep (setting : Setting Call Env) (runner : Runner Env) (cursor : Cursor)
    (line : Text) : Except TreeError BranchStep := do
  let parsed ← Step.parseLine line none 0
  let step := parsed.step
  if parsed.opensCode || step.identifiers.isDeclaration || step.hook.isSome then
    throw (TreeError.ofFault .notInjectable none 0)
  let lead := injectionLead cursor (runner.shared.branch cursor.branch).steps
  let depth := (lead.getLast?.map (·.branchIndents)).getD 0
  let plain := BranchStep.ofStep step depth
  if step.identifiers.isCall then
    let call := step.callText
    let declaration ← setting.tree.resolveText call (injectionPath cursor lead)
    let target := (setting.tree.node declaration).step
    return { plain with
      codeBlock := target.codeBlock
      bindings := bindParams call target.text
      declaration := some declaration }
  else return plain

def injectedOutcome (step : BranchStep) (error : Option StepError) : BranchStep :=
  { step with
    status := { step.status with isPassed := error.isNone, isFailed := error.isSome }
    asExpected := some (error.isNone != step.identifiers.isExpectedFail)
    error }

def finishInjection (runner : Runner Env) (cursor : Cursor) (step : BranchStep)
    (outcome : Variables × Option StepError) : Process Call Env :=
  (runner.putBack { cursor with scope := outcome.1 }).finish
    (.step (injectedOutcome step outcome.2))

/-- Runs a line as if it came next in front of the first paused cursor, which stays where it is. -/
def inject (setting : Setting Call Env) (line : Text) (runner : Runner Env) : Process Call Env :=
  match runner.takePaused with
  | none => runner.finish (.refused .notPausedToInject)
  | some (cursor, rest) =>
      match injectedStep setting rest cursor line with
      | .error error => runner.finish (.refused (.tree error))
      | .ok step =>
          match step.prepare cursor.scope, step.codeBlock with
          | (scope, some error), _ => rest.finishInjection cursor step (scope, some error)
          | (scope, none), some code =>
              ⟨rest, .injecting cursor step
                (setting.executor.start (step.body (.injected cursor.branch) code) scope)⟩
          | (scope, none), none => rest.finishInjection cursor step (step.assign none scope)

end Runner

namespace Process

def isFinished (process : Process Call Env) : Bool :=
  match process.operation with
  | .finished _ => true
  | _ => false

/-- The threads that have a turn to take. -/
def threads (process : Process Call Env) : List Nat :=
  match process.operation with
  | .finished _ => []
  | .working workers _ =>
      (List.range workers.length).filter fun index => workers[index]?.any (!·.hasEnded)
  | _ => [0]

/-- Another state of the process, and how long the thread sleeps. -/
abbrev Step (Call Env : Type) := Process Call Env × Option Nat

def recordBefore (runner : Runner Env) (index : Nat) (error : StepError) : Runner Env :=
  runner.withSuite
    { runner.suite with
      beforeEverything := Cursor.setErrorAt index error runner.suite.beforeEverything }

def recordAfter (runner : Runner Env) (index : Nat) (error : StepError) : Runner Env :=
  runner.withSuite
    { runner.suite with
      afterEverything := Cursor.setErrorAt index error runner.suite.afterEverything }

/-- Lets the workers start: one for each paused cursor, and as many more as may be at work. -/
def startWorkers (setting : Setting Call Env) (runner : Runner Env) : Process Call Env :=
  let paused := runner.control.paused
  let others := max setting.maxParallel 1 - paused.length
  ⟨{ runner with
      shared := { runner.shared with pauseRequested := false }
      control := { runner.control with paused := [] } },
    .working (paused.map Worker.resume ++ List.replicate others .seeking) []⟩

/-- Goes on when all workers have ended. -/
def join (runner : Runner Env) (paused : List Cursor) : Process Call Env :=
  if paused.isEmpty then runner.enterAfterEverything .run
  else if runner.shared.world.isStopped then runner.enterAfterEverything .run
  else
    ((runner.withControl fun control =>
        { control with paused, phase := .paused, hasPaused := true }).withSuite
      { runner.suite with elapsed := -1 }).finish (.flag false)

/-- Goes on behind a single step. When its branch is done and no other cursor is paused, the rest
waits for a run, or the run is over. -/
def afterSingle (runner : Runner Env) (cursor : Cursor) (departure : Departure) :
    Process Call Env :=
  if departure = .paused then (runner.putBack cursor).finish (.flag false)
  else if !runner.control.paused.isEmpty then runner.finish (.flag true)
  else if runner.suite.nextBranch.isSome then
    (runner.withControl fun control => { control with phase := .running }).finish (.flag true)
  else runner.enterAfterEverything (.single true)

/-- What an operation does last. -/
def concludeWith (runner : Runner Env) : Ending → Process Call Env
  | .run => runner.conclude.finish (.flag (!runner.shared.world.isStopped))
  | .single isComplete => runner.conclude.finish (.flag isComplete)
  | .stop =>
      let suite :=
        { runner.suite with
          branches := runner.suite.branches.map fun branch =>
            if branch.status.isCompleted then branch
            else { branch with status := { branch.status with isRunning := false } } }
      let concluded := (runner.withSuite suite).conclude
      (concluded.withControl fun control => { control with paused := [], phase := .stopped }).finish
        .nothing

def turn (setting : Setting Call Env) (process : Process Call Env) (thread : Nat) :
    Step Call Env :=
  let runner := process.runner
  match process.operation with
  | .beforeEverything index scope =>
      if runner.shared.world.isStopped then (runner.enterAfterEverything .run, none)
      else
        match runner.suite.beforeEverything[index]? with
        | none => (⟨runner, .starting⟩, none)
        | some hook =>
            (⟨runner, .beforeHook index
              (setting.executor.start (hook.body (.beforeEverything index)) scope)⟩, none)
  | .beforeHook index call =>
      match runner.shared.advance setting call with
      | (.waiting time call, shared) =>
          (⟨{ runner with shared }, .beforeHook index call⟩, some time)
      | (.done result scope, shared) =>
          let runner := { runner with shared }
          match result, runner.suite.beforeEverything[index]? with
          | .error message, some hook =>
              ((recordBefore runner index (hook.failure message)).enterAfterEverything .run, none)
          | _, _ => (⟨runner, .beforeEverything (index + 1) scope⟩, none)
  | .starting =>
      if runner.shared.world.isStopped then (runner.enterAfterEverything .run, none)
      else (startWorkers setting runner, none)
  | .working workers paused =>
      match workers[thread]? with
      | none => (process, none)
      | some worker =>
          let move := worker.turn setting runner.shared
          let runner := { runner with shared := move.shared }
          let workers := workers.set thread move.worker
          let paused := paused ++ move.paused.toList
          if workers.all Worker.hasEnded then (join runner paused, none)
          else (⟨runner, .working workers paused⟩, move.sleep)
  | .afterEverything index scope ending =>
      match runner.suite.afterEverything[index]? with
      | none => (⟨runner, .concluding ending⟩, none)
      | some hook =>
          (⟨runner, .afterHook index
            (setting.executor.start (hook.body (.afterEverything index)) scope) ending⟩, none)
  | .afterHook index call ending =>
      match runner.shared.advance setting call with
      | (.waiting time call, shared) =>
          (⟨{ runner with shared }, .afterHook index call ending⟩, some time)
      | (.done result scope, shared) =>
          let runner := { runner with shared }
          match result, runner.suite.afterEverything[index]? with
          | .error message, some hook =>
              (⟨recordAfter runner index (hook.failure message),
                .afterEverything (index + 1) scope ending⟩, none)
          | _, _ => (⟨runner, .afterEverything (index + 1) scope ending⟩, none)
  | .concluding ending => (concludeWith runner ending, none)
  | .single purpose cursor activity =>
      let move := cursor.turn setting purpose runner.shared activity
      let runner := { runner with shared := move.shared }
      match move.turn with
      | .onward activity => (⟨runner, .single purpose move.cursor activity⟩, none)
      | .asleep time activity => (⟨runner, .single purpose move.cursor activity⟩, some time)
      | .left departure => (afterSingle runner move.cursor departure, none)
  | .injecting cursor step call =>
      match runner.shared.advance setting call with
      | (.waiting time call, shared) =>
          (⟨{ runner with shared }, .injecting cursor step call⟩, some time)
      | (.done result scope, shared) =>
          let runner := { runner with shared }
          match result with
          | .error message =>
              (runner.finishInjection cursor step (scope, some (step.failure message)), none)
          | .ok value => (runner.finishInjection cursor step (step.assign value scope), none)
  | .finished _ => (process, none)

/-- Raises the stop token from outside. -/
def raiseStop (process : Process Call Env) : Process Call Env :=
  { process with runner := process.runner.raiseStop }

end Process

structure Snapshot where
  phase : Phase
  hasPaused : Bool
  maxParallel : Nat
  pausedAt : List (Nat × Option Nat)
  elapsed : Int
deriving DecidableEq, Repr

def Snapshot.isComplete (snapshot : Snapshot) : Bool := snapshot.phase = .complete

def Runner.snapshot (setting : Setting Call Env) (runner : Runner Env) : Snapshot :=
  { phase := runner.control.phase
    hasPaused := runner.control.hasPaused
    maxParallel := max setting.maxParallel 1
    pausedAt := runner.control.paused.map fun cursor => (cursor.branch, cursor.pending)
    elapsed := runner.suite.elapsed }

end TestTree.Run
