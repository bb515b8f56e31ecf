import TestTree.Proofs.Run.Walk

/-!
What a process may come to by a turn of a thread, and what it begins with when something is asked of
it. `turn_turns` and `launch_launches` say so once; what runs keep is proved from their cases.
-/
namespace TestTree.Run

variable {Call Env : Type}

/-- What an operation at its hooks after everything ends. -/
def Operation.ending? : Operation Call → Option Ending
  | .afterEverything _ _ ending | .afterHook _ _ ending | .concluding ending => some ending
  | _ => none

/-- Whether an operation is at the hooks around all branches, or between these and the branches. -/
def Operation.isAside : Operation Call → Bool
  | .beforeEverything _ _ | .beforeHook _ _ | .starting | .afterEverything _ _ _ | .afterHook _ _ _
  | .concluding _ => true
  | .working _ _ | .single _ _ _ | .injecting _ _ _ | .finished _ => false

/-- A runner behind a turn of a body that belongs to no branch. -/
structure Runner.Tended (setting : Setting Call Env) (before after : Runner Env) : Prop where
  paused : after.control.paused = before.control.paused
  phase : after.control.phase = before.control.phase
  requested : after.shared.pauseRequested = before.shared.pauseRequested
  branches : after.suite.branches = before.suite.branches
  world : after.shared.world = before.shared.world ∨
    ∃ call, after.shared.world = (setting.executor.advance call before.shared.world).2

theorem Worker.shared_turn_walking (setting : Setting Call Env) (shared : Shared Env) (cursor : Cursor)
    (activity : Activity Call) : ((walking cursor activity).turn setting shared).shared =
      (cursor.turn setting .run shared activity).shared := by
  simp only [turn]
  split <;> rfl

namespace Process

variable {setting : Setting Call Env} {process : Process Call Env}

/-- The process before its last worker, having ended, is joined. -/
def unjoined (setting : Setting Call Env) (process : Process Call Env) (thread : Nat)
    (workers : List (Worker Call)) (paused : List Cursor) (worker : Worker Call) :
    Process Call Env :=
  let move := worker.turn setting process.runner.shared
  ⟨{ process.runner with shared := move.shared },
    .working (workers.set thread move.worker) (paused ++ move.paused.toList)⟩

/-- All that a turn of a thread may do. -/
inductive Turns (setting : Setting Call Env) (process : Process Call Env) (thread : Nat) :
    Process Call Env → Prop
  | rested (rests : process.isFinished = true ∨ ∃ workers paused,
        process.operation = .working workers paused ∧ workers[thread]? = none) :
      Turns setting process thread process
  | tended (runner : Runner Env) (operation : Operation Call)
      (tended : process.runner.Tended setting runner) (was : process.operation.isAside = true)
      (aside : operation.isAside = true)
      (ending : operation.ending? = some .stop ↔ process.operation.ending? = some .stop) :
      Turns setting process thread ⟨runner, operation⟩
  | started (starting : process.operation = .starting) :
      Turns setting process thread (startWorkers setting process.runner)
  | worked (workers : List (Worker Call)) (paused : List Cursor) (worker : Worker Call)
      (working : process.operation = .working workers paused) (found : workers[thread]? = some worker)
      (live : (workers.set thread
        (worker.turn setting process.runner.shared).worker).all Worker.hasEnded = false) :
      Turns setting process thread (unjoined setting process thread workers paused worker)
  | joined (workers : List (Worker Call)) (paused : List Cursor) (worker : Worker Call)
      (working : process.operation = .working workers paused) (found : workers[thread]? = some worker)
      (ended : (workers.set thread
        (worker.turn setting process.runner.shared).worker).all Worker.hasEnded = true) :
      Turns setting process thread
        (join (unjoined setting process thread workers paused worker).runner
          (paused ++ (worker.turn setting process.runner.shared).paused.toList))
  | concluded (ending : Ending) (last : process.operation = .concluding ending) :
      Turns setting process thread (concludeWith process.runner ending)
  | walked (purpose : Purpose) (cursor : Cursor) (activity later : Activity Call)
      (single : process.operation = .single purpose cursor activity)
      (keeps : (cursor.turn setting purpose process.runner.shared activity).turn = .onward later ∨
        ∃ time, (cursor.turn setting purpose process.runner.shared activity).turn =
          .asleep time later) :
      Turns setting process thread
        ⟨{ process.runner with
            shared := (cursor.turn setting purpose process.runner.shared activity).shared },
          .single purpose (cursor.turn setting purpose process.runner.shared activity).cursor later⟩
  | departed (purpose : Purpose) (cursor : Cursor) (activity : Activity Call) (departure : Departure)
      (single : process.operation = .single purpose cursor activity)
      (left : (cursor.turn setting purpose process.runner.shared activity).turn = .left departure) :
      Turns setting process thread
        (afterSingle { process.runner with
            shared := (cursor.turn setting purpose process.runner.shared activity).shared }
          (cursor.turn setting purpose process.runner.shared activity).cursor departure)
  | delayed (cursor : Cursor) (step : BranchStep) (call later : Call) (runner : Runner Env)
      (tended : process.runner.Tended setting runner)
      (injecting : process.operation = .injecting cursor step call) :
      Turns setting process thread ⟨runner, .injecting cursor step later⟩
  | injected (cursor : Cursor) (step : BranchStep) (call : Call) (runner : Runner Env)
      (outcome : Variables × Option StepError) (tended : process.runner.Tended setting runner)
      (injecting : process.operation = .injecting cursor step call) :
      Turns setting process thread (runner.finishInjection cursor step outcome)

theorem operation_of_isFinished (finished : process.isFinished = true) :
    ∃ answer, process.operation = .finished answer := by
  obtain ⟨runner, operation⟩ := process
  cases operation with
  | finished answer => exact ⟨answer, rfl⟩
  | beforeEverything | beforeHook | starting | working | afterEverything | afterHook | concluding
  | single | injecting => cases finished

/-- A turn does nothing to a process that is done. -/
theorem perform_of_isFinished (setting : Setting Call Env) (finished : process.isFinished = true)
    (thread : Nat) : process.perform setting (.turn thread) = process := by
  obtain ⟨answer, rests⟩ := operation_of_isFinished finished
  simp only [perform, turn, rests]

theorem tended_refl (setting : Setting Call Env) (runner : Runner Env) : runner.Tended setting runner :=
  ⟨rfl, rfl, rfl, rfl, .inl rfl⟩

theorem advance_tended (setting : Setting Call Env) (runner : Runner Env) (call : Call) :
    ∃ reply world, runner.shared.advance setting call = (reply, { runner.shared with world }) ∧
      runner.Tended setting { runner with shared := { runner.shared with world } } :=
  ⟨_, _, rfl, rfl, rfl, rfl, rfl, .inr ⟨call, rfl⟩⟩

/-- A hook in front of all branches that fails leads to the hooks behind them. -/
theorem turns_enterAfterEverything {thread : Nat} {runner : Runner Env}
    (tended : process.runner.Tended setting runner) (was : process.operation.isAside = true)
    (early : process.operation.ending? = none) :
    Turns setting process thread (runner.enterAfterEverything .run) := by
  have ends : process.operation.ending? ≠ some .stop := by
    rw [early]
    exact nofun
  unfold Runner.enterAfterEverything
  split
  · exact .tended _ _ tended was rfl (iff_of_false nofun ends)
  · exact .tended _ _ ⟨tended.paused, tended.phase, tended.requested, tended.branches, tended.world⟩
      was rfl (iff_of_false nofun ends)

theorem turn_turns (setting : Setting Call Env) (process : Process Call Env) (thread : Nat) :
    Turns setting process thread (process.turn setting thread).1 := by
  obtain ⟨runner, operation⟩ := process
  have same := tended_refl setting runner
  cases operation with
  | beforeEverything index scope =>
      simp only [turn]
      split
      · exact turns_enterAfterEverything same rfl rfl
      · split
        · exact .tended _ _ same rfl rfl .rfl
        · exact .tended _ _ same rfl rfl .rfl
  | beforeHook index call =>
      obtain ⟨reply, world, advanced, tended⟩ := advance_tended setting runner call
      simp only [turn, advanced]
      rcases reply with ⟨time, later⟩ | ⟨result, scope⟩
      · exact .tended _ _ tended rfl rfl .rfl
      · dsimp only
        split
        · refine turns_enterAfterEverything ?_ rfl rfl
          exact ⟨rfl, rfl, tended.requested, tended.branches, tended.world⟩
        · exact .tended _ _ tended rfl rfl .rfl
  | starting =>
      simp only [turn]
      split
      · exact turns_enterAfterEverything same rfl rfl
      · exact .started rfl
  | working workers paused =>
      simp only [turn]
      split
      · next absent => exact .rested (.inr ⟨workers, paused, rfl, absent⟩)
      · next worker found =>
        split
        · next ended => exact .joined workers paused worker rfl found ended
        · next live => exact .worked workers paused worker rfl found (by simpa using live)
  | afterEverything index scope ending =>
      simp only [turn]
      split
      · exact .tended _ _ same rfl rfl .rfl
      · exact .tended _ _ same rfl rfl .rfl
  | afterHook index call ending =>
      obtain ⟨reply, world, advanced, tended⟩ := advance_tended setting runner call
      simp only [turn, advanced]
      rcases reply with ⟨time, later⟩ | ⟨result, scope⟩
      · exact .tended _ _ tended rfl rfl .rfl
      · dsimp only
        split
        · refine .tended _ _ ?_ rfl rfl .rfl
          exact ⟨rfl, rfl, tended.requested, tended.branches, tended.world⟩
        · exact .tended _ _ tended rfl rfl .rfl
  | concluding ending => exact .concluded ending rfl
  | single purpose cursor activity =>
      simp only [turn]
      split
      · next later turned => exact .walked purpose cursor activity later rfl (.inl turned)
      · next time later turned => exact .walked purpose cursor activity later rfl (.inr ⟨time, turned⟩)
      · next departure turned => exact .departed purpose cursor activity departure rfl turned
  | injecting cursor step call =>
      obtain ⟨reply, world, advanced, tended⟩ := advance_tended setting runner call
      simp only [turn, advanced]
      rcases reply with ⟨time, later⟩ | ⟨result, scope⟩
      · exact .delayed cursor step call later _ tended rfl
      · dsimp only
        split
        · exact .injected cursor step call _ _ tended rfl
        · exact .injected cursor step call _ _ tended rfl
  | finished answer => exact .rested (.inl rfl)

theorem takePaused_eq {runner rest : Runner Env} {cursor : Cursor}
    (taken : runner.takePaused = some (cursor, rest)) :
    runner.control.phase = .paused ∧ ∃ others, runner.control.paused = cursor :: others ∧
      rest = runner.withControl fun control => { control with paused := others } := by
  simp only [Runner.takePaused] at taken
  split at taken
  · next paused others phase held =>
    cases taken
    exact ⟨phase, others, held, rfl⟩
  · cases taken

/-- What a request may begin with. -/
inductive Launches (setting : Setting Call Env) (runner : Runner Env) :
    Request → Process Call Env → Prop
  | refused (request : Request) (answer : Answer) :
      Launches setting runner request (runner.finish answer)
  | prepared : Launches setting runner .prepare ((runner.init setting false).finish .nothing)
  | begun (operation : Operation Call) (running : runner.control.phase ≠ .stopped)
      (opens : operation = .beforeEverything 0 {} ∨ operation = .starting) :
      Launches setting runner .run
        ⟨runner.withControl fun control =>
            { control with
              phase := .running
              startedAt := control.startedAt.or (some runner.now)
              ranBeforeEverything := true },
          operation⟩
  | single (request : Request) (purpose : Purpose) (cursor : Cursor) (rest : Runner Env)
      (taken : runner.takePaused = some (cursor, rest)) :
      Launches setting runner request ⟨rest, .single purpose cursor .taking⟩
  | injecting (line : Text) (cursor : Cursor) (rest : Runner Env) (step : BranchStep) (call : Call)
      (taken : runner.takePaused = some (cursor, rest)) :
      Launches setting runner (.inject line) ⟨rest, .injecting cursor step call⟩
  | injected (line : Text) (cursor : Cursor) (rest : Runner Env) (step : BranchStep)
      (outcome : Variables × Option StepError) (taken : runner.takePaused = some (cursor, rest)) :
      Launches setting runner (.inject line) (rest.finishInjection cursor step outcome)
  | stopped : Launches setting runner .stop (runner.raiseStop.enterAfterEverything .stop)

theorem launch_launches (setting : Setting Call Env) (runner : Runner Env) (request : Request) :
    Launches setting runner request (request.launch setting runner) := by
  cases request with
  | prepare => exact .prepared
  | run =>
      simp only [Request.launch, Runner.run]
      split
      · exact .refused _ _
      · next running =>
        refine .begun _ running ?_
        split
        · exact .inl rfl
        · exact .inr rfl
  | step =>
      simp only [Request.launch, Runner.runOneStep]
      split
      · next taken => exact .single _ _ _ _ taken
      · exact .refused _ _
  | skip =>
      simp only [Request.launch, Runner.skipOneStep]
      split
      · next taken => exact .single _ _ _ _ taken
      · exact .refused _ _
  | inject line =>
      simp only [Request.launch, Runner.inject]
      split
      · exact .refused _ _
      · next taken =>
        split
        · exact .refused _ _
        · split
          · exact .injected _ _ _ _ _ taken
          · exact .injecting _ _ _ _ _ taken
          · exact .injected _ _ _ _ _ taken
  | stop => exact .stopped

@[simp] theorem suite_enterAfterEverything (runner : Runner Env) (ending : Ending) :
    (runner.enterAfterEverything ending : Process Call Env).suite = runner.suite := by
  unfold Runner.enterAfterEverything
  split <;> rfl

@[simp] theorem isStopped_enterAfterEverything (runner : Runner Env) (ending : Ending) :
    (runner.enterAfterEverything ending : Process Call Env).isStopped =
      runner.shared.world.isStopped := by
  unfold Runner.enterAfterEverything
  split <;> rfl

@[simp] theorem phase_enterAfterEverything (runner : Runner Env) (ending : Ending) :
    (runner.enterAfterEverything ending : Process Call Env).runner.control.phase =
      runner.control.phase := by
  unfold Runner.enterAfterEverything
  split <;> rfl

theorem ending?_enterAfterEverything (runner : Runner Env) (ending : Ending) :
    (runner.enterAfterEverything ending : Process Call Env).operation.ending? = some ending := by
  unfold Runner.enterAfterEverything
  split <;> rfl

theorem isAside_enterAfterEverything (runner : Runner Env) (ending : Ending) :
    (runner.enterAfterEverything ending : Process Call Env).operation.isAside = true := by
  unfold Runner.enterAfterEverything
  split <;> rfl

end Process

end TestTree.Run
