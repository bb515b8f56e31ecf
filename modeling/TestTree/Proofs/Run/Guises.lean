import TestTree.Proofs.Run.Needs
import TestTree.Proofs.Run.Belated

/-!
One process in the guise of another. A guise puts a process into other surroundings, and may give the cursor of
one branch other variables. What a process does, it does in a guise just so, unless the cursor that differs has a
part in it, and nobody sees the guise as long as that cursor has no body in progress. The two processes are
related by a function, so that a step of one is computed from that of the other, operation by operation.
-/
namespace TestTree

namespace Run

variable {Call Env : Type} {setting : Setting Call Env} {alike : Env → Env → Prop} {shared : Shared Env}

namespace Process

theorem world_enterAfterEverything (runner : Runner Env) (ending : Ending) :
    (runner.enterAfterEverything ending : Process Call Env).runner.shared.world = runner.shared.world := by
  unfold Runner.enterAfterEverything
  split <;> rfl

theorem world_join (runner : Runner Env) (paused : List Cursor) :
    (join runner paused : Process Call Env).runner.shared.world = runner.shared.world := by
  unfold join
  split
  · exact world_enterAfterEverything _ _
  · split
    · exact world_enterAfterEverything _ _
    · rfl

theorem world_afterSingle (runner : Runner Env) (cursor : Cursor) (departure : Departure) :
    (afterSingle runner cursor departure : Process Call Env).runner.shared.world = runner.shared.world := by
  unfold afterSingle
  split
  · rfl
  · split
    · rfl
    · split
      · rfl
      · exact world_enterAfterEverything _ _

theorem world_concludeWith (runner : Runner Env) (ending : Ending) :
    (concludeWith runner ending : Process Call Env).runner.shared.world = runner.shared.world := by
  cases ending <;> rfl

end Process

/-- Another look of a process: other surroundings, and other variables along one branch. -/
structure Guise (Env : Type) where
  env : Env
  stale : Option (Nat × Variables) := none

namespace Guise

variable (guise : Guise Env)

/-- The same guise in other surroundings. -/
def on (env : Env) : Guise Env := { guise with env }

/-- No more than the other surroundings. -/
def plain : Guise Env := { env := guise.env }

/-- The cursor of this branch keeps its variables. -/
def Spares (branch : Nat) : Prop := ∀ stale, guise.stale = some stale → branch ≠ stale.1

def cursor (cursor : Cursor) : Cursor :=
  match guise.stale with
  | some (branch, scope) => if cursor.branch = branch then { cursor with scope } else cursor
  | none => cursor

def worker : Worker Call → Worker Call
  | .walking cursor activity => .walking (guise.cursor cursor) activity
  | worker => worker

def runner (runner : Runner Env) : Runner Env :=
  { runner with
    shared := runner.shared.within guise.env
    control := { runner.control with paused := runner.control.paused.map guise.cursor } }

def operation : Operation Call → Operation Call
  | .working workers paused => .working (workers.map guise.worker) (paused.map guise.cursor)
  | .single purpose cursor activity => .single purpose (guise.cursor cursor) activity
  | .injecting cursor step call => .injecting (guise.cursor cursor) step call
  | operation => operation

def process (process : Process Call Env) : Process Call Env :=
  ⟨guise.runner process.runner, guise.operation process.operation⟩

theorem cursor_eq (cursor : Cursor) : ∃ scope, guise.cursor cursor = { cursor with scope } := by
  unfold Guise.cursor
  split
  · split
    · exact ⟨_, rfl⟩
    · exact ⟨cursor.scope, rfl⟩
  · exact ⟨cursor.scope, rfl⟩

theorem plain_spares (branch : Nat) : guise.plain.Spares branch := nofun

variable {guise} in
theorem cursor_of_spares {cursor : Cursor} (spares : guise.Spares cursor.branch) :
    guise.cursor cursor = cursor := by
  unfold Guise.cursor
  split
  · next branch scope stale => rw [if_neg (spares _ stale)]
  · rfl

@[simp] theorem branch_cursor (cursor : Cursor) : (guise.cursor cursor).branch = cursor.branch := by
  obtain ⟨scope, same⟩ := guise.cursor_eq cursor
  rw [same]

@[simp] theorem hasEnded_worker (worker : Worker Call) :
    (guise.worker worker).hasEnded = worker.hasEnded := by
  cases worker <;> rfl

theorem all_hasEnded (workers : List (Worker Call)) :
    (workers.map guise.worker).all Worker.hasEnded = workers.all Worker.hasEnded := by
  rw [List.all_map]
  exact congrArg workers.all (funext guise.hasEnded_worker)

theorem worker_resume (cursor : Cursor) :
    (Worker.resume (guise.cursor cursor) : Worker Call) = guise.worker (.resume cursor) := by
  obtain ⟨scope, same⟩ := guise.cursor_eq cursor
  rw [Worker.resume, Worker.resume, worker, same]

@[simp] theorem suite_runner (runner : Runner Env) : (guise.runner runner).suite = runner.suite := rfl

@[simp] theorem isStopped_runner (runner : Runner Env) :
    (guise.runner runner).shared.world.isStopped = runner.shared.world.isStopped := rfl

@[simp] theorem paused_runner (runner : Runner Env) :
    (guise.runner runner).control.paused = runner.control.paused.map guise.cursor := rfl

theorem process_enterAfterEverything (runner : Runner Env) (ending : Ending) :
    ((guise.runner runner).enterAfterEverything ending : Process Call Env) =
      guise.process (runner.enterAfterEverything ending) := by
  obtain ⟨shared, ⟨phase, began, ranAfterEverything, hasPaused, startedAt, stoppedAt, paused⟩, now⟩ := runner
  cases ranAfterEverything <;> rfl

theorem process_join (runner : Runner Env) (paused : List Cursor) :
    (Process.join (guise.runner runner) (paused.map guise.cursor) : Process Call Env) =
      guise.process (Process.join runner paused) := by
  cases paused with
  | nil => exact process_enterAfterEverything _ _ _
  | cons cursor others =>
      obtain ⟨⟨suite, ⟨persistent, isStopped, env⟩, requested⟩, control, now⟩ := runner
      cases isStopped with
      | true => exact process_enterAfterEverything _ _ _
      | false => rfl

theorem process_afterSingle (runner : Runner Env) (cursor : Cursor) (departure : Departure) :
    (Process.afterSingle (guise.runner runner) (guise.cursor cursor) departure : Process Call Env) =
      guise.process (Process.afterSingle runner cursor departure) := by
  by_cases left : departure = .paused
  · simp only [Process.afterSingle, left, if_true]
    rfl
  · cases alone : runner.control.paused.isEmpty with
    | false =>
        simp only [Process.afterSingle, left, paused_runner, List.isEmpty_map, alone, if_false, if_true,
          Bool.not_false]
        rfl
    | true =>
        cases next : runner.suite.nextBranch.isSome with
        | true =>
            simp only [Process.afterSingle, left, paused_runner, List.isEmpty_map, alone, suite_runner, next,
              if_false, if_true, Bool.not_true, Bool.false_eq_true]
            rfl
        | false =>
            simp only [Process.afterSingle, left, paused_runner, List.isEmpty_map, alone, suite_runner, next,
              if_false, Bool.not_true, Bool.false_eq_true]
            exact process_enterAfterEverything _ _ _

theorem process_concludeWith (runner : Runner Env) (ending : Ending) :
    (Process.concludeWith (guise.runner runner) ending : Process Call Env) =
      guise.process (Process.concludeWith runner ending) := by
  cases ending with
  | run | single | stop => rfl

theorem process_startWorkers (setting : Setting Call Env) (runner : Runner Env) :
    Process.startWorkers setting (guise.runner runner) =
      guise.process (Process.startWorkers setting runner) := by
  have resumed : (runner.control.paused.map guise.cursor).map (@Worker.resume Call) =
      (runner.control.paused.map Worker.resume).map guise.worker := by
    simp [worker_resume guise]
  have waiting (count : Nat) : List.replicate count (.seeking : Worker Call) =
      (List.replicate count .seeking).map guise.worker := by
    rw [List.map_replicate]
    rfl
  simp only [Process.startWorkers, paused_runner, resumed, List.length_map, Guise.process, Guise.operation,
    List.map_append, ← waiting]
  rfl

theorem takePaused_runner (runner : Runner Env) :
    (guise.runner runner).takePaused =
      runner.takePaused.map fun (cursor, rest) => (guise.cursor cursor, guise.runner rest) := by
  obtain ⟨shared, ⟨phase, before, after, hasPaused, startedAt, stoppedAt, paused⟩, now⟩ := runner
  cases phase <;> cases paused <;> rfl

theorem process_finishInjection (runner : Runner Env) {cursor : Cursor} (spares : guise.Spares cursor.branch)
    (step : BranchStep) (outcome : Variables × Option StepError) :
    ((guise.runner runner).finishInjection cursor step outcome : Process Call Env) =
      guise.process (runner.finishInjection cursor step outcome) := by
  have kept : guise.cursor { cursor with scope := outcome.1 } = { cursor with scope := outcome.1 } :=
    cursor_of_spares spares
  simp only [Runner.finishInjection, Runner.putBack, Runner.finish, Runner.withControl,
    Guise.process, Guise.runner, Guise.operation, List.map_cons, kept]

theorem process_ready (setting : Setting Call Env) (runner : Runner Env) :
    (guise.runner runner).ready setting = guise.process (runner.ready setting) := by
  cases keeps : setting.skipPassed <;>
    simp only [Runner.ready, Runner.init, keeps, Bool.false_eq_true, if_false, if_true] <;> rfl

variable {guise} in
theorem takePaused_of_taken {runner rest : Runner Env} {cursor : Cursor}
    (taken : runner.takePaused = some (cursor, rest)) :
    (guise.runner runner).takePaused = some (guise.cursor cursor, guise.runner rest) := by
  rw [takePaused_runner, taken, Option.map_some]

variable {guise}

/-- A worker in a guise has the same turn, if its cursor has, and if it claims no branch whose variables differ. -/
theorem turn_worker (respects : setting.executor.Respects alike) (kin : alike shared.world.env guise.env)
    (worker : Worker Call)
    (walks : ∀ cursor activity, worker = .walking cursor activity →
      (guise.cursor cursor).turn setting .run shared activity =
        { cursor.turn setting .run shared activity with
          cursor := guise.cursor (cursor.turn setting .run shared activity).cursor })
    (claims : worker = .claiming → ∀ index, shared.suite.nextBranch = some index → guise.Spares index) :
    ∃ after, alike (worker.turn setting shared).shared.world.env after ∧
      (guise.worker worker).turn setting (shared.within guise.env) =
        { shared := (worker.turn setting shared).shared.within after
          worker := guise.worker (worker.turn setting shared).worker
          sleep := (worker.turn setting shared).sleep
          paused := (worker.turn setting shared).paused.map guise.cursor } := by
  cases worker with
  | ended => exact ⟨_, kin, rfl⟩
  | seeking =>
      refine ⟨guise.env, ?_, ?_⟩
      · simp only [Worker.turn]
        split <;> exact kin
      · obtain ⟨suite, ⟨persistent, isStopped, env⟩, requested⟩ := shared
        cases isStopped <;> cases requested <;> rfl
  | claiming =>
      refine ⟨guise.env, ?_, ?_⟩
      · simp only [Worker.turn]
        split
        · exact kin
        · split <;> exact kin
      · have other : (shared.within guise.env).suite = shared.suite := rfl
        cases next : shared.suite.claimNext with
        | none =>
            cases waiting : shared.suite.branches.any Branch.isWaiting <;>
              simp only [Guise.worker, Worker.turn, other, next, waiting] <;> rfl
        | some claim =>
            obtain ⟨index, suite⟩ := claim
            obtain ⟨chosen, nearest, same⟩ := Option.map_eq_some_iff.mp next
            obtain rfl := congrArg Prod.fst same
            have kept : guise.cursor { branch := chosen } = { branch := chosen } :=
              cursor_of_spares (claims rfl chosen nearest)
            simp only [Guise.worker, Worker.turn, other, next, kept]
            rfl
  | walking cursor activity =>
      obtain ⟨after, kin, same⟩ := Cursor.turn_within respects kin .run (guise.cursor cursor) activity
      rw [walks cursor activity rfl] at kin same
      refine ⟨after, ?_, ?_⟩
      · rw [Worker.shared_turn_walking]
        exact kin
      · simp only [Guise.worker, Worker.turn, same]
        generalize cursor.turn setting .run shared activity = move
        obtain ⟨shared, cursor, activity | ⟨time, activity⟩ | departure⟩ := move
        · rfl
        · rfl
        · cases departure <;> rfl

/-- What a process comes to is in a guise the same in that guise, but for the surroundings. -/
def Wears (setting : Setting Call Env) (alike : Env → Env → Prop) (guise : Guise Env)
    (process : Process Call Env) (action : Action) : Prop :=
  ∃ env, alike (process.perform setting action).runner.shared.world.env env ∧
    (guise.process process).perform setting action = (guise.on env).process (process.perform setting action)

section Turn

variable {runner : Runner Env} {thread : Nat}

theorem turn_beforeEverything (kin : alike runner.shared.world.env guise.env) (index : Nat) (scope : Variables) :
    guise.Wears setting alike (⟨runner, .beforeEverything index scope⟩ : Process Call Env) (.turn thread) := by
  refine ⟨guise.env, ?_, ?_⟩
  · simp only [Process.perform, Process.turn]
    split
    · rw [Process.world_enterAfterEverything]
      exact kin
    · split <;> exact kin
  · cases stopped : runner.shared.world.isStopped with
    | true =>
        simp only [Guise.process, Guise.operation, Process.perform, Process.turn, isStopped_runner, stopped,
          if_true]
        exact process_enterAfterEverything _ _ _
    | false =>
        cases found : runner.suite.beforeEverything[index]? <;>
          simp only [Guise.process, Guise.operation, Process.perform, Process.turn, isStopped_runner, suite_runner,
            stopped, found] <;> rfl

theorem turn_beforeHook (respects : setting.executor.Respects alike)
    (kin : alike runner.shared.world.env guise.env) (index : Nat) (call : Call) :
    guise.Wears setting alike ⟨runner, .beforeHook index call⟩ (.turn thread) := by
  obtain ⟨after, kin, same⟩ := Shared.advance_within respects kin call
  refine ⟨after, ?_⟩
  have advanced : (guise.runner runner).shared.advance setting call = _ := same
  simp only [Guise.process, Guise.operation, Process.perform, Process.turn, advanced]
  generalize runner.shared.advance setting call = answer at kin
  obtain ⟨⟨time, later⟩ | ⟨message | value, scope⟩, between⟩ := answer
  · exact ⟨kin, rfl⟩
  · have hooks : ({ guise.runner runner with shared := between.within after } : Runner Env).suite =
      ({ runner with shared := between } : Runner Env).suite := rfl
    simp only [hooks]
    cases found : ({ runner with shared := between } : Runner Env).suite.beforeEverything[index]? with
    | none => exact ⟨kin, rfl⟩
    | some hook =>
        dsimp only
        rw [Process.world_enterAfterEverything]
        exact ⟨kin, process_enterAfterEverything (guise.on after)
          (Process.recordBefore { runner with shared := between } index (hook.failure message)) .run⟩
  · exact ⟨kin, rfl⟩

theorem turn_starting (kin : alike runner.shared.world.env guise.env) :
    guise.Wears setting alike (⟨runner, .starting⟩ : Process Call Env) (.turn thread) := by
  rw [Wears]
  cases stopped : runner.shared.world.isStopped with
  | true =>
      simp only [Guise.process, Guise.operation, Process.perform, Process.turn, isStopped_runner, stopped, if_true]
      rw [Process.world_enterAfterEverything]
      exact ⟨guise.env, kin, process_enterAfterEverything _ _ _⟩
  | false =>
      simp only [Guise.process, Guise.operation, Process.perform, Process.turn, isStopped_runner, stopped]
      exact ⟨guise.env, kin, process_startWorkers _ _ _⟩

theorem turn_afterEverything (kin : alike runner.shared.world.env guise.env) (index : Nat) (scope : Variables)
    (ending : Ending) : guise.Wears setting alike
      (⟨runner, .afterEverything index scope ending⟩ : Process Call Env) (.turn thread) := by
  refine ⟨guise.env, ?_, ?_⟩
  · simp only [Process.perform, Process.turn]
    split <;> exact kin
  · cases found : runner.suite.afterEverything[index]? <;>
      simp only [Guise.process, Guise.operation, Process.perform, Process.turn, suite_runner, found] <;> rfl

theorem turn_afterHook (respects : setting.executor.Respects alike) (kin : alike runner.shared.world.env guise.env)
    (index : Nat) (call : Call) (ending : Ending) :
    guise.Wears setting alike ⟨runner, .afterHook index call ending⟩ (.turn thread) := by
  obtain ⟨after, kin, same⟩ := Shared.advance_within respects kin call
  refine ⟨after, ?_⟩
  have advanced : (guise.runner runner).shared.advance setting call = _ := same
  simp only [Guise.process, Guise.operation, Process.perform, Process.turn, advanced]
  generalize runner.shared.advance setting call = answer at kin
  obtain ⟨⟨time, later⟩ | ⟨message | value, scope⟩, between⟩ := answer
  · exact ⟨kin, rfl⟩
  · have hooks : ({ guise.runner runner with shared := between.within after } : Runner Env).suite =
      ({ runner with shared := between } : Runner Env).suite := rfl
    simp only [hooks]
    cases found : ({ runner with shared := between } : Runner Env).suite.afterEverything[index]? <;>
      exact ⟨kin, rfl⟩
  · exact ⟨kin, rfl⟩

/-- The turn of one worker is the turn of all, up to the join. -/
theorem turn_working {workers : List (Worker Call)} {worker : Worker Call} (paused : List Cursor)
    (found : workers[thread]? = some worker) {after : Env}
    (kin : alike (worker.turn setting runner.shared).shared.world.env after)
    (same : (guise.worker worker).turn setting (runner.shared.within guise.env) =
      { shared := (worker.turn setting runner.shared).shared.within after
        worker := guise.worker (worker.turn setting runner.shared).worker
        sleep := (worker.turn setting runner.shared).sleep
        paused := (worker.turn setting runner.shared).paused.map guise.cursor }) :
    guise.Wears setting alike ⟨runner, .working workers paused⟩ (.turn thread) := by
  refine ⟨after, ?_⟩
  have turned : (guise.worker worker).turn setting (guise.runner runner).shared = _ := same
  simp only [Guise.process, Guise.operation, Process.perform, Process.turn, List.getElem?_map, found,
    Option.map_some, turned]
  generalize worker.turn setting runner.shared = move at kin
  have moved : (workers.map guise.worker).set thread (guise.worker move.worker) =
      (workers.set thread move.worker).map guise.worker := List.map_set.symm
  have kept : paused.map guise.cursor ++ (move.paused.map guise.cursor).toList =
      (paused ++ move.paused.toList).map guise.cursor := by
    rw [List.map_append, Option.toList_map]
  rw [moved, kept, all_hasEnded]
  cases all : (workers.set thread move.worker).all Worker.hasEnded with
  | true =>
      simp only [if_true]
      rw [Process.world_join]
      exact ⟨kin, process_join (guise.on after) { runner with shared := move.shared } _⟩
  | false => exact ⟨kin, rfl⟩

theorem turn_single (respects : setting.executor.Respects alike) (kin : alike runner.shared.world.env guise.env)
    {purpose : Purpose} {cursor : Cursor} {activity : Activity Call}
    (walks : (guise.cursor cursor).turn setting purpose runner.shared activity =
      { cursor.turn setting purpose runner.shared activity with
        cursor := guise.cursor (cursor.turn setting purpose runner.shared activity).cursor }) :
    guise.Wears setting alike ⟨runner, .single purpose cursor activity⟩ (.turn thread) := by
  obtain ⟨after, kin, same⟩ := Cursor.turn_within respects kin purpose (guise.cursor cursor) activity
  rw [walks] at kin same
  refine ⟨after, ?_⟩
  have turned : (guise.cursor cursor).turn setting purpose (guise.runner runner).shared activity = _ := same
  simp only [Guise.process, Guise.operation, Process.perform, Process.turn, turned]
  generalize cursor.turn setting purpose runner.shared activity = move at kin
  obtain ⟨shared, cursor, activity | ⟨time, activity⟩ | departure⟩ := move
  · exact ⟨kin, rfl⟩
  · exact ⟨kin, rfl⟩
  · dsimp only
    rw [Process.world_afterSingle]
    exact ⟨kin, process_afterSingle (guise.on after) { runner with shared } cursor departure⟩

theorem turn_injecting (respects : setting.executor.Respects alike) (kin : alike runner.shared.world.env guise.env)
    {cursor : Cursor} (spares : guise.Spares cursor.branch) (step : BranchStep) (call : Call) :
    guise.Wears setting alike ⟨runner, .injecting cursor step call⟩ (.turn thread) := by
  obtain ⟨after, kin, same⟩ := Shared.advance_within respects kin call
  refine ⟨after, ?_⟩
  have advanced : (guise.runner runner).shared.advance setting call = _ := same
  simp only [Guise.process, Guise.operation, Process.perform, Process.turn, advanced, cursor_of_spares spares]
  generalize runner.shared.advance setting call = answer at kin
  obtain ⟨⟨time, later⟩ | ⟨message | value, scope⟩, between⟩ := answer
  · have kept : (guise.on after).cursor cursor = cursor := cursor_of_spares spares
    refine ⟨kin, ?_⟩
    simp only [kept]
    rfl
  · exact ⟨kin, process_finishInjection (guise.on after) { runner with shared := between } spares _ _⟩
  · exact ⟨kin, process_finishInjection (guise.on after) { runner with shared := between } spares _ _⟩

end Turn

variable {process : Process Call Env} {thread : Nat}

theorem turn_process (respects : setting.executor.Respects alike)
    (kin : alike process.runner.shared.world.env guise.env)
    (walks : ∀ purpose cursor activity, process.walk? thread = some (purpose, cursor, activity) →
      (guise.cursor cursor).turn setting purpose process.runner.shared activity =
        { cursor.turn setting purpose process.runner.shared activity with
          cursor := guise.cursor (cursor.turn setting purpose process.runner.shared activity).cursor })
    (claims : ∀ index, process.claimed (.turn thread) = some index → guise.Spares index)
    (injects : ∀ index, process.injects (.turn thread) = some index → guise.Spares index) :
    guise.Wears setting alike process (.turn thread) := by
  obtain ⟨runner, operation⟩ := process
  cases operation with
  | beforeEverything index scope => exact turn_beforeEverything kin index scope
  | beforeHook index call => exact turn_beforeHook respects kin index call
  | starting => exact turn_starting kin
  | working workers paused =>
      cases found : workers[thread]? with
      | none =>
          refine ⟨guise.env, ?_, ?_⟩
          · simp only [Process.perform, Process.turn, found]
            exact kin
          · simp only [Guise.process, Guise.operation, Process.perform, Process.turn, List.getElem?_map, found,
              Option.map_none]
            rfl
      | some worker =>
          obtain ⟨after, kin, same⟩ := turn_worker respects kin worker
            (fun cursor activity walking => walks .run cursor activity (by simp [Process.walk?, found, walking]))
            (fun claiming index nearest => claims index (by
              simp only [Process.claimed, found, claiming]
              exact nearest))
          exact turn_working paused found kin same
  | afterEverything index scope ending => exact turn_afterEverything kin index scope ending
  | afterHook index call ending => exact turn_afterHook respects kin index call ending
  | concluding ending =>
      refine ⟨guise.env, ?_, process_concludeWith _ _ _⟩
      simp only [Process.perform, Process.turn]
      rw [Process.world_concludeWith]
      exact kin
  | single purpose cursor activity => exact turn_single respects kin (walks purpose cursor activity rfl)
  | injecting cursor step call => exact turn_injecting respects kin (injects cursor.branch rfl) step call
  | finished answer => exact ⟨guise.env, kin, rfl⟩

theorem injectedStep_runner (setting : Setting Call Env) (runner : Runner Env) (cursor : Cursor) (line : Text) :
    (guise.runner runner).injectedStep setting cursor line = runner.injectedStep setting cursor line := rfl

/-- A request made of a runner in a guise comes to the same, if it injects nothing along a branch whose variables
differ. -/
theorem launch_process (setting : Setting Call Env) (runner : Runner Env) (request : Request)
    (injects : ∀ line cursor rest, request = .inject line → runner.takePaused = some (cursor, rest) →
      guise.Spares cursor.branch) :
    request.launch setting (guise.runner runner) = guise.process (request.launch setting runner) := by
  cases request with
  | prepare =>
      cases keeps : setting.skipPassed <;>
        simp only [Request.launch, Runner.init, keeps, Bool.false_eq_true, if_false, if_true] <;> rfl
  | run =>
      obtain ⟨shared, ⟨phase, began, ended, hasPaused, startedAt, stoppedAt, paused⟩, now⟩ := runner
      cases phase <;> cases began <;> rfl
  | step =>
      simp only [Request.launch, Runner.runOneStep, takePaused_runner]
      cases runner.takePaused <;> rfl
  | skip =>
      simp only [Request.launch, Runner.skipOneStep, takePaused_runner]
      cases runner.takePaused <;> rfl
  | inject line =>
      simp only [Request.launch, Runner.inject, takePaused_runner]
      cases taken : runner.takePaused with
      | none => rfl
      | some cursor =>
          obtain ⟨cursor, rest⟩ := cursor
          have spares := injects line cursor rest rfl taken
          simp only [Option.map_some, cursor_of_spares spares, injectedStep_runner]
          cases rest.injectedStep setting cursor line with
          | error error => rfl
          | ok step =>
              dsimp only
              obtain ⟨scope, _ | error⟩ := step.prepare cursor.scope
              · cases step.codeBlock with
                | none => exact process_finishInjection guise rest spares step _
                | some code =>
                    simp only [Guise.process, Guise.operation, cursor_of_spares spares]
              · exact process_finishInjection guise rest spares step _
  | stop => exact process_enterAfterEverything guise runner.raiseStop .stop

theorem env_launch (setting : Setting Call Env) (runner : Runner Env) (request : Request) :
    (request.launch setting runner).runner.shared.world.env = runner.shared.world.env := by
  have launches := Process.launch_launches setting runner request
  generalize request.launch setting runner = after at launches
  cases launches with
  | refused => rfl
  | prepared =>
      simp only [Runner.init]
      split <;> rfl
  | begun => rfl
  | single _ purpose cursor rest taken | injecting line cursor rest step call taken
  | injected line cursor rest step outcome taken =>
      obtain ⟨-, others, -, rfl⟩ := Process.takePaused_eq taken
      rfl
  | stopped => rw [Process.world_enterAfterEverything]; rfl

theorem env_ready (setting : Setting Call Env) (runner : Runner Env) :
    (runner.ready setting).runner.shared.world.env = runner.shared.world.env := by
  simp only [Runner.ready, Runner.init]
  split <;> rfl

/-- What a guise changes has no part in an action. -/
structure Hidden (setting : Setting Call Env) (guise : Guise Env) (process : Process Call Env) (action : Action) :
    Prop where
  walks : ∀ thread purpose cursor activity, action = .turn thread →
    process.walk? thread = some (purpose, cursor, activity) →
    (guise.cursor cursor).turn setting purpose process.runner.shared activity =
      { cursor.turn setting purpose process.runner.shared activity with
        cursor := guise.cursor (cursor.turn setting purpose process.runner.shared activity).cursor }
  claims : ∀ index, process.claimed action = some index → guise.Spares index
  injects : ∀ index, process.injects action = some index → guise.Spares index

theorem perform_process (respects : setting.executor.Respects alike)
    (kin : alike process.runner.shared.world.env guise.env) {action : Action}
    (hidden : guise.Hidden setting process action) :
    guise.Wears setting alike process action := by
  cases action with
  | turn thread =>
      exact turn_process respects kin (fun purpose cursor activity =>
        hidden.walks thread purpose cursor activity rfl) hidden.claims hidden.injects
  | request request =>
      obtain ⟨runner, operation⟩ := process
      cases operation with
      | finished answer =>
          refine ⟨guise.env, ?_, ?_⟩
          · simp only [Process.perform, Process.isFinished, if_true]
            rw [env_launch]
            exact kin
          · refine launch_process setting runner request fun line cursor rest asked taken => ?_
            refine hidden.injects cursor.branch ?_
            subst asked
            simp [Process.injects, Process.isFinished, taken]
      | beforeEverything | beforeHook | starting | working | afterEverything | afterHook | concluding | single
      | injecting => exact ⟨guise.env, kin, rfl⟩
  | raiseStop | wait => exact ⟨guise.env, kin, rfl⟩

/-- A guise has no part in an action that has to do with spared branches only. -/
theorem hidden_of_spares {action : Action}
    (walks : ∀ thread purpose cursor activity, action = .turn thread →
      process.walk? thread = some (purpose, cursor, activity) → guise.Spares cursor.branch)
    (claims : ∀ index, process.claimed action = some index → guise.Spares index)
    (injects : ∀ index, process.injects action = some index → guise.Spares index) :
    guise.Hidden setting process action where
  walks thread purpose cursor activity turns walking := by
    have spares := walks thread purpose cursor activity turns walking
    have walk := Cursor.turn_walks setting purpose cursor process.runner.shared activity
    have after : guise.Spares (cursor.turn setting purpose process.runner.shared activity).cursor.branch := by
      rw [walk.branch_eq]
      exact spares
    rw [cursor_of_spares spares, cursor_of_spares after]
  claims := claims
  injects := injects

/-- What a guise shows differently is none of the branches with a cursor, so only the surroundings are left. -/
theorem map_cursor_of_spares {cursors : List Cursor} (spares : ∀ cursor ∈ cursors, guise.Spares cursor.branch) :
    cursors.map guise.cursor = cursors :=
  (List.map_congr_left fun cursor listed => cursor_of_spares (spares cursor listed)).trans (List.map_id _)

theorem map_worker_of_spares {workers : List (Worker Call)}
    (spares : ∀ course ∈ workers.filterMap Worker.course?, guise.Spares course.1.branch) :
    workers.map guise.worker = workers := by
  refine (List.map_congr_left fun worker listed => ?_).trans (List.map_id _)
  cases worker with
  | walking cursor activity =>
      have kept := spares (cursor, activity) (List.mem_filterMap.mpr ⟨_, listed, rfl⟩)
      rw [Guise.worker, cursor_of_spares kept, id]
  | seeking | claiming | ended => rfl

theorem operation_of_spares {operation : Operation Call}
    (spares : ∀ course ∈ operation.courses, guise.Spares course.1.branch) :
    guise.operation operation = operation := by
  cases operation with
  | working workers paused =>
      rw [Guise.operation, map_worker_of_spares fun course listed => spares course (List.mem_append_left _ listed),
        map_cursor_of_spares fun cursor listed =>
          spares cursor.pausing (List.mem_append_right _ (List.mem_map_of_mem listed))]
  | single purpose cursor activity => rw [Guise.operation, cursor_of_spares (spares _ (.head _))]
  | injecting cursor step call =>
      have kept : guise.cursor cursor = cursor := cursor_of_spares (spares _ (.head _))
      rw [Guise.operation, kept]
  | beforeEverything | beforeHook | starting | afterEverything | afterHook | concluding | finished => rfl

theorem runner_of_spares {runner : Runner Env}
    (spares : ∀ cursor ∈ runner.control.paused, guise.Spares cursor.branch) :
    guise.runner runner = guise.plain.runner runner := by
  simp only [Guise.runner, map_cursor_of_spares spares]
  have plain : runner.control.paused.map guise.plain.cursor = runner.control.paused :=
    map_cursor_of_spares fun cursor _ => guise.plain_spares cursor.branch
  simp only [plain]
  rfl

/-- Where no cursor differs, nothing but the surroundings does. -/
theorem process_of_spares (spares : ∀ course ∈ process.courses, guise.Spares course.1.branch) :
    guise.process process = guise.plain.process process := by
  have plain (course : Course Call) := guise.plain_spares course.1.branch
  rw [Guise.process, Guise.process,
    runner_of_spares fun cursor listed =>
      spares cursor.pausing (List.mem_append_right _ (List.mem_map_of_mem listed)),
    operation_of_spares fun course listed => spares course (List.mem_append_left _ listed),
    operation_of_spares fun course _ => plain course]

/-- The surroundings may be changed last. -/
theorem process_plain (guise : Guise Env) (env : Env) (process : Process Call Env) :
    guise.plain.process ((guise.on env).process process) = guise.process process := by
  have kept (operation : Operation Call) : guise.plain.operation operation = operation :=
    operation_of_spares fun course _ => guise.plain_spares course.1.branch
  have listed (cursors : List Cursor) : cursors.map guise.plain.cursor = cursors :=
    map_cursor_of_spares fun cursor _ => guise.plain_spares cursor.branch
  rw [Guise.process, kept, Guise.runner, listed]
  rfl

theorem walk?_process (process : Process Call Env) (thread : Nat) :
    (guise.process process).walk? thread = (process.walk? thread).map
      fun (purpose, cursor, activity) => (purpose, guise.cursor cursor, activity) := by
  obtain ⟨runner, operation⟩ := process
  cases operation with
  | working workers paused =>
      simp only [Process.walk?, Guise.process, Guise.operation, List.getElem?_map]
      cases workers[thread]? with
      | none => rfl
      | some worker => cases worker <;> rfl
  | beforeEverything | beforeHook | starting | afterEverything | afterHook | concluding | single | injecting
  | finished => rfl

@[simp] theorem threads_process (process : Process Call Env) :
    (guise.process process).threads = process.threads := by
  obtain ⟨runner, operation⟩ := process
  cases operation with
  | working workers paused =>
      simp only [Process.threads, Guise.process, Guise.operation, List.length_map, List.getElem?_map]
      refine List.filter_congr fun thread _ => ?_
      cases workers[thread]? with
      | none => rfl
      | some worker => simp
  | beforeEverything | beforeHook | starting | afterEverything | afterHook | concluding | single | injecting
  | finished => rfl

@[simp] theorem isFinished_process (process : Process Call Env) :
    (guise.process process).isFinished = process.isFinished := by
  obtain ⟨runner, operation⟩ := process
  cases operation <;> rfl

theorem snapshot_runner (setting : Setting Call Env) (runner : Runner Env) :
    (guise.runner runner).snapshot setting = runner.snapshot setting := by
  have shown : (fun cursor : Cursor => (cursor.branch, cursor.pending)) ∘ guise.cursor =
      fun cursor => (cursor.branch, cursor.pending) := by
    funext cursor
    obtain ⟨scope, same⟩ := guise.cursor_eq cursor
    rw [Function.comp_apply, same]
  simp only [Runner.snapshot, paused_runner, List.map_map, shown]
  rfl

/-- A guise shows the bodies in progress with the same variables: the cursors that differ have none. -/
theorem running?_process {thread : Nat}
    (shown : ∀ purpose cursor activity, process.walk? thread = some (purpose, cursor, activity) →
      activity.call? ≠ none → guise.Spares cursor.branch)
    (injected : ∀ cursor step call, process.operation = .injecting cursor step call →
      step.prepare (guise.cursor cursor).scope = step.prepare cursor.scope) :
    (guise.process process).running? thread = process.running? thread := by
  have walked (walk : Option (Purpose × Cursor × Activity Call))
      (shown : ∀ purpose cursor activity, walk = some (purpose, cursor, activity) →
        activity.call? ≠ none → guise.Spares cursor.branch) :
      ((walk.map fun (purpose, cursor, activity) => (purpose, guise.cursor cursor, activity)).bind
          fun (_, cursor, activity) => activity.running? cursor) =
        walk.bind fun (_, cursor, activity) => activity.running? cursor := by
    obtain _ | ⟨purpose, cursor, activity⟩ := walk
    · rfl
    · cases calls : activity.call? with
      | none => simp [Activity.running?, calls]
      | some call =>
          have spares := shown purpose cursor activity rfl (by simp [calls])
          simp only [Option.map_some, Option.bind_some, cursor_of_spares spares]
  have walks := guise.walk?_process process thread
  obtain ⟨runner, operation⟩ := process
  cases operation with
  | working workers paused =>
      change ((guise.process _).walk? thread).bind _ = _
      rw [walks]
      exact walked _ shown
  | single purpose cursor activity => exact walked (some (purpose, cursor, activity)) shown
  | injecting cursor step call =>
      simp only [Process.running?, Guise.process, Guise.operation, branch_cursor, injected cursor step call rfl]
  | beforeEverything | beforeHook | starting | afterEverything | afterHook | concluding | finished => rfl

theorem sight_process (setting : Setting Call Env) (isAnswer : Bool)
    (shown : ∀ thread purpose cursor activity, process.walk? thread = some (purpose, cursor, activity) →
      activity.call? ≠ none → guise.Spares cursor.branch)
    (injected : ∀ cursor step call, process.operation = .injecting cursor step call →
      step.prepare (guise.cursor cursor).scope = step.prepare cursor.scope) :
    (guise.process process).sight setting isAnswer = process.sight setting isAnswer := by
  have answered : (guise.process process).answer? = process.answer? := by
    obtain ⟨runner, operation⟩ := process
    cases operation <;> rfl
  have running : (fun thread => (thread, (guise.process process).running? thread)) =
      fun thread => (thread, process.running? thread) := by
    funext thread
    rw [running?_process (shown thread) injected]
  simp only [Process.sight, threads_process, answered, running]
  rw [show (guise.process process).runner = guise.runner process.runner from rfl, snapshot_runner]
  rfl

end Guise

end Run

end TestTree
