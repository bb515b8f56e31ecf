import TestTree.Proofs.Run.Ownership

namespace TestTree.Run

variable {Call Env : Type}

def Worker.isAlive (worker : Worker Call) : Bool := !worker.hasEnded

def Operation.load : Operation Call → Nat
  | .working workers paused => workers.countP Worker.isAlive + paused.length
  | .single _ _ _ | .injecting _ _ _ => 1
  | _ => 0

/-- The workers at work and the paused cursors. -/
def Process.load (process : Process Call Env) : Nat :=
  process.operation.load + process.runner.control.paused.length

theorem length_filterMap_walker (workers : List (Worker Call)) :
    (workers.filterMap Worker.walker?).length ≤ workers.countP Worker.isAlive := by
  induction workers with
  | nil => simp
  | cons worker rest ih =>
      cases worker with
      | walking cursor activity =>
          simpa [Worker.walker?, Worker.isAlive, Worker.hasEnded] using ih
      | seeking | claiming =>
          simp only [List.filterMap_cons, Worker.walker?, List.countP_cons]
          omega
      | ended =>
          rw [List.filterMap_cons_none rfl, List.countP_cons_of_neg (by simp [Worker.isAlive,
            Worker.hasEnded])]
          exact ih

theorem Process.length_owned_le (process : Process Call Env) : process.owned.length ≤ process.load := by
  simp only [owned, walkers, List.length_map, List.length_append, load]
  cases process.operation with
  | working workers paused =>
      have alive := length_filterMap_walker workers
      simp only [Operation.walkers, Operation.load, List.length_append, List.length_map]
      omega
  | single | injecting => simp [Operation.walkers, Operation.load]
  | beforeEverything | beforeHook | starting | afterEverything | afterHook | concluding | finished =>
      simp [Operation.walkers]

theorem Worker.load_turn (setting : Setting Call Env) (shared : Shared Env) (worker : Worker Call) :
    (worker.turn setting shared).worker.isAlive.toNat +
      (worker.turn setting shared).paused.toList.length ≤ worker.isAlive.toNat := by
  cases worker with
  | seeking =>
      simp only [Worker.turn]
      split <;> simp [isAlive, hasEnded]
  | claiming =>
      simp only [Worker.turn]
      split
      · simp [isAlive, hasEnded]
      · split <;> simp [isAlive, hasEnded]
  | walking cursor activity =>
      simp only [Worker.turn]
      split <;> simp [isAlive, hasEnded]
  | ended => simp [Worker.turn, isAlive, hasEnded]

namespace Process

variable {setting : Setting Call Env} {process : Process Call Env}

@[simp] theorem load_finish (runner : Runner Env) (answer : Answer) :
    (runner.finish answer : Process Call Env).load = runner.control.paused.length := by
  simp [load, Runner.finish, Operation.load]

@[simp] theorem load_enterAfterEverything (runner : Runner Env) (ending : Ending) :
    (runner.enterAfterEverything ending : Process Call Env).load = runner.control.paused.length := by
  unfold Runner.enterAfterEverything
  split <;> simp [load, Operation.load, Runner.withControl]

theorem load_unjoined (setting : Setting Call Env) (runner : Runner Env)
    {workers : List (Worker Call)} (paused : List Cursor) {thread : Nat} {worker : Worker Call}
    (found : workers[thread]? = some worker) :
    (unjoined setting ⟨runner, .working workers paused⟩ thread workers paused worker).load ≤
      (⟨runner, .working workers paused⟩ : Process Call Env).load := by
  obtain ⟨rest, before, after⟩ := perm_set found (worker.turn setting runner.shared).worker
  have turned := worker.load_turn setting runner.shared
  have counted (first : Worker Call) :
      (first :: rest).countP Worker.isAlive = rest.countP Worker.isAlive + first.isAlive.toNat := by
    rw [List.countP_cons]
    cases first.isAlive <;> rfl
  simp only [unjoined, load, Operation.load, List.length_append]
  rw [before.countP_eq, after.countP_eq, counted, counted]
  omega

theorem load_join (runner : Runner Env) (workers : List (Worker Call)) (paused : List Cursor) :
    (join runner paused : Process Call Env).load ≤
      (⟨runner, .working workers paused⟩ : Process Call Env).load := by
  unfold join
  split
  · rw [load_enterAfterEverything]
    simp [load]
  · split
    · rw [load_enterAfterEverything]
      simp [load]
    · rw [load_finish]
      simp only [Runner.withSuite, Runner.withControl, load, Operation.load]
      omega

theorem load_startWorkers (runner : Runner Env)
    (within : runner.control.paused.length ≤ max setting.maxParallel 1) :
    (startWorkers setting runner).load ≤ max setting.maxParallel 1 := by
  have alive : ((runner.control.paused.map Worker.resume ++ List.replicate
      (max setting.maxParallel 1 - runner.control.paused.length) .seeking :
        List (Worker Call)).countP Worker.isAlive) ≤ _ := List.countP_le_length
  simp only [List.length_append, List.length_map, List.length_replicate] at alive
  simp only [startWorkers, load, Operation.load, List.length_nil]
  omega

theorem load_afterSingle (runner : Runner Env) (cursor : Cursor) (departure : Departure) :
    (afterSingle runner cursor departure : Process Call Env).load ≤
      runner.control.paused.length + 1 := by
  unfold afterSingle
  split
  · simp [Runner.putBack, Runner.withControl]
  · split
    · simp
    · split
      · simp [Runner.withControl]
      · simp

theorem load_of_isAside (aside : process.operation.isAside = true) :
    process.load = process.runner.control.paused.length := by
  obtain ⟨runner, operation⟩ := process
  cases operation with
  | working | single | injecting | finished => cases aside
  | beforeEverything | beforeHook | starting | afterEverything | afterHook | concluding =>
      simp [load, Operation.load]

/-- No turn raises the load, except that a run starts as many workers as may be at work. -/
theorem load_turn {thread : Nat} {after : Process Call Env}
    (within : process.load ≤ max setting.maxParallel 1) (turns : Turns setting process thread after) :
    after.load ≤ max setting.maxParallel 1 := by
  have paused : process.runner.control.paused.length ≤ max setting.maxParallel 1 := by
    rw [load] at within
    omega
  cases turns with
  | rested => exact within
  | tended runner operation tended was aside =>
      have least : (⟨runner, operation⟩ : Process Call Env).load = _ := load_of_isAside aside
      rw [least, tended.paused]
      exact paused
  | started => exact load_startWorkers process.runner paused
  | worked workers held worker working found =>
      obtain ⟨runner, operation⟩ := process
      obtain rfl := working
      exact Nat.le_trans (load_unjoined setting runner held found) within
  | joined workers held worker working found =>
      obtain ⟨runner, operation⟩ := process
      obtain rfl := working
      apply Nat.le_trans (load_join _ _ _)
      exact Nat.le_trans (load_unjoined setting runner held found) within
  | concluded ending =>
      cases ending with
      | run | single => simpa [concludeWith, Runner.conclude] using paused
      | stop => simp [concludeWith, Runner.withControl]
  | walked purpose cursor activity later single =>
      simp only [load, single, Operation.load] at within ⊢
      exact within
  | departed purpose cursor activity departure single =>
      simp only [load, single, Operation.load] at within
      apply Nat.le_trans (load_afterSingle _ _ _)
      dsimp only
      omega
  | delayed cursor step call later runner tended injecting =>
      simp only [load, injecting, Operation.load, tended.paused] at within ⊢
      exact within
  | injected cursor step call runner outcome tended injecting =>
      simp only [load, injecting, Operation.load] at within
      simp only [Runner.finishInjection, Runner.putBack, Runner.withControl, load_finish,
        List.length_cons, tended.paused]
      omega

theorem load_launch {runner : Runner Env} {request : Request} {after : Process Call Env}
    (within : runner.control.paused.length ≤ max setting.maxParallel 1)
    (launches : Launches setting runner request after) : after.load ≤ max setting.maxParallel 1 := by
  cases launches with
  | refused => simpa using within
  | prepared =>
      simp only [load_finish, Runner.init]
      split <;> exact within
  | begun operation running opens =>
      rcases opens with rfl | rfl
      · simpa [load, Operation.load, Runner.withControl] using within
      · simpa [load, Operation.load, Runner.withControl] using within
  | single _ purpose cursor rest taken =>
      obtain ⟨_, others, held, rfl⟩ := takePaused_eq taken
      rw [held, List.length_cons] at within
      simp only [load, Operation.load, Runner.withControl]
      omega
  | injecting line cursor rest step call taken =>
      obtain ⟨_, others, held, rfl⟩ := takePaused_eq taken
      rw [held, List.length_cons] at within
      simp only [load, Operation.load, Runner.withControl]
      omega
  | injected line cursor rest step outcome taken =>
      obtain ⟨_, others, held, rfl⟩ := takePaused_eq taken
      rw [held] at within
      simpa [Runner.finishInjection, Runner.putBack, Runner.withControl] using within
  | stopped => simpa [Runner.raiseStop] using within

theorem load_perform (within : process.load ≤ max setting.maxParallel 1) (action : Action) :
    (process.perform setting action).load ≤ max setting.maxParallel 1 := by
  cases action with
  | turn thread => exact load_turn within (turn_turns setting process thread)
  | request request =>
      simp only [perform]
      split
      · apply load_launch ?_ (launch_launches setting process.runner request)
        rw [load] at within
        omega
      · exact within
  | raiseStop => exact within
  | wait milliseconds => exact within

/-- At most as many cursors as there may be workers own a branch, at any moment. -/
theorem load_after (setting : Setting Call Env) (runner : Runner Env) (schedule : List Action) :
    ((runner.ready setting).after setting schedule).load ≤ max setting.maxParallel 1 := by
  induction schedule using List.reverseRecOn with
  | nil =>
      have control := control_ready setting runner
      simp only [Runner.ready, Runner.finish] at control
      simp [Runner.ready, control]
  | append_singleton schedule action ih =>
      rw [after_concat]
      exact load_perform ih action

end Process

end TestTree.Run
