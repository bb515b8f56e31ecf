import TestTree.Proofs.Run.Safety

namespace TestTree.Run

variable {Call Env : Type} {setting : Setting Call Env}

/-- Bodies can raise the stop token, and none can lower it. -/
def Executor.Latching (executor : Executor Call Env) : Prop :=
  ∀ call world, world.isStopped = true → (executor.advance call world).2.isStopped = true

theorem Cursor.world_turn (setting : Setting Call Env) (purpose : Purpose) (cursor : Cursor)
    (shared : Shared Env) (activity : Activity Call) :
    (cursor.turn setting purpose shared activity).shared.world = shared.world ∨
      ∃ call, (cursor.turn setting purpose shared activity).shared.world =
        (setting.executor.advance call shared.world).2 := by
  cases activity with
  | opening | beforeBranchFailed | skipping | preparing | marking | closing | afterBranchFailed =>
      exact .inl rfl
  | looping =>
      simp only [turn]
      split
      · exact .inl rfl
      · split <;> exact .inl rfl
  | taking =>
      obtain ⟨suite, same, -⟩ := take_eq setting cursor shared
      simp only [turn]
      rw [same]
      dsimp only
      split
      · exact .inl (world_onTaken ..)
      · exact .inl rfl
  | lookingAhead =>
      simp only [turn, lookAhead]
      split <;> exact .inl rfl
  | beforeBranch index call | beforeStep step index call | body step call | afterBranch index call =>
      refine .inr ⟨call, ?_⟩
      simp only [turn, Shared.advance]
      split
      · next advanced => simp only [Prod.mk.injEq] at advanced; rw [← advanced.2]
      · next advanced =>
        simp only [Prod.mk.injEq] at advanced
        split <;> rw [← advanced.2]
  | afterStep step index error call =>
      refine .inr ⟨call, ?_⟩
      simp only [turn, Shared.advance]
      split <;> next advanced => simp only [Prod.mk.injEq] at advanced; rw [← advanced.2]

theorem Worker.world_turn (setting : Setting Call Env) (shared : Shared Env)
    (worker : Worker Call) :
    (worker.turn setting shared).shared.world = shared.world ∨
      ∃ call, (worker.turn setting shared).shared.world =
        (setting.executor.advance call shared.world).2 := by
  cases worker with
  | seeking =>
      simp only [turn]
      split <;> exact .inl rfl
  | claiming =>
      simp only [turn]
      split
      · exact .inl rfl
      · split <;> exact .inl rfl
  | walking cursor activity =>
      rw [shared_turn_walking]
      exact cursor.world_turn setting .run shared activity
  | ended => exact .inl rfl

namespace Process

variable {process after : Process Call Env} {thread : Nat} {action : Action}

/-- A turn moves the stop token only as a body moves it. -/
theorem Turns.isStopped (turns : process.Turns setting thread after) :
    after.isStopped = process.isStopped ∨ ∃ call, after.isStopped =
      (setting.executor.advance call process.runner.shared.world).2.isStopped := by
  have moved {world : World Env} (same : world = process.runner.shared.world ∨
      ∃ call, world = (setting.executor.advance call process.runner.shared.world).2) :
      world.isStopped = process.isStopped ∨ ∃ call, world.isStopped =
        (setting.executor.advance call process.runner.shared.world).2.isStopped := by
    rcases same with rfl | ⟨call, rfl⟩
    · exact .inl rfl
    · exact .inr ⟨call, rfl⟩
  cases turns with
  | rested | started => exact .inl rfl
  | tended runner operation tended => exact moved tended.world
  | worked workers paused worker => exact moved (worker.world_turn setting process.runner.shared)
  | joined workers paused worker =>
      rw [isStopped_join]
      exact moved (worker.world_turn setting process.runner.shared)
  | concluded ending => cases ending <;> exact .inl rfl
  | walked purpose cursor activity =>
      exact moved (cursor.world_turn setting purpose process.runner.shared activity)
  | departed purpose cursor activity =>
      rw [isStopped_afterSingle]
      exact moved (cursor.world_turn setting purpose process.runner.shared activity)
  | delayed cursor step call later runner tended => exact moved tended.world
  | injected cursor step call runner outcome tended => exact moved tended.world

/-- No request but to stop moves the stop token. -/
theorem Launches.isStopped {runner : Runner Env} {request : Request}
    (launches : Launches setting runner request after) :
    after.isStopped = runner.shared.world.isStopped ∨ after.isStopped = true := by
  cases launches with
  | refused | begun => exact .inl rfl
  | prepared =>
      left
      simp only [Runner.init]
      split <;> rfl
  | single _ purpose cursor rest taken | injecting line cursor rest step call taken
  | injected line cursor rest step outcome taken =>
      obtain ⟨-, -, -, rfl⟩ := takePaused_eq taken
      exact .inl rfl
  | stopped => exact .inr (isStopped_enterAfterEverything _ _)

theorem isStopped_perform (latching : setting.executor.Latching) (stopped : process.isStopped = true)
    (action : Action) : (process.perform setting action).isStopped = true := by
  cases action with
  | turn thread =>
      rcases (turn_turns setting process thread).isStopped with same | ⟨call, same⟩
      · exact same.trans stopped
      · exact same.trans (latching call _ stopped)
  | request request =>
      simp only [perform]
      split
      · exact (launch_launches setting process.runner request).isStopped.elim
          (fun same => same.trans stopped) id
      · exact stopped
  | raiseStop => rfl
  | wait milliseconds => exact stopped

theorem isStopped_after (latching : setting.executor.Latching) (stopped : process.isStopped = true)
    (schedule : List Action) : (process.after setting schedule).isStopped = true := by
  induction schedule using List.reverseRecOn with
  | nil => exact stopped
  | append_singleton schedule action ih =>
      rw [after_concat]
      exact isStopped_perform latching ih action

theorem unstopped_of_latching (latching : setting.executor.Latching) {schedule : List Action}
    (calm : (process.after setting schedule).isStopped = false) :
    process.Unstopped setting schedule := by
  rintro moment ⟨rest, rfl⟩
  by_contra stopped
  rw [after_append, isStopped_after latching (by simpa using stopped) rest] at calm
  cases calm

end Process

end TestTree.Run
