import TestTree.Proofs.Run.Pausing
import TestTree.Proofs.Run.Stopping

namespace TestTree.Run

variable {Call Env : Type} {setting : Setting Call Env}

/-- Whoever leaves a walk to the end of a branch paused was asked to, or asks all others to. -/
theorem Walk.heeds {cursor next : Cursor} {shared after : Shared Env} {stage : Stage}
    (walk : Walk setting .run cursor shared stage after next (.away .paused))
    (straight : stage.IsStraight) : after.pauseRequested = true := by
  cases walk with
  | interrupted _ requested => exact requested
  | paused => rfl
  | facing => cases straight
  | recorded _ _ _ goes => rcases goes with goes | goes <;> cases goes

/-- Nobody takes back that the run is to pause. -/
theorem Walk.keeps_request {purpose : Purpose} {cursor next : Cursor} {shared after : Shared Env}
    {stage : Stage} {arrival : Arrival}
    (walk : Walk setting purpose cursor shared stage after next arrival)
    (requested : shared.pauseRequested = true) : after.pauseRequested = true := by
  cases walk with
  | paused => rfl
  | opened | unguarded | entering | admitted | refused | turnedAway | halted | interrupted | continued
  | exhausted | taken | passedOver | skipped | preparing | begun | unbegun | sleeping | ended
  | trailing | marked | facing | atEnd | leaving | tarnished | left | recorded => exact requested

namespace Worker

variable {shared : Shared Env} {worker : Worker Call}

theorem keeps_request (worker : Worker Call) (requested : shared.pauseRequested = true) :
    (worker.turn setting shared).shared.pauseRequested = true := by
  cases worker with
  | seeking =>
      simp only [turn]
      split <;> exact requested
  | claiming =>
      simp only [turn]
      split
      · exact requested
      · split <;> exact requested
  | walking cursor activity =>
      rw [shared_turn_walking]
      exact (cursor.turn_walks setting .run shared activity).keeps_request requested
  | ended => exact requested

theorem heeds (straight : ∀ cursor activity, worker = .walking cursor activity →
      activity.stage.IsStraight) (paused : (worker.turn setting shared).paused ≠ none) :
    (worker.turn setting shared).shared.pauseRequested = true := by
  cases worker with
  | seeking =>
      simp only [turn] at paused
      split at paused <;> exact absurd rfl paused
  | claiming =>
      simp only [turn] at paused
      split at paused
      · exact absurd rfl paused
      · split at paused <;> exact absurd rfl paused
  | walking cursor activity =>
      have walk := cursor.turn_walks setting .run shared activity
      dsimp only at walk
      rw [shared_turn_walking]
      simp only [turn] at paused
      split at paused
      · exact absurd rfl paused
      · exact absurd rfl paused
      · exact absurd rfl paused
      · next left =>
        rw [left] at walk
        exact walk.heeds (straight cursor activity rfl)
      · exact absurd rfl paused
  | ended => exact absurd rfl paused

end Worker

namespace Process

variable {process : Process Call Env} {action : Action} {thread : Nat} {branch : Branch}
  {workers others : List (Worker Call)} {paused held : List Cursor}

/-- What workers at work keep: they go along branches, none has paused unless they all are to, and not
all have ended. -/
structure Heeds (process : Process Call Env) : Prop where
  straight : ∀ workers paused, process.operation = .working workers paused →
    ∀ cursor activity, .walking cursor activity ∈ workers → activity.stage.IsStraight
  requested : ∀ workers paused, process.operation = .working workers paused → paused ≠ [] →
    process.runner.shared.pauseRequested = true
  live : ∀ workers paused, process.operation = .working workers paused →
    workers.all Worker.hasEnded = false

theorem live_startWorkers (setting : Setting Call Env) (paused : List Cursor) :
    (paused.map (Worker.resume : Cursor → Worker Call) ++ List.replicate
      (max setting.maxParallel 1 - paused.length) Worker.seeking).all Worker.hasEnded = false := by
  cases paused with
  | nil =>
      obtain ⟨count, some⟩ : ∃ count, max setting.maxParallel 1 = count + 1 :=
        Nat.exists_eq_succ_of_ne_zero (Nat.ne_of_gt (Nat.le_max_right _ _))
      rw [some]
      rfl
  | cons cursor rest => rfl

theorem live_perform
    (live : ∀ workers paused, process.operation = .working workers paused →
      workers.all Worker.hasEnded = false)
    (working : (process.perform setting action).operation = .working workers paused) :
    workers.all Worker.hasEnded = false := by
  rcases working_perform working with
    ⟨same, -⟩ | ⟨-, starts⟩ | ⟨others, held, thread, worker, -, -, -, some, turned⟩
  · exact live workers paused same
  · rw [starts] at working
    cases working
    exact live_startWorkers setting _
  · rw [turned] at working
    cases working
    exact some

theorem Heeds.perform (heeds : process.Heeds) (action : Action) :
    (process.perform setting action).Heeds := by
  refine ⟨fun workers paused working _ _ => straight_perform heeds.straight working, ?_,
    fun workers paused working => live_perform heeds.live working⟩
  intro workers paused working some
  rcases working_perform working with
    ⟨same, -, request, -⟩ | ⟨-, starts⟩ | ⟨others, held, thread, worker, -, at_, found, -, turned⟩
  · rw [request]
    exact heeds.requested workers paused same some
  · rw [starts] at working
    cases working
    exact absurd rfl some
  · rw [turned] at working ⊢
    cases working
    by_cases none : (worker.turn setting process.runner.shared).paused = none
    · rw [none, Option.toList_none, List.append_nil] at some
      exact worker.keeps_request (heeds.requested others held at_ some)
    · refine Worker.heeds ?_ none
      rintro cursor activity rfl
      exact heeds.straight others held at_ cursor activity (List.mem_of_getElem? found)

theorem heeds_after (setting : Setting Call Env) (runner : Runner Env) (schedule : List Action) :
    ((runner.ready setting).after setting schedule).Heeds := by
  induction schedule using List.reverseRecOn with
  | nil => exact ⟨nofun, nofun, nofun⟩
  | append_singleton schedule action ih =>
      rw [after_concat]
      exact ih.perform action

/-- A worker finds nothing to claim and goes to sleep, to look again a little later. -/
def Polls (setting : Setting Call Env) (process : Process Call Env) (thread : Nat) : Prop :=
  process.worker? thread = some .claiming ∧ (process.turn setting thread).2 = some pollInterval

/-- A worker at work walks along a branch under way that shares its id with this one. -/
def Attended (process : Process Call Env) (branch : Branch) : Prop :=
  ∃ workers paused id cursor activity fellow, process.operation = .working workers paused ∧
    branch.nonParallelId = some id ∧ .walking cursor activity ∈ workers ∧
    process.suite.branch? cursor.branch = some fellow ∧ fellow.isActive = true ∧
    fellow.nonParallelId = some id

/-- Whoever looks again has seen that no branch may start and that some branch waits. -/
theorem Polls.sees (polls : process.Polls setting thread) : process.suite.nextBranch = none ∧
    ∃ branch ∈ process.suite.branches, branch.isWaiting = true := by
  obtain ⟨claims, sleeps⟩ := polls
  obtain ⟨workers, paused, working, found⟩ := worker?_eq_some.mp claims
  simp only [turn, working, found] at sleeps
  split at sleeps
  · cases sleeps
  · simp only [Worker.turn, Suite.claimNext] at sleeps
    split at sleeps
    · cases sleeps
    · next unclaimed =>
      split at sleeps
      · next waits =>
        exact ⟨Option.map_eq_none_iff.mp unclaimed, List.any_eq_true.mp waits⟩
      · cases sleeps

/-- The owner of a branch under way is at work, unless it has paused. -/
theorem walking_of_active (covered : process.Covered) (working : process.operation = .working workers [])
    (calm : process.runner.control.paused = []) {index : Nat} {fellow : Branch}
    (present : process.suite.branch? index = some fellow) (active : fellow.isActive = true) :
    ∃ cursor activity, .walking cursor activity ∈ workers ∧ cursor.branch = index := by
  have owned := covered index fellow present active
  rw [owned_eq, courses, working, calm] at owned
  obtain ⟨⟨cursor, activity⟩, listed, own⟩ := List.mem_map.mp owned
  simp only [Operation.courses, List.map_nil, List.append_nil, List.mem_filterMap] at listed
  obtain ⟨worker, member, walks⟩ := listed
  cases worker with
  | walking => cases walks; exact ⟨cursor, activity, member, own⟩
  | seeking | claiming | ended => cases walks

/-- What a prepared runner may come to. -/
def Reached (setting : Setting Call Env) (process : Process Call Env) : Prop :=
  ∃ runner schedule, process = (Runner.ready setting runner).after setting schedule

theorem Reached.inOrder (reached : process.Reached setting) : process.InOrder := by
  obtain ⟨runner, schedule, rfl⟩ := reached
  exact inOrder_after setting runner schedule

theorem Reached.covered (reached : process.Reached setting) (latching : setting.executor.Latching)
    (unstopped : process.isStopped = false) : process.Covered := by
  obtain ⟨runner, schedule, rfl⟩ := reached
  exact (guarded_after setting runner (unstopped_of_latching latching unstopped)).safe.covered

theorem Reached.heeds (reached : process.Reached setting) : process.Heeds := by
  obtain ⟨runner, schedule, rfl⟩ := reached
  exact heeds_after setting runner schedule

/-- Whoever looks again is to stop or to pause, or waits for workers at work. -/
theorem attended_of_polls (reached : process.Reached setting) (latching : setting.executor.Latching)
    (polls : process.Polls setting thread) :
    process.isStopped = true ∨ process.runner.shared.pauseRequested = true ∨
      ∀ branch ∈ process.suite.branches, branch.isWaiting = true → process.Attended branch := by
  rw [or_iff_not_imp_left, or_iff_not_imp_left]
  intro unstopped unrequested branch listed waiting
  have unstopped : process.isStopped = false := by simpa using unstopped
  obtain ⟨unclaimed, -⟩ := polls.sees
  obtain ⟨workers, paused, working, -⟩ := worker?_eq_some.mp polls.1
  obtain ⟨id, own, busy⟩ := Suite.busy_of_nextBranch unclaimed listed waiting
  obtain ⟨index, fellow, present, active, shared⟩ := Suite.mem_busyIds.mp busy
  have empty : paused = [] := by
    by_contra some
    exact unrequested (reached.heeds.requested workers paused working some)
  subst empty
  have calm := reached.inOrder.sound.calm workers [] working
  obtain ⟨cursor, activity, member, rfl⟩ :=
    walking_of_active (reached.covered latching unstopped) working calm present active
  exact ⟨workers, [], id, cursor, activity, fellow, working, own, member, present, active, shared⟩

end Process

end TestTree.Run
