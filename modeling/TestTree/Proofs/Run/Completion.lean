import TestTree.Proofs.Run.Overlap
import TestTree.Proofs.Run.Pausing
import TestTree.Proofs.Run.Stopping

/-!
What a complete run has done. Workers leave for different reasons, but as long as nobody raises the stop
token they leave together only if one of them has paused or no branch waits any more, and no walk is
given up. So unless a hook before everything has failed, a run that comes to its end without being
paused has left no branch behind, and a retired branch stays so.
-/
namespace TestTree

namespace Suite

/-- No branch waits to be claimed. -/
def Exhausted (suite : Suite) : Prop :=
  ∀ index branch, suite.branch? index = some branch → branch.isWaiting = false

/-- Nobody is on the way along a branch, and none waits. -/
def Retired (suite : Suite) : Prop :=
  ∀ index branch, suite.branch? index = some branch → branch.Retired

variable {suite after : Suite}

theorem Retired.of_branches (retired : suite.Retired) (same : after.branches = suite.branches) :
    after.Retired := by
  intro index branch found
  rw [branch?_congr same] at found
  exact retired index branch found

/-- If no branch can be claimed and none is active, no id is busy, so none waits. -/
theorem exhausted_of_nextBranch (unclaimed : suite.nextBranch = none)
    (idle : ∀ index branch, suite.branch? index = some branch → branch.isActive = false) :
    suite.Exhausted := by
  intro index branch found
  by_contra waits
  obtain ⟨id, -, busy⟩ :=
    busy_of_nextBranch unclaimed (List.mem_of_getElem? found) (by simpa using waits)
  obtain ⟨other, fellow, present, active, -⟩ := mem_busyIds.mp busy
  simp [idle other fellow present] at active

end Suite

theorem Branch.Retired.done {branch : Branch} (retired : branch.Retired) :
    branch.status.isCompleted = true ∨ branch.passedLastTime = true := by
  have settled := retired.settled
  rw [isWaiting, Bool.and_eq_false_iff] at settled
  rcases settled with busy | known
  · exact .inl (retired.completed busy)
  · exact .inr (by simpa using known)

namespace Run

variable {Call Env : Type} {setting : Setting Call Env}

/-- Whether a run has come to its end. -/
def Phase.isOver : Phase → Bool
  | stopped | complete => true
  | notStarted | running | paused => false

/-- While nobody raises the stop token, a worker that has ended was asked to pause, has paused, or saw
that no branch waits. -/
theorem Worker.ended_cases {shared : Shared Env} {worker : Worker Call}
    (unstopped : shared.world.isStopped = false)
    (ended : (worker.turn setting shared).worker.hasEnded = true) :
    worker.hasEnded = true ∨ shared.pauseRequested = true ∨
      (worker.turn setting shared).paused.isSome = true ∨
      (worker.turn setting shared).shared.suite.Exhausted := by
  cases worker with
  | seeking =>
      cases requested : shared.pauseRequested with
      | true => exact .inr (.inl rfl)
      | false => simp [turn, unstopped, requested, hasEnded] at ended
  | claiming =>
      simp only [turn] at ended ⊢
      split
      · next claims => simp [claims, hasEnded] at ended
      · next unclaimed =>
        simp only [unclaimed] at ended
        split
        · next waits => simp [waits, hasEnded] at ended
        · next none =>
          refine .inr (.inr (.inr fun index branch found => ?_))
          have listed := List.mem_of_getElem? found
          simpa using List.any_eq_false.mp (by simpa using none) branch listed
  | walking cursor activity =>
      have walk := Cursor.turn_walks setting .run cursor shared activity
      simp only [turn] at ended ⊢
      cases turned : (cursor.turn setting .run shared activity).turn with
      | onward later | asleep time later => simp [turned, hasEnded] at ended
      | left departure =>
          cases departure with
          | done => simp [turned, hasEnded] at ended
          | paused => exact .inr (.inr (.inl rfl))
          | stopped =>
              dsimp only at walk
              rw [turned] at walk
              simp [walk.isStopped_of_stopped] at unstopped
  | ended => exact .inl rfl

/-- A worker that asks all others to pause has paused itself. -/
theorem Worker.requests {shared : Shared Env} {worker : Worker Call}
    (requested : (worker.turn setting shared).shared.pauseRequested = true) :
    shared.pauseRequested = true ∨ (worker.turn setting shared).paused.isSome = true := by
  cases worker with
  | seeking =>
      simp only [turn] at requested
      split at requested <;> exact .inl requested
  | claiming =>
      simp only [turn] at requested
      split at requested
      · exact .inl requested
      · split at requested <;> exact .inl requested
  | walking cursor activity =>
      have walk := Cursor.turn_walks setting .run cursor shared activity
      dsimp only at walk
      simp only [turn] at requested ⊢
      cases turned : (cursor.turn setting .run shared activity).turn with
      | onward later | asleep time later =>
          rw [turned] at requested walk
          exact .inl ((walk.requests requested).resolve_right fun met => by cases met.1)
      | left departure =>
          cases departure with
          | done | stopped =>
              rw [turned] at requested walk
              exact .inl ((walk.requests requested).resolve_right fun met => by cases met.1)
          | paused => exact .inr rfl
  | ended => exact .inl requested

namespace Process

variable {process between after : Process Call Env} {action : Action} {thread : Nat}
  {claims : List Nat}

/-- The hook before everything that fails with an action. -/
def failedBefore (setting : Setting Call Env) (process : Process Call Env) : Action → Option Nat
  | .turn _ =>
      match process.operation with
      | .beforeHook index call =>
          match process.runner.shared.advance setting call with
          | (.done (.error _) _, _) => some index
          | _ => none
      | _ => none
  | _ => none

/-- What holds of a process that nobody has stopped and whose hooks before everything have not failed.
Behind the branches, there is nothing left to do along them. -/
structure Completes (process : Process Call Env) : Prop where
  requested : ∀ workers paused, process.operation = .working workers paused →
    process.runner.shared.pauseRequested = true → paused ≠ []
  ended : ∀ workers paused, process.operation = .working workers paused →
    ∀ worker ∈ workers, worker.hasEnded = true → paused ≠ [] ∨ process.suite.Exhausted
  ending : process.operation.ending? ≠ none → process.suite.Retired

theorem completes_of_idle (idle : ∀ workers paused, process.operation ≠ .working workers paused)
    (ending : process.operation.ending? ≠ none → process.suite.Retired) : process.Completes :=
  ⟨fun workers paused same => absurd same (idle workers paused),
    fun workers paused same => absurd same (idle workers paused), ending⟩

theorem completes_enterAfterEverything {runner : Runner Env} {ending : Ending}
    (retired : runner.suite.Retired) :
    (runner.enterAfterEverything ending : Process Call Env).Completes := by
  refine completes_of_idle ?_ fun _ => ?_
  · intro workers paused
    unfold Runner.enterAfterEverything
    split <;> nofun
  · rw [suite_enterAfterEverything]
    exact retired

theorem Guarded.exhausted_moves (guarded : process.Guarded setting claims)
    (moves : Moves setting process action between) (exhausted : process.suite.Exhausted) :
    between.suite.Exhausted := by
  intro index branch found
  obtain ⟨before, present, evolves⟩ := guarded.order.evolves moves found
  exact guarded.not_isWaiting present evolves (exhausted index before present)

/-- Without cursors no branch is active. -/
theorem Covered.retired (covered : process.Covered) (idle : process.courses = [])
    (exhausted : process.suite.Exhausted) : process.suite.Retired := by
  intro index branch found
  refine ⟨?_, exhausted index branch found⟩
  by_contra active
  have owned := covered index branch found (by simpa using active)
  rw [owned_eq, idle] at owned
  cases owned

/-- As long as nobody raises the stop token and no hook fails, the hooks before everything lead to the
branches. -/
theorem ending?_of_early (unstopped : process.isStopped = false)
    (sound : process.failedBefore setting (.turn thread) = none)
    (aside : process.operation.isAside = true) (early : process.operation.ending? = none) :
    (process.turn setting thread).1.operation.ending? = none := by
  obtain ⟨runner, operation⟩ := process
  change runner.shared.world.isStopped = false at unstopped
  cases operation with
  | beforeEverything index scope =>
      simp only [turn, unstopped, Bool.false_eq_true, if_false]
      split <;> rfl
  | beforeHook index call =>
      simp only [turn]
      simp only [failedBefore] at sound
      split
      · rfl
      · next result scope shared advanced =>
        cases result with
        | error message => simp [advanced] at sound
        | ok value => rfl
  | starting =>
      simp only [turn, unstopped, Bool.false_eq_true, if_false]
      rfl
  | afterEverything | afterHook | concluding => cases early
  | working | single | injecting | finished => cases aside

theorem completes_unjoined {runner : Runner Env} {workers : List (Worker Call)} {paused : List Cursor}
    {worker : Worker Call}
    (completes : (⟨runner, .working workers paused⟩ : Process Call Env).Completes)
    (guarded : (⟨runner, .working workers paused⟩ : Process Call Env).Guarded setting claims)
    (unstopped : runner.shared.world.isStopped = false) (found : workers[thread]? = some worker) :
    (unjoined setting ⟨runner, .working workers paused⟩ thread workers paused worker).Completes := by
  have requested := completes.requested workers paused rfl
  have ended := completes.ended workers paused rfl
  have steers : Steers setting ⟨runner, .working workers paused⟩ (.turn thread)
      (unjoined setting ⟨runner, .working workers paused⟩ thread workers paused worker) :=
    steers_unjoined found
  have kept := guarded.exhausted_moves steers.moves
  refine ⟨?_, ?_, nofun⟩
  · rintro _ _ ⟨⟩ asked
    rcases Worker.requests asked with before | now
    · simp [requested before]
    · cases shown : (worker.turn setting runner.shared).paused with
      | none => simp [shown] at now
      | some cursor => simp
  · rintro _ _ ⟨⟩ other among finished
    have stays : paused ≠ [] ∨ runner.suite.Exhausted →
        paused ++ (worker.turn setting runner.shared).paused.toList ≠ [] ∨
          (unjoined setting ⟨runner, .working workers paused⟩ thread workers paused
            worker).suite.Exhausted := by
      rintro (pausing | exhausted)
      · exact .inl (by simp [pausing])
      · exact .inr (kept exhausted)
    rcases List.mem_or_eq_of_mem_set among with old | rfl
    · exact stays (ended other old finished)
    · rcases Worker.ended_cases unstopped finished with before | asked | now | exhausted
      · exact stays (ended worker (List.mem_of_getElem? found) before)
      · exact stays (.inl (requested asked))
      · cases shown : (worker.turn setting runner.shared).paused with
        | none => simp [shown] at now
        | some cursor => exact .inl (by simp)
      · exact .inr exhausted

/-- When the last worker has ended and none has paused, nothing is left to do along the branches. -/
theorem completes_joined {runner : Runner Env} {workers : List (Worker Call)} {paused : List Cursor}
    {worker : Worker Call}
    (joins : (unjoined setting ⟨runner, .working workers paused⟩ thread workers paused
      worker).Completes)
    (calm : runner.control.paused = []) (found : workers[thread]? = some worker)
    (ended : (workers.set thread (worker.turn setting runner.shared).worker).all Worker.hasEnded = true)
    (unstopped : (worker.turn setting runner.shared).shared.world.isStopped = false)
    (covered : (join (unjoined setting ⟨runner, .working workers paused⟩ thread workers paused
      worker).runner (paused ++ (worker.turn setting runner.shared).paused.toList) :
        Process Call Env).Covered) :
    (join (unjoined setting ⟨runner, .working workers paused⟩ thread workers paused worker).runner
      (paused ++ (worker.turn setting runner.shared).paused.toList) : Process Call Env).Completes := by
  have among := List.mem_set (List.getElem?_eq_some_iff.mp found).1
    (worker.turn setting runner.shared).worker
  unfold join at covered ⊢
  split
  · next none =>
    rw [if_pos none] at covered
    have exhausted := (joins.ended _ _ rfl _ among (List.all_eq_true.mp ended _ among)).resolve_left
      (by simpa using none)
    have idle : ((unjoined setting ⟨runner, .working workers paused⟩ thread workers paused
        worker).runner.enterAfterEverything .run : Process Call Env).courses = [] := by
      rw [courses_enterAfterEverything]
      exact congrArg (List.map Cursor.pausing) calm
    have retired := covered.retired idle (by rw [suite_enterAfterEverything]; exact exhausted)
    rw [suite_enterAfterEverything] at retired
    exact completes_enterAfterEverything retired
  · split
    · next stopped =>
      exact absurd (unstopped.symm.trans stopped) nofun
    · exact completes_of_idle nofun fun ends => absurd rfl ends

/-- When a single step has ended the last branch under way and none waits, nothing is left to do. -/
theorem completes_afterSingle {runner : Runner Env} {cursor : Cursor} {departure : Departure}
    (covered : (afterSingle runner cursor departure : Process Call Env).Covered)
    (ends : departure = .paused ∨ departure = .done) :
    (afterSingle runner cursor departure : Process Call Env).Completes := by
  have courses : (afterSingle runner cursor departure : Process Call Env).courses = _ :=
    courses_afterSingle runner cursor departure
  unfold afterSingle at covered courses ⊢
  split
  · exact completes_of_idle nofun fun ends => absurd rfl ends
  · next left =>
    rw [if_neg left] at covered courses
    obtain rfl := ends.resolve_left left
    split
    · exact completes_of_idle nofun fun ends => absurd rfl ends
    · next alone =>
      rw [if_neg alone] at covered courses
      split
      · exact completes_of_idle nofun fun ends => absurd rfl ends
      · next unclaimed =>
        rw [if_neg unclaimed] at covered courses
        have none : runner.control.paused = [] := by simpa using alone
        rw [none] at courses
        have idle (index : Nat) (branch : Branch)
            (found : (runner.enterAfterEverything (.single true) : Process Call Env).suite.branch?
              index = some branch) : branch.isActive = false := by
          by_contra active
          have owned := covered index branch found (by simpa using active)
          rw [owned_eq, courses] at owned
          cases owned
        rw [suite_enterAfterEverything] at idle
        have exhausted := Suite.exhausted_of_nextBranch (by simpa using unclaimed) idle
        exact completes_enterAfterEverything fun index branch found =>
          ⟨idle index branch found, exhausted index branch found⟩

theorem Completes.turn (completes : process.Completes) (guarded : process.Guarded setting claims)
    (unstopped : process.isStopped = false)
    (calm : (process.turn setting thread).1.isStopped = false)
    (sound : process.failedBefore setting (.turn thread) = none)
    (covered : (process.turn setting thread).1.Covered) :
    (process.turn setting thread).1.Completes := by
  have early := ending?_of_early unstopped sound
  have turns := turn_turns setting process thread
  generalize (process.turn setting thread).1 = after at *
  cases turns with
  | rested => exact completes
  | tended runner operation tended was aside ending =>
      refine completes_of_idle ?_ fun ends => ?_
      · rintro workers paused rfl
        cases aside
      · exact (completes.ending fun first => ends (early was first)).of_branches tended.branches
  | started =>
      refine ⟨?_, ?_, nofun⟩
      · rintro _ _ ⟨⟩ requested
        cases requested
      · rintro _ _ ⟨⟩ worker among ended
        rcases List.mem_append.mp among with resumed | fresh
        · obtain ⟨cursor, -, rfl⟩ := List.mem_map.mp resumed
          cases ended
        · obtain rfl := List.eq_of_mem_replicate fresh
          cases ended
  | worked workers paused worker working found =>
      obtain ⟨runner, operation⟩ := process
      obtain rfl := working
      exact completes_unjoined completes guarded unstopped found
  | joined workers paused worker working found ended =>
      obtain ⟨runner, operation⟩ := process
      obtain rfl := working
      rw [isStopped_join] at calm
      exact completes_joined (completes_unjoined completes guarded unstopped found)
        (guarded.order.sound.calm workers paused rfl) found ended calm covered
  | concluded ending => cases ending <;> exact completes_of_idle nofun fun ends => absurd rfl ends
  | walked purpose cursor activity later single => exact completes_of_idle nofun fun ends => absurd rfl ends
  | departed purpose cursor activity departure single left =>
      refine completes_afterSingle covered ?_
      have walk := Cursor.turn_walks setting purpose cursor process.runner.shared activity
      dsimp only at walk
      rw [left] at walk
      cases departure with
      | done => exact .inr rfl
      | paused => exact .inl rfl
      | stopped => exact absurd (unstopped.symm.trans walk.isStopped_of_stopped) nofun
  | delayed | injected => exact completes_of_idle nofun fun ends => absurd rfl ends

theorem completes_launch {runner : Runner Env} {request : Request}
    (launches : Launches setting runner request after)
    (going : after.operation.ending? ≠ some .stop) : after.Completes := by
  cases launches with
  | refused | prepared | single | injecting | injected =>
      exact completes_of_idle nofun fun ends => absurd rfl ends
  | begun operation running opens =>
      rcases opens with rfl | rfl
      · exact completes_of_idle nofun fun ends => absurd rfl ends
      · exact completes_of_idle nofun fun ends => absurd rfl ends
  | stopped => exact absurd (ending?_enterAfterEverything _ _) going

theorem Completes.perform (completes : process.Completes) (guarded : process.Guarded setting claims)
    (unstopped : process.isStopped = false)
    (calm : (process.perform setting action).isStopped = false)
    (sound : process.failedBefore setting action = none) :
    (process.perform setting action).Completes := by
  have later := guarded.perform unstopped calm
  cases action with
  | turn thread => exact completes.turn guarded unstopped calm sound later.safe.covered
  | request request =>
      have going := later.going
      simp only [Process.perform] at going ⊢
      split
      · next finished =>
        rw [if_pos finished] at going
        exact completes_launch (launch_launches setting process.runner request) going
      · exact completes
  | raiseStop => cases calm
  | wait milliseconds => exact ⟨completes.requested, completes.ended, completes.ending⟩

theorem completes_after (runner : Runner Env) {schedule : List Action}
    (unstopped : (runner.ready setting).Unstopped setting schedule)
    (sound : (runner.ready setting).history setting (failedBefore setting) schedule = []) :
    ((runner.ready setting).after setting schedule).Completes := by
  induction schedule using List.reverseRecOn with
  | nil => exact completes_of_idle nofun fun ends => absurd rfl ends
  | append_singleton schedule action ih =>
      rw [history_concat, List.append_eq_nil_iff, Option.toList_eq_nil_iff] at sound
      have earlier : (runner.ready setting).Unstopped setting schedule := fun moment before =>
        unstopped moment (before.trans (List.prefix_append _ _))
      have now := unstopped _ List.prefix_rfl
      rw [after_concat] at now ⊢
      exact (ih earlier sound.1).perform (guarded_after setting runner earlier)
        (unstopped schedule (List.prefix_append _ _)) now sound.2

theorem phase_concludeWith {runner : Runner Env} (stopped : runner.shared.world.isStopped = true)
    (ending : Ending) :
    (concludeWith runner ending : Process Call Env).runner.control.phase = .stopped := by
  cases ending with
  | run | single => simp [concludeWith, Runner.conclude, Runner.finish, stopped]
  | stop => rfl

theorem over_join (runner : Runner Env) (paused : List Cursor)
    (isOver : (join runner paused : Process Call Env).runner.control.phase.isOver = true) :
    runner.control.phase = (join runner paused : Process Call Env).runner.control.phase := by
  unfold join at isOver ⊢
  split
  · rw [phase_enterAfterEverything]
  · next some =>
    rw [if_neg some] at isOver
    split
    · rw [phase_enterAfterEverything]
    · next calm =>
      rw [if_neg calm] at isOver
      cases isOver

theorem over_afterSingle (runner : Runner Env) (cursor : Cursor) (departure : Departure)
    (isOver : (afterSingle runner cursor departure : Process Call Env).runner.control.phase.isOver =
      true) :
    runner.control.phase =
      (afterSingle runner cursor departure : Process Call Env).runner.control.phase := by
  unfold afterSingle at isOver ⊢
  split
  · rfl
  · next left =>
    rw [if_neg left] at isOver
    split
    · rfl
    · next alone =>
      rw [if_neg alone] at isOver
      split
      · next waits =>
        rw [if_pos waits] at isOver
        cases isOver
      · rw [phase_enterAfterEverything]

/-- A runner becomes stopped or complete only when an operation concludes. -/
theorem over_turn (turns : Turns setting process thread after)
    (isOver : after.runner.control.phase.isOver = true) :
    process.runner.control.phase = after.runner.control.phase ∨ ∃ ending,
      process.operation = .concluding ending ∧ after = concludeWith process.runner ending := by
  cases turns with
  | rested | started | worked | walked => exact .inl rfl
  | tended runner operation tended => exact .inl tended.phase.symm
  | joined workers paused worker working found => exact .inl (over_join _ _ isOver)
  | concluded ending last => exact .inr ⟨ending, last, rfl⟩
  | departed purpose cursor activity departure single left =>
      exact .inl (over_afterSingle _ _ _ isOver)
  | delayed cursor step call later runner tended | injected cursor step call runner outcome tended =>
      exact .inl tended.phase.symm

theorem over_launch {runner : Runner Env} {request : Request}
    (launches : Launches setting runner request after)
    (isOver : after.runner.control.phase.isOver = true) :
    runner.control.phase = after.runner.control.phase := by
  cases launches with
  | refused => rfl
  | prepared =>
      simp only [Runner.init]
      split <;> rfl
  | begun => cases isOver
  | single _ purpose cursor rest taken | injecting line cursor rest step call taken
  | injected line cursor rest step outcome taken =>
      obtain ⟨-, -, -, rfl⟩ := takePaused_eq taken
      rfl
  | stopped =>
      rw [phase_enterAfterEverything]
      rfl

theorem over_perform (isOver : (process.perform setting action).runner.control.phase.isOver = true) :
    process.runner.control.phase = (process.perform setting action).runner.control.phase ∨ ∃ ending,
      process.operation = .concluding ending ∧
        process.perform setting action = concludeWith process.runner ending := by
  cases action with
  | turn thread => exact over_turn (turn_turns setting process thread) isOver
  | request request =>
      simp only [perform] at isOver ⊢
      split
      · next finished =>
        rw [if_pos finished] at isOver
        exact .inl (over_launch (launch_launches setting process.runner request) isOver)
      · exact .inl rfl
  | raiseStop | wait => exact .inl rfl

theorem phase_of_early (isOver : (process.perform setting action).runner.control.phase.isOver = true)
    (early : process.operation.ending? = none) :
    process.runner.control.phase = (process.perform setting action).runner.control.phase := by
  rcases over_perform isOver with same | ⟨ending, last, -⟩
  · exact same
  · rw [last] at early
    cases early

/-- A run becomes complete when an operation concludes that nobody has stopped. -/
theorem complete_perform (complete : (process.perform setting action).runner.control.phase = .complete) :
    process.runner.control.phase = .complete ∨
      process.operation.ending? ≠ none ∧ process.isStopped = false := by
  rcases over_perform (by rw [complete]; rfl) with same | ⟨ending, last, concludes⟩
  · exact .inl (same.trans complete)
  · refine .inr ⟨by simp [last, Operation.ending?], ?_⟩
    by_contra raised
    have stopped : process.isStopped = true := by simpa using raised
    rw [concludes, phase_concludeWith stopped] at complete
    cases complete

/-- A retired branch stays so, whatever happens. -/
theorem retired_perform (order : process.InOrder)
    (fresh : setting.skipPassed = false → ∀ index branch,
      process.suite.branch? index = some branch → branch.passedLastTime = false)
    (retired : process.suite.Retired) (action : Action) :
    (process.perform setting action).suite.Retired := by
  obtain ⟨between, moves, settles⟩ := perform_moves setting order.sound order.started action
  have kept : between.suite.Retired := by
    intro index branch found
    obtain ⟨before, present, -⟩ := order.evolves moves found
    exact order.retired_moves moves fresh present found (retired index before present)
  exact kept.of_branches settles.branches

theorem retired_after (runner : Runner Env) {schedule : List Action}
    (latching : setting.executor.Latching)
    (sound : (runner.ready setting).history setting (failedBefore setting) schedule = [])
    (complete : ((runner.ready setting).after setting schedule).runner.control.phase = .complete) :
    ((runner.ready setting).after setting schedule).suite.Retired := by
  induction schedule using List.reverseRecOn with
  | nil =>
      rw [after_nil, control_ready] at complete
      cases complete
  | append_singleton schedule action ih =>
      rw [history_concat, List.append_eq_nil_iff] at sound
      rw [after_concat] at complete ⊢
      refine retired_perform (inOrder_after setting runner schedule)
        (fun keeps _ _ => known_after setting runner schedule keeps) ?_ action
      rcases complete_perform complete with before | ⟨ends, calm⟩
      · exact ih sound.1 before
      · exact (completes_after runner (unstopped_of_latching latching calm) sound.1).ending ends

/-- Whatever was asked of a runner and whoever had a turn: if the run is complete and no hook before
everything has failed, every branch has an outcome, or is known to have passed in the previous run. -/
theorem done_of_complete (setting : Setting Call Env) (runner : Runner Env) (schedule : List Action)
    (latching : setting.executor.Latching)
    (sound : (runner.ready setting).history setting (failedBefore setting) schedule = [])
    (complete : ((runner.ready setting).after setting schedule).runner.control.phase = .complete) :
    ∀ branch ∈ ((runner.ready setting).after setting schedule).suite.branches,
      branch.status.isCompleted = true ∨ branch.passedLastTime = true := by
  intro branch listed
  obtain ⟨index, found⟩ := List.getElem?_of_mem listed
  exact (retired_after runner latching sound complete index branch found).done

/-- A branch that pauses in front of its only step, and another one. -/
def brink : Runner Unit :=
  .initial
    { branches :=
        [{ steps := [.ofStep { identifiers := { isDebug := true } } 0] }, { steps := [.ofStep {} 0] }] }
    ()

/-- The first branch is run up to its step and ended by a single step, and then the other one is run. -/
def resumption : List Action :=
  .request .run :: List.replicate 7 (.turn 0) ++ .request .step :: List.replicate 5 (.turn 0) ++
    .request .run :: List.replicate 15 (.turn 0)

theorem done_of_complete_resumption :
    let setting := { executor := silent, tree := .empty, maxParallel := 1 }
    setting.executor.Latching ∧
      (brink.ready setting).history setting (failedBefore setting) resumption = [] ∧
      ((brink.ready setting).after setting resumption).runner.control.phase = .complete ∧
      ∀ branch ∈ ((brink.ready setting).after setting resumption).suite.branches,
        branch.status.isCompleted = true ∨ branch.passedLastTime = true := by
  intro setting
  have latching : setting.executor.Latching := fun _ _ stopped => stopped
  have sound : (brink.ready setting).history setting (failedBefore setting) resumption = [] := by
    decide
  have complete :
      ((brink.ready setting).after setting resumption).runner.control.phase = .complete := by decide
  exact ⟨latching, sound, complete,
    done_of_complete setting brink resumption latching sound complete⟩

end Process

end Run

end TestTree
