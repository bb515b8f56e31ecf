import TestTree.Proofs.Run.Finale
import TestTree.Proofs.Run.Marks

/-!
What an operation leaves behind when the runner is complete or stopped. A run that nobody has stopped,
and a single step, leave no mark and no paused cursor; a request to stop leaves no branch running. A run
that sees the stop token leaves the branches as they are, and the steps at which they stand.
-/
namespace TestTree.Run

variable {Call Env : Type} {setting : Setting Call Env}

/-- Whether a walk is not yet behind the point at which it looks around. -/
def Stage.isEarly : Stage → Bool
  | opening | entering | looping => true
  | _ => false

/-- A walk over a single step does not come back to the point at which it looks around. -/
theorem Walk.late {purpose : Purpose} {cursor next : Cursor} {shared after : Shared Env}
    {stage later : Stage} (walk : Walk setting purpose cursor shared stage after next (.at later))
    (single : purpose ≠ .run) (late : stage.isEarly = false) : later.isEarly = false := by
  cases walk with
  | opened | unguarded | entering | admitted | refused | continued => cases late
  | turnedAway | exhausted | taken | passedOver | skipped | preparing | begun | unbegun | sleeping
  | ended | trailing | atEnd | leaving | tarnished => rfl
  | marked => rw [if_neg single]; rfl
  | recorded index error _ goes =>
      rcases goes with goes | goes
      · cases goes
        rfl
      · cases goes

/-- A walk that ends because the run is to stop looked around. -/
theorem Walk.early_of_stopped {purpose : Purpose} {cursor next : Cursor} {shared after : Shared Env}
    {stage : Stage} (walk : Walk setting purpose cursor shared stage after next (.away .stopped)) :
    stage.isEarly = true := by
  cases walk with
  | halted => rfl
  | recorded index error _ goes => simp at goes

/-- The operation that an action concludes. -/
def Process.concluded (process : Process Call Env) : Action → Option Ending
  | .turn _ =>
      match process.operation with
      | .concluding ending => some ending
      | _ => none
  | _ => none

namespace Process

variable {process after : Process Call Env} {thread : Nat} {action : Action} {runner : Runner Env}

section Single

/-- A walk over a single step is behind the point at which it looks around. -/
def Late (process : Process Call Env) : Prop :=
  match process.operation with
  | .single purpose _ activity => purpose ≠ .run ∧ activity.stage.isEarly = false
  | _ => True

theorem late_of_isAside (aside : process.operation.isAside = true) : process.Late := by
  obtain ⟨runner, operation⟩ := process
  cases operation with
  | beforeEverything | beforeHook | starting | afterEverything | afterHook | concluding => trivial
  | working | single | injecting | finished => cases aside

theorem late_afterSingle (runner : Runner Env) (cursor : Cursor) (departure : Departure) :
    (afterSingle runner cursor departure : Process Call Env).Late := by
  unfold afterSingle
  split
  · trivial
  · split
    · trivial
    · split
      · trivial
      · exact late_of_isAside (isAside_enterAfterEverything _ _)

theorem late_join (runner : Runner Env) (paused : List Cursor) :
    (join runner paused : Process Call Env).Late := by
  unfold join
  split
  · exact late_of_isAside (isAside_enterAfterEverything _ _)
  · split
    · exact late_of_isAside (isAside_enterAfterEverything _ _)
    · trivial

theorem Late.turn (late : process.Late) (turns : Turns setting process thread after) :
    after.Late := by
  cases turns with
  | rested => exact late
  | tended runner operation tended was aside => exact late_of_isAside aside
  | started | worked | delayed | injected => trivial
  | joined => exact late_join _ _
  | concluded ending => cases ending <;> trivial
  | departed purpose cursor activity departure single =>
      exact late_afterSingle _ _ _
  | walked purpose cursor activity later single keeps =>
      rw [Late, single] at late
      obtain ⟨brief, behind⟩ := late
      have walk := Cursor.turn_walks setting purpose cursor process.runner.shared activity
      dsimp only at walk
      refine ⟨brief, ?_⟩
      rcases keeps with turned | ⟨time, turned⟩
      · rw [turned] at walk
        exact walk.late brief behind
      · rw [turned] at walk
        exact walk.late brief behind

theorem late_launch (runner : Runner Env) (request : Request) :
    (request.launch setting runner : Process Call Env).Late := by
  cases request with
  | prepare => trivial
  | run =>
      simp only [Request.launch, Runner.run]
      split
      · trivial
      · split <;> trivial
  | step =>
      simp only [Request.launch, Runner.runOneStep]
      split
      · exact ⟨by simp, rfl⟩
      · trivial
  | skip =>
      simp only [Request.launch, Runner.skipOneStep]
      split
      · exact ⟨by simp, rfl⟩
      · trivial
  | inject line =>
      simp only [Request.launch, Runner.inject]
      split
      · trivial
      · split
        · trivial
        · split <;> trivial
  | stop => exact late_of_isAside (isAside_enterAfterEverything _ _)

theorem late_after (setting : Setting Call Env) (runner : Runner Env) (schedule : List Action) :
    ((runner.ready setting).after setting schedule).Late := by
  induction schedule using List.reverseRecOn with
  | nil => trivial
  | append_singleton schedule action ih =>
      rw [after_concat]
      cases action with
      | turn thread => exact ih.turn (turn_turns setting _ thread)
      | request request =>
          rw [perform]
          split
          · exact late_launch _ request
          · exact ih
      | raiseStop | wait => exact ih

end Single

section Held

/-- Whether every active branch has its owner. It may have lost it to a run that sees the stop token. -/
inductive Held (process : Process Call Env) : Prop
  | covered (covered : process.Covered)
  | working (stopped : process.isStopped = true) (workers : List (Worker Call)) (paused : List Cursor)
      (working : process.operation = .working workers paused)
  | ending (stopped : process.isStopped = true) (ends : process.operation.ending? = some .run)
  | halted (stopped : process.runner.control.phase = .stopped)

theorem ending?_join_of_stopped (paused : List Cursor)
    (stopped : runner.shared.world.isStopped = true) :
    (join runner paused : Process Call Env).operation.ending? = some .run := by
  unfold join
  rw [if_pos stopped, ite_self]
  exact ending?_enterAfterEverything _ _

/-- Workers that see the stop token go on until they are joined behind all branches. -/
theorem held_of_stopping (turns : Turns setting process thread after) {workers : List (Worker Call)}
    {paused : List Cursor} (working : process.operation = .working workers paused)
    (stopped : after.isStopped = true) : after.Held := by
  cases turns with
  | rested => exact .working stopped workers paused working
  | worked => exact .working stopped _ _ rfl
  | joined =>
      refine .ending stopped (ending?_join_of_stopped _ ?_)
      rwa [isStopped_join] at stopped
  | tended runner operation tended was =>
      rw [working] at was
      cases was
  | started busy | concluded _ busy | walked _ _ _ _ busy | departed _ _ _ _ busy
  | delayed _ _ _ _ _ _ busy | injected _ _ _ _ _ _ busy =>
      rw [working] at busy
      cases busy

theorem Held.covered_of_calm (held : process.Held) (calm : process.isStopped = false)
    (running : process.runner.control.phase ≠ .stopped) : process.Covered := by
  cases held with
  | covered covered => exact covered
  | working stopped | ending stopped => exact absurd (calm.symm.trans stopped) Bool.false_ne_true
  | halted stopped => exact absurd stopped running

theorem single_of_walk {purpose : Purpose} {cursor : Cursor} {activity : Activity Call}
    (walking : process.walk? thread = some (purpose, cursor, activity))
    (alone : ∀ workers paused, process.operation ≠ .working workers paused) :
    process.operation = .single purpose cursor activity := by
  unfold walk? at walking
  split at walking
  · next workers paused operation => exact absurd operation (alone workers paused)
  · next operation =>
    cases walking
    exact operation
  · cases walking

/-- Whatever is not done by workers keeps the owners of the branches. -/
theorem Covered.held (covered : process.Covered) (order : process.InOrder) (late : process.Late)
    (alone : ∀ thread, action = .turn thread →
      ∀ workers paused, process.operation ≠ .working workers paused) :
    (process.perform setting action).Held := by
  rcases perform_steers_or_joins setting order.started action with
    steers | ⟨thread, workers, paused, worker, turned, working, -⟩
  · have onward (thread : Nat) (purpose : Purpose) (cursor : Cursor) (activity : Activity Call)
        (turned : action = .turn thread)
        (walking : process.walk? thread = some (purpose, cursor, activity)) :
        (cursor.turn setting purpose process.runner.shared activity).turn.arrival ≠
          .away .stopped := by
      intro arrives
      have walk := Cursor.turn_walks setting purpose cursor process.runner.shared activity
      dsimp only at walk
      rw [arrives] at walk
      rw [Late, single_of_walk walking (alone thread turned)] at late
      exact Bool.false_ne_true (late.2.symm.trans walk.early_of_stopped)
    rcases order.covered_moves steers.moves onward covered with covered | ⟨-, stopped⟩
    · exact .covered covered
    · exact .halted stopped
  · exact absurd working (alone thread turned workers paused)

theorem Held.perform (held : process.Held) (latching : setting.executor.Latching)
    (order : process.InOrder) (late : process.Late) (action : Action) :
    (process.perform setting action).Held := by
  cases held with
  | covered covered =>
      by_cases works : ∃ thread workers paused,
          action = .turn thread ∧ process.operation = .working workers paused
      · obtain ⟨thread, workers, paused, rfl, working⟩ := works
        cases stopped : (process.perform setting (.turn thread)).isStopped with
        | true => exact held_of_stopping (turn_turns setting process thread) working stopped
        | false =>
            have before : process.isStopped = false := by
              by_contra raised
              rw [isStopped_perform latching (by simpa using raised)] at stopped
              cases stopped
            refine .covered (order.covered_perform ?_ before stopped covered)
            rw [working]
            exact nofun
      · refine covered.held order late ?_
        intro thread turned workers paused working
        exact works ⟨thread, workers, paused, turned, working⟩
  | working stopped workers paused working =>
      cases action with
      | turn thread =>
          exact held_of_stopping (turn_turns setting process thread) working
            (isStopped_perform latching stopped (.turn thread))
      | request request =>
          have busy : ¬ process.isFinished = true := by simp [isFinished, working]
          rw [Process.perform, if_neg busy]
          exact .working stopped workers paused working
      | raiseStop => exact .working rfl workers paused working
      | wait => exact .working stopped workers paused working
  | ending stopped ends =>
      cases action with
      | turn thread =>
          rcases ending?_turn_late setting ends thread with still | last
          · exact .ending (isStopped_perform latching stopped (.turn thread)) still
          · refine .halted ?_
            rw [Process.perform, Process.turn, last]
            exact phase_concludeWith stopped .run
      | request request =>
          have busy : ¬ process.isFinished = true := fun rests => by
            simp [ending?_of_isFinished rests] at ends
          rw [Process.perform, if_neg busy]
          exact .ending stopped ends
      | raiseStop => exact .ending rfl ends
      | wait => exact .ending stopped ends
  | halted stopped => exact .halted (stopped_perform order.sound stopped action)

theorem held_after (latching : setting.executor.Latching) (runner : Runner Env)
    (schedule : List Action) : ((runner.ready setting).after setting schedule).Held := by
  induction schedule using List.reverseRecOn with
  | nil => exact .covered (guarded_ready setting runner).safe.covered
  | append_singleton schedule action ih =>
      rw [after_concat]
      exact ih.perform latching (inOrder_after setting runner schedule)
        (late_after setting runner schedule) action

end Held

section Drained

/-- Nothing is paused behind all branches, unless the run is to stop. -/
def Drained (process : Process Call Env) : Prop :=
  ∀ ending, process.operation.ending? = some ending →
    ending = .stop ∨ process.runner.control.paused = [] ∨ ending = .run ∧ process.isStopped = true

theorem drained_of_early (early : process.operation.ending? = none) : process.Drained := by
  intro ending ends
  rw [early] at ends
  cases ends

theorem drained_enterAfterEverything {ending : Ending}
    (drained : ending = .stop ∨ runner.control.paused = [] ∨
      ending = .run ∧ runner.shared.world.isStopped = true) :
    (runner.enterAfterEverything ending : Process Call Env).Drained := by
  intro other ends
  obtain rfl := Option.some.inj ((ending?_enterAfterEverything runner ending).symm.trans ends)
  have paused : (runner.enterAfterEverything ending : Process Call Env).runner.control.paused =
      runner.control.paused := by
    unfold Runner.enterAfterEverything
    split <;> rfl
  rwa [isStopped_enterAfterEverything, paused]

/-- An operation at the hooks behind all branches tends to them until it concludes. -/
theorem tended_of_late {ending : Ending} (late : process.operation.ending? = some ending)
    (thread : Nat) :
    (process.turn setting thread).1.operation.ending? = some ending ∧
        process.runner.Tended setting (process.turn setting thread).1.runner ∨
      process.operation = .concluding ending := by
  rw [or_iff_not_imp_right]
  intro goes
  refine ⟨(ending?_turn_late setting late thread).resolve_right goes, ?_⟩
  have turns := turn_turns setting process thread
  generalize (process.turn setting thread).1 = after at turns ⊢
  cases turns with
  | rested => exact tended_refl setting process.runner
  | tended runner operation tended => exact tended
  | concluded other last =>
      rw [last] at late
      cases late
      exact absurd last goes
  | started busy | worked _ _ _ busy | joined _ _ _ busy | walked _ _ _ _ busy
  | departed _ _ _ _ busy | delayed _ _ _ _ _ _ busy | injected _ _ _ _ _ _ busy =>
      rw [busy] at late
      cases late

theorem drained_join {paused : List Cursor} (calm : runner.control.paused = []) :
    (join runner paused : Process Call Env).Drained := by
  unfold join
  split
  · exact drained_enterAfterEverything (.inr (.inl calm))
  · split
    · next stopped => exact drained_enterAfterEverything (.inr (.inr ⟨rfl, stopped⟩))
    · exact drained_of_early rfl

theorem drained_afterSingle (runner : Runner Env) (cursor : Cursor) (departure : Departure) :
    (afterSingle runner cursor departure : Process Call Env).Drained := by
  unfold afterSingle
  split
  · exact drained_of_early rfl
  · split
    · exact drained_of_early rfl
    · next alone =>
      split
      · exact drained_of_early rfl
      · exact drained_enterAfterEverything (.inr (.inl (by simpa using alone)))

/-- Whatever goes over to the hooks behind all branches has nothing paused, or sees the stop token. -/
theorem drained_of_entering (sound : process.Sound)
    (unpaused : process.operation.front? ≠ none → process.runner.control.paused = [])
    (early : process.operation.ending? = none) (thread : Nat) :
    (process.turn setting thread).1.Drained := by
  obtain ⟨runner, operation⟩ := process
  cases operation with
  | beforeEverything index scope =>
      have empty : runner.control.paused = [] := unpaused (by simp [Operation.front?])
      simp only [turn]
      split
      · exact drained_enterAfterEverything (.inr (.inl empty))
      · split <;> exact drained_of_early rfl
  | beforeHook index call =>
      have empty : runner.control.paused = [] := unpaused (by simp [Operation.front?])
      simp only [turn]
      split
      · exact drained_of_early rfl
      · split
        · exact drained_enterAfterEverything (.inr (.inl empty))
        · exact drained_of_early rfl
  | starting =>
      simp only [turn]
      split
      · next stopped => exact drained_enterAfterEverything (.inr (.inr ⟨rfl, stopped⟩))
      · exact drained_of_early rfl
  | working workers paused =>
      simp only [turn]
      split
      · exact drained_of_early rfl
      · split
        · exact drained_join (sound.calm workers paused rfl)
        · exact drained_of_early rfl
  | single purpose cursor activity =>
      simp only [turn]
      split
      · exact drained_of_early rfl
      · exact drained_of_early rfl
      · exact drained_afterSingle _ _ _
  | injecting cursor step call =>
      simp only [turn]
      split
      · exact drained_of_early rfl
      · split <;> exact drained_of_early rfl
  | finished answer => exact drained_of_early rfl
  | afterEverything | afterHook | concluding => cases early

theorem drained_launch {request : Request} (launches : Launches setting runner request after) :
    after.Drained := by
  cases launches with
  | stopped => exact drained_enterAfterEverything (.inl rfl)
  | begun operation running opens => rcases opens with rfl | rfl <;> exact drained_of_early rfl
  | refused | prepared | single | injecting | injected => exact drained_of_early rfl

theorem Drained.perform (drained : process.Drained) (latching : setting.executor.Latching)
    (sound : process.Sound)
    (unpaused : process.operation.front? ≠ none → process.runner.control.paused = [])
    (action : Action) : (process.perform setting action).Drained := by
  cases action with
  | turn thread =>
      cases early : process.operation.ending? with
      | none => exact drained_of_entering sound unpaused early thread
      | some ending =>
          rcases tended_of_late early thread with ⟨still, tended⟩ | last
          · intro other ends
            obtain rfl := Option.some.inj (still.symm.trans ends)
            rw [show (process.perform setting (.turn thread)).runner.control.paused = _ from tended.paused]
            refine (drained ending early).imp_right (.imp_right (.imp_right fun stopped => ?_))
            exact isStopped_perform latching stopped (.turn thread)
          · rw [Process.perform, turn, last]
            exact drained_of_early (ending?_of_isFinished (isFinished_concludeWith _ _))
  | request request =>
      rw [Process.perform]
      split
      · exact drained_launch (launch_launches setting process.runner request)
      · exact drained
  | raiseStop => exact fun ending ends => (drained ending ends).imp_right (.imp_right (.imp_right fun _ => rfl))
  | wait milliseconds => exact drained

theorem drained_after (latching : setting.executor.Latching) (runner : Runner Env)
    (schedule : List Action) : ((runner.ready setting).after setting schedule).Drained := by
  induction schedule using List.reverseRecOn with
  | nil => exact drained_of_early rfl
  | append_singleton schedule action ih =>
      rw [after_concat]
      exact ih.perform latching (inOrder_after setting runner schedule).sound
        (opens_after setting runner schedule).unpaused_of_front action

end Drained

section Over

theorem rests_of_launch {request : Request} (launches : Launches setting runner request after)
    (isOver : after.runner.control.phase.isOver = true) :
    after.isFinished = true ∨ after.operation.ending? = some .stop := by
  have same := over_launch launches isOver
  cases launches with
  | refused | prepared | injected => exact .inl rfl
  | begun => cases isOver
  | single _ purpose cursor rest taken | injecting line cursor rest step call taken =>
      rw [← same, (takePaused_eq taken).1] at isOver
      cases isOver
  | stopped => exact .inr (ending?_enterAfterEverything _ _)

theorem concluded_of_isFinished (finished : process.isFinished = true) :
    process.concluded (.turn thread) = none := by
  obtain ⟨answer, rests⟩ := operation_of_isFinished finished
  simp only [concluded, rests]

/-- A runner that is complete or stopped is at rest, or is being stopped. -/
theorem rests_of_over (setting : Setting Call Env) (runner : Runner Env) {schedule : List Action}
    (isOver : ((runner.ready setting).after setting schedule).runner.control.phase.isOver = true) :
    ((runner.ready setting).after setting schedule).isFinished = true ∨
      ((runner.ready setting).after setting schedule).operation.ending? = some .stop := by
  induction schedule using List.reverseRecOn with
  | nil => exact .inl rfl
  | append_singleton schedule action ih =>
      rw [after_concat] at isOver ⊢
      generalize ((runner.ready setting).after setting schedule) = process at ih isOver ⊢
      cases action with
      | turn thread =>
          cases early : process.operation.ending? with
          | none =>
              have same := phase_of_early isOver early
              rcases ih (same ▸ isOver) with finished | stopping
              · rw [perform_of_isFinished setting finished]
                exact .inl finished
              · cases early.symm.trans stopping
          | some ending =>
              rcases tended_of_late early thread with ⟨still, tended⟩ | last
              · rw [show (process.perform setting (.turn thread)).runner.control.phase = _ from
                  tended.phase] at isOver
                rcases ih isOver with finished | stopping
                · cases (ending?_of_isFinished finished).symm.trans early
                · exact .inr (still.trans (early.symm.trans stopping))
              · rw [perform, turn, last]
                exact .inl (isFinished_concludeWith _ _)
      | request request =>
          rw [perform] at isOver ⊢
          split at isOver
          · next finished =>
            rw [if_pos finished]
            exact rests_of_launch (launch_launches setting process.runner request) isOver
          · next busy =>
            rw [if_neg busy]
            exact ih isOver
      | raiseStop => exact ih isOver
      | wait => exact ih isOver

end Over

/-- What is left behind when the last operation that has concluded is the given one. A single step ends a
run when its branch was the last, a request to stop ends whatever there is. -/
structure Cleared (ending : Ending) (process : Process Call Env) : Prop where
  bare : process.runner.control.phase = .complete ∨ (∃ isComplete, ending = .single isComplete) →
    (∀ branch ∈ process.suite.branches, branch.Bare) ∧ process.runner.control.paused = []
  still : ending = .stop →
    (∀ branch ∈ process.suite.branches, branch.status.isRunning = false) ∧
      process.runner.control.paused = []

/-- Where no cursor is left, only what has an outcome or was never begun is left. -/
theorem bare_of_idle (order : process.InOrder) {claims : List Nat} (wiped : process.Wiped claims)
    (covered : process.Covered) (running : process.runner.control.phase ≠ .stopped)
    (idle : process.courses = []) : ∀ branch ∈ process.suite.branches, branch.Bare := by
  intro branch listed
  obtain ⟨index, found⟩ := List.getElem?_of_mem listed
  by_cases completed : branch.status.isCompleted = true
  · exact wiped index branch found (.inl completed)
  · have unclaimed : branch.isActive = false := by
      by_contra active
      have owned := covered index branch found (by simpa using active)
      rw [owned_eq, idle] at owned
      cases owned
    have idle : branch.isIdle = true := by
      simp only [Bool.not_eq_true] at completed
      simpa [Branch.isActive, Branch.isIdle, completed] using unclaimed
    exact Branch.bare_of_idle idle ((order.tidy.resolve_left running) index branch found idle)

theorem courses_of_concluding {ending : Ending} (last : process.operation = .concluding ending)
    (empty : process.runner.control.paused = []) : process.courses = [] := by
  rw [courses, last, empty]
  rfl

theorem cleared_concludeWith (order : process.InOrder) {claims : List Nat}
    (wiped : process.Wiped claims) (held : process.Held) (drained : process.Drained) {ending : Ending}
    (last : process.operation = .concluding ending) :
    (concludeWith process.runner ending : Process Call Env).Cleared ending := by
  have ends : process.operation.ending? = some ending := by rw [last]; rfl
  have left := drained ending ends
  cases ending with
  | stop =>
      refine ⟨?_, fun _ => ⟨?_, rfl⟩⟩
      · rintro (complete | ⟨_, ⟨⟩⟩)
        cases complete
      · intro branch listed
        obtain ⟨before, member, rfl⟩ := List.mem_map.mp listed
        split
        · next completed =>
          obtain ⟨index, found⟩ := List.getElem?_of_mem member
          exact (wiped index before found (.inl completed)).still
        · rfl
  | run =>
      have running := order.sound.phase_ne (by rw [isFinished, last]) (by simp [ends])
      refine ⟨?_, fun stop => by cases stop⟩
      rintro (complete | ⟨_, ⟨⟩⟩)
      have calm : process.isStopped = false := by
        by_contra stopped
        have stopped : process.isStopped = true := by simpa using stopped
        cases complete.symm.trans (phase_concludeWith stopped .run)
      have empty : process.runner.control.paused = [] :=
        (left.resolve_left (by simp)).resolve_right fun stopped => by cases calm.symm.trans stopped.2
      have bare := bare_of_idle order wiped (held.covered_of_calm calm running) running
        (courses_of_concluding last empty)
      exact ⟨bare, empty⟩
  | single isComplete =>
      have running := order.sound.phase_ne (by rw [isFinished, last]) (by simp [ends])
      refine ⟨fun _ => ?_, fun stop => by cases stop⟩
      have empty : process.runner.control.paused = [] :=
        (left.resolve_left (by simp)).resolve_right fun stopped => by cases stopped.1
      have covered : process.Covered := by
        cases held with
        | covered covered => exact covered
        | working _ _ _ working => cases last.symm.trans working
        | ending _ run => cases ends.symm.trans run
        | halted stopped => exact absurd stopped running
      have bare := bare_of_idle order wiped covered running (courses_of_concluding last empty)
      exact ⟨bare, empty⟩

theorem Cleared.of_same {ending : Ending} (cleared : process.Cleared ending)
    (phase : after.runner.control.phase = process.runner.control.phase)
    (paused : after.runner.control.paused = process.runner.control.paused)
    (branches : ∀ branch ∈ after.suite.branches, ∃ before ∈ process.suite.branches,
      branch.status = before.status ∧ branch.steps = before.steps) : after.Cleared ending := by
  refine ⟨fun rests => ?_, fun stops => ?_⟩
  · obtain ⟨bare, empty⟩ := cleared.bare (phase ▸ rests)
    refine ⟨fun branch listed => ?_, paused.trans empty⟩
    obtain ⟨before, member, status, steps⟩ := branches branch listed
    exact (bare before member).of_same (by rw [status]) steps
  · obtain ⟨still, empty⟩ := cleared.still stops
    refine ⟨fun branch listed => ?_, paused.trans empty⟩
    obtain ⟨before, member, status, -⟩ := branches branch listed
    rw [status]
    exact still before member

/-- What is asked of a runner that is complete or stopped leaves it so, as far as it is done at once. -/
theorem Cleared.launch {ending : Ending} {process : Process Call Env} {request : Request}
    (cleared : process.Cleared ending) (launches : Launches setting process.runner request after)
    (finished : after.isFinished = true) (isOver : after.runner.control.phase.isOver = true) :
    after.Cleared ending := by
  have same := over_launch launches isOver
  cases launches with
  | refused => exact ⟨cleared.bare, cleared.still⟩
  | prepared =>
      refine cleared.of_same ?_ ?_ ?_
      · simp only [Runner.init]
        split <;> rfl
      · simp only [Runner.init]
        split <;> rfl
      · intro branch listed
        simp only [Runner.init, Bool.false_eq_true, if_false] at listed
        split at listed
        · exact ⟨branch, listed, rfl, rfl⟩
        · obtain ⟨before, member, rfl⟩ := List.mem_map.mp listed
          exact ⟨before, member, rfl, rfl⟩
  | begun => cases isOver
  | single | injecting => cases finished
  | injected line cursor rest step outcome taken =>
      rw [← same, (takePaused_eq taken).1] at isOver
      cases isOver
  | stopped =>
      cases (ending?_of_isFinished finished).symm.trans (ending?_enterAfterEverything _ _)

/-- An action after which a runner is at rest and complete or stopped concludes an operation, or leaves the
runner as it was. -/
theorem cleared_perform (order : process.InOrder) {claims : List Nat} (wiped : process.Wiped claims)
    (held : process.Held) (drained : process.Drained)
    (rests : process.runner.control.phase.isOver = true →
      process.isFinished = true ∨ process.operation.ending? = some .stop)
    (finished : (process.perform setting action).isFinished = true)
    (isOver : (process.perform setting action).runner.control.phase.isOver = true) :
    (∃ ending, process.concluded action = some ending ∧
        (process.perform setting action).Cleared ending) ∨
      process.concluded action = none ∧ process.isFinished = true ∧
        process.runner.control.phase.isOver = true ∧
        ∀ ending, process.Cleared ending → (process.perform setting action).Cleared ending := by
  cases action with
  | turn thread =>
      cases early : process.operation.ending? with
      | none =>
          have same := phase_of_early isOver early
          have before := (rests (same ▸ isOver)).resolve_right (by rw [early]; exact nofun)
          refine .inr ⟨?_, before, same ▸ isOver, fun ending cleared => ?_⟩
          · exact concluded_of_isFinished before
          · rwa [perform_of_isFinished setting before]
      | some ending =>
          rcases tended_of_late early thread with ⟨still, -⟩ | last
          · cases (ending?_of_isFinished finished).symm.trans still
          · refine .inl ⟨ending, by rw [concluded, last], ?_⟩
            rw [perform, turn, last]
            exact cleared_concludeWith order wiped held drained last
  | request request =>
      rw [perform] at finished isOver ⊢
      split at finished
      · next before =>
        rw [if_pos before] at isOver ⊢
        have launches := launch_launches setting process.runner request
        refine .inr ⟨rfl, before, over_launch launches isOver ▸ isOver, fun ending cleared => ?_⟩
        exact cleared.launch launches finished isOver
      · next busy => exact absurd finished busy
  | raiseStop | wait =>
      exact .inr ⟨rfl, finished, isOver, fun ending cleared => ⟨cleared.bare, cleared.still⟩⟩

/-- The operation that has concluded last decides what is left behind. -/
theorem cleared_after (latching : setting.executor.Latching) (runner : Runner Env)
    {schedule : List Action}
    (finished : ((runner.ready setting).after setting schedule).isFinished = true)
    (isOver : ((runner.ready setting).after setting schedule).runner.control.phase.isOver = true) :
    ∃ ending, ((runner.ready setting).history setting concluded schedule).getLast? = some ending ∧
      ((runner.ready setting).after setting schedule).Cleared ending := by
  induction schedule using List.reverseRecOn with
  | nil =>
      rw [after_nil, control_ready] at isOver
      cases isOver
  | append_singleton schedule action ih =>
      rw [after_concat] at finished isOver ⊢
      rw [history_concat]
      rcases cleared_perform (inOrder_after setting runner schedule)
          (wiped_after setting runner schedule) (held_after latching runner schedule)
          (drained_after latching runner schedule) (rests_of_over setting runner) finished isOver with
        ⟨ending, concludes, cleared⟩ | ⟨idle, before, was, kept⟩
      · refine ⟨ending, ?_, cleared⟩
        rw [concludes, Option.toList_some, List.getLast?_concat]
      · obtain ⟨ending, last, cleared⟩ := ih before was
        refine ⟨ending, ?_, kept ending cleared⟩
        rwa [idle, Option.toList_none, List.append_nil]

/-- Whatever was asked of a runner and whoever had a turn: a runner that is complete, or whose last branch
was ended by a single step, has no mark and no paused cursor; a runner that was asked to stop has no
branch running and no paused cursor; and a mark is left only where a branch was claimed and has no
outcome. -/
theorem cleared_of_over (setting : Setting Call Env) (runner : Runner Env) (schedule : List Action)
    (latching : setting.executor.Latching)
    (finished : ((runner.ready setting).after setting schedule).isFinished = true)
    (isOver : ((runner.ready setting).after setting schedule).runner.control.phase.isOver = true) :
    (∃ ending, ((runner.ready setting).history setting concluded schedule).getLast? = some ending ∧
        ((runner.ready setting).after setting schedule).Cleared ending) ∧
      ∀ index branch, ((runner.ready setting).after setting schedule).suite.branch? index = some branch →
        branch.Bare ∨ branch.status.isCompleted = false ∧
          index ∈ (runner.ready setting).history setting claimed schedule := by
  refine ⟨cleared_after latching runner finished isOver, fun index branch found => ?_⟩
  rw [or_iff_not_imp_left]
  intro marked
  have kept := wiped_after setting runner schedule index branch found
  refine ⟨?_, ?_⟩
  · by_contra completed
    exact marked (kept (.inl (by simpa using completed)))
  · by_contra fresh
    exact marked (kept (.inr fresh))

/-- One branch whose first step raises the stop token. -/
def interlude : Tree := .grown "A {
    s
}
    B -"

/-- The run that sees the token is followed by a request to stop. -/
theorem cleared_of_over_interlude :
    let setting := { executor := signals, tree := interlude, maxParallel := 1 }
    let runner : Runner Unit := .initial interlude.suite ()
    let schedule := .request .run :: List.replicate 13 (.turn 0) ++
      [.request .stop, .turn 0]
    setting.executor.Latching ∧ ((runner.ready setting).after setting schedule).isFinished = true ∧
      ((runner.ready setting).after setting schedule).runner.control.phase.isOver = true ∧
      (∃ ending, ((runner.ready setting).history setting concluded schedule).getLast? = some ending ∧
        ((runner.ready setting).after setting schedule).Cleared ending) ∧
      ∀ index branch, ((runner.ready setting).after setting schedule).suite.branch? index = some branch →
        branch.Bare ∨ branch.status.isCompleted = false ∧
          index ∈ (runner.ready setting).history setting claimed schedule := by
  intro setting runner schedule
  have finished : ((runner.ready setting).after setting schedule).isFinished = true := by decide +kernel
  have isOver : ((runner.ready setting).after setting schedule).runner.control.phase.isOver = true := by
    decide +kernel
  exact ⟨latching_signals, finished, isOver,
    cleared_of_over setting runner schedule latching_signals finished isOver⟩

/-- The run sees the stop token after the first step, and leaves both the branch and the step running. -/
theorem running_of_stopped :
    let setting := { executor := signals, tree := interlude, maxParallel := 1 }
    let process := (Runner.initial interlude.suite ()).ready setting
    let ended := process.after setting (.request .run :: List.replicate 13 (.turn 0))
    interlude.generate {} = .ok interlude.suite ∧ setting.executor.Latching ∧
      ended.isFinished = true ∧ ended.runner.control.phase = .stopped ∧
      ended.suite.branches.any (fun branch => branch.status.isRunning &&
        branch.steps.any (·.status.isRunning)) = true := by
  intro setting process ended
  exact ⟨Tree.generate_eq_suite (by decide +kernel) (by decide +kernel), latching_signals,
    by decide +kernel, by decide +kernel, by decide +kernel⟩

end Process

end TestTree.Run
