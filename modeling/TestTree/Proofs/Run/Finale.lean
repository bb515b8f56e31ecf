import TestTree.Proofs.Run.Everything

/-!
The hooks behind all branches come last. Where they are entered because the run is to stop, nothing else
is begun until the runner is stopped for good; where they are entered because the branches are done,
nothing is left to be run. Only a hook in front of all branches that fails leads to them while branches
still wait, and then a further run takes these up.
-/
namespace TestTree.Run

variable {Call Env : Type} {setting : Setting Call Env}

namespace Process

variable {process : Process Call Env} {thread : Nat} {action : Action}

/-- Why nothing but hooks behind all branches is left to run: no branch is, or the run is to stop, or it
has been stopped. -/
inductive Final (process : Process Call Env) : Prop
  | spent (idle : process.courses = []) (retired : process.suite.Retired)
  | late (late : process.operation.ending? ≠ none) (stopped : process.isStopped = true)
  | halted (rests : process.isFinished = true) (stopped : process.runner.control.phase = .stopped)

theorem mem_courses_of_walk {purpose : Purpose} {cursor : Cursor} {activity : Activity Call}
    (walking : process.walk? thread = some (purpose, cursor, activity)) :
    (cursor, activity) ∈ process.operation.courses := by
  unfold walk? at walking
  split at walking
  · next workers paused operation =>
    split at walking
    · next found =>
      cases walking
      rw [operation]
      refine List.mem_append_left _ ?_
      exact List.mem_filterMap.mpr ⟨_, List.mem_of_getElem? found, rfl⟩
    · cases walking
  · next operation =>
    cases walking
    rw [operation]
    exact .head _
  · cases walking

/-- Without cursors and without waiting branches an action leaves it so. -/
theorem spent_perform (order : process.InOrder)
    (fresh : setting.skipPassed = false → ∀ index branch,
      process.suite.branch? index = some branch → branch.passedLastTime = false)
    (idle : process.courses = []) (retired : process.suite.Retired) (action : Action) :
    (process.perform setting action).Final := by
  refine .spent ?_ (retired_perform order fresh retired action)
  obtain ⟨between, steers, settles⟩ := perform_steers setting order.sound order.started action
  have kept : between.courses = [] := by
    cases steers with
    | walked _ _ _ _ walking =>
        have member := List.mem_append_left (process.runner.control.paused.map Cursor.pausing)
          (mem_courses_of_walk walking)
        rw [← courses, idle] at member
        cases member
    | claimed index claims =>
        obtain ⟨branch, found, waiting, -⟩ := Suite.nextBranch_eq_some (claimed_eq_some claims).1
        simp [(retired index branch found).settled] at waiting
    | restaged _ _ _ _ _ _ held =>
        rw [idle] at held
        exact absurd held.symm.eq_nil (List.cons_ne_nil _ _)
    | stayed _ _ _ holds | prepared _ _ _ holds =>
        rw [idle] at holds
        exact holds.eq_nil
    | swept _ _ _ dropped => exact dropped
  rcases settles.courses with same | ⟨-, dropped⟩
  · rw [kept] at same
    exact same.eq_nil
  · exact dropped

theorem isFinished_concludeWith (runner : Runner Env) (ending : Ending) :
    (concludeWith runner ending : Process Call Env).isFinished = true := by
  cases ending <;> rfl

/-- A run that is to stop goes through the hooks behind all branches until it is stopped. -/
theorem late_turn (latching : setting.executor.Latching) (late : process.operation.ending? ≠ none)
    (stopped : process.isStopped = true) (thread : Nat) : (process.turn setting thread).1.Final := by
  obtain ⟨ending, ends⟩ := Option.ne_none_iff_exists'.mp late
  rcases ending?_turn_late setting ends thread with still | last
  · exact .late (by rw [still]; exact nofun) (isStopped_perform latching stopped (.turn thread))
  · rw [turn, last]
    exact .halted (isFinished_concludeWith _ _) (phase_concludeWith stopped ending)

theorem halted_launch {runner : Runner Env} (stopped : runner.control.phase = .stopped)
    (request : Request) : (request.launch setting runner).Final := by
  have launches := launch_launches setting runner request
  have phase := stopped_launch stopped launches
  generalize request.launch setting runner = after at launches phase
  cases launches with
  | refused | prepared | injected => exact .halted rfl phase
  | begun operation running => exact absurd stopped running
  | single _ purpose cursor rest taken | injecting line cursor rest step call taken =>
      exact absurd ((takePaused_eq taken).1.symm.trans stopped) nofun
  | stopped =>
      refine .late ?_ (isStopped_enterAfterEverything _ _)
      rw [ending?_enterAfterEverything]
      exact nofun

theorem Final.perform (final : process.Final) (latching : setting.executor.Latching)
    (order : process.InOrder)
    (fresh : setting.skipPassed = false → ∀ index branch,
      process.suite.branch? index = some branch → branch.passedLastTime = false)
    (action : Action) : (process.perform setting action).Final := by
  cases final with
  | spent idle retired => exact spent_perform order fresh idle retired action
  | late late stopped =>
      cases action with
      | turn thread => exact late_turn latching late stopped thread
      | request request =>
          have busy : ¬ process.isFinished = true := fun rests => late (ending?_of_isFinished rests)
          rw [Process.perform, if_neg busy]
          exact .late late stopped
      | raiseStop => exact .late late rfl
      | wait milliseconds => exact .late late stopped
  | halted rests stopped =>
      cases action with
      | turn thread =>
          obtain ⟨runner, operation⟩ := process
          cases operation with
          | finished answer => exact .halted rests stopped
          | beforeEverything | beforeHook | starting | working | afterEverything | afterHook
          | concluding | single | injecting => cases rests
      | request request =>
          rw [Process.perform, if_pos rests]
          exact halted_launch stopped request
      | raiseStop | wait => exact .halted rests stopped

/-- An operation that nobody has stopped, and in which no hook has failed, goes over to the hooks behind
all branches when no cursor is left. -/
theorem idle_of_entering {after : Process Call Env} (turns : Turns setting process thread after)
    (sound : process.Sound) (early : process.operation.ending? = none)
    (late : after.operation.ending? ≠ none) (calm : after.isStopped = false)
    (kept : process.operation.isAside = true → after.operation.ending? = none) :
    after.courses = [] := by
  cases turns with
  | rested => exact absurd early late
  | tended runner operation tended was => exact absurd (kept was) late
  | concluded ending last =>
      rw [last] at early
      cases early
  | joined workers paused worker working found ended =>
      rw [isStopped_join] at calm
      have empty : process.runner.control.paused = [] := sound.calm workers paused working
      unfold join at late ⊢
      split
      · rw [courses_enterAfterEverything]
        exact congrArg (List.map Cursor.pausing) empty
      · next some =>
        rw [if_neg some, if_neg (by simp [calm])] at late
        exact absurd rfl late
  | departed purpose cursor activity departure single left =>
      unfold afterSingle at late ⊢
      split
      · next paused => rw [if_pos paused] at late; exact absurd rfl late
      · next left =>
        rw [if_neg left] at late
        split
        · next others => rw [if_pos others] at late; exact absurd rfl late
        · next alone =>
          rw [if_neg alone] at late
          split
          · next waits => rw [if_pos waits] at late; exact absurd rfl late
          · rw [courses_enterAfterEverything]
            have empty : process.runner.control.paused = [] := by simpa using alone
            exact congrArg (List.map Cursor.pausing) empty
  | started | worked | walked | delayed | injected => exact absurd rfl late

theorem isStopped_of_entering {runner : Runner Env} {request : Request} {after : Process Call Env}
    (launches : Launches setting runner request after) (late : after.operation.ending? ≠ none) :
    after.isStopped = true := by
  cases launches with
  | begun operation running opens => rcases opens with rfl | rfl <;> exact absurd rfl late
  | stopped => exact isStopped_enterAfterEverything _ _
  | refused | prepared | single | injecting | injected => exact absurd rfl late

theorem idle_of_entered {runner : Runner Env} {schedule : List Action}
    (unstopped : (runner.ready setting).Unstopped setting (schedule ++ [action]))
    (sound : ((runner.ready setting).after setting schedule).failedBefore setting action = none)
    (early : ((runner.ready setting).after setting schedule).operation.ending? = none)
    (late : (((runner.ready setting).after setting schedule).perform setting
      action).operation.ending? ≠ none) :
    (((runner.ready setting).after setting schedule).perform setting action).courses = [] := by
  have before := unstopped schedule (List.prefix_append _ _)
  have calm := unstopped _ List.prefix_rfl
  rw [after_concat] at calm
  cases action with
  | turn thread =>
      exact idle_of_entering (turn_turns setting _ thread) (inOrder_after setting runner schedule).sound
        early late calm fun aside => ending?_of_early before sound aside early
  | request request =>
      simp only [perform] at late calm ⊢
      split at late
      · next rests =>
        rw [if_pos rests, isStopped_of_entering (launch_launches setting _ request) late] at calm
        cases calm
      · exact absurd early late
  | raiseStop => cases calm
  | wait milliseconds => exact absurd early late

/-- Once the hooks behind all branches have been entered, nothing else is left to run, unless a hook in
front of all branches has failed. -/
theorem final_after (runner : Runner Env) {schedule : List Action}
    (latching : setting.executor.Latching)
    (entered : ((runner.ready setting).after setting
      schedule).runner.control.ranAfterEverything = true) :
    (runner.ready setting).history setting (failedBefore setting) schedule ≠ [] ∨
      ((runner.ready setting).after setting schedule).Final := by
  induction schedule using List.reverseRecOn with
  | nil =>
      rw [after_nil, control_ready] at entered
      cases entered
  | append_singleton schedule action ih =>
      rw [or_iff_not_imp_left, not_not]
      intro sound
      have failed := sound
      rw [history_concat, List.append_eq_nil_iff, Option.toList_eq_nil_iff] at failed
      have order := inOrder_after setting runner schedule
      have closes := (closes_after setting runner schedule).1
      have stays (entered : ((runner.ready setting).after setting
          schedule).runner.control.ranAfterEverything = true) :
          ((runner.ready setting).after setting (schedule ++ [action])).Final := by
        rw [after_concat]
        exact ((ih entered).resolve_left (not_not.mpr failed.1)).perform latching order
          (fun keeps _ _ => known_after setting runner schedule keeps) action
      rw [after_concat] at entered
      rcases (closes.counts setting action).enters entered with before | late
      · exact stays before
      · by_cases early : ((runner.ready setting).after setting schedule).operation.ending? = none
        · cases stopped : ((runner.ready setting).after setting (schedule ++ [action])).isStopped with
          | true =>
              rw [after_concat] at stopped ⊢
              exact .late late stopped
          | false =>
              have unstopped := unstopped_of_latching latching stopped
              have completes := completes_after runner unstopped sound
              rw [after_concat] at completes ⊢
              exact .spent (idle_of_entered unstopped failed.2 early late) (completes.ending late)
        · exact stays (closes.entered early)

theorem Final.courses (final : process.Final) : process.operation.courses = [] := by
  cases final with
  | spent idle => exact (List.append_eq_nil_iff.mp idle).1
  | late late =>
      obtain ⟨runner, operation⟩ := process
      cases operation with
      | afterEverything | afterHook | concluding => rfl
      | beforeEverything | beforeHook | starting | working | single | injecting | finished =>
          exact absurd rfl late
  | halted rests =>
      obtain ⟨runner, operation⟩ := process
      cases operation with
      | finished => rfl
      | beforeEverything | beforeHook | starting | working | afterEverything | afterHook | concluding
      | single | injecting => cases rests

theorem Final.afterEverything_of_role? (final : process.Final) (past : process.Past) {role : Role}
    (runs : process.role? thread = some role) : ∃ index, role = .afterEverything index := by
  have idle := final.courses
  unfold role? at runs
  split at runs
  · next operation =>
    have passed := past.passed
    rw [operation] at passed
    cases passed
  · cases runs
    exact ⟨_, rfl⟩
  · next operation =>
    rw [operation] at idle
    cases idle
  · obtain ⟨⟨purpose, cursor, activity⟩, walking, -⟩ := Option.bind_eq_some_iff.mp runs
    have member := mem_courses_of_walk walking
    rw [idle] at member
    cases member

theorem past_after {runner : Runner Env} {earlier : List Action}
    (past : ((runner.ready setting).after setting earlier).Past) (later : List Action) :
    ((runner.ready setting).after setting (earlier ++ later)).Past := by
  induction later using List.reverseRecOn with
  | nil => rwa [List.append_nil]
  | append_singleton later action ih =>
      rw [← List.append_assoc, after_concat]
      exact ih.perform (inOrder_after setting runner _).sound (closes_after setting runner _).1 action

theorem Final.after {runner : Runner Env} {earlier : List Action}
    (final : ((runner.ready setting).after setting earlier).Final)
    (latching : setting.executor.Latching) (later : List Action) :
    ((runner.ready setting).after setting (earlier ++ later)).Final := by
  induction later using List.reverseRecOn with
  | nil => rwa [List.append_nil]
  | append_singleton later action ih =>
      rw [← List.append_assoc, after_concat]
      exact ih.perform latching (inOrder_after setting runner _)
        (fun keeps _ _ => known_after setting runner _ keeps) action

theorem entered_of_handed {runner : Runner Env} {schedule : List Action} {index : Nat}
    (ran : .afterEverything index ∈ (runner.ready setting).history setting (handed setting) schedule) :
    ((runner.ready setting).after setting schedule).runner.control.ranAfterEverything = true := by
  obtain ⟨closes, counted⟩ := closes_after setting runner schedule
  have member := List.mem_filterMap.mpr ⟨_, ran, (rfl : Role.afterAll? (.afterEverything index) = _)⟩
  rw [counted, List.mem_range] at member
  by_cases early : ((runner.ready setting).after setting schedule).operation.ending? = none
  · rw [behind_of_early early, Runner.behind] at member
    by_contra unentered
    rw [if_neg unentered] at member
    cases member
  · exact closes.entered early

/-- Whatever is asked of a runner and whoever has a turn: once a hook behind all branches has been run, or
these hooks have been entered, no other body is run any more, unless a hook in front of all branches had
failed by then; and in no case another hook in front of all branches. -/
theorem afterEverything_last (setting : Setting Call Env) (runner : Runner Env)
    (earlier later : List Action) (latching : setting.executor.Latching)
    (entered : (∃ index, .afterEverything index ∈
        (runner.ready setting).history setting (handed setting) earlier) ∨
      ((runner.ready setting).after setting earlier).runner.control.ranAfterEverything = true) :
    ∀ role ∈ ((runner.ready setting).after setting earlier).history setting (handed setting) later,
      (∃ index, role = .afterEverything index) ∨
        (runner.ready setting).history setting (failedBefore setting) earlier ≠ [] ∧
          ∀ index, role ≠ .beforeEverything index := by
  intro role member
  have entered := entered.elim (fun ⟨index, ran⟩ => entered_of_handed ran) id
  have past := (opens_after setting runner earlier).past_of_entered entered
  obtain ⟨before, action, behind, rfl, hands⟩ := exists_of_mem_history member
  obtain ⟨thread, runs⟩ := exists_role?_of_handed hands
  rw [← after_append] at hands runs
  rw [← after_concat, List.append_assoc] at runs
  rcases final_after runner latching entered with failed | final
  · refine .inr ⟨failed, ?_⟩
    rintro index rfl
    have later := past_after past (before ++ [action])
    rw [← List.append_assoc, after_concat] at later
    exact later.not_handed index hands
  · exact .inl ((final.after latching _).afterEverything_of_role? (past_after past _) runs)

/-- Bodies that fail if there is a letter f in their code, and raise the stop token if there is a letter
s. -/
def signals : Executor (Text × Variables) Unit where
  start body scope := (body.code, scope)
  advance call world :=
    (.done (if call.1.contains 'f' then .error "failed".toList else .ok none) call.2,
      { world with isStopped := world.isStopped || call.1.contains 's' })

theorem latching_signals : signals.Latching := by
  intro call world stopped
  dsimp only [signals]
  rw [stopped, Bool.true_or]

/-- One branch, with a hook behind it. -/
def curtain : Tree := .grown "* After Everything {
    z
}

A {
    a
}"

/-- The branch is run to its end, up to the hook behind it. -/
def lastAct : List Action := .request .run :: List.replicate 15 (.turn 0)

/-- The hook is run, and then a further run is asked for. -/
def applause : List Action :=
  List.replicate 4 (.turn 0) ++ .request .run :: List.replicate 5 (.turn 0)

theorem afterEverything_last_applause :
    let setting := { executor := signals, tree := curtain, maxParallel := 1 }
    let process := (Runner.initial curtain.suite ()).ready setting
    setting.executor.Latching ∧
      (process.after setting lastAct).runner.control.ranAfterEverything = true ∧
      ∀ role ∈ (process.after setting lastAct).history setting (handed setting) applause,
        (∃ index, role = .afterEverything index) ∨
          process.history setting (failedBefore setting) lastAct ≠ [] ∧
            ∀ index, role ≠ .beforeEverything index := by
  intro setting process
  have entered : (process.after setting lastAct).runner.control.ranAfterEverything = true := by
    decide +kernel
  exact ⟨latching_signals, entered, afterEverything_last setting (.initial curtain.suite ()) lastAct
    applause latching_signals (.inr entered)⟩

/-- One branch between two hooks, of which the one in front fails. -/
def encore : Tree :=
  .grown ("* Before Everything {
    f
}

* After Everything {
    z
}

" ++
    "A {
    a
}")

/-- The hook in front fails and so only that behind is run; a further run then takes up the branch. -/
theorem step_after_afterEverything :
    let setting := { executor := signals, tree := encore, maxParallel := 1 }
    let process := (Runner.initial encore.suite ()).ready setting
    let first := .request .run :: List.replicate 6 (.turn 0)
    let second := .request .run :: List.replicate 12 (.turn 0)
    encore.generate {} = .ok encore.suite ∧ setting.executor.Latching ∧
      (process.after setting first).isFinished = true ∧
      .afterEverything 0 ∈ process.history setting (handed setting) first ∧
      .step 0 0 ∈ (process.after setting first).history setting (handed setting) second := by
  intro setting process first second
  exact ⟨Tree.generate_eq_suite (by decide +kernel) (by decide +kernel), latching_signals,
    by decide +kernel, by decide +kernel, by decide +kernel⟩

end Process

end TestTree.Run
