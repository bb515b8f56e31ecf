import TestTree.Proofs.Run.Finale

/-!
What is asked of a runner whose stop token is already raised. A run sees the token before it does
anything, and goes over to the hooks behind all branches. The operations on a paused cursor do not look
at it: a single step runs its step, an injection its body, and a branch that comes to its end the hooks
after it. `Request.Permits` says which bodies those are.
-/
namespace TestTree.Run

variable {Call Env : Type} {setting : Setting Call Env}

/-- The step that a request takes along the cursor; only single steps do. -/
def Request.purpose? : Request → Option Purpose
  | .step => some .step
  | .skip => some .skip
  | .prepare | .run | .inject _ | .stop => none

/-- The bodies that a request may hand to the executor although the stop token is raised. -/
def Request.Permits (setting : Setting Call Env) (runner : Runner Env) (request : Request)
    (role : Role) : Prop :=
  (∃ index, role = .afterEverything index) ∨
    ∃ cursor rest, runner.takePaused = some (cursor, rest) ∧
      match request with
      | .prepare | .run | .stop => False
      | .step =>
          (∃ step, (cursor.take setting rest.shared).1 = some step ∧
            role.place? = some (cursor.branch, step)) ∨
          ∃ index, role = .afterBranch cursor.branch index
      | .skip => ∃ index, role = .afterBranch cursor.branch index
      | .inject _ => role = .injected cursor.branch

section Walks

/-- Whether a stage of a single step, behind the taking of a step, is about that step alone. -/
def Stage.Confined (purpose : Purpose) (taken : Option Nat) : Stage → Prop
  | .skipping _ => purpose = .skip
  | .before step | .within step | .behind step _ => purpose = .step ∧ taken = some step
  | .lookingAhead | .closing | .faulted _ _ => True
  | .opening | .entering | .refused _ _ | .looping | .taking => False

variable {purpose : Purpose} {cursor next : Cursor} {shared after : Shared Env} {stage later : Stage}
  {taken : Option Nat}

theorem Cursor.Takes.eq_take {step : Nat} {suite : Suite}
    (takes : cursor.Takes setting shared.suite step suite) :
    (cursor.take setting shared).1 = some step := by
  rcases takes with ⟨pending, -⟩ | ⟨absent, next⟩
  · simp only [take, pending]
  · simp only [take, absent, next]

/-- What a cursor takes is a matter of the suite alone. -/
theorem Cursor.take_congr {other : Shared Env} (same : shared.suite = other.suite) :
    (cursor.take setting shared).1 = (cursor.take setting other).1 := by
  unfold take
  split
  · rfl
  · rw [same]

theorem Walk.branch_eq {arrival : Arrival}
    (walk : Walk setting purpose cursor shared stage after next arrival) :
    next.branch = cursor.branch := by
  cases walk <;> rfl

/-- A single step confines itself to the step it takes. -/
theorem Walk.confined_of_taking
    (walk : Walk setting purpose cursor shared .taking after next (.at later))
    (single : purpose ≠ .run) : later.Confined purpose (cursor.take setting shared).1 := by
  cases walk with
  | exhausted => trivial
  | taken step suite takes executes =>
      cases purpose with
      | step => exact ⟨rfl, takes.eq_take⟩
      | run => exact absurd rfl single
      | skip => exact absurd rfl executes
  | passedOver step suite takes skips => exact skips

theorem Walk.confined (walk : Walk setting purpose cursor shared stage after next (.at later))
    (single : purpose ≠ .run) (confined : stage.Confined purpose taken) :
    later.Confined purpose taken := by
  cases walk with
  | opened | unguarded | entering | admitted | refused | turnedAway | continued | exhausted | taken
  | passedOver => cases confined
  | skipped | atEnd | leaving | tarnished => trivial
  | preparing | begun | unbegun | sleeping | ended | trailing => exact confined
  | marked =>
      rw [if_neg single]
      trivial
  | recorded index error _ goes =>
      rcases goes with goes | goes
      · cases goes
        trivial
      · cases goes

/-- The bodies of a single step, behind the taking of it. -/
theorem Activity.role_of_confined {activity : Activity Call} {branch : Nat} {role : Role}
    (runs : activity.role? branch = some role) (confined : activity.stage.Confined purpose taken) :
    (purpose = .step ∧ ∃ step, taken = some step ∧ role.place? = some (branch, step)) ∨
      ∃ index, role = .afterBranch branch index := by
  cases activity with
  | beforeStep step index call | body step call | afterStep step index error call =>
      cases runs
      exact .inl ⟨confined.1, step, confined.2, rfl⟩
  | afterBranch index call =>
      cases runs
      exact .inr ⟨index, rfl⟩
  | beforeBranch => cases confined
  | opening | beforeBranchFailed | looping | taking | skipping | preparing | marking | lookingAhead
  | closing | afterBranchFailed => cases runs

end Walks

namespace Process

variable {process : Process Call Env} {request : Request} {runner : Runner Env} {thread : Nat}
  {action : Action}

/-- Where an operation may be that a runner was asked for when its stop token was already raised. -/
inductive Belated (setting : Setting Call Env) (runner : Runner Env) (request : Request)
    (process : Process Call Env) : Prop
  | done (finished : process.isFinished = true)
  | ending (late : process.operation.ending? ≠ none)
  | opening (stopped : process.isStopped = true)
      (opens : process.operation = .beforeEverything 0 {} ∨ process.operation = .starting)
  | taking (cursor : Cursor) (rest : Runner Env) (purpose : Purpose)
      (asked : request.purpose? = some purpose) (taken : runner.takePaused = some (cursor, rest))
      (single : process.operation = .single purpose cursor .taking)
      (fresh : process.suite = rest.suite)
  | walking (cursor walker : Cursor) (rest : Runner Env) (purpose : Purpose)
      (activity : Activity Call) (asked : request.purpose? = some purpose)
      (taken : runner.takePaused = some (cursor, rest))
      (single : process.operation = .single purpose walker activity)
      (own : walker.branch = cursor.branch)
      (confined : activity.stage.Confined purpose (cursor.take setting rest.shared).1)
  | injecting (cursor : Cursor) (rest : Runner Env) (line : Text) (step : BranchStep) (call : Call)
      (asked : request = .inject line) (taken : runner.takePaused = some (cursor, rest))
      (injects : process.operation = .injecting cursor step call)

theorem purpose_ne_run {purpose : Purpose} (asked : request.purpose? = some purpose) :
    purpose ≠ .run := by
  rintro rfl
  cases request <;> cases asked

theorem belated_enterAfterEverything (current start : Runner Env) (ending : Ending) :
    (current.enterAfterEverything ending : Process Call Env).Belated setting start request := by
  refine .ending ?_
  rw [ending?_enterAfterEverything]
  exact Option.some_ne_none _

theorem belated_launch (setting : Setting Call Env) (runner : Runner Env)
    (stopped : runner.shared.world.isStopped = true) (request : Request) :
    Belated setting runner request (request.launch setting runner) := by
  cases request with
  | prepare => exact .done rfl
  | run =>
      simp only [Request.launch, Runner.run]
      split
      · exact .done rfl
      · refine .opening stopped ?_
        split
        · exact .inl rfl
        · exact .inr rfl
  | step =>
      simp only [Request.launch, Runner.runOneStep]
      split
      · next cursor rest taken => exact .taking cursor rest .step rfl taken rfl rfl
      · exact .done rfl
  | skip =>
      simp only [Request.launch, Runner.skipOneStep]
      split
      · next cursor rest taken => exact .taking cursor rest .skip rfl taken rfl rfl
      · exact .done rfl
  | inject line =>
      simp only [Request.launch, Runner.inject]
      split
      · exact .done rfl
      · next cursor rest taken =>
        split
        · exact .done rfl
        · next step read =>
          split
          · exact .done rfl
          · exact .injecting cursor rest line step _ rfl taken rfl
          · exact .done rfl
  | stop => exact belated_enterAfterEverything _ _ _

theorem belated_afterSingle (runner start : Runner Env) (cursor : Cursor) (departure : Departure) :
    (afterSingle runner cursor departure : Process Call Env).Belated setting start request := by
  unfold afterSingle
  split
  · exact .done rfl
  · split
    · exact .done rfl
    · split
      · exact .done rfl
      · exact belated_enterAfterEverything _ _ _

/-- A turn of a single step leads to another stage of it, or out of it. -/
theorem belated_single {cursor walker : Cursor} {rest : Runner Env} {purpose : Purpose}
    {activity : Activity Call} (asked : request.purpose? = some purpose)
    (taken : runner.takePaused = some (cursor, rest))
    (single : process.operation = .single purpose walker activity)
    (own : walker.branch = cursor.branch)
    (confines : ∀ after next later, Walk setting purpose walker process.runner.shared activity.stage
      after next (.at later) → later.Confined purpose (cursor.take setting rest.shared).1)
    (thread : Nat) : (process.turn setting thread).1.Belated setting runner request := by
  have walk := Cursor.turn_walks setting purpose walker process.runner.shared activity
  obtain ⟨current, operation⟩ := process
  cases single
  simp only [turn]
  split
  · next later turned =>
    dsimp only at walk
    rw [turned] at walk
    exact .walking cursor _ rest purpose later asked taken rfl (walk.branch_eq.trans own)
      (confines _ _ _ walk)
  · next time later turned =>
    dsimp only at walk
    rw [turned] at walk
    exact .walking cursor _ rest purpose later asked taken rfl (walk.branch_eq.trans own)
      (confines _ _ _ walk)
  · exact belated_afterSingle _ _ _ _

theorem Belated.turn (belated : process.Belated setting runner request) (thread : Nat) :
    (process.turn setting thread).1.Belated setting runner request := by
  cases belated with
  | done finished =>
      refine .done ?_
      rwa [show (process.turn setting thread).1 = process from
        perform_of_isFinished setting finished thread]
  | ending late =>
      obtain ⟨ending, ends⟩ := Option.ne_none_iff_exists'.mp late
      rcases ending?_turn_late setting ends thread with still | last
      · refine .ending ?_
        rw [still]
        exact Option.some_ne_none _
      · refine .done ?_
        rw [Process.turn, last]
        exact isFinished_concludeWith _ _
  | opening stopped opens =>
      have late : (process.runner.enterAfterEverything .run : Process Call Env).Belated setting
          runner request := belated_enterAfterEverything _ _ _
      rw [isStopped] at stopped
      rcases opens with opens | opens
      · simpa only [Process.turn, opens, stopped, if_true] using late
      · simpa only [Process.turn, opens, stopped, if_true] using late
  | taking cursor rest purpose asked taken single fresh =>
      refine belated_single asked taken single rfl (fun _ _ _ walk => ?_) thread
      have fresh : process.runner.shared.suite = rest.shared.suite := fresh
      rw [← Cursor.take_congr fresh]
      exact walk.confined_of_taking (purpose_ne_run asked)
  | walking cursor walker rest purpose activity asked taken single own confined =>
      exact belated_single asked taken single own
        (fun _ _ _ walk => walk.confined (purpose_ne_run asked) confined) thread
  | injecting cursor rest line step call asked taken injects =>
      obtain ⟨current, operation⟩ := process
      cases injects
      simp only [Process.turn]
      split
      · exact .injecting cursor rest line step _ asked taken rfl
      · split <;> exact .done rfl

/-- Only where the operation is, what the branches are and that the stop token is raised matters. -/
theorem Belated.congr {other : Process Call Env} (belated : process.Belated setting runner request)
    (operation : other.operation = process.operation) (suite : other.suite = process.suite)
    (stops : process.isStopped = true → other.isStopped = true) :
    other.Belated setting runner request := by
  cases belated with
  | done finished =>
      refine .done ?_
      rwa [isFinished, operation]
  | ending late => exact .ending (operation ▸ late)
  | opening stopped opens => exact .opening (stops stopped) (operation ▸ opens)
  | taking cursor rest purpose asked taken single fresh =>
      exact .taking cursor rest purpose asked taken (operation.trans single) (suite.trans fresh)
  | walking cursor walker rest purpose activity asked taken single own confined =>
      exact .walking cursor walker rest purpose activity asked taken (operation.trans single) own
        confined
  | injecting cursor rest line step call asked taken injects =>
      exact .injecting cursor rest line step call asked taken (operation.trans injects)

/-- Between two requests nothing leads away from there. -/
theorem Belated.perform (belated : process.Belated setting runner request)
    (unasked : action.isRequest = false) : (process.perform setting action).Belated setting runner request := by
  cases action with
  | turn thread => exact belated.turn thread
  | request request => cases unasked
  | raiseStop => exact belated.congr rfl rfl fun _ => rfl
  | wait milliseconds => exact belated.congr rfl rfl id

theorem belated_after (finished : process.isFinished = true) (stopped : process.isStopped = true)
    (request : Request) (schedule : List Action)
    (unasked : ∀ action ∈ schedule, action.isRequest = false) :
    (process.after setting (.request request :: schedule)).Belated setting process.runner request := by
  induction schedule using List.reverseRecOn with
  | nil =>
      rw [after, List.foldl_cons, List.foldl_nil, perform, if_pos finished]
      exact belated_launch setting process.runner stopped request
  | append_singleton schedule action ih =>
      rw [← List.cons_append, after_concat]
      refine (ih fun other listed => unasked other (List.mem_append_left _ listed)).perform ?_
      exact unasked action (List.mem_append_right _ (.head _))

theorem Belated.permits {role : Role} (belated : process.Belated setting runner request)
    (runs : process.role? thread = some role) : request.Permits setting runner role := by
  obtain ⟨current, operation⟩ := process
  cases belated with
  | done finished =>
      obtain ⟨answer, rests⟩ := operation_of_isFinished finished
      cases rests
      cases runs
  | ending late =>
      cases operation with
      | afterHook index =>
          cases runs
          exact .inl ⟨index, rfl⟩
      | afterEverything | concluding => cases runs
      | beforeEverything | beforeHook | starting | working | single | injecting | finished =>
          exact absurd rfl late
  | opening stopped opens => rcases opens with rfl | rfl <;> cases runs
  | taking cursor rest purpose asked taken single =>
      cases single
      cases runs
  | walking cursor walker rest purpose activity asked taken single own confined =>
      cases single
      have runs : activity.role? walker.branch = some role := runs
      rw [own] at runs
      refine .inr ⟨cursor, rest, taken, ?_⟩
      rcases Activity.role_of_confined runs confined with ⟨rfl, body⟩ | after
      · cases request with
        | step => exact .inl body
        | prepare | run | skip | inject | stop => cases asked
      · cases request with
        | step => exact .inr after
        | skip => exact after
        | prepare | run | inject | stop => cases asked
  | injecting cursor rest line step call asked taken injects =>
      cases injects
      cases runs
      subst asked
      exact .inr ⟨cursor, rest, taken, rfl⟩

/-- Whatever is asked of a runner at rest whose stop token is raised: a run hands over no body but those of
the hooks behind all branches. A single step may hand over, too, the bodies of the one step that the first
paused cursor takes, a skipped step none of them, and an injection the injected body; a branch that comes
to its end by this may have the hooks after it run. -/
theorem permits_of_stopped (setting : Setting Call Env) (process : Process Call Env)
    (request : Request) (schedule : List Action) (finished : process.isFinished = true)
    (stopped : process.isStopped = true)
    (unasked : ∀ action ∈ schedule, action.isRequest = false) :
    ∀ role ∈ process.history setting (handed setting) (.request request :: schedule),
      request.Permits setting process.runner role := by
  intro role member
  obtain ⟨before, action, behind, same, hands⟩ := exists_of_mem_history member
  obtain ⟨thread, runs⟩ := exists_role?_of_handed hands
  rw [← after_concat] at runs
  cases before with
  | nil =>
      cases same
      exact (belated_after finished stopped request [] nofun).permits runs
  | cons first before =>
      cases same
      refine (belated_after finished stopped request (before ++ [action]) ?_).permits runs
      intro other listed
      exact unasked other (by simp at listed ⊢; tauto)

/-- A branch of two steps that is debugged, and a declaration whose body raises the stop token. -/
def intermission : Tree := .grown "A ~ {
    a
}
    B {
        b
    }

* Halt {
    s
}"

/-- The run pauses in front of the branch, and an injected call raises the token. -/
def halted : List Action :=
  .request .run :: List.replicate 7 (.turn 0) ++ [.request (.inject "Halt".toList), .turn 0]

/-- The single step that is asked for then runs the step of the branch. -/
theorem permits_of_stopped_halted :
    let setting := { executor := signals, tree := intermission, maxParallel := 1 }
    let process := ((Runner.initial intermission.suite ()).ready setting).after setting halted
    let schedule := List.replicate 9 (.turn 0)
    process.isFinished = true ∧ process.isStopped = true ∧
      (∀ action ∈ schedule, action.isRequest = false) ∧
      ∀ role ∈ process.history setting (handed setting) (.request .step :: schedule),
        Request.step.Permits setting process.runner role := by
  intro setting process schedule
  have finished : process.isFinished = true := by decide +kernel
  have stopped : process.isStopped = true := by decide +kernel
  have unasked : ∀ action ∈ schedule, action.isRequest = false := by decide
  exact ⟨finished, stopped, unasked,
    permits_of_stopped setting process .step schedule finished stopped unasked⟩

/-- The stop token is raised when a single step is asked for, and yet its body is handed over; so is that
of another injection. -/
theorem step_after_stop :
    let setting := { executor := signals, tree := intermission, maxParallel := 1 }
    let process := ((Runner.initial intermission.suite ()).ready setting).after setting halted
    intermission.generate {} = .ok intermission.suite ∧ setting.executor.Latching ∧
      process.isFinished = true ∧ process.isStopped = true ∧
      .step 0 0 ∈ process.history setting (handed setting)
        (.request .step :: List.replicate 9 (.turn 0)) ∧
      .injected 0 ∈ process.history setting (handed setting)
        [.request (.inject "Halt".toList), .turn 0] := by
  intro setting process
  exact ⟨Tree.generate_eq_suite (by decide +kernel) (by decide +kernel), latching_signals,
    by decide +kernel, by decide +kernel, by decide +kernel, by decide +kernel⟩

end Process
end TestTree.Run
