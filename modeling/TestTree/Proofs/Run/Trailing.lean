import TestTree.Proofs.Run.Overlap

namespace TestTree

namespace Suite

/-- How many hooks there are in front of all branches, and how many behind. -/
def extent (suite : Suite) : Nat × Nat := (suite.beforeEverything.length, suite.afterEverything.length)

theorem around_skipRepeats (suite : Suite) (index count : Nat) (reason : RepeatReason) :
    (suite.skipRepeats index count reason).around = suite.around :=
  around_foldl_modify _ _ suite

theorem around_finishBranch (suite : Suite) (index : Nat) (skipRepeat : Bool) :
    (suite.finishBranch index skipRepeat).around = suite.around := by
  unfold finishBranch
  split
  · rfl
  · dsimp only
    split
    · split
      · exact around_skipRepeats _ _ _ _
      · rfl
    · rfl

theorem around_markStep (suite : Suite) (index step : Nat) (outcome : Outcome)
    (stopBranch skipRepeat : Bool) :
    (suite.markStep index step outcome stopBranch skipRepeat).around = suite.around := by
  unfold markStep
  split
  · rfl
  · dsimp only
    split
    · exact around_finishBranch _ _ _
    · rfl

theorem around_nextStep (suite : Suite) (index : Nat) (advance skipRepeat : Bool) :
    (suite.nextStep index advance skipRepeat).2.around = suite.around := by
  unfold nextStep
  split
  · rfl
  · split
    · rfl
    · dsimp only
      split
      · split <;> rfl
      · split
        · split
          · exact around_skipRepeats _ _ _ _
          · rfl
        · split <;> rfl

theorem extent_of_around {suite other : Suite} (same : other.around = suite.around) :
    other.extent = suite.extent :=
  congrArg (fun hooks : List Hook × List Hook => (hooks.1.length, hooks.2.length)) same

end Suite

namespace Run

variable {Call Env : Type} {setting : Setting Call Env}

/-- The hook behind all branches that a body belongs to. -/
def Role.afterAll? : Role → Option Nat
  | .afterEverything index => some index
  | _ => none

theorem Walk.around {purpose : Purpose} {cursor next : Cursor} {shared after : Shared Env}
    {stage : Stage} {arrival : Arrival}
    (walk : Walk setting purpose cursor shared stage after next arrival) :
    after.suite.around = shared.suite.around := by
  cases walk with
  | exhausted suite _ next | facing _ suite next | atEnd suite next =>
      rw [← shared.suite.around_nextStep cursor.branch true setting.skipRepeat, next]
  | taken _ suite takes | passedOver _ suite takes | paused _ suite takes =>
      rcases takes with ⟨-, rfl⟩ | ⟨-, next⟩
      · rfl
      · rw [← shared.suite.around_nextStep cursor.branch true setting.skipRepeat, next]
  | marked => exact shared.suite.around_markStep _ _ _ _ _
  | opened | unguarded | entering | admitted | refused | turnedAway | halted | interrupted | continued
  | skipped | preparing | begun | unbegun | sleeping | ended | trailing | leaving | tarnished | left
  | recorded => rfl

theorem Worker.around_turn (setting : Setting Call Env) (shared : Shared Env) (worker : Worker Call) :
    (worker.turn setting shared).shared.suite.around = shared.suite.around := by
  cases worker with
  | seeking =>
      simp only [turn]
      split <;> rfl
  | claiming =>
      simp only [turn]
      split
      · next index suite claims =>
        simp only [Suite.claimNext, Option.map_eq_some_iff] at claims
        obtain ⟨_, -, same⟩ := claims
        obtain ⟨rfl, rfl⟩ := Prod.mk.inj same
        rfl
      · split <;> rfl
  | walking cursor activity =>
      rw [shared_turn_walking]
      exact (cursor.turn_walks setting .run shared activity).around
  | ended => rfl

/-- How many hooks behind all branches have been handed over, as far as a runner remembers. -/
def Runner.behind (runner : Runner Env) : Nat :=
  if runner.control.ranAfterEverything then runner.suite.extent.2 else 0

theorem Runner.behind_le (runner : Runner Env) : runner.behind ≤ runner.suite.extent.2 := by
  unfold behind
  split
  · exact Nat.le_refl _
  · exact Nat.zero_le _

/-- What has been entered once stays so. -/
structure Control.Remembered (before after : Control) : Prop where
  begun : before.ranBeforeEverything = true → after.ranBeforeEverything = true
  entered : before.ranAfterEverything = true → after.ranAfterEverything = true

namespace Process

variable {process : Process Call Env} {thread : Nat} {action : Action}

/-- How many hooks behind all branches have been handed over. -/
def behind (process : Process Call Env) : Nat :=
  match process.operation with
  | .afterEverything index _ _ => index
  | .afterHook index _ _ => index + 1
  | _ => process.runner.behind

section Extent

theorem extent_join (runner : Runner Env) (paused : List Cursor) :
    (join runner paused : Process Call Env).suite.extent = runner.suite.extent := by
  unfold join
  split
  · rw [suite_enterAfterEverything]
  · split
    · rw [suite_enterAfterEverything]
    · rfl

theorem extent_record (runner : Runner Env) (index : Nat) (error : StepError) :
    (recordBefore runner index error).suite.extent = runner.suite.extent ∧
      (recordAfter runner index error).suite.extent = runner.suite.extent := by
  simp [recordBefore, recordAfter, Runner.withSuite, Runner.suite, Suite.extent, Cursor.setErrorAt]

theorem extent_turn (setting : Setting Call Env) (process : Process Call Env) (thread : Nat) :
    (process.turn setting thread).1.suite.extent = process.suite.extent := by
  obtain ⟨runner, operation⟩ := process
  cases operation with
  | beforeEverything index scope =>
      simp only [turn]
      split
      · rw [suite_enterAfterEverything]
        rfl
      · split <;> rfl
  | beforeHook index call =>
      obtain ⟨reply, world, advanced⟩ := Cursor.advance_eq setting runner.shared call
      simp only [turn, advanced]
      rcases reply with ⟨time, later⟩ | ⟨result, scope⟩
      · rfl
      · dsimp only
        split
        · rw [suite_enterAfterEverything]
          exact (extent_record _ _ _).1
        · rfl
  | starting =>
      simp only [turn]
      split
      · rw [suite_enterAfterEverything]
        rfl
      · rfl
  | working workers paused =>
      simp only [turn]
      split
      · rfl
      · next worker found =>
        have same := Suite.extent_of_around (worker.around_turn setting runner.shared)
        split
        · exact (extent_join _ _).trans same
        · exact same
  | afterEverything index scope ending =>
      simp only [turn]
      split <;> rfl
  | afterHook index call ending =>
      obtain ⟨reply, world, advanced⟩ := Cursor.advance_eq setting runner.shared call
      simp only [turn, advanced]
      rcases reply with ⟨time, later⟩ | ⟨result, scope⟩
      · rfl
      · dsimp only
        split
        · exact (extent_record _ _ _).2
        · rfl
  | concluding ending => cases ending <;> rfl
  | single purpose cursor activity =>
      have walk := Cursor.turn_walks setting purpose cursor runner.shared activity
      have same := Suite.extent_of_around walk.around
      simp only [turn]
      split
      · exact same
      · exact same
      · rw [suite_afterSingle]
        exact same
  | injecting cursor step call =>
      obtain ⟨reply, world, advanced⟩ := Cursor.advance_eq setting runner.shared call
      simp only [turn, advanced]
      rcases reply with ⟨time, later⟩ | ⟨result, scope⟩
      · rfl
      · dsimp only
        split <;> rfl
  | finished answer => rfl

theorem extent_launch {runner : Runner Env} {request : Request} {after : Process Call Env}
    (launches : Launches setting runner request after) : after.suite.extent = runner.suite.extent := by
  cases launches with
  | refused | begun => rfl
  | prepared =>
      simp only [Runner.init]
      split <;> rfl
  | single _ purpose cursor rest taken | injecting line cursor rest step call taken
  | injected line cursor rest step outcome taken =>
      obtain ⟨-, -, -, rfl⟩ := takePaused_eq taken
      rfl
  | stopped =>
      rw [suite_enterAfterEverything]
      rfl

theorem extent_perform (setting : Setting Call Env) (process : Process Call Env) (action : Action) :
    (process.perform setting action).suite.extent = process.suite.extent := by
  cases action with
  | turn thread => exact extent_turn setting process thread
  | request request =>
      simp only [perform]
      split
      · exact extent_launch (launch_launches setting process.runner request)
      · rfl
  | raiseStop | wait => rfl

end Extent

theorem afterHook_of_role? {index : Nat} (runs : process.role? thread = some (.afterEverything index)) :
    ∃ call ending, process.operation = .afterHook index call ending := by
  unfold role? at runs
  split at runs
  · cases runs
  · next operation =>
    cases runs
    exact ⟨_, _, operation⟩
  · cases runs
  · obtain ⟨⟨purpose, cursor, activity⟩, -, runs⟩ := Option.bind_eq_some_iff.mp runs
    cases activity <;> cases runs

section Behind

/-- Whoever is at the hooks behind all branches has entered them, and is not past their end. -/
structure Closes (process : Process Call Env) : Prop where
  entered : process.operation.ending? ≠ none → process.runner.control.ranAfterEverything = true
  within : process.behind ≤ process.suite.extent.2

/-- A process at no hook behind all branches, compared with an earlier runner. -/
structure Apart (runner : Runner Env) (process : Process Call Env) : Prop where
  closes : process.Closes
  behind : process.behind = runner.behind
  unhooked : ∀ index call ending, process.operation ≠ .afterHook index call ending
  remembers : runner.control.Remembered process.runner.control
  enters : process.runner.control.ranAfterEverything = true →
    runner.control.ranAfterEverything = true ∨ process.operation.ending? ≠ none

theorem apart_enterAfterEverything (runner : Runner Env) (ending : Ending) :
    Apart runner (runner.enterAfterEverything ending : Process Call Env) := by
  unfold Runner.enterAfterEverything
  split
  · next ran => exact ⟨⟨fun _ => ran, Runner.behind_le _⟩, rfl, nofun, ⟨id, id⟩, .inl⟩
  · next fresh =>
    exact ⟨⟨fun _ => rfl, Nat.zero_le _⟩, (if_neg fresh).symm, nofun, ⟨id, fun _ => rfl⟩,
      fun _ => .inr nofun⟩

theorem Apart.of_runner {runner other : Runner Env} {process : Process Call Env}
    (apart : Apart runner process) (same : runner.behind = other.behind)
    (control : runner.control.ranBeforeEverything = other.control.ranBeforeEverything ∧
      runner.control.ranAfterEverything = other.control.ranAfterEverything) : Apart other process where
  closes := apart.closes
  behind := apart.behind.trans same
  unhooked := apart.unhooked
  remembers := ⟨control.1 ▸ apart.remembers.begun, control.2 ▸ apart.remembers.entered⟩
  enters := control.2 ▸ apart.enters

theorem apart_of_ending? {runner : Runner Env} (early : process.operation.ending? = none)
    (same : process.runner.behind = runner.behind)
    (begun : runner.control.ranBeforeEverything = true →
      process.runner.control.ranBeforeEverything = true)
    (kept : process.runner.control.ranAfterEverything = runner.control.ranAfterEverything) :
    Apart runner process := by
  obtain ⟨after, operation⟩ := process
  have behind : (⟨after, operation⟩ : Process Call Env).behind = after.behind := by
    cases operation with
    | afterEverything | afterHook => cases early
    | beforeEverything | beforeHook | starting | working | concluding | single | injecting
    | finished => rfl
  refine ⟨⟨fun late => absurd early late, ?_⟩, behind.trans same, ?_, ⟨begun, kept.trans⟩,
    fun entered => .inl (kept.symm.trans entered)⟩
  · rw [behind]
    exact after.behind_le
  · rintro index call ending rfl
    cases early

/-- An action hands over no hook behind all branches, or the next one. -/
structure Counts (process after : Process Call Env) (handed : Option Role) : Prop where
  closes : after.Closes
  remembers : process.runner.control.Remembered after.runner.control
  enters : after.runner.control.ranAfterEverything = true →
    process.runner.control.ranAfterEverything = true ∨ after.operation.ending? ≠ none
  counts : after.behind = process.behind ∧ (∀ index, handed ≠ some (.afterEverything index)) ∨
    after.behind = process.behind + 1 ∧ handed = some (.afterEverything process.behind)

theorem counts_of_still {after : Process Call Env} (closes : after.Closes)
    (begun : after.runner.control.ranBeforeEverything = process.runner.control.ranBeforeEverything)
    (entered : after.runner.control.ranAfterEverything = process.runner.control.ranAfterEverything)
    (behind : after.behind = process.behind) : Counts process after none := by
  refine ⟨closes, ⟨begun.trans, entered.trans⟩, fun late => .inl (entered.symm.trans late),
    .inl ⟨behind, ?_⟩⟩
  rintro index ⟨⟩

theorem counts_of_apart {after : Process Call Env} {handed : Option Role}
    (apart : Apart process.runner after) (same : process.behind = process.runner.behind)
    (runs : ∀ role, handed = some role → ∃ thread, after.role? thread = some role) :
    Counts process after handed := by
  refine ⟨apart.closes, apart.remembers, apart.enters, .inl ⟨apart.behind.trans same.symm, fun index hands => ?_⟩⟩
  obtain ⟨thread, runs⟩ := runs _ hands
  obtain ⟨call, ending, operation⟩ := afterHook_of_role? runs
  exact apart.unhooked index call ending operation

theorem apart_concludeWith (runner : Runner Env) (ending : Ending) :
    Apart runner (concludeWith runner ending : Process Call Env) := by
  cases ending <;> exact apart_of_ending? rfl rfl id rfl

theorem apart_join (runner : Runner Env) (paused : List Cursor) :
    Apart runner (join runner paused : Process Call Env) := by
  unfold join
  split
  · exact apart_enterAfterEverything _ _
  · split
    · exact apart_enterAfterEverything _ _
    · exact apart_of_ending? rfl rfl id rfl

theorem apart_afterSingle (runner : Runner Env) (cursor : Cursor) (departure : Departure) :
    Apart runner (afterSingle runner cursor departure : Process Call Env) := by
  unfold afterSingle
  split
  · exact apart_of_ending? rfl rfl id rfl
  · split
    · exact apart_of_ending? rfl rfl id rfl
    · split
      · exact apart_of_ending? rfl rfl id rfl
      · exact apart_enterAfterEverything _ _

/-- The turn of a process that is not at the hooks behind all branches. -/
theorem apart_turn (setting : Setting Call Env) (early : process.operation.ending? = none)
    (thread : Nat) : Apart process.runner (process.turn setting thread).1 := by
  obtain ⟨runner, operation⟩ := process
  cases operation with
  | beforeEverything index scope =>
      simp only [turn]
      split
      · exact apart_enterAfterEverything runner _
      · split <;> exact apart_of_ending? rfl rfl id rfl
  | beforeHook index call =>
      obtain ⟨reply, world, advanced⟩ := Cursor.advance_eq setting runner.shared call
      simp only [turn, advanced]
      rcases reply with ⟨time, later⟩ | ⟨result, scope⟩
      · exact apart_of_ending? rfl rfl id rfl
      · dsimp only
        split
        · next hook found =>
          refine (apart_enterAfterEverything _ _).of_runner ?_ ⟨rfl, rfl⟩
          simp only [Runner.behind, (extent_record _ _ _).1]
          rfl
        · exact apart_of_ending? rfl rfl id rfl
  | starting =>
      simp only [turn]
      split
      · exact apart_enterAfterEverything runner _
      · exact apart_of_ending? rfl rfl id rfl
  | working workers paused =>
      simp only [turn]
      split
      · exact apart_of_ending? rfl rfl id rfl
      · next worker found =>
        have same : ({ runner with shared := (worker.turn setting runner.shared).shared } :
            Runner Env).behind = runner.behind := by
          simp only [Runner.behind, Runner.suite,
            Suite.extent_of_around (worker.around_turn setting runner.shared)]
        split
        · exact (apart_join _ _).of_runner same ⟨rfl, rfl⟩
        · exact apart_of_ending? rfl same id rfl
  | single purpose cursor activity =>
      have walk := Cursor.turn_walks setting purpose cursor runner.shared activity
      have same : ({ runner with
          shared := (cursor.turn setting purpose runner.shared activity).shared } :
          Runner Env).behind = runner.behind := by
        simp only [Runner.behind, Runner.suite, Suite.extent_of_around walk.around]
      simp only [turn]
      split
      · exact apart_of_ending? rfl same id rfl
      · exact apart_of_ending? rfl same id rfl
      · exact (apart_afterSingle _ _ _).of_runner same ⟨rfl, rfl⟩
  | injecting cursor step call =>
      obtain ⟨reply, world, advanced⟩ := Cursor.advance_eq setting runner.shared call
      simp only [turn, advanced]
      rcases reply with ⟨time, later⟩ | ⟨result, scope⟩
      · exact apart_of_ending? rfl rfl id rfl
      · dsimp only
        split <;> exact apart_of_ending? rfl rfl id rfl
  | finished answer => exact apart_of_ending? rfl rfl id rfl
  | afterEverything | afterHook | concluding => cases early

theorem behind_of_early (early : process.operation.ending? = none) :
    process.behind = process.runner.behind :=
  (apart_of_ending? early rfl id rfl).behind

/-- An operation at the hooks behind all branches goes on with what it ends until it concludes. -/
theorem ending?_turn_late (setting : Setting Call Env) {ending : Ending}
    (late : process.operation.ending? = some ending) (thread : Nat) : (process.turn setting thread).1.operation.ending? = some ending ∨
      process.operation = .concluding ending := by
  obtain ⟨runner, operation⟩ := process
  cases operation with
  | afterEverything =>
      cases late
      simp only [turn]
      split <;> exact .inl rfl
  | afterHook =>
      cases late
      simp only [turn]
      split
      · exact .inl rfl
      · split <;> exact .inl rfl
  | concluding =>
      cases late
      exact .inr rfl
  | beforeEverything | beforeHook | starting | working | single | injecting | finished => cases late

/-- A turn at the hooks behind all branches hands over the next of them, or leaves them. -/
theorem Closes.counts_late (closes : process.Closes) {ending : Ending}
    (late : process.operation.ending? = some ending) (thread : Nat) :
    Counts process (process.turn setting thread).1 (process.handed setting (.turn thread)) := by
  obtain ⟨runner, operation⟩ := process
  have entered : runner.control.ranAfterEverything = true := closes.entered (by simp [late])
  have within := closes.within
  cases operation with
  | afterEverything index scope ending =>
      simp only [handed, turn]
      split
      · next absent =>
        have last : index = runner.suite.extent.2 :=
          Nat.le_antisymm within (List.getElem?_eq_none_iff.mp absent)
        have behind : runner.behind = runner.suite.extent.2 := if_pos entered
        exact counts_of_still ⟨fun _ => entered, Nat.le_of_eq behind⟩ rfl rfl (behind.trans last.symm)
      · next hook found =>
        exact ⟨⟨fun _ => entered, (List.getElem?_eq_some_iff.mp found).1⟩, ⟨id, id⟩, .inl,
          .inr ⟨rfl, rfl⟩⟩
  | afterHook index call ending =>
      obtain ⟨reply, world, advanced⟩ := Cursor.advance_eq setting runner.shared call
      simp only [handed, turn, advanced]
      rcases reply with ⟨time, later⟩ | ⟨result, scope⟩
      · exact counts_of_still ⟨fun _ => entered, within⟩ rfl rfl rfl
      · dsimp only
        split
        · next hook found =>
          refine counts_of_still ⟨fun _ => entered, ?_⟩ rfl rfl rfl
          exact within.trans (Nat.le_of_eq (congrArg Prod.snd (extent_record _ _ _).2.symm))
        · exact counts_of_still ⟨fun _ => entered, within⟩ rfl rfl rfl
  | concluding ending =>
      refine counts_of_apart (apart_concludeWith runner ending) rfl fun role hands => ?_
      exact ⟨thread, role?_of_handed hands⟩
  | beforeEverything | beforeHook | starting | working | single | injecting | finished => cases late

theorem apart_launch {runner : Runner Env} {request : Request} {after : Process Call Env}
    (launches : Launches setting runner request after) : Apart runner after := by
  cases launches with
  | refused => exact apart_of_ending? rfl rfl id rfl
  | prepared =>
      have same : (runner.init setting false).control = runner.control ∧
          (runner.init setting false).behind = runner.behind := by
        simp only [Runner.init]
        split <;> exact ⟨rfl, rfl⟩
      refine apart_of_ending? rfl same.2 ?_ ?_
      · rw [Runner.finish, same.1]
        exact id
      · rw [Runner.finish, same.1]
  | begun operation running opens =>
      rcases opens with rfl | rfl <;> exact apart_of_ending? rfl rfl (fun _ => rfl) rfl
  | single _ purpose cursor rest taken | injecting line cursor rest step call taken
  | injected line cursor rest step outcome taken =>
      obtain ⟨-, -, -, rfl⟩ := takePaused_eq taken
      exact apart_of_ending? rfl rfl id rfl
  | stopped => exact (apart_enterAfterEverything _ _).of_runner rfl ⟨rfl, rfl⟩

theorem ending?_of_isFinished (finished : process.isFinished = true) :
    process.operation.ending? = none := by
  obtain ⟨answer, rests⟩ := operation_of_isFinished finished
  rw [rests]
  rfl

theorem Closes.counts (closes : process.Closes) (setting : Setting Call Env) (action : Action) :
    Counts process (process.perform setting action) (process.handed setting action) := by
  have runs {action : Action} (role : Role) (hands : process.handed setting action = some role) :=
    exists_role?_of_handed hands
  cases action with
  | turn thread =>
      cases stage : process.operation.ending? with
      | none => exact counts_of_apart (apart_turn setting stage thread) (behind_of_early stage) runs
      | some ending => exact closes.counts_late stage thread
  | request request =>
      by_cases finished : process.isFinished = true
      · refine counts_of_apart ?_ (behind_of_early (ending?_of_isFinished finished)) runs
        rw [perform, if_pos finished]
        exact apart_launch (launch_launches setting process.runner request)
      · rw [handed, if_neg finished, perform, if_neg finished]
        exact counts_of_still closes rfl rfl rfl
  | raiseStop | wait => exact counts_of_still ⟨closes.entered, closes.within⟩ rfl rfl rfl

theorem closes_ready (setting : Setting Call Env) (runner : Runner Env) :
    (runner.ready setting).Closes ∧ (runner.ready setting).behind = 0 := by
  have control := control_ready setting runner
  refine ⟨⟨fun late => absurd rfl late, ?_⟩, ?_⟩
  · exact Runner.behind_le _
  · exact if_neg (by simp [control])

/-- Of the hooks behind all branches, those in front of where the process stands have been handed over,
in their order and once each. -/
theorem closes_after (setting : Setting Call Env) (runner : Runner Env) (schedule : List Action) :
    ((runner.ready setting).after setting schedule).Closes ∧
      ((runner.ready setting).history setting (handed setting) schedule).filterMap Role.afterAll? =
        List.range ((runner.ready setting).after setting schedule).behind := by
  induction schedule using List.reverseRecOn with
  | nil =>
      obtain ⟨closes, none⟩ := closes_ready setting runner
      exact ⟨closes, by rw [after_nil, none]; rfl⟩
  | append_singleton schedule action ih =>
      obtain ⟨closes, counted⟩ := ih
      obtain ⟨later, -, -, counts⟩ := closes.counts setting action
      rw [after_concat, history_concat, List.filterMap_append, counted]
      refine ⟨later, ?_⟩
      rcases counts with ⟨same, unhooked⟩ | ⟨next, hands⟩
      · have none : (((runner.ready setting).after setting schedule).handed setting
            action).toList.filterMap Role.afterAll? = [] := by
          rw [List.filterMap_eq_nil_iff]
          intro role member
          cases role with
          | afterEverything index => exact absurd (Option.mem_toList.mp member) (unhooked index)
          | beforeEverything | beforeBranch | afterBranch | beforeStep | afterStep | step
          | injected => rfl
        rw [none, List.append_nil, same]
      · rw [hands, next, List.range_succ]
        rfl

end Behind

end Process

end Run

end TestTree
