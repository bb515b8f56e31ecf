import TestTree.Proofs.Run.Completion
import TestTree.Proofs.Run.Trailing

namespace TestTree.Run

variable {Call Env : Type} {setting : Setting Call Env}

/-- The hook in front of all branches that a body belongs to. -/
def Role.beforeAll? : Role → Option Nat
  | .beforeEverything index => some index
  | _ => none

/-- How many hooks in front of all branches an operation has handed over that is at them. -/
def Operation.front? : Operation Call → Option Nat
  | .beforeEverything index _ => some index
  | .beforeHook index _ => some (index + 1)
  | _ => none

namespace Process

variable {process : Process Call Env} {thread : Nat} {action : Action}

/-- The thread that looks whether the run is to stop, and sees that it is. -/
def sighted (process : Process Call Env) : Action → Option Nat
  | .turn thread =>
      match process.operation with
      | .beforeEverything _ _ | .starting => if process.isStopped then some thread else none
      | .working workers _ =>
          match workers[thread]? with
          | some .seeking | some (.walking _ .looping) =>
              if process.isStopped then some thread else none
          | _ => none
      | _ => none
  | _ => none

theorem beforeHook_of_role? {index : Nat}
    (runs : process.role? thread = some (.beforeEverything index)) :
    ∃ call, process.operation = .beforeHook index call := by
  unfold role? at runs
  split at runs
  · next operation =>
    cases runs
    exact ⟨_, operation⟩
  · cases runs
  · cases runs
  · obtain ⟨⟨purpose, cursor, activity⟩, -, runs⟩ := Option.bind_eq_some_iff.mp runs
    cases activity <;> cases runs

section Front

theorem front?_enterAfterEverything (runner : Runner Env) (ending : Ending) :
    (runner.enterAfterEverything ending : Process Call Env).operation.front? = none := by
  unfold Runner.enterAfterEverything
  split <;> rfl

/-- The hooks in front of all branches are left for good. -/
theorem front?_turn (setting : Setting Call Env) (passed : process.operation.front? = none)
    (thread : Nat) : (process.turn setting thread).1.operation.front? = none := by
  obtain ⟨runner, operation⟩ := process
  have entering (runner : Runner Env) (ending : Ending) :
      (runner.enterAfterEverything ending : Process Call Env).operation.front? = none :=
    front?_enterAfterEverything runner ending
  cases operation with
  | beforeEverything | beforeHook => cases passed
  | starting =>
      simp only [turn]
      split
      · exact entering _ _
      · rfl
  | working workers paused =>
      simp only [turn]
      split
      · rfl
      · split
        · unfold join
          split
          · exact entering _ _
          · split
            · exact entering _ _
            · rfl
        · rfl
  | single purpose cursor activity =>
      simp only [turn]
      split
      · rfl
      · rfl
      · unfold afterSingle
        split
        · rfl
        · split
          · rfl
          · split
            · rfl
            · exact entering _ _
  | afterEverything =>
      simp only [turn]
      split <;> rfl
  | afterHook | injecting =>
      simp only [turn]
      split
      · rfl
      · split <;> rfl
  | concluding ending => cases ending <;> rfl
  | finished => rfl

/-- Behind the hooks in front of all branches, or never to come to them. -/
structure Past (process : Process Call Env) : Prop where
  begun : process.runner.control.ranBeforeEverything = true ∨
    process.runner.control.phase = .stopped ∨ process.operation.ending? = some .stop
  passed : process.operation.front? = none

theorem past_enterAfterEverything {runner : Runner Env} (ending : Ending)
    (begun : runner.control.ranBeforeEverything = true) :
    (runner.enterAfterEverything ending : Process Call Env).Past :=
  ⟨.inl ((apart_enterAfterEverything runner ending).remembers.begun begun),
    front?_enterAfterEverything runner ending⟩

/-- An operation to stop goes on until the runner is stopped. -/
theorem stopping_turn (stopping : process.operation.ending? = some .stop) (thread : Nat) :
    (process.turn setting thread).1.operation.ending? = some .stop ∨
      (process.turn setting thread).1.runner.control.phase = .stopped := by
  refine (ending?_turn_late setting stopping thread).imp_right fun last => ?_
  rw [turn, last]
  rfl

theorem Past.turn (past : process.Past) (sound : process.Sound) (closes : process.Closes)
    (thread : Nat) : (process.turn setting thread).1.Past := by
  refine ⟨?_, front?_turn setting past.passed thread⟩
  rcases past.begun with begun | stopped | stopping
  · exact .inl ((closes.counts setting (.turn thread)).remembers.begun begun)
  · exact .inr (.inl (stopped_turn sound stopped (turn_turns setting process thread)))
  · exact .inr (stopping_turn stopping thread).symm

theorem past_launch {runner : Runner Env} (request : Request)
    (begun : runner.control.ranBeforeEverything = true ∨ runner.control.phase = .stopped) :
    (request.launch setting runner).Past := by
  have launches := launch_launches setting runner request
  refine ⟨?_, ?_⟩
  · rcases begun with begun | stopped
    · exact .inl ((apart_launch launches).remembers.begun begun)
    · exact .inr (.inl (stopped_launch stopped launches))
  · cases request with
    | run =>
        simp only [Request.launch, Runner.run]
        split
        · rfl
        · next running => simp [begun.resolve_right running, Operation.front?]
    | step =>
        simp only [Request.launch, Runner.runOneStep]
        split <;> rfl
    | skip =>
        simp only [Request.launch, Runner.skipOneStep]
        split <;> rfl
    | inject line =>
        simp only [Request.launch, Runner.inject]
        split
        · rfl
        · split
          · rfl
          · split <;> rfl
    | prepare => rfl
    | stop => exact front?_enterAfterEverything _ _

theorem Past.perform (past : process.Past) (sound : process.Sound) (closes : process.Closes)
    (action : Action) : (process.perform setting action).Past := by
  cases action with
  | turn thread => exact past.turn sound closes thread
  | request request =>
      simp only [Process.perform]
      split
      · next finished =>
        refine past_launch request (past.begun.imp_right fun late => late.resolve_right ?_)
        simp [ending?_of_isFinished finished]
      · exact past
  | raiseStop | wait => exact ⟨past.begun, past.passed⟩

/-- What a runner remembers that was never asked for anything but to prepare. -/
structure Unbegun (control : Control) : Prop where
  unbegun : control.ranBeforeEverything = false
  unentered : control.ranAfterEverything = false
  phase : control.phase = .notStarted
  unpaused : control.paused = []

/-- What a runner remembers in its first run, up to the hooks behind all branches. -/
structure Begun (control : Control) : Prop where
  begun : control.ranBeforeEverything = true
  unentered : control.ranAfterEverything = false
  unpaused : control.paused = []

/-- How a process comes to the hooks in front of all branches, along them, and past them, with the bodies
handed over, the hooks failed and the tokens seen so far. -/
inductive Opens (process : Process Call Env) : List Role → List Nat → List Nat → Prop
  | fresh (rests : process.isFinished = true) (unbegun : Unbegun process.runner.control) :
      Opens process [] [] []
  | along (count : Nat) (begun : Begun process.runner.control)
      (front : process.operation.front? = some count) (within : count ≤ process.suite.extent.1) :
      Opens process ((List.range count).map .beforeEverything) [] []
  | past (count : Nat) (past : process.Past) (within : count ≤ process.suite.extent.1)
      (roles : List Role) (faults sights : List Nat)
      (before : roles.filterMap Role.beforeAll? = List.range count) : Opens process roles faults sights

variable {roles : List Role} {faults sights : List Nat} {runner : Runner Env} {request : Request}
  {after : Process Call Env}

theorem beforeAll?_of_map (count : Nat) :
    ((List.range count).map Role.beforeEverything).filterMap Role.beforeAll? = List.range count := by
  rw [List.filterMap_map]
  exact List.filterMap_some

theorem opens_enterAfterEverything {count : Nat} (begun : Begun runner.control)
    (within : count ≤ runner.suite.extent.1) (faults sights : List Nat) :
    (runner.enterAfterEverything .run : Process Call Env).Opens
      ((List.range count).map .beforeEverything) faults sights := by
  refine .past count (past_enterAfterEverything .run begun.begun) ?_ _ faults sights (beforeAll?_of_map count)
  rw [suite_enterAfterEverything]
  exact within

theorem handed_of_awake {after : Process Call Env} (turned : process.turn setting thread = (after, none)) :
    process.handed setting (.turn thread) = after.role? thread := by
  simp only [handed, turned]

/-- The next hook in front of all branches is begun only if the stop token is not seen. -/
theorem opens_beforeEverything {index : Nat} {scope : Variables}
    (begun : Begun runner.control) (within : index ≤ runner.suite.extent.1) :
    let process : Process Call Env := ⟨runner, .beforeEverything index scope⟩
    (process.turn setting thread).1.Opens
      ((List.range index).map .beforeEverything ++ (process.handed setting (.turn thread)).toList) []
      (process.sighted (.turn thread)).toList := by
  intro process
  cases stopped : runner.shared.world.isStopped with
  | true =>
      have turned : process.turn setting thread = (runner.enterAfterEverything .run, none) :=
        if_pos stopped
      rw [handed_of_awake turned, turned, role?_enterAfterEverything, Option.toList_none,
        List.append_nil]
      exact opens_enterAfterEverything begun within _ _
  | false =>
      have calm : ¬ runner.shared.world.isStopped = true := by simp [stopped]
      have unseen : process.sighted (.turn thread) = none := if_neg calm
      rw [unseen]
      cases found : runner.suite.beforeEverything[index]? with
      | none =>
          have turned : process.turn setting thread = (⟨runner, .starting⟩, none) := by
            simp only [turn, process, stopped, Bool.false_eq_true, if_false, found]
          have hands : process.handed setting (.turn thread) = none := handed_of_awake turned
          rw [hands, turned, Option.toList_none, List.append_nil]
          have past : (⟨runner, .starting⟩ : Process Call Env).Past := ⟨.inl begun.begun, rfl⟩
          exact .past index past within _ _ _ (beforeAll?_of_map index)
      | some hook =>
          have turned : process.turn setting thread = (⟨runner, .beforeHook index
              (setting.executor.start (hook.body (.beforeEverything index)) scope)⟩, none) := by
            simp only [turn, process, stopped, Bool.false_eq_true, if_false, found]
          have hands : process.handed setting (.turn thread) = some (.beforeEverything index) :=
            handed_of_awake turned
          rw [hands, turned]
          have roles : (List.range index).map Role.beforeEverything ++ [.beforeEverything index] =
              (List.range (index + 1)).map .beforeEverything := by
            rw [List.range_succ, List.map_append, List.map_singleton]
          rw [Option.toList_some, roles]
          exact .along (index + 1) begun rfl (List.getElem?_eq_some_iff.mp found).1

theorem opens_beforeHook {index : Nat} {call : Call}
    (begun : Begun runner.control) (within : index < runner.suite.extent.1) :
    let process : Process Call Env := ⟨runner, .beforeHook index call⟩
    (process.turn setting thread).1.Opens
      ((List.range (index + 1)).map .beforeEverything ++
        (process.handed setting (.turn thread)).toList)
      (process.failedBefore setting (.turn thread)).toList [] := by
  intro process
  obtain ⟨reply, world, advanced⟩ := Cursor.advance_eq setting runner.shared call
  rcases reply with ⟨time, later⟩ | ⟨result, scope⟩
  · simp only [handed, failedBefore, turn, process, advanced]
    rw [Option.toList_none, List.append_nil]
    exact .along (index + 1) begun rfl within
  · cases result with
    | error message =>
        have found : runner.suite.beforeEverything[index]? = some runner.suite.beforeEverything[index] :=
          List.getElem?_eq_getElem within
        have turned : process.turn setting thread =
            ((recordBefore { runner with shared := { runner.shared with world } } index
              (runner.suite.beforeEverything[index].failure message)).enterAfterEverything .run,
              none) := by
          simp only [turn, process, advanced]
          rw [show ({ runner with shared := { runner.shared with world } } :
            Runner Env).suite.beforeEverything[index]? = _ from found]
        rw [handed_of_awake turned, turned, role?_enterAfterEverything, Option.toList_none,
          List.append_nil]
        have kept := (extent_record { runner with shared := { runner.shared with world } } index
          (runner.suite.beforeEverything[index].failure message)).1
        refine opens_enterAfterEverything ?_ ?_ _ _
        · exact begun
        · rw [kept]
          exact within
    | ok value =>
        have turned : process.turn setting thread =
            (⟨{ runner with shared := { runner.shared with world } },
              .beforeEverything (index + 1) scope⟩, none) := by
          simp only [turn, process, advanced]
        have hands : process.handed setting (.turn thread) = none := handed_of_awake turned
        have sound : process.failedBefore setting (.turn thread) = none := by
          simp only [failedBefore, process, advanced]
        rw [hands, sound, turned, Option.toList_none, List.append_nil]
        exact .along (index + 1) begun rfl within

theorem opens_launch (unbegun : Unbegun runner.control) (request : Request) :
    (request.launch setting runner).Opens (((request.launch setting runner).role? 0).toList) [] [] := by
  obtain ⟨unbegun, unentered, phase, unpaused⟩ := unbegun
  have none : runner.takePaused = none := by
    simp [Runner.takePaused, phase]
  cases request with
  | prepare =>
      have same : (runner.init setting false).control = runner.control := by
        simp only [Runner.init]
        split <;> rfl
      refine .fresh rfl ?_
      rw [Request.launch, Runner.finish, same]
      exact ⟨unbegun, unentered, phase, unpaused⟩
  | run =>
      simp only [Request.launch, Runner.run, phase, reduceCtorEq, if_false, unbegun, Bool.not_false,
        if_true]
      exact .along 0 ⟨rfl, unentered, unpaused⟩ rfl (Nat.zero_le _)
  | step | skip | inject =>
      simp only [Request.launch, Runner.runOneStep, Runner.skipOneStep, Runner.inject, none]
      exact .fresh rfl ⟨unbegun, unentered, phase, unpaused⟩
  | stop =>
      rw [Request.launch, Runner.stop, role?_enterAfterEverything]
      exact .past 0 ⟨.inr (.inr (ending?_enterAfterEverything _ _)), front?_enterAfterEverything _ _⟩
        (Nat.zero_le _) _ _ _ rfl

theorem Opens.along_turn {count : Nat} (begun : Begun process.runner.control)
    (front : process.operation.front? = some count) (within : count ≤ process.suite.extent.1)
    (thread : Nat) :
    (process.turn setting thread).1.Opens
      ((List.range count).map .beforeEverything ++ (process.handed setting (.turn thread)).toList)
      (process.failedBefore setting (.turn thread)).toList (process.sighted (.turn thread)).toList := by
  obtain ⟨runner, operation⟩ := process
  cases operation with
  | beforeEverything index scope =>
      cases front
      exact opens_beforeEverything begun within
  | beforeHook index call =>
      cases front
      exact opens_beforeHook begun within
  | starting | working | afterEverything | afterHook | concluding | single | injecting | finished =>
      cases front

theorem Past.not_handed (past : (process.perform setting action).Past) (index : Nat) :
    process.handed setting action ≠ some (.beforeEverything index) := by
  intro hands
  obtain ⟨thread, runs⟩ := exists_role?_of_handed hands
  obtain ⟨call, operation⟩ := beforeHook_of_role? runs
  have passed := past.passed
  rw [operation] at passed
  cases passed

theorem beforeAll?_toList {handed : Option Role}
    (unhooked : ∀ index, handed ≠ some (.beforeEverything index)) :
    handed.toList.filterMap Role.beforeAll? = [] := by
  rw [List.filterMap_eq_nil_iff]
  intro role member
  cases role with
  | beforeEverything index => exact absurd (Option.mem_toList.mp member) (unhooked index)
  | afterEverything | beforeBranch | afterBranch | beforeStep | afterStep | step | injected => rfl

theorem Opens.perform (opens : process.Opens roles faults sights) (sound : process.Sound)
    (closes : process.Closes) (action : Action) :
    (process.perform setting action).Opens (roles ++ (process.handed setting action).toList)
      (faults ++ (process.failedBefore setting action).toList)
      (sights ++ (process.sighted action).toList) := by
  have extent := extent_perform setting process action
  cases opens with
  | past count past within _ _ _ before =>
      have later : (process.perform setting action).Past := past.perform sound closes action
      refine .past count later (extent ▸ within) _ _ _ ?_
      rw [List.filterMap_append, before, beforeAll?_toList later.not_handed, List.append_nil]
  | fresh rests unbegun =>
      obtain ⟨runner, operation⟩ := process
      cases operation with
      | finished answer =>
          cases action with
          | request request => exact opens_launch unbegun request
          | turn | raiseStop | wait =>
              exact .fresh rfl ⟨unbegun.unbegun, unbegun.unentered, unbegun.phase, unbegun.unpaused⟩
      | beforeEverything | beforeHook | starting | working | afterEverything | afterHook | concluding
      | single | injecting => cases rests
  | along count begun front within =>
      cases action with
      | turn thread => exact Opens.along_turn begun front within thread
      | request request =>
          have busy : process.isFinished = false := by
            by_contra finished
            obtain ⟨runner, operation⟩ := process
            cases operation <;> simp [isFinished, Operation.front?] at finished front
          have still : process.perform setting (.request request) = process := by
            rw [Process.perform, busy]
            rfl
          have hands : process.handed setting (.request request) = none := by
            rw [handed, busy]
            rfl
          rw [still, hands, Option.toList_none, List.append_nil]
          exact .along count begun front within
      | raiseStop | wait =>
          rw [show process.handed setting _ = none by rfl, Option.toList_none, List.append_nil]
          exact .along count ⟨begun.begun, begun.unentered, begun.unpaused⟩ front within

theorem opens_after (setting : Setting Call Env) (runner : Runner Env) (schedule : List Action) :
    ((runner.ready setting).after setting schedule).Opens
      ((runner.ready setting).history setting (handed setting) schedule)
      ((runner.ready setting).history setting (failedBefore setting) schedule)
      ((runner.ready setting).history setting sighted schedule) := by
  induction schedule using List.reverseRecOn with
  | nil =>
      have control := control_ready setting runner
      refine .fresh rfl ?_
      rw [after_nil, control]
      exact ⟨rfl, rfl, rfl, rfl⟩
  | append_singleton schedule action ih =>
      simp only [after_concat, history_concat]
      exact ih.perform (inOrder_after setting runner schedule).sound
        (closes_after setting runner schedule).1 action

theorem launch_ne_beforeHook (launches : Launches setting runner request after) (index : Nat)
    (call : Call) : after.operation ≠ .beforeHook index call := by
  cases launches with
  | refused | prepared | single | injecting | injected => exact nofun
  | begun operation running opens => rcases opens with rfl | rfl <;> exact nofun
  | stopped =>
      intro operation
      have front := @front?_enterAfterEverything Call _ runner.raiseStop .stop
      rw [operation] at front
      cases front

theorem Opens.at_front {index : Nat} (opens : process.Opens roles faults sights)
    (front : process.operation.front? = some index) :
    roles = (List.range index).map .beforeEverything ∧ faults = [] ∧ sights = [] := by
  cases opens with
  | fresh rests =>
      obtain ⟨runner, operation⟩ := process
      cases operation with
      | beforeEverything | beforeHook => cases rests
      | starting | working | afterEverything | afterHook | concluding | single | injecting
      | finished => cases front
  | along count begun along within =>
      obtain rfl := Option.some.inj (along.symm.trans front)
      exact ⟨rfl, rfl, rfl⟩
  | past count past =>
      rw [past.passed] at front
      cases front

/-- Whoever has entered the hooks behind all branches is past those in front. -/
theorem Opens.past_of_entered (opens : process.Opens roles faults sights)
    (entered : process.runner.control.ranAfterEverything = true) : process.Past := by
  cases opens with
  | fresh rests unbegun => exact absurd (unbegun.unentered.symm.trans entered) nofun
  | along count begun => exact absurd (begun.unentered.symm.trans entered) nofun
  | past count past => exact past

/-- Nothing is paused as long as a process is at the hooks in front of all branches. -/
theorem Opens.unpaused_of_front (opens : process.Opens roles faults sights)
    (front : process.operation.front? ≠ none) : process.runner.control.paused = [] := by
  cases opens with
  | fresh rests unbegun => exact unbegun.unpaused
  | along count begun => exact begun.unpaused
  | past count past => exact absurd past.passed front

theorem Opens.counted (opens : process.Opens roles faults sights) :
    ∃ count ≤ process.suite.extent.1, roles.filterMap Role.beforeAll? = List.range count := by
  cases opens with
  | fresh => exact ⟨0, Nat.zero_le _, rfl⟩
  | along count begun front within => exact ⟨count, within, beforeAll?_of_map count⟩
  | past count past within _ _ _ before => exact ⟨count, within, before⟩

/-- Only a process that is about to begin a hook in front of all branches, and does not see the stop
token, hands one over. -/
theorem front_of_handed {index : Nat}
    (hands : process.handed setting action = some (.beforeEverything index)) :
    process.operation.front? = some index ∧ process.isStopped = false := by
  cases action with
  | turn thread =>
      obtain ⟨call, reached⟩ := beforeHook_of_role? (role?_of_handed hands)
      obtain ⟨runner, operation⟩ := process
      have left (passed : operation.front? = none) : False := by
        have behind := front?_turn setting
          (show (⟨runner, operation⟩ : Process Call Env).operation.front? = none from passed) thread
        rw [reached] at behind
        cases behind
      cases operation with
      | beforeEverything before scope =>
          simp only [handed, turn] at hands
          split at hands
          · next turned =>
            split at turned
            · cases turned
              simp [role?_enterAfterEverything] at hands
            · next calm =>
              split at turned
              · cases turned
                cases hands
              · cases turned
                cases hands
                exact ⟨rfl, by simpa [isStopped] using calm⟩
          · cases hands
      | beforeHook before call =>
          obtain ⟨reply, world, advanced⟩ := Cursor.advance_eq setting runner.shared call
          simp only [handed, turn, advanced] at hands
          rcases reply with ⟨time, later⟩ | ⟨result, scope⟩
          · cases hands
          · dsimp only at hands
            split at hands
            · next turned =>
              split at turned
              · cases turned
                simp [role?_enterAfterEverything] at hands
              · cases turned
                cases hands
            · cases hands
      | starting | working | afterEverything | afterHook | concluding | single | injecting
      | finished => exact (left rfl).elim
  | request request =>
      simp only [handed] at hands
      split at hands
      · obtain ⟨call, operation⟩ := beforeHook_of_role? hands
        exact absurd operation (launch_ne_beforeHook (launch_launches setting _ request) index call)
      · cases hands
  | raiseStop | wait => cases hands

end Front

theorem entered_of_over (setting : Setting Call Env) (runner : Runner Env) {schedule : List Action}
    (isOver : ((runner.ready setting).after setting schedule).runner.control.phase.isOver = true) :
    ((runner.ready setting).after setting schedule).runner.control.ranAfterEverything = true := by
  induction schedule using List.reverseRecOn with
  | nil =>
      rw [after_nil, control_ready] at isOver
      cases isOver
  | append_singleton schedule action ih =>
      rw [after_concat] at isOver ⊢
      have closes := (closes_after setting runner schedule).1
      refine (closes.counts setting action).remembers.entered ?_
      rcases over_perform isOver with same | ⟨ending, last, -⟩
      · exact ih (same ▸ isOver)
      · exact closes.entered (by simp [last, Operation.ending?])

/-- The hooks in front of all branches that are run along a schedule, in their order. -/
def openings (setting : Setting Call Env) (process : Process Call Env) (schedule : List Action) :
    List Nat :=
  (process.history setting (handed setting) schedule).filterMap Role.beforeAll?

/-- The hooks behind all branches that are run along a schedule, in their order. -/
def closings (setting : Setting Call Env) (process : Process Call Env) (schedule : List Action) :
    List Nat :=
  (process.history setting (handed setting) schedule).filterMap Role.afterAll?

/-- When a hook in front of all branches is run: if the stop token is down and was never seen, none of
these hooks has failed, and nothing was run but those in front of it. -/
structure Leads (setting : Setting Call Env) (process : Process Call Env) (earlier : List Action)
    (index : Nat) : Prop where
  calm : (process.after setting earlier).isStopped = false
  unseen : process.history setting sighted earlier = []
  sound : process.history setting (failedBefore setting) earlier = []
  first : process.history setting (handed setting) earlier =
    (List.range index).map .beforeEverything

/-- How the hooks around all branches are run: in order, each once at most, those behind all branches
either not at all or to the last one, and always when the run has come to its end. -/
structure Surrounds (setting : Setting Call Env) (runner : Runner Env) (schedule : List Action) :
    Prop where
  opens : ∃ count ≤ runner.suite.beforeEverything.length,
    (runner.ready setting).openings setting schedule = List.range count
  leads : ∀ earlier action later index, schedule = earlier ++ action :: later →
    ((runner.ready setting).after setting earlier).handed setting action =
      some (.beforeEverything index) → (runner.ready setting).Leads setting earlier index
  closes : ∃ count ≤ runner.suite.afterEverything.length,
    (runner.ready setting).closings setting schedule = List.range count
  whole : ((runner.ready setting).after setting schedule).isFinished = true →
    (runner.ready setting).closings setting schedule = [] ∨
      (runner.ready setting).closings setting schedule =
        List.range runner.suite.afterEverything.length
  isOver : ((runner.ready setting).after setting schedule).isFinished = true →
    ((runner.ready setting).after setting schedule).runner.control.phase.isOver = true →
      (runner.ready setting).closings setting schedule =
        List.range runner.suite.afterEverything.length

theorem extent_after (setting : Setting Call Env) (runner : Runner Env) (schedule : List Action) :
    ((runner.ready setting).after setting schedule).suite.extent = runner.suite.extent := by
  induction schedule using List.reverseRecOn with
  | nil =>
      rw [after_nil]
      simp only [Runner.ready, Runner.init]
      split <;> rfl
  | append_singleton schedule action ih =>
      rw [after_concat, extent_perform, ih]

variable {runner : Runner Env} {roles : List Role} {faults sights : List Nat}

/-- At rest, all hooks behind all branches have been run if they have been entered. -/
theorem behind_of_isFinished (finished : process.isFinished = true) :
    process.behind =
      if process.runner.control.ranAfterEverything then process.suite.extent.2 else 0 :=
  behind_of_early (ending?_of_isFinished finished)

theorem leads_of_handed {earlier : List Action} {index : Nat}
    (hands : ((runner.ready setting).after setting earlier).handed setting action =
      some (.beforeEverything index)) : (runner.ready setting).Leads setting earlier index := by
  obtain ⟨front, calm⟩ := front_of_handed hands
  obtain ⟨first, sound, unseen⟩ := (opens_after setting runner earlier).at_front front
  exact ⟨calm, unseen, sound, first⟩

/-- Whatever is asked of a runner and whoever has a turn, the hooks around all branches are run as they
should be. -/
theorem surrounds (setting : Setting Call Env) (runner : Runner Env) (schedule : List Action) :
    Surrounds setting runner schedule := by
  obtain ⟨closes, counted⟩ := closes_after setting runner schedule
  have extent := extent_after setting runner schedule
  have rests : ((runner.ready setting).after setting schedule).isFinished = true →
      (runner.ready setting).closings setting schedule = List.range
        (if ((runner.ready setting).after setting schedule).runner.control.ranAfterEverything then
          runner.suite.afterEverything.length else 0) := by
    intro finished
    rw [closings, counted, behind_of_isFinished finished, extent]
    rfl
  refine ⟨?_, ?_, ⟨_, ?_, counted⟩, ?_, ?_⟩
  · obtain ⟨count, within, counted⟩ := (opens_after setting runner schedule).counted
    rw [extent] at within
    exact ⟨count, within, counted⟩
  · intro earlier action later index _ hands
    exact leads_of_handed hands
  · have within := closes.within
    rw [extent] at within
    exact within
  · intro finished
    rw [rests finished]
    split
    · exact .inr rfl
    · exact .inl rfl
  · intro finished isOver
    rw [rests finished, if_pos (entered_of_over setting runner isOver)]

end Process

end TestTree.Run
