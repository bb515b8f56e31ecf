import TestTree.Proofs.Run.Ownership

namespace TestTree.Run

variable {Call Env : Type} {setting : Setting Call Env}

/-- The stages of a walk by single steps. -/
def Stage.isSingle : Stage → Bool
  | .skipping _ | .lookingAhead => true
  | _ => false

/-- A cursor that has not paused and is not about to. -/
structure Cursor.Flows (cursor : Cursor) (stage : Stage) : Prop where
  free : cursor.pending = none
  eager : cursor.pauseBeforeNext = false
  along : stage.isSingle = false

def Operation.Flows : Operation Call → Prop
  | .working workers paused => paused = [] ∧
      ∀ cursor activity, .walking cursor activity ∈ workers → cursor.Flows activity.stage
  | .single _ _ _ | .injecting _ _ _ => False
  | _ => True

/-- Nothing has paused. -/
structure Process.Flows (process : Process Call Env) : Prop where
  unrequested : process.runner.shared.pauseRequested = false
  unpaused : process.runner.control.paused = []
  operation : process.operation.Flows

section Walks

variable {cursor next : Cursor} {shared after : Shared Env} {stage : Stage} {arrival : Arrival}
  {branch : Branch}

theorem pausesAt_eq_false (eager : cursor.pauseBeforeNext = false)
    (undebugged : branch.hasDebugStep = false) (step : Nat) : cursor.pausesAt branch step = false := by
  rw [Cursor.pausesAt, eager, Bool.false_or]
  cases found : branch.steps[step]? with
  | none => rfl
  | some body =>
      have plain : body.identifiers.isDebug = false := by
        simpa using List.any_eq_false.mp undebugged body (List.mem_of_getElem? found)
      simp [plain]

theorem Cursor.Takes.hasDebugStep {step : Nat} {suite after : Suite}
    (takes : cursor.Takes setting suite step after) (found : suite.branch? cursor.branch = some branch) :
    ((after.branch? cursor.branch).getD {}).hasDebugStep = branch.hasDebugStep := by
  rcases takes with ⟨-, rfl⟩ | ⟨-, next⟩
  · rw [found]
    rfl
  · obtain ⟨later, advances, present, -⟩ := Suite.nextStep_advances found setting.skipRepeat
    rw [next] at advances present
    rw [present, Option.getD_some]
    cases advances with
    | advanced => exact Branch.hasDebugStep_of_plan (Branch.plan_advanceTo _ branch)

/-- A walk along a branch without a step to debug flows on until it is done. -/
theorem Walk.flows (walk : Walk setting .run cursor shared stage after next arrival)
    (found : shared.suite.branch? cursor.branch = some branch) (undebugged : branch.hasDebugStep = false)
    (flows : cursor.Flows stage) (unrequested : shared.pauseRequested = false) :
    after.pauseRequested = false ∧ arrival ≠ .away .paused ∧
      ∀ reached, arrival = .at reached → next.Flows reached := by
  obtain ⟨free, eager, along⟩ := flows
  have onward (cursor : Cursor) (stage : Stage) (flows : cursor.Flows stage) :
      shared.pauseRequested = false ∧ Arrival.at stage ≠ .away .paused ∧
        ∀ reached, Arrival.at stage = .at reached → cursor.Flows reached := by
    refine ⟨unrequested, nofun, ?_⟩
    rintro _ ⟨⟩
    exact flows
  cases walk with
  | opened | unguarded | entering | admitted | refused | turnedAway | continued | preparing | begun
  | unbegun | sleeping | ended | trailing | tarnished =>
      exact onward _ _ ⟨free, eager, rfl⟩
  | halted | left => exact ⟨unrequested, nofun, nofun⟩
  | interrupted unstopped requested => simp [unrequested] at requested
  | exhausted suite absent next => exact onward _ _ ⟨free, eager, rfl⟩
  | taken step suite takes executes passes => exact onward _ _ ⟨rfl, eager, rfl⟩
  | passedOver step suite takes skips => cases skips
  | paused step suite takes runs pauses =>
      have passes : ({ cursor with pending := none } : Cursor).pausesAt
          ((suite.branch? cursor.branch).getD {}) step = false :=
        pausesAt_eq_false eager ((takes.hasDebugStep found).trans undebugged) step
      rw [passes] at pauses
      cases pauses
  | skipped | facing | atEnd => cases along
  | marked step error =>
      have own : (shared.branch cursor.branch).hasDebugStep = false := by
        rw [Shared.branch, found]
        exact undebugged
      exact onward _ _ ⟨free, by simp [eager, own], rfl⟩
  | leaving world scope pending cleared =>
      exact onward _ _ ⟨cleared.elim (·.trans free) id, eager, rfl⟩
  | recorded index error arrival goes =>
      rcases goes with rfl | rfl
      · exact onward _ _ ⟨free, eager, rfl⟩
      · exact ⟨unrequested, nofun, nofun⟩

end Walks

namespace Process

variable {process : Process Call Env} {thread : Nat}

theorem flows_finish {runner : Runner Env} (unrequested : runner.shared.pauseRequested = false)
    (unpaused : runner.control.paused = []) {answer : Answer} :
    (runner.finish answer : Process Call Env).Flows :=
  ⟨unrequested, unpaused, trivial⟩

theorem flows_startWorkers {runner : Runner Env} (unpaused : runner.control.paused = []) :
    (startWorkers setting runner).Flows := by
  refine ⟨rfl, rfl, rfl, fun cursor activity listed => ?_⟩
  rw [unpaused, List.map_nil, List.nil_append] at listed
  cases List.eq_of_mem_replicate listed

theorem flows_worker (setting : Setting Call Env) {shared : Shared Env} (worker : Worker Call)
    (unrequested : shared.pauseRequested = false)
    (undebugged : shared.suite.Undebugged)
    (found : ∀ cursor activity, worker = .walking cursor activity →
      (∃ branch, shared.suite.branch? cursor.branch = some branch) ∧ cursor.Flows activity.stage) :
    (worker.turn setting shared).shared.pauseRequested = false ∧
      (worker.turn setting shared).paused = none ∧
      ∀ cursor activity, (worker.turn setting shared).worker = .walking cursor activity →
        cursor.Flows activity.stage := by
  have idle {worker : Worker Call} (stands : worker.course? = none) :
      ∀ cursor activity, worker = .walking cursor activity → cursor.Flows activity.stage := by
    intro cursor activity walking
    rw [walking] at stands
    cases stands
  cases worker with
  | seeking =>
      simp only [Worker.turn]
      split
      · exact ⟨unrequested, rfl, idle rfl⟩
      · exact ⟨unrequested, rfl, idle rfl⟩
  | claiming =>
      simp only [Worker.turn]
      split
      · refine ⟨unrequested, rfl, ?_⟩
        intro cursor activity walking
        cases walking
        exact ⟨rfl, rfl, rfl⟩
      · split
        · exact ⟨unrequested, rfl, idle rfl⟩
        · exact ⟨unrequested, rfl, idle rfl⟩
  | walking cursor activity =>
      obtain ⟨⟨branch, present⟩, flows⟩ := found cursor activity rfl
      have walk := Cursor.turn_walks setting .run cursor shared activity
      obtain ⟨calm, unpaused, onward⟩ :=
        walk.flows present (undebugged cursor.branch branch present) flows unrequested
      simp only [Worker.turn]
      cases turned : (cursor.turn setting .run shared activity).turn with
      | onward later | asleep time later =>
          refine ⟨calm, rfl, ?_⟩
          rintro _ _ ⟨⟩
          exact onward _ (by rw [turned]; rfl)
      | left departure =>
          cases departure with
          | done | stopped => exact ⟨calm, rfl, idle rfl⟩
          | paused => exact absurd (by rw [turned]; rfl) unpaused
  | ended => exact ⟨unrequested, rfl, idle rfl⟩

theorem flows_of_isAside (unrequested : process.runner.shared.pauseRequested = false)
    (unpaused : process.runner.control.paused = []) (aside : process.operation.isAside = true) :
    process.Flows := by
  obtain ⟨runner, operation⟩ := process
  refine ⟨unrequested, unpaused, ?_⟩
  cases operation with
  | working | single | injecting | finished => cases aside
  | beforeEverything | beforeHook | starting | afterEverything | afterHook | concluding => trivial

theorem flows_enterAfterEverything {runner : Runner Env}
    (unrequested : runner.shared.pauseRequested = false) (unpaused : runner.control.paused = [])
    {ending : Ending} : (runner.enterAfterEverything ending : Process Call Env).Flows := by
  unfold Runner.enterAfterEverything
  split
  · exact ⟨unrequested, unpaused, trivial⟩
  · exact ⟨unrequested, unpaused, trivial⟩

theorem Flows.unjoined {workers : List (Worker Call)} {paused : List Cursor} {worker : Worker Call}
    (flows : process.Flows) (order : process.InOrder) (undebugged : process.suite.Undebugged)
    (working : process.operation = .working workers paused) (found : workers[thread]? = some worker) :
    (unjoined setting process thread workers paused worker).Flows := by
  obtain ⟨runner, operation⟩ := process
  obtain rfl := working
  obtain ⟨unrequested, unpaused, rfl, walks⟩ := flows
  have listed := List.mem_of_getElem? found
  obtain ⟨calm, none, onward⟩ := flows_worker setting worker unrequested undebugged (by
    intro cursor activity isWalking
    subst isWalking
    obtain ⟨branch, present, -⟩ := order.orderly.stands (cursor, activity.stage)
      (List.mem_append_left _ (List.mem_append_left _ (List.mem_filterMap.mpr ⟨_, listed, rfl⟩)))
    exact ⟨⟨branch, present⟩, walks cursor activity listed⟩)
  refine ⟨calm, unpaused, ?_, ?_⟩
  · rw [none]
    rfl
  · intro cursor activity listed
    rcases List.mem_or_eq_of_mem_set listed with kept | turned
    · exact walks cursor activity kept
    · exact onward cursor activity turned.symm

theorem Flows.turn {after : Process Call Env} (flows : process.Flows) (order : process.InOrder)
    (undebugged : process.suite.Undebugged) (turns : Turns setting process thread after) :
    after.Flows := by
  have flowing := flows.operation
  cases turns with
  | rested => exact flows
  | tended runner operation tended was aside =>
      exact flows_of_isAside (tended.requested.trans flows.unrequested)
        (tended.paused.trans flows.unpaused) aside
  | started => exact flows_startWorkers flows.unpaused
  | worked workers paused worker working found => exact flows.unjoined order undebugged working found
  | joined workers paused worker working found =>
      have moved : (Process.unjoined setting process thread workers paused worker).Flows :=
        flows.unjoined order undebugged working found
      have idle : paused ++ (worker.turn setting process.runner.shared).paused.toList = [] :=
        moved.operation.1
      rw [idle]
      exact flows_enterAfterEverything moved.unrequested moved.unpaused
  | concluded ending =>
      cases ending with
      | run | single =>
          apply flows_finish
          · exact flows.unrequested
          · exact flows.unpaused
      | stop =>
          apply flows_finish
          · exact flows.unrequested
          · rfl
  | walked _ _ _ _ single | departed _ _ _ _ single =>
      rw [single] at flowing
      exact flowing.elim
  | delayed _ _ _ _ _ _ injecting | injected _ _ _ _ _ _ injecting =>
      rw [injecting] at flowing
      exact flowing.elim

theorem takePaused_eq_none {runner : Runner Env} (unpaused : runner.control.paused = []) :
    runner.takePaused = none := by
  rw [Runner.takePaused, unpaused]
  cases runner.control.phase <;> rfl

theorem flows_launch {runner : Runner Env} (unrequested : runner.shared.pauseRequested = false)
    (unpaused : runner.control.paused = []) {request : Request} {after : Process Call Env}
    (launches : Launches setting runner request after) : after.Flows := by
  have none := takePaused_eq_none unpaused
  cases launches with
  | refused => exact flows_finish unrequested unpaused
  | prepared =>
      simp only [Runner.init]
      split
      · exact flows_finish unrequested unpaused
      · apply flows_finish
        · exact unrequested
        · exact unpaused
  | begun operation running opens =>
      rcases opens with rfl | rfl
      · exact ⟨unrequested, unpaused, trivial⟩
      · exact ⟨unrequested, unpaused, trivial⟩
  | single _ purpose cursor rest taken => simp [none] at taken
  | injecting line cursor rest step call taken => simp [none] at taken
  | injected line cursor rest step outcome taken => simp [none] at taken
  | stopped =>
      apply flows_enterAfterEverything
      · exact unrequested
      · exact unpaused

theorem Flows.perform (flows : process.Flows) (order : process.InOrder)
    (undebugged : process.suite.Undebugged) (action : Action) :
    (process.perform setting action).Flows := by
  cases action with
  | turn thread => exact flows.turn order undebugged (turn_turns setting process thread)
  | request request =>
      simp only [Process.perform]
      split
      · exact flows_launch flows.unrequested flows.unpaused
          (launch_launches setting process.runner request)
      · exact flows
  | raiseStop | wait => exact ⟨flows.unrequested, flows.unpaused, flows.operation⟩

theorem flows_ready (setting : Setting Call Env) (runner : Runner Env) :
    (runner.ready setting).Flows := by
  simp only [Runner.ready, Runner.init]
  split
  · exact flows_finish rfl rfl
  · exact flows_finish rfl rfl

theorem Flows.walk? (flows : process.Flows) {purpose : Purpose} {cursor : Cursor}
    {activity : Activity Call} (walking : process.walk? thread = some (purpose, cursor, activity)) :
    purpose = .run ∧ cursor.Flows activity.stage := by
  have flowing := flows.operation
  unfold Process.walk? at walking
  split at walking
  · next workers paused operation =>
      rw [operation] at flowing
      split at walking
      · next found =>
          obtain ⟨rfl, rfl, rfl⟩ : _ ∧ _ ∧ _ := by simpa using walking
          exact ⟨rfl, flowing.2 _ _ (List.mem_of_getElem? found)⟩
      · cases walking
  · next operation =>
      rw [operation] at flowing
      exact flowing.elim
  · cases walking

theorem Flows.injects (flows : process.Flows) (action : Action) : process.injects action = none := by
  have flowing := flows.operation
  unfold Process.injects
  split
  · split
    · next operation =>
        rw [operation] at flowing
        exact flowing.elim
    · rfl
  · rw [takePaused_eq_none flows.unpaused]
    split <;> rfl
  · rfl

end Process

end TestTree.Run
