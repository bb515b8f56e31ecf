import TestTree.Proofs.Run.Ownership

namespace TestTree.Run

variable {Call Env : Type}

/-- The branch and the step that a body is run for. -/
def Role.place? : Role → Option (Nat × Nat)
  | .step branch number | .beforeStep branch number _ | .afterStep branch number _ =>
      some (branch, number)
  | _ => none

/-- The branch whose own code a body is. Injected steps belong to none. -/
def Role.branch? : Role → Option Nat
  | .beforeBranch branch _ | .afterBranch branch _ | .beforeStep branch _ _ | .afterStep branch _ _
  | .step branch _ => some branch
  | .beforeEverything _ | .afterEverything _ | .injected _ => none

theorem Role.place?_eq_none {role : Role} (aside : role.branch? = none) : role.place? = none := by
  cases role with
  | beforeEverything | afterEverything | injected | beforeBranch | afterBranch => rfl
  | beforeStep | afterStep | step => cases aside

structure Log where
  roles : List Role := []
  skips : List (Nat × Nat) := []
  pauses : List (Nat × Nat) := []

namespace Log

def append (log new : Log) : Log :=
  ⟨log.roles ++ new.roles, log.skips ++ new.skips, log.pauses ++ new.pauses⟩

/-- How far the notes of a branch reach: its bodies, the steps that bodies were run for at all, the
steps skipped and those paused at. -/
structure Below (log : Log) (index bodies touched skips pauses : Nat) : Prop where
  bodies : ∀ step, .step index step ∈ log.roles → step < bodies
  touched : ∀ role ∈ log.roles, ∀ step, role.place? = some (index, step) → step < touched
  skips : ∀ step, (index, step) ∈ log.skips → step < skips
  pauses : ∀ step, (index, step) ∈ log.pauses → step < pauses

variable {log new : Log} {index bodies touched skips pauses : Nat}

theorem Below.mono (below : log.Below index bodies touched skips pauses)
    {bodies' touched' skips' pauses' : Nat} (bodies_le : bodies ≤ bodies')
    (touched_le : touched ≤ touched') (skips_le : skips ≤ skips') (pauses_le : pauses ≤ pauses') :
    log.Below index bodies' touched' skips' pauses' where
  bodies step member := Nat.lt_of_lt_of_le (below.bodies step member) bodies_le
  touched role member step place := Nat.lt_of_lt_of_le (below.touched role member step place) touched_le
  skips step member := Nat.lt_of_lt_of_le (below.skips step member) skips_le
  pauses step member := Nat.lt_of_lt_of_le (below.pauses step member) pauses_le

theorem Below.append (below : log.Below index bodies touched skips pauses)
    (added : new.Below index bodies touched skips pauses) :
    (log.append new).Below index bodies touched skips pauses where
  bodies step member := (List.mem_append.mp member).elim (below.bodies step) (added.bodies step)
  touched role member := (List.mem_append.mp member).elim (below.touched role) (added.touched role)
  skips step member := (List.mem_append.mp member).elim (below.skips step) (added.skips step)
  pauses step member := (List.mem_append.mp member).elim (below.pauses step) (added.pauses step)

/-- Nothing is noted of a branch. -/
def Spares (log : Log) (index : Nat) : Prop := log.Below index 0 0 0 0

theorem Below.append_spares (below : log.Below index bodies touched skips pauses)
    (spares : new.Spares index) : (log.append new).Below index bodies touched skips pauses :=
  below.append (spares.mono (Nat.zero_le _) (Nat.zero_le _) (Nat.zero_le _) (Nat.zero_le _))

end Log

namespace Process

/-- What an action adds to the notes. -/
def noted (setting : Setting Call Env) (process : Process Call Env) (action : Action) : Log :=
  ⟨(process.handed setting action).toList, (process.skippedStep action).toList,
    (process.pausedBefore setting action).toList⟩

/-- The notes of a schedule. -/
def log (setting : Setting Call Env) (process : Process Call Env) (schedule : List Action) : Log :=
  ⟨process.history setting (handed setting) schedule, process.history setting skippedStep schedule,
    process.history setting (pausedBefore setting) schedule⟩

variable {setting : Setting Call Env} {process : Process Call Env}

theorem log_concat (schedule : List Action) (action : Action) :
    process.log setting (schedule ++ [action]) =
      (process.log setting schedule).append ((process.after setting schedule).noted setting action) := by
  simp only [log, history_concat]
  rfl

end Process

theorem Activity.place_of_role {activity : Activity Call} {branch : Nat} {role : Role}
    (runs : activity.role? branch = some role) :
    role.place? = none ∨ ∃ step, role.place? = some (branch, step) ∧
      (activity.stage = .before step ∨ activity.stage = .within step ∨
        ∃ error, activity.stage = .behind step error) := by
  cases activity with
  | beforeBranch | afterBranch =>
      cases runs
      exact .inl rfl
  | beforeStep step =>
      cases runs
      exact .inr ⟨step, rfl, .inl rfl⟩
  | body step =>
      cases runs
      exact .inr ⟨step, rfl, .inr (.inl rfl)⟩
  | afterStep step index error =>
      cases runs
      exact .inr ⟨step, rfl, .inr (.inr ⟨error, rfl⟩)⟩
  | opening | beforeBranchFailed | looping | taking | skipping | preparing | marking | lookingAhead
  | closing | afterBranchFailed => cases runs

theorem Activity.stage_of_body {activity : Activity Call} {index branch step : Nat}
    (runs : activity.role? index = some (.step branch step)) :
    branch = index ∧ activity.stage = .within step := by
  cases activity with
  | body => cases runs; exact ⟨rfl, rfl⟩
  | beforeBranch | afterBranch | beforeStep | afterStep | opening | beforeBranchFailed | looping
  | taking | skipping | preparing | marking | lookingAhead | closing | afterBranchFailed => cases runs

/-- A step is entered from the hooks before it. -/
theorem Walk.enters {setting : Setting Call Env} {purpose : Purpose} {cursor next : Cursor}
    {shared after : Shared Env} {stage : Stage} {arrival : Arrival} {step : Nat}
    (walk : Walk setting purpose cursor shared stage after next arrival)
    (arrives : arrival = .at (.within step)) : stage = .before step ∨ stage = .within step := by
  cases walk with
  | begun => cases arrives; exact .inl rfl
  | sleeping => cases arrives; exact .inr rfl
  | marked => split at arrives <;> cases arrives
  | recorded _ _ _ goes => rcases goes with rfl | rfl <;> cases arrives
  | opened | unguarded | entering | admitted | refused | turnedAway | halted | interrupted | continued
  | exhausted | taken | passedOver | paused | skipped | preparing | unbegun | ended | trailing
  | facing | atEnd | leaving | tarnished | left => cases arrives

/-- A body goes on only behind a sleep; a turn without one leads out of it. -/
theorem Cursor.onward_body {setting : Setting Call Env} {purpose : Purpose} {cursor : Cursor}
    {shared : Shared Env} {step : Nat} {call : Call} {next : Activity Call}
    (goes : (cursor.turn setting purpose shared (.body step call)).turn = .onward next) :
    ∃ error, next.stage = .behind step error := by
  obtain ⟨reply, world, advanced⟩ := advance_eq setting shared call
  simp only [turn, advanced] at goes
  rcases reply with ⟨time, later⟩ | ⟨result, scope⟩
  · cases goes
  · dsimp only at goes
    split at goes
    · cases goes
      exact ⟨_, stage_beginAfterStep _ _ _ _ _ _⟩
    · cases goes
      obtain ⟨_, error, _, stage⟩ := endBody_eq setting
        (({ shared with world } : Shared Env).branch cursor.branch) { cursor with scope } step _
      exact ⟨error, stage⟩

/-- Where a turn of a walk may add notes, and which. -/
structure Notes (cursor next : Cursor) (stage : Stage) (arrival : Arrival) (new : Log) : Prop where
  roles : ∀ role ∈ new.roles, role.place? = none ∨ ∃ step,
    role.place? = some (cursor.branch, step) ∧ (arrival = .at (.before step) ∨
      arrival = .at (.within step) ∨ ∃ error, arrival = .at (.behind step error))
  bodies : ∀ branch step, .step branch step ∈ new.roles →
    branch = cursor.branch ∧ stage = .before step ∧ arrival = .at (.within step)
  skips : ∀ branch step, (branch, step) ∈ new.skips → branch = cursor.branch ∧ stage = .skipping step
  pauses : ∀ branch step, (branch, step) ∈ new.pauses →
    branch = cursor.branch ∧ stage = .taking ∧ arrival = .away .paused ∧ next.pending = some step

namespace Process

variable {setting : Setting Call Env} {process : Process Call Env} {thread : Nat} {purpose : Purpose}
  {cursor : Cursor} {activity : Activity Call}

theorem role?_enterAfterEverything (runner : Runner Env) (ending : Ending) :
    (runner.enterAfterEverything ending : Process Call Env).role? thread = none := by
  unfold Runner.enterAfterEverything
  split <;> rfl

theorem role?_join (runner : Runner Env) (paused : List Cursor) :
    (join runner paused : Process Call Env).role? thread = none := by
  unfold join
  split
  · exact role?_enterAfterEverything _ _
  · split
    · exact role?_enterAfterEverything _ _
    · rfl

theorem role?_afterSingle (runner : Runner Env) (departure : Departure) :
    (afterSingle runner cursor departure : Process Call Env).role? thread = none := by
  unfold afterSingle
  split
  · rfl
  · split
    · rfl
    · split
      · rfl
      · exact role?_enterAfterEverything _ _

theorem handed_of_working {runner : Runner Env} {workers : List (Worker Call)} {paused : List Cursor}
    {worker : Worker Call} {role : Role} (found : workers[thread]? = some worker)
    (hands : (⟨runner, .working workers paused⟩ : Process Call Env).handed setting (.turn thread) =
      some role) :
    ∃ next activity, (worker.turn setting runner.shared).worker = .walking next activity ∧
      (worker.turn setting runner.shared).sleep = none ∧ activity.role? next.branch = some role := by
  have bound := (List.getElem?_eq_some_iff.mp found).1
  simp only [handed, turn, found] at hands
  split at hands
  · next process moved =>
    split at moved
    · cases moved
      simp [role?_join] at hands
    · obtain ⟨rfl, awake⟩ := Prod.mk.inj moved
      cases turned : (worker.turn setting runner.shared).worker with
      | walking next activity =>
          rw [turned] at hands
          exact ⟨next, activity, rfl, awake, by simpa [role?, walk?, bound] using hands⟩
      | seeking | claiming | ended => simp [role?, walk?, bound, turned] at hands
  · cases hands

theorem handed_of_walk (walking : process.walk? thread = some (purpose, cursor, activity)) {role : Role}
    (hands : process.handed setting (.turn thread) = some role) :
    ∃ next, (cursor.turn setting purpose process.runner.shared activity).turn = .onward next ∧
      next.role? (cursor.turn setting purpose process.runner.shared activity).cursor.branch =
        some role := by
  obtain ⟨runner, operation⟩ := process
  cases operation with
  | working workers paused =>
      simp only [walk?] at walking
      split at walking
      · next found =>
        cases walking
        obtain ⟨next, activity, walks, awake, runs⟩ := handed_of_working found hands
        simp only [Worker.turn] at walks awake
        split at walks
        · next goes =>
          cases walks
          exact ⟨_, goes, runs⟩
        · next goes => simp [goes] at awake
        · cases walks
        · cases walks
        · cases walks
      · cases walking
  | single purpose cursor activity =>
      cases walking
      simp only [handed, turn] at hands
      split at hands
      · next goes =>
        split at goes
        · next next turned =>
          cases goes
          exact ⟨next, turned, by simpa [role?, walk?] using hands⟩
        · cases goes
        · cases goes
          simp [role?_afterSingle] at hands
      · cases hands
  | beforeEverything | beforeHook | starting | afterEverything | afterHook | concluding | injecting
  | finished => cases walking

/-- What a turn of a walk adds to the notes. -/
theorem notes_of_walk (own : (cursor.turn setting purpose process.runner.shared activity).cursor.branch =
      cursor.branch) (walking : process.walk? thread = some (purpose, cursor, activity)) :
    Notes cursor (cursor.turn setting purpose process.runner.shared activity).cursor activity.stage
      (cursor.turn setting purpose process.runner.shared activity).turn.arrival
      (process.noted setting (.turn thread)) := by
  refine ⟨?_, ?_, ?_, ?_⟩
  · intro role member
    obtain ⟨next, goes, runs⟩ := handed_of_walk walking (Option.mem_toList.mp member)
    rw [own] at runs
    rw [goes]
    rcases Activity.place_of_role runs with none | ⟨step, place, stage⟩
    · exact .inl none
    · simp only [Turn.arrival, Arrival.at.injEq]
      exact .inr ⟨step, place, stage⟩
  · intro branch step member
    obtain ⟨next, goes, runs⟩ := handed_of_walk walking (Option.mem_toList.mp member)
    rw [own] at runs
    obtain ⟨rfl, stage⟩ := Activity.stage_of_body runs
    have arrives : (cursor.turn setting purpose process.runner.shared activity).turn.arrival =
        .at (.within step) := by
      rw [goes, Turn.arrival, stage]
    have walk := Cursor.turn_walks setting purpose cursor process.runner.shared activity
    refine ⟨rfl, (walk.enters arrives).resolve_right fun inside => ?_, arrives⟩
    cases activity with
    | body =>
        cases inside
        obtain ⟨error, behind⟩ := Cursor.onward_body goes
        rw [stage] at behind
        cases behind
    | opening | beforeBranch | beforeBranchFailed | looping | taking | skipping | preparing
    | beforeStep | afterStep | marking | lookingAhead | closing | afterBranch
    | afterBranchFailed => cases inside
  · intro branch step member
    have skips := Option.mem_toList.mp member
    simp only [skippedStep, walking] at skips
    split at skips
    · next same =>
      cases same
      cases skips
      exact ⟨rfl, rfl⟩
    · cases skips
  · intro branch step member
    have pauses := Option.mem_toList.mp member
    simp only [pausedBefore, walking] at pauses
    split at pauses
    · next same =>
      cases same
      split at pauses
      · next left =>
        obtain ⟨step, pending, same⟩ := Option.map_eq_some_iff.mp pauses
        cases same
        exact ⟨rfl, rfl, by rw [left]; rfl, pending⟩
      · cases pauses
    · cases pauses

theorem aside_of_role? {role : Role} (runs : process.role? thread = some role)
    (aside : ∀ purpose cursor activity, process.walk? thread = some (purpose, cursor, activity) →
      activity.role? cursor.branch = none) : role.branch? = none := by
  unfold role? at runs
  split at runs
  · cases runs
    rfl
  · cases runs
    rfl
  · cases runs
    rfl
  · obtain ⟨⟨purpose, cursor, activity⟩, walking, runs⟩ := Option.bind_eq_some_iff.mp runs
    cases (aside purpose cursor activity walking).symm.trans runs

theorem aside_of_role?_of_still {role : Role} (runs : process.role? thread = some role)
    (still : process.walk? thread = none) : role.branch? = none :=
  aside_of_role? runs fun purpose cursor activity walking => by
    rw [still] at walking
    cases walking

theorem aside_startWorkers (runner : Runner Env) (purpose : Purpose) (cursor : Cursor)
    (activity : Activity Call)
    (walking : (startWorkers setting runner).walk? thread = some (purpose, cursor, activity)) :
    activity.role? cursor.branch = none := by
  simp only [startWorkers, walk?] at walking
  split at walking
  · next found =>
    cases walking
    rcases List.mem_append.mp (List.mem_of_getElem? found) with resumed | waiting
    · obtain ⟨resting, _, same⟩ := List.mem_map.mp resumed
      unfold Worker.resume at same
      split at same <;> cases same <;> rfl
    · cases List.eq_of_mem_replicate waiting
  · cases walking

theorem role?_of_handed {role : Role} (hands : process.handed setting (.turn thread) = some role) :
    (process.turn setting thread).1.role? thread = some role := by
  simp only [handed] at hands
  split at hands
  · next turned =>
    rw [turned]
    exact hands
  · cases hands

theorem aside_of_turns {after : Process Call Env} (turns : Turns setting process thread after)
    (still : process.walk? thread = none) {role : Role} (runs : after.role? thread = some role) :
    role.branch? = none := by
  cases turns with
  | rested => exact aside_of_role?_of_still runs still
  | tended runner operation tended was aside =>
      exact aside_of_role?_of_still runs (walk?_of_isAside aside)
  | started => exact aside_of_role? runs (aside_startWorkers process.runner)
  | worked workers paused worker working found =>
      have bound := (List.getElem?_eq_some_iff.mp found).1
      cases worker with
      | walking => simp [walk?, working, found] at still
      | seeking =>
          simp only [unjoined, Worker.turn] at runs
          split at runs <;> simp [role?, walk?, bound] at runs
      | claiming =>
          simp only [unjoined, Worker.turn] at runs
          split at runs
          · simp [role?, walk?, bound, Activity.role?] at runs
          · split at runs <;> simp [role?, walk?, bound] at runs
      | ended => simp [unjoined, Worker.turn, role?, walk?, bound] at runs
  | joined =>
      rw [role?_join] at runs
      cases runs
  | concluded ending => cases ending <;> cases runs
  | walked _ _ _ _ single | departed _ _ _ _ single => simp [walk?, single] at still
  | delayed => exact aside_of_role?_of_still runs rfl
  | injected => cases runs

theorem aside_of_launches {runner : Runner Env} {request : Request} {after : Process Call Env}
    (launches : Launches setting runner request after) {role : Role}
    (runs : after.role? 0 = some role) : role.branch? = none := by
  apply aside_of_role? runs
  intro purpose cursor activity walking
  cases launches with
  | begun operation running opens => rcases opens with rfl | rfl <;> cases walking
  | single =>
      cases walking
      rfl
  | stopped =>
      rw [walk?_of_isAside (isAside_enterAfterEverything _ _)] at walking
      cases walking
  | refused | prepared | injecting | injected => cases walking

theorem aside_of_still {action : Action}
    (still : ∀ thread, action = .turn thread → process.walk? thread = none) {role : Role}
    (hands : process.handed setting action = some role) : role.branch? = none := by
  cases action with
  | turn thread =>
      exact aside_of_turns (turn_turns setting process thread) (still thread rfl) (role?_of_handed hands)
  | request request =>
      simp only [handed] at hands
      split at hands
      · exact aside_of_launches (launch_launches setting process.runner request) hands
      · cases hands
  | raiseStop | wait => cases hands

/-- No action outside a walk runs a body for a step, skips a step or pauses in front of one. -/
theorem spares_of_still {action : Action}
    (still : ∀ thread, action = .turn thread → process.walk? thread = none) (index : Nat) :
    (process.noted setting action).Spares index := by
  have hands : ∀ role, process.handed setting action = some role → role.place? = none :=
    fun _ hands => Role.place?_eq_none (aside_of_still still hands)
  refine ⟨?_, ?_, ?_, ?_⟩
  · intro step member
    have place := hands _ (Option.mem_toList.mp member)
    cases place
  · intro role member step place
    rw [hands role (Option.mem_toList.mp member)] at place
    cases place
  · intro step member
    have skips := Option.mem_toList.mp member
    cases action with
    | turn thread => simp [skippedStep, still thread rfl] at skips
    | request | raiseStop | wait => cases skips
  · intro step member
    have pauses := Option.mem_toList.mp member
    cases action with
    | turn thread => simp [pausedBefore, still thread rfl] at pauses
    | request | raiseStop | wait => cases pauses

end Process

end TestTree.Run
