import TestTree.Proofs.Run.Flow
import TestTree.Proofs.Run.Foresight

namespace TestTree

namespace Branch

variable {branch after : Branch}

/-- No step has failed, unless the branch is at its end. -/
def Spotless (branch : Branch) : Prop :=
  branch.status.isCompleted = true ∨ ∀ step ∈ branch.steps, step.status.isFailed = false

theorem Spotless.of_same (spotless : branch.Spotless)
    (completed : branch.status.isCompleted = true → after.status.isCompleted = true)
    (steps : after.steps.map (·.status.isFailed) = branch.steps.map (·.status.isFailed)) :
    after.Spotless := by
  refine spotless.imp completed fun clean step listed => ?_
  have among : step.status.isFailed ∈ after.steps.map (·.status.isFailed) :=
    List.mem_map_of_mem listed
  rw [steps] at among
  obtain ⟨other, isOther, same⟩ := List.mem_map.mp among
  exact same.symm.trans (clean other isOther)

theorem Spotless.advances {taken : Option Nat} (spotless : branch.Spotless)
    (advances : branch.Advances taken after) : after.Spotless := by
  cases advances with
  | ended => exact spotless
  | exhausted | blocked => exact .inl branch.completed_of_finish
  | advanced =>
      refine spotless.of_same (fun completed => completed) ?_
      rw [advanceTo, map_setAt (by intro _; rfl), List.map_map]
      rfl

theorem firstFailure_of_same (steps : after.steps.map (·.status.isFailed) =
    branch.steps.map (·.status.isFailed)) : after.firstFailure = branch.firstFailure := by
  have counted (branch : Branch) :
      branch.firstFailure = (branch.steps.map (·.status.isFailed)).findIdx? fun failed => failed := by
    rw [List.findIdx?_map]
    rfl
  rw [counted, counted, steps]

theorem firstFailure_finish (branch : Branch) : branch.finish.firstFailure = branch.firstFailure := by
  refine firstFailure_of_same ?_
  rw [finish, List.map_map]
  rfl

theorem Advances.firstFailure {taken : Option Nat} (advances : branch.Advances taken after) :
    after.firstFailure = branch.firstFailure := by
  cases advances with
  | ended => rfl
  | exhausted | blocked => exact branch.firstFailure_finish
  | advanced =>
      refine firstFailure_of_same ?_
      rw [advanceTo, map_setAt (by intro _; rfl), List.map_map]
      rfl

theorem firstFailure_eq_none (clean : ∀ step ∈ branch.steps, step.status.isFailed = false) :
    branch.firstFailure = none :=
  List.findIdx?_eq_none_iff.mpr clean

/-- Behind a recorded outcome the first failed step is the recorded one, if it failed. -/
theorem firstFailure_recordAt {step : Nat} {outcome : Outcome} (inside : step < branch.steps.length)
    (clean : ∀ step ∈ branch.steps, step.status.isFailed = false) :
    (branch.recordAt step outcome).firstFailure = if outcome.isPassed then none else some step := by
  have unfailed (index : Nat) (other : BranchStep) (found : branch.steps[index]? = some other) :
      other.status.isFailed = false := clean other (List.mem_of_getElem? found)
  have here (index : Nat) : (branch.recordAt step outcome).steps[index]?.map (·.status.isFailed) =
      if step = index then some (!outcome.isPassed)
      else branch.steps[index]?.map fun _ => false := by
    rw [recordAt, getElem?_setAt]
    cases found : branch.steps[index]? with
    | none =>
        have outside := List.getElem?_eq_none_iff.mp found
        rw [if_neg (by omega), if_neg (by omega)]
        rfl
    | some other =>
        have clean := unfailed index other found
        split <;> simp [BranchStep.record, clean]
  have found (index : Nat) (other : BranchStep)
      (at_ : (branch.recordAt step outcome).steps[index]? = some other) :
      other.status.isFailed = true ↔ step = index ∧ outcome.isPassed = false := by
    have shown := here index
    rw [at_, Option.map_some] at shown
    split at shown
    · next same => simp [same, Option.some.inj shown]
    · next different =>
        obtain ⟨before, present, same⟩ := Option.map_eq_some_iff.mp shown.symm
        simp [different, ← same]
  have length : (branch.recordAt step outcome).steps.length = branch.steps.length :=
    length_setAt _ _ _
  cases passed : outcome.isPassed with
  | true =>
      refine firstFailure_eq_none fun other listed => ?_
      obtain ⟨index, at_⟩ := List.getElem?_of_mem listed
      simpa [passed] using (found index other at_).not
  | false =>
      refine List.findIdx?_eq_some_iff_getElem.mpr ⟨by rw [length]; exact inside, ?_, ?_⟩
      · exact (found step _ (List.getElem?_eq_getElem _)).mpr ⟨rfl, passed⟩
      · intro earlier before failed
        have := (found earlier _ (List.getElem?_eq_getElem _)).mp failed
        omega

theorem Spotless.markAt {step : Nat} {outcome : Outcome} {stopBranch : Bool} (spotless : branch.Spotless)
    (active : branch.isActive = true) (inside : step < branch.steps.length)
    (stops : outcome.isPassed = false → stopBranch = true) :
    (branch.markAt step outcome stopBranch).Spotless := by
  unfold Branch.markAt
  split
  · exact .inl (branch.recordAt step outcome).completed_of_finish
  · next goes =>
      have clean := spotless.resolve_left (by simp [(isActive_iff.mp active).2])
      cases passed : outcome.isPassed with
      | false => simp [stops passed] at goes
      | true =>
          have none : (branch.recordAt step outcome).firstFailure = none := by
            rw [firstFailure_recordAt inside clean, passed]
            rfl
          exact .inr (List.findIdx?_eq_none_iff.mp none)

def errorAt (step : Nat) (branch : Branch) : Option StepError := branch.steps[step]?.bind (·.error)

theorem errorAt_markAt {step : Nat} {outcome : Outcome} {stopBranch : Bool}
    (inside : step < branch.steps.length) :
    (branch.markAt step outcome stopBranch).errorAt step = outcome.error := by
  have recorded : (branch.recordAt step outcome).errorAt step = outcome.error := by
    rw [errorAt, recordAt, getElem?_setAt, if_pos rfl, List.getElem?_eq_getElem inside]
    rfl
  unfold markAt
  split
  · rw [errorAt, finish, List.getElem?_map, ← recorded, errorAt]
    cases (branch.recordAt step outcome).steps[step]? <;> rfl
  · exact recorded

end Branch

namespace Run

variable {Call Env : Type} {setting : Setting Call Env}

section Walks

variable {purpose : Purpose} {cursor next : Cursor} {shared after : Shared Env} {branch : Branch}
  {stage : Stage} {arrival : Arrival}

theorem spotless_of_nextStep {taken : Option Nat} {suite : Suite} {later : Branch}
    (found : shared.suite.branch? cursor.branch = some branch) (spotless : branch.Spotless)
    (next : shared.suite.nextStep cursor.branch true setting.skipRepeat = (taken, suite))
    (present : suite.branch? cursor.branch = some later) : later.Spotless := by
  obtain ⟨after, advances, there, -⟩ := Suite.nextStep_advances found setting.skipRepeat
  rw [next] at advances there
  obtain rfl := Option.some.inj (there.symm.trans present)
  exact spotless.advances advances

theorem spotless_of_takes {step : Nat} {suite : Suite} {later : Branch}
    (found : shared.suite.branch? cursor.branch = some branch) (spotless : branch.Spotless)
    (takes : cursor.Takes setting shared.suite step suite)
    (present : suite.branch? cursor.branch = some later) : later.Spotless := by
  rcases takes with ⟨-, rfl⟩ | ⟨-, next⟩
  · obtain rfl := Option.some.inj (found.symm.trans present)
    exact spotless
  · exact spotless_of_nextStep found spotless next present

/-- No walk along a branch without a step to debug leaves a failed step behind and goes on. -/
theorem Walk.spotless (walk : Walk setting purpose cursor shared stage after next arrival)
    (found : shared.suite.branch? cursor.branch = some branch) (stands : stage.Stands cursor branch)
    (undebugged : branch.hasDebugStep = false) (spotless : branch.Spotless) {later : Branch}
    (present : after.suite.branch? cursor.branch = some later) : later.Spotless := by
  cases walk with
  | opened | unguarded | entering | admitted | refused | halted | interrupted | continued | preparing
  | begun | unbegun | sleeping | ended | trailing | leaving | tarnished | left =>
      obtain rfl := Option.some.inj (found.symm.trans present)
      exact spotless
  | turnedAway index error =>
      rw [Shared.modify, Suite.branch?_modify_self found] at present
      obtain rfl := Option.some.inj present
      exact .inl (by simp [Cursor.recordBeforeBranch, Status.isCompleted])
  | exhausted suite absent next => exact spotless_of_nextStep found spotless next present
  | taken step suite takes | passedOver step suite takes | paused step suite takes =>
      exact spotless_of_takes found spotless takes present
  | facing step suite next => exact spotless_of_nextStep found spotless next present
  | atEnd suite next => exact spotless_of_nextStep found spotless next present
  | skipped step =>
      rw [Shared.modify, Suite.branch?_modify_self found] at present
      obtain rfl := Option.some.inj present
      exact spotless.of_same id (map_setAt (by intro _; rfl) _ _)
  | marked step error =>
      obtain ⟨started, active, faces, free⟩ := stands
      obtain ⟨there, -⟩ := Suite.markStep_marks found step
        (outcomeOf (shared.branch cursor.branch) step error)
        (!error.isNone && !(shared.branch cursor.branch).hasDebugStep) setting.skipRepeat
      obtain rfl := Option.some.inj (there.symm.trans present)
      refine spotless.markAt active faces.inside fun failed => ?_
      have own : shared.branch cursor.branch = branch := branch_of_found found shared.world
      rw [own, undebugged]
      simpa [outcomeOf] using failed
  | recorded index error =>
      rw [Shared.modify, Suite.branch?_modify_self found] at present
      obtain rfl := Option.some.inj present
      exact .inl (completed_of_recordAfterBranch stands)

end Walks

section Others

variable {index other : Nat} {before after : Suite} {branch : Branch}

theorem branch?_of_busy (keeps : Suite.KeepsOthers index before after) (different : other ≠ index)
    (found : before.branch? other = some branch) (busy : branch.isIdle = false) :
    after.branch? other = some branch := by
  rcases keeps.others other different with same | ⟨idling, line, present, idle, -⟩
  · exact same.trans found
  · obtain rfl := Option.some.inj (present.symm.trans found)
    simp [busy] at idle

theorem spotless_of_keepsOthers (keeps : Suite.KeepsOthers index before after)
    (different : other ≠ index)
    (spotless : ∀ branch, before.branch? other = some branch → branch.Spotless)
    (present : after.branch? other = some branch) : branch.Spotless := by
  rcases keeps.others other different with same | ⟨idling, line, -, -, skipped⟩
  · exact spotless branch (same.symm.trans present)
  · obtain rfl := Option.some.inj (skipped.symm.trans present)
    exact .inl (by simp [Suite.skip, Status.isCompleted])

end Others

namespace Process

variable {process between : Process Call Env} {action : Action} {pure : setting.executor.Functional}

/-- How a process without steps to debug stands. -/
structure Predicted (pure : setting.executor.Functional) (process : Process Call Env) : Prop where
  order : process.InOrder
  flows : process.Flows
  undebugged : process.suite.Undebugged
  spotless : ∀ index branch, process.suite.branch? index = some branch → branch.Spotless
  foretold : ∀ course ∈ process.courses, ∀ branch,
    process.suite.branch? course.1.branch = some branch → Foretells pure branch course.1 course.2

theorem InOrder.stands (order : process.InOrder) {course : Course Call}
    (listed : course ∈ process.courses) : ∃ branch,
      process.suite.branch? course.1.branch = some branch ∧ course.2.stage.Stands course.1 branch := by
  have among : course.walker ∈ process.walkers := by
    rw [walkers_eq]
    exact List.mem_map_of_mem listed
  exact order.orderly.stands course.walker among

theorem InOrder.treads (order : process.InOrder) (setting : Setting Call Env) (purpose : Purpose)
    {cursor : Cursor} {activity : Activity Call} (listed : (cursor, activity) ∈ process.courses) :
    ∃ own after, process.suite.branch? cursor.branch = some own ∧
      activity.stage.Stands cursor own ∧
      Treads cursor process.suite own
        (cursor.turn setting purpose process.runner.shared activity).shared.suite
        (cursor.turn setting purpose process.runner.shared activity).cursor
        (cursor.turn setting purpose process.runner.shared activity).turn.arrival after := by
  obtain ⟨own, present, stands⟩ := order.stands listed
  have walk := Cursor.turn_walks setting purpose cursor process.runner.shared activity
  obtain ⟨after, treads⟩ := walk.treads present stands (order.orderly.settled _ own present)
  exact ⟨own, after, present, stands, treads⟩

theorem InOrder.apart (order : process.InOrder) {course other : Course Call}
    {others : List (Course Call)} (held : process.courses.Perm (course :: others))
    (listed : other ∈ others) : other.1.branch ≠ course.1.branch := by
  have orderly := order.orderly
  rw [walkers_eq] at orderly
  have permuted : Orderly process.suite ((course :: others).map Course.walker) :=
    orderly.perm rfl (held.map _).symm
  exact permuted.ne_of_mem (List.mem_map_of_mem listed)

theorem Predicted.spotless_steers (predicted : process.Predicted pure)
    (steers : Steers setting process action between) {index : Nat} {branch : Branch}
    (found : between.suite.branch? index = some branch) : branch.Spotless := by
  cases steers with
  | walked purpose cursor activity others walking held suite holds =>
      obtain ⟨own, after, present, stands, treads⟩ :=
        predicted.order.treads setting purpose (held.mem_iff.mpr (.head _))
      have walk := Cursor.turn_walks setting purpose cursor process.runner.shared activity
      rw [suite] at found
      by_cases same : index = cursor.branch
      · subst same
        exact walk.spotless present stands (predicted.undebugged _ own present)
          (predicted.spotless _ own present) found
      · exact spotless_of_keepsOthers treads.others same (predicted.spotless index) found
  | claimed claim claims still suite holds =>
      rw [suite] at found
      rw [Suite.branch?_modify] at found
      split at found
      · obtain ⟨before, present, rfl⟩ := Option.map_eq_some_iff.mp found
        exact (predicted.spotless index before present).of_same id rfl
      · exact predicted.spotless index branch found
  | restaged cursor scope activity others still unclaimed held branches taken same holds =>
      rw [Suite.branch?_congr branches] at found
      exact predicted.spotless index branch found
  | stayed still unclaimed branches holds =>
      rw [Suite.branch?_congr branches] at found
      exact predicted.spotless index branch found
  | prepared still fresh branches holds =>
      rw [Suite.branch?_map branches] at found
      obtain ⟨before, present, rfl⟩ := Option.map_eq_some_iff.mp found
      exact (predicted.spotless index before present).of_same id rfl
  | swept still unclaimed branches dropped stopped stopping =>
      rw [Suite.branch?_map branches] at found
      obtain ⟨before, present, rfl⟩ := Option.map_eq_some_iff.mp found
      refine (predicted.spotless index before present).of_same ?_ ?_
      · split <;> exact id
      · split <;> rfl

/-- What a walk leaves of its own cursor is foretold. -/
theorem Predicted.foretold_walked (predicted : process.Predicted pure) {thread : Nat}
    {purpose : Purpose} {cursor : Cursor} {activity : Activity Call}
    (walking : process.walk? thread = some (purpose, cursor, activity))
    (listed : (cursor, activity) ∈ process.courses) {branch : Branch}
    (found : (cursor.turn setting purpose process.runner.shared activity).shared.suite.branch?
      cursor.branch = some branch) :
    Foreseen pure branch (cursor.turn setting purpose process.runner.shared activity) := by
  obtain ⟨own, present, stands⟩ := predicted.order.stands listed
  have kept : ∀ step, activity ≠ .skipping step := by
    rintro step rfl
    cases (predicted.flows.walk? walking).2.along
  obtain ⟨after, there, foreseen⟩ := foreseen_turn setting purpose present stands
    (predicted.undebugged _ own present) kept (predicted.foretold _ listed own present)
  obtain rfl := Option.some.inj (there.symm.trans found)
  exact foreseen

/-- What holds of every cursor and its branch holds so behind an action, if it does of what a walk leaves,
of a claimed branch, and of a resting cursor that is taken up. -/
theorem InOrder.courses_steers (order : process.InOrder) (steers : Steers setting process action between)
    (holds : Course Call → Branch → Prop)
    (before : ∀ course ∈ process.courses, ∀ branch,
      process.suite.branch? course.1.branch = some branch → holds course branch)
    (walked : ∀ thread purpose cursor activity,
      process.walk? thread = some (purpose, cursor, activity) → (cursor, activity) ∈ process.courses →
      ∀ branch, (cursor.turn setting purpose process.runner.shared activity).shared.suite.branch?
        cursor.branch = some branch →
      ∀ course, (cursor.turn setting purpose process.runner.shared activity).cursor.keeps
        (cursor.turn setting purpose process.runner.shared activity).turn = some course →
      holds course branch)
    (claimed : ∀ index branch, process.claimed action = some index →
      process.suite.branch? index = some branch →
      holds ({ branch := index }, .opening) (Suite.markRunning branch))
    (taken : ∀ (cursor : Cursor) scope activity branch, activity = .looping ∨ activity = .taking →
      scope = cursor.scope ∨ process.injects action = some cursor.branch →
      holds cursor.pausing branch → holds ({ cursor with scope }, activity) branch)
    (prepared : (∀ thread, action ≠ .turn thread) → ∀ course branch, holds course branch →
      holds course { branch with passedLastTime := false })
    {course : Course Call} (listed : course ∈ between.courses) {branch : Branch}
    (found : between.suite.branch? course.1.branch = some branch) : holds course branch := by
  have bystander (kept : course ∈ process.courses)
      (same : ∀ own, process.suite.branch? course.1.branch = some own → own.isIdle = false →
        between.suite.branch? course.1.branch = some own) : holds course branch := by
    obtain ⟨own, present, stands⟩ := order.stands kept
    obtain rfl := Option.some.inj ((same own present stands.busy).symm.trans found)
    exact before course kept own present
  cases steers with
  | walked purpose cursor activity others walking held suite left =>
      have rests := held.mem_iff.mpr (.head _)
      obtain ⟨walker, after, there, stands, treads⟩ := order.treads setting purpose rests
      rcases List.mem_append.mp (left.mem_iff.mp listed) with kept | among
      · have own : course.1.branch = cursor.branch := by
          rw [Cursor.eq_of_keeps (Option.mem_toList.mp kept)]
          exact treads.own
        rw [suite, own] at found
        exact walked _ purpose cursor activity walking rests branch found course
          (Option.mem_toList.mp kept)
      · refine bystander (held.mem_iff.mpr (.tail _ among)) fun own present busy => ?_
        rw [suite]
        exact branch?_of_busy treads.others (order.apart held among) present busy
  | claimed index claims still suite left =>
      rcases List.mem_cons.mp (left.mem_iff.mp listed) with rfl | kept
      · obtain ⟨own, present, -⟩ := order.fresh claims
        rw [suite, Suite.branch?_modify_self present] at found
        obtain rfl := Option.some.inj found
        exact claimed index own claims present
      · refine bystander kept fun own present busy => ?_
        obtain ⟨idling, there, idle, -⟩ := order.fresh claims
        rw [suite, Suite.branch?_modify_of_ne ?_ _ _]
        · exact present
        · rintro same
          rw [same] at present
          obtain rfl := Option.some.inj (there.symm.trans present)
          simp [busy] at idle
  | restaged cursor scope activity others still unclaimed held branches goes same left =>
      rcases List.mem_cons.mp (left.mem_iff.mp listed) with rfl | among
      · rw [Suite.branch?_congr branches] at found
        exact taken cursor scope activity branch goes same
          (before _ (held.mem_iff.mpr (.head _)) branch found)
      · exact bystander (held.mem_iff.mpr (.tail _ among)) fun own present _ =>
          (Suite.branch?_congr branches _).trans present
  | stayed still unclaimed branches left =>
      exact bystander (left.mem_iff.mp listed) fun own present _ =>
        (Suite.branch?_congr branches _).trans present
  | prepared still fresh branches left =>
      rw [Suite.branch?_map branches] at found
      obtain ⟨own, present, rfl⟩ := Option.map_eq_some_iff.mp found
      exact prepared still course own (before course (left.mem_iff.mp listed) own present)
  | swept still unclaimed branches dropped stopped stopping =>
      rw [dropped] at listed
      cases listed

theorem Predicted.foretold_steers (predicted : process.Predicted pure)
    (steers : Steers setting process action between) {course : Course Call}
    (listed : course ∈ between.courses) {branch : Branch}
    (found : between.suite.branch? course.1.branch = some branch) :
    Foretells pure branch course.1 course.2 := by
  refine predicted.order.courses_steers steers
    (fun course branch => Foretells pure branch course.1 course.2) predicted.foretold ?walked ?claimed
    ?taken ?prepared listed found
  case walked =>
    intro thread purpose cursor activity walking rests branch found course kept
    exact predicted.foretold_walked walking rests found course kept
  case claimed =>
    intro index branch claims present
    rfl
  case taken =>
    intro cursor scope activity branch goes same foretold
    obtain rfl := same.resolve_right (by simp [predicted.flows.injects action])
    rw [Cursor.pausing, foretells_looping (.inl rfl)] at foretold
    rw [foretells_looping (goes.imp_right .inl)]
    exact foretold
  case prepared =>
    intro still course branch foretold
    exact foretold.of_same rfl rfl rfl

theorem Predicted.perform (predicted : process.Predicted pure) (action : Action) :
    (process.perform setting action).Predicted pure := by
  have order := predicted.order
  obtain ⟨between, steers, settles⟩ := perform_steers setting order.sound order.started action
  have same (index : Nat) : (process.perform setting action).suite.branch? index =
      between.suite.branch? index := Suite.branch?_congr settles.branches index
  refine ⟨order.perform action, predicted.flows.perform order predicted.undebugged action, ?_, ?_, ?_⟩
  · intro index branch found
    rw [same] at found
    obtain ⟨before, present, evolves⟩ := order.evolves steers.moves found
    rw [Branch.hasDebugStep_of_plan evolves.plan]
    exact predicted.undebugged index before present
  · intro index branch found
    rw [same] at found
    exact predicted.spotless_steers steers found
  · intro course listed branch found
    rw [same] at found
    rcases settles.courses with kept | ⟨-, dropped⟩
    · exact predicted.foretold_steers steers (kept.mem_iff.mp listed) found
    · rw [dropped] at listed
      cases listed

theorem courses_ready (setting : Setting Call Env) (runner : Runner Env) :
    (runner.ready setting).courses = [] := by
  simp only [courses, control_ready]
  rfl

theorem predicted_ready (pure : setting.executor.Functional) {runner : Runner Env}
    (undebugged : runner.suite.Undebugged) : (runner.ready setting).Predicted pure := by
  refine ⟨inOrder_ready setting runner, flows_ready setting runner, ?_, ?_, ?_⟩
  · intro index branch found
    obtain ⟨before, known, located, rfl, -⟩ := branch?_ready found
    exact (Branch.hasDebugStep_of_plan (Branch.plan_reset before)).trans
      (undebugged index before located)
  · intro index branch found
    obtain ⟨before, known, located, rfl, -⟩ := branch?_ready found
    refine .inr fun step listed => ?_
    obtain ⟨other, -, rfl⟩ := List.mem_map.mp listed
    rfl
  · intro course listed
    rw [courses_ready] at listed
    cases listed

/-- Without a step to debug every cursor of a run stands as is foretold, whatever is asked of the
runner and whoever has a turn. -/
theorem predicted_after (pure : setting.executor.Functional) {runner : Runner Env}
    (undebugged : runner.suite.Undebugged) (schedule : List Action) :
    ((runner.ready setting).after setting schedule).Predicted pure := by
  induction schedule using List.reverseRecOn with
  | nil => exact predicted_ready pure undebugged
  | append_singleton schedule action ih =>
      rw [after_concat]
      exact ih.perform action

end Process

end Run

end TestTree
