import TestTree.Proofs.Branch.Divergence
import TestTree.Proofs.Run.Alone

namespace TestTree

/-- One branch is active and then fails, with this step as the first failed one, and another branch is
skipped at that. -/
structure Suite.SkipsRepeat (before after : Suite) (failed other step : Nat) : Prop where
  active : (before.branch? failed).any Branch.isActive = true
  fails : (after.branch? failed).any (fun branch =>
    branch.status.isFailed && branch.firstFailure == some step) = true
  awake : (before.branch? other).any (fun branch => !branch.status.isSkipped) = true
  skipped : (after.branch? other).any (·.status.isSkipped) = true

instance (before after : Suite) (failed other step : Nat) :
    Decidable (Suite.SkipsRepeat before after failed other step) :=
  decidable_of_iff (_ ∧ _ ∧ _ ∧ _)
    ⟨fun ⟨active, fails, awake, skipped⟩ => ⟨active, fails, awake, skipped⟩,
      fun ⟨active, fails, awake, skipped⟩ => ⟨active, fails, awake, skipped⟩⟩

namespace Run

variable {Call Env : Type} {setting : Setting Call Env}

section Walks

variable {purpose : Purpose} {cursor next : Cursor} {shared after : Shared Env} {branch later : Branch}
  {stage : Stage} {arrival : Arrival}

theorem firstFailure_of_nextStep {taken : Option Nat} {suite : Suite}
    (found : shared.suite.branch? cursor.branch = some branch)
    (next : shared.suite.nextStep cursor.branch true setting.skipRepeat = (taken, suite))
    (present : suite.branch? cursor.branch = some later) : later.firstFailure = branch.firstFailure := by
  obtain ⟨after, advances, there, -⟩ := Suite.nextStep_advances found setting.skipRepeat
  rw [next] at advances there
  obtain rfl := Option.some.inj (there.symm.trans present)
  exact advances.firstFailure

theorem firstFailure_of_takes {step : Nat} {suite : Suite}
    (found : shared.suite.branch? cursor.branch = some branch)
    (takes : cursor.Takes setting shared.suite step suite)
    (present : suite.branch? cursor.branch = some later) : later.firstFailure = branch.firstFailure := by
  rcases takes with ⟨-, rfl⟩ | ⟨-, next⟩
  · obtain rfl := Option.some.inj (found.symm.trans present)
    rfl
  · exact firstFailure_of_nextStep found next present

theorem Walk.firstFailure (walk : Walk setting purpose cursor shared stage after next arrival)
    (found : shared.suite.branch? cursor.branch = some branch)
    (present : after.suite.branch? cursor.branch = some later) :
    later.firstFailure = branch.firstFailure ∨ ∃ step error, stage = .behind step error := by
  cases walk with
  | opened | unguarded | entering | admitted | refused | halted | interrupted | continued | preparing
  | begun | unbegun | sleeping | ended | leaving | tarnished | left =>
      obtain rfl := Option.some.inj (found.symm.trans present)
      exact .inl rfl
  | trailing step world scope error after | marked step error => exact .inr ⟨_, _, rfl⟩
  | turnedAway index error | recorded index error =>
      rw [Shared.modify, Suite.branch?_modify_self found] at present
      obtain rfl := Option.some.inj present
      exact .inl rfl
  | exhausted suite absent next => exact .inl (firstFailure_of_nextStep found next present)
  | taken step suite takes | passedOver step suite takes | paused step suite takes =>
      exact .inl (firstFailure_of_takes found takes present)
  | skipped step =>
      rw [Shared.modify, Suite.branch?_modify_self found] at present
      obtain rfl := Option.some.inj present
      exact .inl (Branch.firstFailure_of_same (map_setAt (by intro _; rfl) _ _))
  | facing step suite next => exact .inl (firstFailure_of_nextStep found next present)
  | atEnd suite next => exact .inl (firstFailure_of_nextStep found next present)

theorem marking_of_fails {activity : Activity Call} {step : Nat}
    (found : shared.suite.branch? cursor.branch = some branch)
    (stands : activity.stage.Stands cursor branch) (undebugged : branch.hasDebugStep = false)
    (clean : ∀ step ∈ branch.steps, step.status.isFailed = false)
    (present : (cursor.turn setting purpose shared activity).shared.suite.branch? cursor.branch =
      some later) (fails : later.firstFailure = some step) :
    ∃ error, activity = .marking step (some error) ∧
      (cursor.turn setting purpose shared activity).shared.suite =
        shared.suite.markStep cursor.branch step (outcomeOf branch step (some error)) true
          setting.skipRepeat := by
  have unfailed := Branch.firstFailure_eq_none clean
  have walk := Cursor.turn_walks setting purpose cursor shared activity
  obtain ⟨reached, error, behind⟩ := (walk.firstFailure found present).resolve_left fun same => by
    rw [same, unfailed] at fails
    cases fails
  cases activity with
  | afterStep reached index error call =>
      rw [suite_turn rfl] at present
      obtain rfl := Option.some.inj (found.symm.trans present)
      rw [unfailed] at fails
      cases fails
  | marking reached error =>
      obtain ⟨started, active, faces, free⟩ := stands
      obtain ⟨there, -⟩ := Suite.markStep_marks found reached (outcomeOf branch reached error)
        (!error.isNone) setting.skipRepeat
      rw [suite_marking found undebugged] at present
      obtain rfl := Option.some.inj (there.symm.trans present)
      have marked : (branch.markAt reached (outcomeOf branch reached error)
          (!error.isNone)).firstFailure =
            (branch.recordAt reached (outcomeOf branch reached error)).firstFailure := by
        unfold Branch.markAt
        split
        · exact Branch.firstFailure_finish _
        · rfl
      rw [marked, Branch.firstFailure_recordAt faces.inside clean] at fails
      cases error with
      | none => cases fails
      | some error =>
          obtain rfl := Option.some.inj fails
          exact ⟨error, rfl, suite_marking found undebugged⟩
  | opening | beforeBranch | beforeBranchFailed | looping | taking | skipping | preparing | beforeStep
  | body | lookingAhead | closing | afterBranch | afterBranchFailed => cases behind

end Walks

namespace Process

variable {process : Process Call Env} {action : Action} {pure : setting.executor.Functional}

/-- A branch that comes to fail was bound to fail there. -/
theorem Predicted.failsAt (predicted : process.Predicted pure) {failed step : Nat}
    {active ended : Branch} (found : process.suite.branch? failed = some active)
    (busy : active.isActive = true)
    (present : (process.perform setting action).suite.branch? failed = some ended)
    (fails : ended.firstFailure = some step) :
    ∃ error, active.FailsAt pure.results step error ∧
      (process.perform setting action).suite.branches = (process.suite.markStep failed step
        (outcomeOf active step (some error)) true setting.skipRepeat).branches := by
  have order := predicted.order
  obtain ⟨between, steers, settles⟩ := perform_steers setting order.sound order.started action
  have clean := (predicted.spotless failed active found).resolve_left (by
    simp [(Branch.isActive_iff.mp busy).2])
  have changed (same : ended.firstFailure = active.firstFailure) : False := by
    rw [same, Branch.firstFailure_eq_none clean] at fails
    cases fails
  rw [Suite.branch?_congr settles.branches] at present
  cases steers with
  | walked purpose cursor activity others walking held suite holds =>
      have rests := held.mem_iff.mpr (.head _)
      obtain ⟨own, there, stands⟩ := order.stands rests
      rw [suite] at present
      by_cases same : failed = cursor.branch
      · subst same
        obtain rfl := Option.some.inj (there.symm.trans found)
        obtain ⟨error, rfl, marked⟩ := Run.marking_of_fails there stands
          (predicted.undebugged _ own there) clean present fails
        obtain ⟨body, scope, starts, fated⟩ := predicted.foretold _ rests own there
        refine ⟨error, ⟨body, scope, starts, (congrArg (·.2) fated).symm⟩, ?_⟩
        rw [settles.branches, suite, marked]
        rfl
      · obtain ⟨_, after, -, -, treads⟩ := order.treads setting purpose rests
        have idle : active.isIdle = false := Branch.isIdle_eq_false.mpr (.inl busy)
        have kept := branch?_of_busy treads.others same found idle
        obtain rfl := Option.some.inj (kept.symm.trans present)
        exact (changed rfl).elim
  | claimed index claims still suite holds =>
      rw [suite, Suite.branch?_modify, found] at present
      split at present
      · obtain rfl := Option.some.inj present
        exact (changed rfl).elim
      · obtain rfl := Option.some.inj present
        exact (changed rfl).elim
  | restaged cursor scope activity others still unclaimed held branches taken same holds =>
      rw [Suite.branch?_congr branches] at present
      obtain rfl := Option.some.inj (found.symm.trans present)
      exact (changed rfl).elim
  | stayed still unclaimed branches holds =>
      rw [Suite.branch?_congr branches] at present
      obtain rfl := Option.some.inj (found.symm.trans present)
      exact (changed rfl).elim
  | prepared still fresh branches holds =>
      rw [Suite.branch?_map branches, found] at present
      obtain rfl := Option.some.inj present
      exact (changed rfl).elim
  | swept still unclaimed branches dropped stopped stopping =>
      rw [Suite.branch?_map branches, found] at present
      obtain rfl := Option.some.inj present
      refine (changed ?_).elim
      dsimp only
      split <;> rfl

/-- What the skipping of a repeat tells: the failed branch was bound to fail, its error is recorded,
and the skipped branch begins with steps from the same nodes. -/
theorem Predicted.skipsRepeat (predicted : process.Predicted pure) {failed other step : Nat}
    (skips : Suite.SkipsRepeat process.suite (process.perform setting action).suite failed other
      step) :
    ∃ active fellow error, process.suite.branch? failed = some active ∧
      process.suite.branch? other = some fellow ∧ other ≠ failed ∧
      ((process.perform setting action).suite.branch? failed).bind (·.errorAt step) = some error ∧
      active.FailsAt pure.results step error ∧
      ∀ index, index < step + 1 →
        active.steps[index]?.map (·.origin) = fellow.steps[index]?.map (·.origin) := by
  obtain ⟨active, found, busy⟩ := (Option.any_eq_true _ _).mp skips.active
  obtain ⟨ended, present, failing⟩ := (Option.any_eq_true _ _).mp skips.fails
  obtain ⟨idle, there, awake⟩ := (Option.any_eq_true _ _).mp skips.awake
  obtain ⟨skipped, after, isSkipped⟩ := (Option.any_eq_true _ _).mp skips.skipped
  have fails : ended.firstFailure = some step := by
    simp only [Bool.and_eq_true, beq_iff_eq] at failing
    exact failing.2
  have awake : idle.status.isSkipped = false := by simpa using awake
  obtain ⟨error, bound, branches⟩ := predicted.failsAt found busy present fails
  obtain ⟨marked, -⟩ := Suite.markStep_marks found step (outcomeOf active step (some error)) true
    setting.skipRepeat
  rw [Suite.branch?_congr branches] at present after
  obtain rfl := Option.some.inj (marked.symm.trans present)
  have inside : step < active.steps.length := by
    obtain ⟨body, scope, starts, -⟩ := bound
    exact (List.getElem?_eq_some_iff.mp starts.found).1
  have different : other ≠ failed := by
    intro same
    subst same
    obtain rfl := Option.some.inj (found.symm.trans there)
    obtain rfl := Option.some.inj (marked.symm.trans after)
    have kept : (active.markAt step (outcomeOf active step (some error)) true).status.isSkipped =
        active.status.isSkipped := by
      unfold Branch.markAt
      split <;> rfl
    rw [kept, awake] at isSkipped
    cases isSkipped
  have changed : skipped ≠ idle := by
    intro same
    rw [same, awake] at isSkipped
    cases isSkipped
  obtain ⟨failure, first, agrees⟩ := Suite.agrees_of_markStep found different there after changed
  have clean := (predicted.spotless failed active found).resolve_left (by
    simp [(Branch.isActive_iff.mp busy).2])
  rw [Branch.firstFailure_recordAt inside clean] at first
  obtain rfl := Option.some.inj first
  refine ⟨active, idle, error, found, there, different, ?_, bound, ?_⟩
  · rw [Suite.branch?_congr branches, marked]
    exact Branch.errorAt_markAt inside
  · intro index before
    rw [← Branch.origin_of_agreesUpTo agrees before, ← active.origin_plan,
      ← (Branch.finish _).origin_plan, Branch.plan_finish, Branch.plan_recordAt]

/-- A branch that is skipped as a repeat is itself bound to fail as the failed branch did, if both have
the same hooks. -/
theorem failsAt_of_skipsRepeat {tree : Tree} {options : BranchOptions} {suite : Suite}
    (settled : tree.WellFormed)
    (plain : ∀ id, id < tree.size → (tree.node id).step.identifiers.isDebug = false)
    (generated : tree.generate options = .ok suite) (pure : setting.executor.Functional)
    {runner : Runner Env} (planned : runner.suite.plans = suite.plans) {schedule : List Action}
    {failed other step : Nat}
    (skips : Suite.SkipsRepeat ((runner.ready setting).after setting schedule).suite
      ((runner.ready setting).after setting (schedule ++ [action])).suite failed other step)
    {branch fellow : Branch} (found : runner.suite.branch? failed = some branch)
    (present : runner.suite.branch? other = some fellow) (shares : branch.SharesHooks fellow) :
    ∃ error, (((runner.ready setting).after setting (schedule ++ [action])).suite.branch?
        failed).bind (·.errorAt step) = some error ∧
      fellow.FailsAt pure.results step error := by
  have undebugged := (undebugged_generate settled plain generated).of_plans planned
  rw [after_concat] at skips ⊢
  obtain ⟨active, idle, error, here, there, different, recorded, fails, origins⟩ :=
    (predicted_after pure undebugged schedule).skipsRepeat skips
  refine ⟨error, recorded, ?_⟩
  obtain ⟨first, isFirst, same⟩ := plan_after setting runner schedule here
  obtain ⟨second, isSecond, equal⟩ := plan_after setting runner schedule there
  obtain rfl := Option.some.inj (found.symm.trans isFirst)
  obtain rfl := Option.some.inj (present.symm.trans isSecond)
  have bound := fails.alike (Branch.alike_of_plan same.symm (step + 1))
  refine bound.alike ⟨shares, ?_⟩
  obtain ⟨one, isOne, alike⟩ := Suite.plan_of_plans planned found
  obtain ⟨two, isTwo, akin⟩ := Suite.plan_of_plans planned present
  have agree : ∀ index, index < step + 1 → one.steps[index]? = two.steps[index]? := by
    refine agree_of_generate settled generated isOne isTwo fun index before => ?_
    rw [← one.origin_plan, ← alike, ← same, active.origin_plan, origins index before,
      ← idle.origin_plan, equal, akin, two.origin_plan]
  intro index before
  rw [← fellow.steps_plan, ← branch.steps_plan, alike, akin, one.steps_plan, two.steps_plan,
    agree index before]

/-- Skipping a repeat hides no other outcome: run on its own, the skipped branch fails at the same step as
the failed branch, with the same error, if both have the same hooks. -/
theorem failsAlone_of_skipsRepeat {tree : Tree} {options : BranchOptions} {suite : Suite}
    (built : tree.Built)
    (plain : ∀ id, id < tree.size → (tree.node id).step.identifiers.isDebug = false)
    (generated : tree.generate options = .ok suite) (pure : setting.executor.Pure)
    {runner : Runner Env} (planned : runner.suite.plans = suite.plans) {schedule : List Action}
    {failed other step : Nat}
    (skips : Suite.SkipsRepeat ((runner.ready setting).after setting schedule).suite
      ((runner.ready setting).after setting (schedule ++ [action])).suite failed other step)
    {branch fellow : Branch} (found : runner.suite.branch? failed = some branch)
    (present : runner.suite.branch? other = some fellow) (shares : branch.SharesHooks fellow) :
    ∃ error, (((runner.ready setting).after setting (schedule ++ [action])).suite.branch?
        failed).bind (·.errorAt step) = some error ∧
      FailsAlone setting fellow step error := by
  have settled := built.wellFormed
  obtain ⟨error, recorded, fails⟩ :=
    failsAt_of_skipsRepeat settled plain generated pure.toFunctional planned skips found present
      shares
  have undebugged := (undebugged_generate settled plain generated).of_plans planned
  exact ⟨error, recorded, failsAlone pure (undebugged other fellow present) fails⟩

/-- Code fails if it has an exclamation mark in it. -/
def verdicts : Executor (Text × Variables) Unit where
  start body scope := (body.code, scope)
  advance call world :=
    (.done (if call.1.contains '!' then .error "failed".toList else .ok none) call.2, world)

def verdictsPure : verdicts.Pure where
  results code _ scope := (if code.contains '!' then .error "failed".toList else .ok none, scope)
  Computes call code _ scope := call = (code, scope)
  length _ := 0
  starts _ _ := rfl
  waits := nofun
  ends := by
    intro call code text scope world value after computes done
    subst computes
    cases done
    rfl
  shortens := nofun
  calm _ _ := rfl

def oneByOne (tree : Tree) : Setting (Text × Variables) Unit :=
  { executor := verdicts, tree, maxParallel := 1 }

/-- Two branches that begin with the same failing step. -/
def siblings : Tree := .grown "A \x7b\n    !\n\x7d\n    B -\n    C -"

theorem failsAlone_of_skipsRepeat_siblings :
    let runner := Runner.initial siblings.suite ()
    let schedule := .request .run :: List.replicate 9 (.turn 0)
    let before := (runner.ready (oneByOne siblings)).after (oneByOne siblings) schedule
    let after := (runner.ready (oneByOne siblings)).after (oneByOne siblings) (schedule ++ [.turn 0])
    Suite.SkipsRepeat before.suite after.suite 0 1 0 ∧
      ∃ fellow error, runner.suite.branch? 1 = some fellow ∧
        (after.suite.branch? 0).bind (·.errorAt 0) = some error ∧
        FailsAlone (oneByOne siblings) fellow 0 error := by
  intro runner schedule before after
  have generated : siblings.generate {} = .ok siblings.suite :=
    Tree.generate_eq_suite (by decide +kernel) (by decide +kernel)
  have plain : ∀ id, id < siblings.size → (siblings.node id).step.identifiers.isDebug = false := by
    decide +kernel
  have skips : Suite.SkipsRepeat before.suite after.suite 0 1 0 := by decide +kernel
  have alike : (siblings.suite.branch? 0).any (fun branch =>
      (siblings.suite.branch? 1).any fun fellow => decide (branch.SharesHooks fellow)) = true := by
    decide +kernel
  obtain ⟨branch, found, alike⟩ := (Option.any_eq_true _ _).mp alike
  obtain ⟨fellow, present, alike⟩ := (Option.any_eq_true _ _).mp alike
  have planned : runner.suite.plans = siblings.suite.plans := rfl
  obtain ⟨error, recorded, fails⟩ := failsAlone_of_skipsRepeat (.parseIn .empty _ _ _) plain
    generated verdictsPure planned skips found present (of_decide_eq_true alike)
  exact ⟨skips, fellow, error, present, recorded, fails⟩

/-- Two branches that begin with the same step, which fails by a hook that only the first branch has. -/
def unlike : Tree :=
  .grown ("A \x7b\n    a\n\x7d\n    B -\n        * Before Every Step \x7b\n            !\n        \x7d\n" ++
    "    \n    C -")

/-- Hooks that differ hide another outcome: the skipped branch passes when it is run on its own. -/
theorem skipsRepeat_not_failsAlone :
    let runner := Runner.initial unlike.suite ()
    let schedule := .request .run :: List.replicate 9 (.turn 0)
    let before := (runner.ready (oneByOne unlike)).after (oneByOne unlike) schedule
    let after := (runner.ready (oneByOne unlike)).after (oneByOne unlike) (schedule ++ [.turn 0])
    unlike.Built ∧ (∀ id, id < unlike.size → (unlike.node id).step.identifiers.isDebug = false) ∧
      unlike.generate {} = .ok unlike.suite ∧ Nonempty (oneByOne unlike).executor.Pure ∧
      Suite.SkipsRepeat before.suite after.suite 0 1 0 ∧
      ∃ fellow, runner.suite.branch? 1 = some fellow ∧
        ∀ error, ¬ FailsAlone (oneByOne unlike) fellow 0 error := by
  intro runner schedule before after
  have passes : (unlike.suite.branch? 1).any (fun fellow =>
      let process := (Runner.alone fellow ()).runs (oneByOne unlike) (List.replicate 30 0)
      process.isFinished && process.suite.branches.all (!·.status.isFailed)) = true := by
    decide +kernel
  refine ⟨.parseIn .empty _ _ _, by decide +kernel,
    Tree.generate_eq_suite (by decide +kernel) (by decide +kernel), ⟨verdictsPure⟩, by decide +kernel, ?_⟩
  obtain ⟨fellow, present, passes⟩ := (Option.any_eq_true _ _).mp passes
  refine ⟨fellow, present, ?_⟩
  intro error fails
  simp only [Bool.and_eq_true] at passes
  obtain ⟨finished, unfailed⟩ := passes
  obtain ⟨ended, branches, failed⟩ := fails.fails () _ finished
  rw [branches, List.all_cons, failed.failed] at unfailed
  cases unfailed

end Process

end Run

end TestTree
