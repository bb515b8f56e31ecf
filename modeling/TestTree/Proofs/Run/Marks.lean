import TestTree.Proofs.Run.Overlap

namespace TestTree

namespace Branch

/-- Neither the branch nor any of its steps is marked as running. -/
structure Bare (branch : Branch) : Prop where
  still : branch.status.isRunning = false
  steps : ∀ step ∈ branch.steps, step.status.isRunning = false

instance (branch : Branch) : Decidable branch.Bare :=
  decidable_of_iff (branch.status.isRunning = false ∧
    ∀ step ∈ branch.steps, step.status.isRunning = false)
    ⟨fun bare => ⟨bare.1, bare.2⟩, fun bare => ⟨bare.still, bare.steps⟩⟩

variable {branch : Branch}

theorem Bare.of_same {other : Branch} (bare : branch.Bare)
    (running : other.status.isRunning = branch.status.isRunning) (steps : other.steps = branch.steps) :
    other.Bare :=
  ⟨running.trans bare.still, steps ▸ bare.steps⟩

theorem bare_of_marks (still : branch.status.isRunning = false) (marks : branch.Marks none) :
    branch.Bare := by
  refine ⟨still, fun step listed => ?_⟩
  obtain ⟨index, found⟩ := List.getElem?_of_mem listed
  simpa using (marks index step found).not.mpr nofun

theorem bare_finish (branch : Branch) : branch.finish.Bare := by
  refine ⟨rfl, fun step listed => ?_⟩
  obtain ⟨before, -, rfl⟩ := List.mem_map.mp listed
  rfl

theorem bare_of_idle (idle : branch.isIdle = true) (untouched : branch.Untouched) : branch.Bare := by
  simp only [isIdle, Bool.and_eq_true, Bool.not_eq_true'] at idle
  exact bare_of_marks idle.1 untouched.marks

theorem completed_of_advanceTo (index : Nat) (branch : Branch) :
    (branch.advanceTo index).status.isCompleted = branch.status.isCompleted := rfl

theorem Advances.bare {taken : Option Nat} {after : Branch} (advances : branch.Advances taken after)
    (kept : branch.status.isCompleted = true → branch.Bare)
    (completed : after.status.isCompleted = true) : after.Bare := by
  cases advances with
  | ended => exact kept completed
  | exhausted | blocked => exact bare_finish branch
  | advanced unfinished =>
      rw [completed_of_advanceTo, unfinished] at completed
      cases completed

end Branch

namespace Run

variable {Call Env : Type} {setting : Setting Call Env}

section Walks

variable {purpose : Purpose} {cursor next : Cursor} {shared after : Shared Env} {stage : Stage}
  {arrival : Arrival} {branch later : Branch}

theorem Cursor.bare_recordAfterBranch {index : Nat} {error : StepError} (bare : branch.Bare) :
    (recordAfterBranch index error branch).Bare := by
  refine bare.of_same ?_ rfl
  unfold recordAfterBranch
  dsimp only
  split <;> rfl

theorem Cursor.Takes.bare {step : Nat} {suite : Suite} (takes : cursor.Takes setting shared.suite step suite)
    (found : shared.suite.branch? cursor.branch = some branch)
    (kept : branch.status.isCompleted = true → branch.Bare)
    (present : suite.branch? cursor.branch = some later) (completed : later.status.isCompleted = true) :
    later.Bare := by
  rcases takes with ⟨-, rfl⟩ | ⟨-, next⟩
  · obtain rfl := Option.some.inj (found.symm.trans present)
    exact kept completed
  · obtain ⟨after, advances, there, -⟩ := Suite.nextStep_advances found setting.skipRepeat
    rw [next] at advances there
    obtain rfl := Option.some.inj (there.symm.trans present)
    exact advances.bare kept completed

/-- A turn of a walk that leaves its branch with an outcome leaves it without marks. -/
theorem Walk.bare (walk : Walk setting purpose cursor shared stage after next arrival)
    (found : shared.suite.branch? cursor.branch = some branch) (stands : stage.Stands cursor branch)
    (kept : branch.status.isCompleted = true → branch.Bare)
    (present : after.suite.branch? cursor.branch = some later)
    (completed : later.status.isCompleted = true) : later.Bare := by
  cases walk with
  | opened | unguarded | entering | admitted | refused | halted | interrupted | continued | preparing
  | begun | unbegun | sleeping | ended | trailing | leaving | tarnished | left =>
      obtain rfl := Option.some.inj (found.symm.trans present)
      exact kept completed
  | turnedAway index error =>
      obtain ⟨-, -, untouched, -⟩ := stands
      rw [Shared.modify, Suite.branch?_modify_self found] at present
      obtain rfl := Option.some.inj present
      exact Branch.bare_of_marks rfl untouched.marks
  | exhausted suite absent next | facing step suite next | atEnd suite next =>
      obtain ⟨after, advances, there, -⟩ := Suite.nextStep_advances found setting.skipRepeat
      rw [next] at advances there
      obtain rfl := Option.some.inj (there.symm.trans present)
      exact advances.bare kept completed
  | taken step suite takes | passedOver step suite takes | paused step suite takes =>
      exact takes.bare found kept present completed
  | skipped step =>
      obtain ⟨-, active, -⟩ := stands
      rw [Shared.modify, Suite.branch?_modify_self found] at present
      obtain rfl := Option.some.inj present
      exact absurd ((Branch.isActive_iff.mp active).2.symm.trans completed) Bool.false_ne_true
  | marked step error =>
      obtain ⟨-, active, -⟩ := stands
      obtain ⟨there, -⟩ := Suite.markStep_marks found step
        (outcomeOf (shared.branch cursor.branch) step error)
        (!error.isNone && !(shared.branch cursor.branch).hasDebugStep) setting.skipRepeat
      obtain rfl := Option.some.inj (there.symm.trans present)
      unfold Branch.markAt at completed ⊢
      split
      · exact Branch.bare_finish _
      · next goes =>
        rw [if_neg goes] at completed
        exact absurd ((Branch.isActive_iff.mp active).2.symm.trans completed) Bool.false_ne_true
  | recorded index error arrival goes =>
      rw [Shared.modify, Suite.branch?_modify_self found] at present
      obtain rfl := Option.some.inj present
      exact Cursor.bare_recordAfterBranch (kept stands)

end Walks

namespace Process

variable {process between : Process Call Env} {action : Action} {thread : Nat}

theorem InOrder.running_of_walk (order : process.InOrder) {walk : Purpose × Cursor × Activity Call}
    (walking : process.walk? thread = some walk) : process.runner.control.phase ≠ .stopped := by
  obtain ⟨runner, operation⟩ := process
  cases operation with
  | working | single => exact order.sound.phase_ne rfl nofun
  | beforeEverything | beforeHook | starting | afterEverything | afterHook | concluding | injecting
  | finished => cases walking

/-- What has an outcome, or was never claimed, bears no mark. -/
def Wiped (process : Process Call Env) (claims : List Nat) : Prop :=
  ∀ index branch, process.suite.branch? index = some branch →
    branch.status.isCompleted = true ∨ index ∉ claims → branch.Bare

theorem InOrder.wiped_moves (order : process.InOrder) {claims : List Nat}
    (moves : Moves setting process action between) (owned : ∀ index ∈ process.owned, index ∈ claims)
    (wiped : process.Wiped claims) :
    between.Wiped (claims ++ (process.claimed action).toList) := by
  intro index after found outcome
  have fewer : index ∉ claims ++ (process.claimed action).toList → index ∉ claims :=
    fun fresh known => fresh (List.mem_append_left _ known)
  have outcome' := outcome.imp_right fewer
  cases moves with
  | walked purpose cursor activity rest walking held suite holds =>
      obtain ⟨own, _, here, stands, treads⟩ := (order.orderly.perm rfl held.symm).treads setting purpose
      have walk := Cursor.turn_walks setting purpose cursor process.runner.shared activity
      dsimp only at walk
      rw [suite] at found
      by_cases same : index = cursor.branch
      · subst same
        have known := owned _ (mem_owned.mpr ⟨_, held.mem_iff.mpr (.head _), rfl⟩)
        exact walk.bare here stands (fun completed => wiped _ own here (.inl completed)) found
          (outcome'.resolve_right fun fresh => fresh known)
      · rcases treads.others.others index same with unchanged | ⟨before, line, present, idle, skipped⟩
        · exact wiped index after (unchanged.symm.trans found) outcome'
        · obtain rfl : Suite.skip line before = after := Option.some.inj (skipped.symm.trans found)
          have untouched :=
            (order.tidy.resolve_left (order.running_of_walk walking)) index before present idle
          exact (Branch.bare_of_idle idle untouched).of_same rfl rfl
  | claimed claim claims' still suite holds =>
      rw [suite] at found
      by_cases same : index = claim
      · subst same
        obtain ⟨before, present, idle, -⟩ := order.fresh claims'
        rw [Suite.branch?_modify_self present] at found
        obtain rfl := Option.some.inj found
        rcases outcome with completed | fresh
        · simp only [Branch.isIdle, Bool.and_eq_true, Bool.not_eq_true'] at idle
          exact absurd (idle.2.symm.trans completed) Bool.false_ne_true
        · rw [claims'] at fresh
          exact absurd (List.mem_append_right _ (.head _)) fresh
      · rw [Suite.branch?_modify_of_ne same] at found
        exact wiped index after found outcome'
  | restaged cursor scope stage rest still unclaimed held branches
  | stayed still unclaimed branches =>
      rw [Suite.branch?_congr branches] at found
      exact wiped index after found outcome'
  | prepared still fresh branches holds =>
      rw [Suite.branch?_map branches] at found
      obtain ⟨before, present, rfl⟩ := Option.map_eq_some_iff.mp found
      exact (wiped index before present outcome').of_same rfl rfl
  | swept still unclaimed branches =>
      rw [Suite.branch?_map branches] at found
      obtain ⟨before, present, rfl⟩ := Option.map_eq_some_iff.mp found
      by_cases completed : before.status.isCompleted = true
      · rw [if_pos completed]
        exact wiped index before present (.inl completed)
      · rw [if_neg completed] at outcome' ⊢
        exact ⟨rfl, (wiped index before present outcome').steps⟩

theorem wiped_after (setting : Setting Call Env) (runner : Runner Env) (schedule : List Action) :
    ((runner.ready setting).after setting schedule).Wiped
      ((runner.ready setting).history setting claimed schedule) := by
  induction schedule using List.reverseRecOn with
  | nil =>
      intro index branch found _
      obtain ⟨before, -, -, rfl, -⟩ := branch?_ready found
      exact Branch.bare_of_marks rfl (Branch.untouched_reset before).marks
  | append_singleton schedule action ih =>
      have order := inOrder_after setting runner schedule
      obtain ⟨between, moves, settles⟩ := perform_moves setting order.sound order.started action
      rw [after_concat, history_concat]
      intro index branch found outcome
      rw [Suite.branch?_congr settles.branches] at found
      exact order.wiped_moves moves (fun _ => claimed_of_owned setting runner schedule) ih index branch
        found outcome

end Process

end Run

end TestTree
