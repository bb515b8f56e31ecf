import TestTree.Proofs.Run.Standing

namespace TestTree

namespace Suite

/-- No idle branch was ever touched. -/
def Tidy (suite : Suite) : Prop :=
  ∀ index branch, suite.branch? index = some branch → branch.isIdle = true → branch.Untouched

theorem branch?_congr {suite other : Suite} (same : other.branches = suite.branches) (index : Nat) :
    other.branch? index = suite.branch? index := by
  simp only [branch?, same]

theorem branch?_map {suite other : Suite} {change : Branch → Branch}
    (mapped : other.branches = suite.branches.map change) (index : Nat) :
    other.branch? index = (suite.branch? index).map change := by
  simp only [branch?, mapped, List.getElem?_map]

end Suite

namespace Branch

variable {branch : Branch} {front : Nat}

theorem Settled.of_steps {other : Branch} (settled : branch.Settled front)
    (same : other.steps = branch.steps) : other.Settled front := by
  constructor
  · rw [same]
    exact settled.inside
  · rw [same]
    exact settled.outcome

theorem Marks.of_steps {other : Branch} {mark : Option Nat} (marks : branch.Marks mark)
    (same : other.steps = branch.steps) : other.Marks mark := by
  unfold Marks
  rw [same]
  exact marks

theorem Untouched.of_steps {other : Branch} (untouched : branch.Untouched)
    (same : other.steps = branch.steps) : other.Untouched :=
  ⟨untouched.settled.of_steps same, untouched.marks.of_steps same⟩

theorem isIdle_skip (line : Text) (branch : Branch) : (Suite.skip line branch).isIdle = false := by
  simp [Suite.skip, isIdle, Status.isCompleted]

end Branch

namespace Run

variable {Call Env : Type}

/-- What holds of branches and cursors after every schedule. -/
structure Orderly (suite : Suite) (walkers : List Walker) : Prop where
  distinct : (walkers.map fun walker => walker.1.branch).Nodup
  stands : ∀ walker ∈ walkers, ∃ branch,
    suite.branch? walker.1.branch = some branch ∧ walker.2.Stands walker.1 branch
  settled : ∀ index branch, suite.branch? index = some branch → ∃ front, branch.Settled front

namespace Orderly

variable {suite after : Suite} {walkers others : List Walker}

theorem perm (orderly : Orderly suite walkers) (same : after.branches = suite.branches)
    (permuted : others.Perm walkers) : Orderly after others where
  distinct := (permuted.map _).nodup_iff.mpr orderly.distinct
  stands := by
    intro walker member
    rw [Suite.branch?_congr same]
    exact orderly.stands walker (permuted.mem_iff.mp member)
  settled := by
    intro index branch found
    rw [Suite.branch?_congr same] at found
    exact orderly.settled index branch found

theorem tail {walker : Walker} (orderly : Orderly suite (walker :: others)) : Orderly suite others where
  distinct := (List.nodup_cons.mp orderly.distinct).2
  stands := fun other member => orderly.stands other (List.mem_cons_of_mem _ member)
  settled := orderly.settled

theorem ne_of_mem {walker other : Walker} (orderly : Orderly suite (walker :: others))
    (member : other ∈ others) : other.1.branch ≠ walker.1.branch := by
  intro same
  have inside := List.mem_map_of_mem (f := fun walker : Walker => walker.1.branch) member
  rw [same] at inside
  exact (List.nodup_cons.mp orderly.distinct).1 inside

/-- Changing one branch leaves in order the cursors of all others. -/
theorem keepsOthers {index : Nat} (orderly : Orderly suite others)
    (keeps : Suite.KeepsOthers index suite after)
    (elsewhere : ∀ walker ∈ others, walker.1.branch ≠ index)
    (own : ∀ branch, after.branch? index = some branch → ∃ front, branch.Settled front) :
    Orderly after others where
  distinct := orderly.distinct
  stands := by
    intro walker member
    obtain ⟨branch, found, stands⟩ := orderly.stands walker member
    rcases keeps.others _ (elsewhere walker member) with same | ⟨skipped, line, present, idle, _⟩
    · exact ⟨branch, same.trans found, stands⟩
    · obtain rfl : branch = skipped := Option.some.inj (found.symm.trans present)
      simp [stands.busy] at idle
  settled := by
    intro other branch found
    by_cases same : other = index
    · exact own branch (same ▸ found)
    · rcases keeps.others other same with unchanged | ⟨before, line, present, _, skipped⟩
      · exact orderly.settled other branch (unchanged.symm.trans found)
      · obtain rfl : Suite.skip line before = branch :=
          Option.some.inj (skipped.symm.trans found)
        obtain ⟨front, settled⟩ := orderly.settled other before present
        exact ⟨front, settled.of_steps rfl⟩

theorem cons {walker : Walker} {branch : Branch} (orderly : Orderly suite others)
    (found : suite.branch? walker.1.branch = some branch)
    (stands : walker.2.Stands walker.1 branch)
    (elsewhere : ∀ other ∈ others, other.1.branch ≠ walker.1.branch) :
    Orderly suite (walker :: others) where
  distinct := by
    rw [List.map_cons, List.nodup_cons]
    refine ⟨?_, orderly.distinct⟩
    intro member
    obtain ⟨other, inside, same⟩ := List.mem_map.mp member
    exact elsewhere other inside same
  stands := by
    intro other member
    rcases List.mem_cons.mp member with rfl | inside
    · exact ⟨branch, found, stands⟩
    · exact orderly.stands other inside
  settled := orderly.settled

end Orderly

/-- An idle branch behind a change of one branch was idle before, and is that one only if the change
left it idle. -/
theorem tidy_of_keepsOthers {index : Nat} {suite after : Suite} (tidy : suite.Tidy)
    (keeps : Suite.KeepsOthers index suite after)
    (busy : ∀ branch, after.branch? index = some branch → branch.isIdle = false) : after.Tidy := by
  intro other branch found idle
  by_cases same : other = index
  · simp [busy branch (same ▸ found)] at idle
  · rcases keeps.others other same with unchanged | ⟨before, line, _, _, skipped⟩
    · exact tidy other branch (unchanged.symm.trans found) idle
    · obtain rfl : Suite.skip line before = branch := Option.some.inj (skipped.symm.trans found)
      simp [Branch.isIdle_skip] at idle

/-- The turn of a walk that a process goes on with. -/
theorem Orderly.treads (setting : Setting Call Env) (purpose : Purpose) {cursor : Cursor}
    {shared : Shared Env} {activity : Activity Call} {others : List Walker}
    (orderly : Orderly shared.suite ((cursor, activity.stage) :: others)) :
    ∃ before after, shared.suite.branch? cursor.branch = some before ∧
      activity.stage.Stands cursor before ∧
      Treads cursor shared.suite before (cursor.turn setting purpose shared activity).shared.suite
        (cursor.turn setting purpose shared activity).cursor
        (cursor.turn setting purpose shared activity).turn.arrival after := by
  obtain ⟨before, found, stands⟩ := orderly.stands _ List.mem_cons_self
  obtain ⟨after, treads⟩ := (Cursor.turn_walks setting purpose cursor shared activity).treads found
    stands (orderly.settled _ before found)
  exact ⟨before, after, found, stands, treads⟩

/-- A cursor that remains behind its turn is in order, and so are all others. -/
theorem Orderly.walked {cursor next : Cursor} {stage : Stage} {before : Branch} {suite after : Suite}
    {arrival : Arrival} {branch : Branch} {others : List Walker}
    (orderly : Orderly suite ((cursor, stage) :: others))
    (treads : Treads cursor suite before after next arrival branch) :
    Orderly after ((next.remains arrival).toList ++ others) := by
  have elsewhere : ∀ other ∈ others, other.1.branch ≠ cursor.branch :=
    fun other member => orderly.ne_of_mem member
  have rest : Orderly after others := orderly.tail.keepsOthers treads.others elsewhere
    fun _ found => (Option.some.inj (treads.found.symm.trans found)) ▸ treads.follows.settled
  cases remains : next.remains arrival with
  | none => exact rest
  | some walker =>
      have same := Cursor.of_remains remains
      have own : walker.1.branch = cursor.branch := same ▸ treads.own
      refine rest.cons (by rw [own]; exact treads.found) ?_ (fun other member => ?_)
      · rw [same]
        exact treads.stands walker remains
      · rw [own]
        exact elsewhere other member

namespace Process

variable {setting : Setting Call Env} {process : Process Call Env}

/-- The order of a process. -/
structure InOrder (process : Process Call Env) : Prop where
  sound : process.Sound
  orderly : Orderly process.suite process.walkers
  tidy : process.runner.control.phase = .stopped ∨ process.suite.Tidy

theorem InOrder.started (order : process.InOrder) :
    ∀ cursor ∈ process.runner.control.paused, cursor.isStarted = true := by
  intro cursor member
  obtain ⟨_, _, stands⟩ := order.orderly.stands cursor.resting
    (List.mem_append_right _ (List.mem_map_of_mem member))
  exact stands.1

end Process

/-- Stages tell nothing of a branch but its status and its steps. -/
theorem Stage.Stands.of_same {stage : Stage} {cursor : Cursor} {branch other : Branch}
    (stands : stage.Stands cursor branch) (status : other.status = branch.status)
    (steps : other.steps = branch.steps) : stage.Stands cursor other := by
  have active : other.isActive = branch.isActive := by simp only [Branch.isActive, status]
  have completed : other.status.isCompleted = branch.status.isCompleted := by rw [status]
  have faces : ∀ step, branch.Faces step → other.Faces step := fun step faces =>
    ⟨steps ▸ faces.inside, faces.settled.of_steps steps, faces.marks.of_steps steps⟩
  have passes : ∀ step, branch.Passes step → other.Passes step := fun step passes =>
    ⟨passes.settled.of_steps steps, passes.marks.of_steps steps⟩
  cases stage with
  | opening =>
      obtain ⟨running, untouched, free⟩ := stands
      exact ⟨active.trans running, untouched.of_steps steps, free⟩
  | entering | refused =>
      obtain ⟨started, running, untouched, free⟩ := stands
      exact ⟨started, active.trans running, untouched.of_steps steps, free⟩
  | looping | taking =>
      obtain ⟨started, ⟨step, pending, waits⟩ | ⟨free, between⟩⟩ := stands
      · exact ⟨started, .inl ⟨step, pending, active.trans waits.active, faces step waits.faces,
          waits.paused, waits.calm⟩⟩
      · refine ⟨started, .inr ⟨free, ?_⟩⟩
        rcases between with ended | ⟨running, untouched | ⟨step, passed⟩⟩
        · exact .inl (completed.trans ended)
        · exact .inr ⟨active.trans running, .inl (untouched.of_steps steps)⟩
        · exact .inr ⟨active.trans running, .inr ⟨step, passes step passed⟩⟩
  | skipping step | before step | within step | behind step =>
      obtain ⟨started, running, faced, free⟩ := stands
      exact ⟨started, active.trans running, faces step faced, free⟩
  | lookingAhead =>
      obtain ⟨started, free, ended | ⟨running, step, passed⟩⟩ := stands
      · exact ⟨started, free, .inl (completed.trans ended)⟩
      · exact ⟨started, free, .inr ⟨active.trans running, step, passes step passed⟩⟩
  | closing | faulted => exact completed.trans stands

/-- A resting cursor may be given other variables, and taken up. -/
theorem Stage.Stands.restage {stage : Stage} {cursor : Cursor} {branch : Branch}
    (stands : Stage.looping.Stands cursor branch) (taken : stage = .looping ∨ stage = .taking)
    (scope : Variables) : stage.Stands { cursor with scope } branch := by
  have moved : Stage.looping.Stands { cursor with scope } branch := by
    obtain ⟨started, ⟨step, pending, waits⟩ | rest⟩ := stands
    · exact ⟨started, .inl ⟨step, pending, waits.active, waits.faces, waits.paused, waits.calm⟩⟩
    · exact ⟨started, .inr rest⟩
  rcases taken with rfl | rfl
  · exact moved
  · exact moved

namespace Process

variable {setting : Setting Call Env} {process between : Process Call Env} {action : Action}

theorem claimed_eq_some {index : Nat} (claims : process.claimed action = some index) :
    process.suite.nextBranch = some index ∧ ∃ workers paused,
      process.operation = .working workers paused := by
  cases action with
  | turn thread =>
      simp only [claimed] at claims
      split at claims
      · next workers paused operation =>
        split at claims
        · exact ⟨claims, workers, paused, operation⟩
        · simp at claims
      · simp at claims
  | request | raiseStop | wait => simp [claimed] at claims

theorem InOrder.running_of_claimed (order : process.InOrder) {index : Nat}
    (claims : process.claimed action = some index) :
    process.runner.control.phase ≠ .stopped := by
  obtain ⟨_, workers, paused, operation⟩ := claimed_eq_some claims
  refine order.sound.phase_ne ?_ ?_
  · simp [isFinished, operation]
  · simp [operation, Operation.ending?]

/-- A branch that is claimed is idle and untouched, and owned by nobody. -/
theorem InOrder.fresh (order : process.InOrder) {index : Nat}
    (claims : process.claimed action = some index) :
    ∃ branch, process.suite.branch? index = some branch ∧ branch.isIdle = true ∧
      branch.Untouched ∧ ∀ walker ∈ process.walkers, walker.1.branch ≠ index := by
  obtain ⟨branch, found, waiting, _⟩ := Suite.nextBranch_eq_some (claimed_eq_some claims).1
  have idle : branch.isIdle = true := by
    simp only [Branch.isWaiting, Bool.and_eq_true] at waiting
    exact waiting.1
  have untouched :=
    (order.tidy.resolve_left (order.running_of_claimed claims)) index branch found idle
  refine ⟨branch, found, idle, untouched, ?_⟩
  rintro walker member rfl
  obtain ⟨other, present, stands⟩ := order.orderly.stands walker member
  obtain rfl : other = branch := Option.some.inj (present.symm.trans found)
  simp [stands.busy] at idle

theorem InOrder.orderly_moves (order : process.InOrder) (moves : Moves setting process action between) :
    Orderly between.suite between.walkers := by
  cases moves with
  | walked purpose cursor activity rest walking held suite holds =>
      have orderly := order.orderly.perm rfl held.symm
      obtain ⟨_, _, _, _, treads⟩ := orderly.treads setting purpose
      rw [suite]
      exact (orderly.walked treads).perm rfl holds
  | claimed index claims still suite holds =>
      obtain ⟨branch, found, idle, untouched, elsewhere⟩ := order.fresh claims
      have present := Suite.branch?_modify_self found Suite.markRunning
      have active : (Suite.markRunning branch).isActive = true := by
        simp only [Branch.isIdle, Bool.and_eq_true] at idle
        simpa [Suite.markRunning, Branch.isActive, Status.isCompleted] using idle.2
      have others := order.orderly.keepsOthers (Suite.keepsOthers_modify _ _ Suite.markRunning)
        elsewhere fun other found => by
          obtain rfl := Option.some.inj (present.symm.trans found)
          exact ⟨0, untouched.settled.of_steps rfl⟩
      rw [suite]
      have opening : Stage.opening.Stands { branch := index } (Suite.markRunning branch) :=
        ⟨active, untouched.of_steps rfl, rfl⟩
      exact (others.cons present opening elsewhere).perm rfl holds
  | restaged cursor scope stage rest still unclaimed held branches taken holds =>
      have orderly := order.orderly.perm rfl held.symm
      obtain ⟨branch, found, stands⟩ := orderly.stands _ List.mem_cons_self
      have restaged : Orderly process.suite (({ cursor with scope }, stage) :: rest) :=
        orderly.tail.cons found (stands.restage taken scope) fun _ member => orderly.ne_of_mem member
      exact restaged.perm branches holds
  | stayed still unclaimed branches holds => exact order.orderly.perm branches holds
  | prepared still fresh branches holds =>
      have present := Suite.branch?_map branches
      refine ⟨(holds.map _).nodup_iff.mpr order.orderly.distinct, ?_, ?_⟩
      · intro walker member
        obtain ⟨branch, found, stands⟩ := order.orderly.stands walker (holds.mem_iff.mp member)
        refine ⟨_, (present _).trans (congrArg _ found), stands.of_same rfl rfl⟩
      · intro index branch found
        rw [present] at found
        obtain ⟨before, existing, rfl⟩ := Option.map_eq_some_iff.mp found
        obtain ⟨front, settled⟩ := order.orderly.settled index before existing
        exact ⟨front, settled.of_steps rfl⟩
  | swept still unclaimed branches dropped stopped stopping =>
      rw [dropped]
      refine ⟨.nil, by simp, ?_⟩
      intro index branch found
      rw [Suite.branch?_map branches] at found
      obtain ⟨before, existing, rfl⟩ := Option.map_eq_some_iff.mp found
      obtain ⟨front, settled⟩ := order.orderly.settled index before existing
      refine ⟨front, settled.of_steps ?_⟩
      split <;> rfl

theorem InOrder.tidy_moves (order : process.InOrder) (tidy : process.suite.Tidy)
    (moves : Moves setting process action between) :
    between.runner.control.phase = .stopped ∨ between.suite.Tidy := by
  cases moves with
  | walked purpose cursor activity rest walking held suite holds =>
      obtain ⟨_, _, _, _, treads⟩ := (order.orderly.perm rfl held.symm).treads setting purpose
      rw [suite]
      refine .inr (tidy_of_keepsOthers tidy treads.others ?_)
      intro branch found
      obtain rfl := Option.some.inj (treads.found.symm.trans found)
      exact treads.follows.busy
  | claimed index claims still suite holds =>
      obtain ⟨branch, found, _⟩ := order.fresh claims
      rw [suite]
      refine .inr (tidy_of_keepsOthers tidy (Suite.keepsOthers_modify _ _ _) ?_)
      intro other present
      rw [Suite.branch?_modify_self found] at present
      obtain rfl := Option.some.inj present
      simp [Suite.markRunning, Branch.isIdle]
  | restaged cursor scope stage rest still unclaimed held branches taken holds =>
      refine .inr fun index branch found => ?_
      rw [Suite.branch?_congr branches] at found
      exact tidy index branch found
  | stayed still unclaimed branches holds =>
      refine .inr fun index branch found => ?_
      rw [Suite.branch?_congr branches] at found
      exact tidy index branch found
  | prepared still fresh branches holds =>
      refine .inr fun index branch found idle => ?_
      rw [Suite.branch?_map branches] at found
      obtain ⟨before, existing, rfl⟩ := Option.map_eq_some_iff.mp found
      exact (tidy index before existing idle).of_steps rfl
  | swept still unclaimed branches dropped stopped stopping => exact .inl stopped

theorem InOrder.perform (order : process.InOrder) (action : Action) :
    (process.perform setting action).InOrder := by
  obtain ⟨between, moves, settles⟩ := perform_moves setting order.sound order.started action
  refine ⟨sound_perform order.sound action, ?_, ?_⟩
  · rcases settles.walkers with kept | ⟨_, dropped⟩
    · exact (order.orderly_moves moves).perm settles.branches kept
    · rw [dropped]
      refine ⟨.nil, nofun, fun index branch found => ?_⟩
      rw [Suite.branch?_congr settles.branches] at found
      exact (order.orderly_moves moves).settled index branch found
  · rcases order.tidy with stopped | tidy
    · exact .inl (stopped_perform order.sound stopped action)
    · refine (order.tidy_moves tidy moves).imp settles.final fun tidy index branch found => ?_
      rw [Suite.branch?_congr settles.branches] at found
      exact tidy index branch found

/-- Every branch of a prepared runner is fresh, and none is known to have passed unless such branches
are to be skipped. -/
theorem branch?_ready {runner : Runner Env} {index : Nat} {branch : Branch}
    (found : (runner.ready setting).suite.branch? index = some branch) :
    ∃ before known, runner.suite.branch? index = some before ∧
      branch = { Branch.reset before with passedLastTime := known } ∧
      (setting.skipPassed = false → known = false) := by
  simp only [Runner.ready, Runner.init, Runner.finish, suite, Runner.suite, if_true] at found
  cases keeps : setting.skipPassed with
  | true =>
      simp only [keeps, if_true, Suite.branch?, List.getElem?_map] at found
      obtain ⟨before, located, rfl⟩ := Option.map_eq_some_iff.mp found
      exact ⟨before, before.passedLastTime, located, rfl, by simp⟩
  | false =>
      simp only [keeps, Runner.withSuite, Suite.branch?, List.getElem?_map, Bool.false_eq_true,
        if_false] at found
      obtain ⟨_, present, rfl⟩ := Option.map_eq_some_iff.mp found
      obtain ⟨before, located, rfl⟩ := Option.map_eq_some_iff.mp present
      exact ⟨before, false, located, rfl, fun _ => rfl⟩

theorem control_ready (setting : Setting Call Env) (runner : Runner Env) :
    (runner.ready setting).runner.control = {} := by
  simp only [Runner.ready, Runner.init, Runner.finish, if_true]
  split <;> rfl

theorem walkers_ready (setting : Setting Call Env) (runner : Runner Env) :
    (runner.ready setting).walkers = [] := by
  simp only [walkers, control_ready]
  rfl

theorem inOrder_ready (setting : Setting Call Env) (runner : Runner Env) :
    (runner.ready setting).InOrder := by
  have untouched : ∀ index branch, (runner.ready setting).suite.branch? index = some branch →
      branch.Untouched := by
    intro index branch found
    obtain ⟨before, known, _, rfl, _⟩ := branch?_ready found
    exact (Branch.untouched_reset before).of_steps rfl
  refine ⟨sound_finish _ _, ⟨?_, ?_, ?_⟩, .inr fun index branch found _ => untouched index branch found⟩
  · simp [walkers_ready]
  · simp [walkers_ready]
  · intro index branch found
    exact ⟨0, (untouched index branch found).settled⟩

theorem inOrder_after (setting : Setting Call Env) (runner : Runner Env) (schedule : List Action) :
    ((runner.ready setting).after setting schedule).InOrder := by
  induction schedule using List.reverseRecOn with
  | nil => exact inOrder_ready setting runner
  | append_singleton schedule action ih =>
      rw [after_concat]
      exact ih.perform action

end Process

/-- What one action may do to a branch. -/
structure Evolves (setting : Setting Call Env) (going claims : Prop) (before after : Branch) : Prop where
  plan : after.plan = before.plan
  known : after.passedLastTime = before.passedLastTime ∨
    setting.skipPassed = false ∧ after.passedLastTime = false
  busy : going → before.isIdle = false → after.isIdle = false
  active : after.isActive = true → before.isActive = true ∨ claims

theorem Evolves.id {setting : Setting Call Env} {going claims : Prop} {before after : Branch}
    (evolves : Evolves setting going claims before after) : after.nonParallelId = before.nonParallelId :=
  Branch.nonParallelId_of_plan evolves.plan

theorem evolves_refl (setting : Setting Call Env) (going claims : Prop) (branch : Branch) :
    Evolves setting going claims branch branch :=
  ⟨rfl, .inl rfl, fun _ busy => busy, fun active => .inl active⟩

theorem evolves_of_keepsOthers (setting : Setting Call Env) (going claims : Prop) {index other : Nat}
    {suite after : Suite} {branch : Branch} (keeps : Suite.KeepsOthers index suite after)
    (different : other ≠ index) (found : after.branch? other = some branch) :
    ∃ before, suite.branch? other = some before ∧
      Evolves setting going claims before branch := by
  rcases keeps.others other different with same | ⟨before, line, present, idle, skipped⟩
  · exact ⟨branch, same.symm.trans found, evolves_refl _ _ _ _⟩
  · obtain rfl : Suite.skip line before = branch := Option.some.inj (skipped.symm.trans found)
    refine ⟨before, present, rfl, .inl rfl, fun _ _ => Branch.isIdle_skip line before, ?_⟩
    intro active
    simp [Suite.skip, Branch.isActive, Status.isCompleted] at active

namespace Process

variable {setting : Setting Call Env} {process between : Process Call Env} {action : Action}

theorem claimed_of_walk {thread : Nat} {walk : Purpose × Cursor × Activity Call}
    (walking : process.walk? thread = some walk) : process.claimed (.turn thread) = none := by
  simp only [walk?] at walking
  simp only [claimed]
  split at walking
  · next workers paused working =>
    simp only [working]
    split at walking
    · next taken => simp [taken]
    · cases walking
  · next single => simp [single]
  · cases walking

/-- No action but a claim makes a branch active, and none but a sweep makes one idle. -/
theorem InOrder.evolves (order : process.InOrder) (moves : Moves setting process action between)
    {index : Nat} {after : Branch}
    (found : between.suite.branch? index = some after) :
    ∃ before, process.suite.branch? index = some before ∧
      Evolves setting (process.operation.ending? ≠ some .stop)
        (process.claimed action = some index) before after := by
  cases moves with
  | walked purpose cursor activity rest walking held suite holds =>
      obtain ⟨before, own, present, stands, treads⟩ :=
        (order.orderly.perm rfl held.symm).treads setting purpose
      rw [suite] at found
      by_cases same : index = cursor.branch
      · subst same
        obtain rfl : own = after := Option.some.inj (treads.found.symm.trans found)
        have follows := treads.follows
        refine ⟨before, present, follows.plan, .inl follows.known, fun _ _ => follows.busy, ?_⟩
        intro active
        rcases Branch.isIdle_eq_false.mp stands.busy with running | completed
        · exact .inl running
        · have ended := follows.ends completed
          rw [(Branch.isActive_iff.mp active).2] at ended
          cases ended
      · exact evolves_of_keepsOthers setting _ _ treads.others same found
  | claimed claim claims still suite holds =>
      rw [suite] at found
      by_cases same : index = claim
      · subst same
        obtain ⟨before, present, _⟩ := order.fresh claims
        rw [Suite.branch?_modify_self present] at found
        obtain rfl := Option.some.inj found
        refine ⟨before, present, rfl, .inl rfl, ?_, fun _ => .inr claims⟩
        intro _ busy
        simp [Suite.markRunning, Branch.isIdle]
      · rw [Suite.branch?_modify_of_ne same] at found
        exact ⟨after, found, evolves_refl _ _ _ _⟩
  | restaged cursor scope stage rest still unclaimed held branches taken holds =>
      rw [Suite.branch?_congr branches] at found
      exact ⟨after, found, evolves_refl _ _ _ _⟩
  | stayed still unclaimed branches holds =>
      rw [Suite.branch?_congr branches] at found
      exact ⟨after, found, evolves_refl _ _ _ _⟩
  | prepared still fresh branches holds =>
      rw [Suite.branch?_map branches] at found
      obtain ⟨before, present, rfl⟩ := Option.map_eq_some_iff.mp found
      exact ⟨before, present, rfl, .inr ⟨fresh, rfl⟩, fun _ busy => busy, fun active => .inl active⟩
  | swept still unclaimed branches dropped stopped stopping =>
      rw [Suite.branch?_map branches] at found
      obtain ⟨before, present, rfl⟩ := Option.map_eq_some_iff.mp found
      refine ⟨before, present, ?_⟩
      split
      · exact evolves_refl _ _ _ _
      · refine ⟨rfl, .inl rfl, fun going => absurd stopping going, fun active => ?_⟩
        simp [Branch.isActive] at active

/-- What there is to do along a branch never changes. -/
theorem plan_after (setting : Setting Call Env) (runner : Runner Env) (schedule : List Action)
    {index : Nat} {branch : Branch}
    (found : ((runner.ready setting).after setting schedule).suite.branch? index = some branch) :
    ∃ before, runner.suite.branch? index = some before ∧ branch.plan = before.plan := by
  induction schedule using List.reverseRecOn generalizing branch with
  | nil =>
      obtain ⟨before, known, located, rfl, _⟩ := branch?_ready found
      exact ⟨before, located, Branch.plan_reset before⟩
  | append_singleton schedule action ih =>
      have order := inOrder_after setting runner schedule
      obtain ⟨between, moves, settles⟩ := perform_moves setting order.sound order.started action
      rw [after_concat, Suite.branch?_congr settles.branches] at found
      obtain ⟨before, present, evolves⟩ := order.evolves moves found
      obtain ⟨first, located, same⟩ := ih present
      exact ⟨first, located, evolves.plan.trans same⟩

end Process

end Run

end TestTree
