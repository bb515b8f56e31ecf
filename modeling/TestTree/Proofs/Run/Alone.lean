import TestTree.Proofs.Run.Failing
import TestTree.Proofs.Run.Nearing
import TestTree.Proofs.Run.Stopping

namespace TestTree

/-- A suite of this branch alone, of which no earlier run is known. -/
def Suite.alone (branch : Branch) : Suite := { branches := [{ branch with passedLastTime := false }] }

namespace Run

variable {Call Env : Type} {setting : Setting Call Env}

def Runner.alone (branch : Branch) (env : Env) : Runner Env := .initial (.alone branch) env

/-- A run that is never asked for anything else, after these turns. -/
def Runner.runs (setting : Setting Call Env) (runner : Runner Env) (threads : List Nat) :
    Process Call Env :=
  (runner.ready setting).after setting (.request .run :: threads.map .turn)

section Calm

variable (pure : setting.executor.Pure)

include pure

theorem Executor.Pure.isStopped_cursor (purpose : Purpose) (cursor : Cursor) (shared : Shared Env)
    (activity : Activity Call) :
    (cursor.turn setting purpose shared activity).shared.world.isStopped = shared.world.isStopped := by
  rcases cursor.world_turn setting purpose shared activity with same | ⟨call, same⟩
  · rw [same]
  · rw [same]
    exact pure.calm call shared.world

theorem Executor.Pure.isStopped_turn {process after : Process Call Env} {thread : Nat}
    (turns : process.Turns setting thread after) : after.isStopped = process.isStopped := by
  rcases turns.isStopped with same | ⟨call, same⟩
  · exact same
  · exact same.trans (pure.calm call process.runner.shared.world)

/-- No run is stopped by its own bodies. -/
theorem Executor.Pure.unstopped (runner : Runner Env) (threads : List Nat) :
    (runner.ready setting).Unstopped setting (.request .run :: threads.map .turn) := by
  have calm (process : Process Call Env) (schedule : List Action)
      (turns : ∀ action ∈ schedule, action = .request .run ∨ ∃ thread, action = .turn thread) :
      (process.after setting schedule).isStopped = process.isStopped := by
    induction schedule using List.reverseRecOn with
    | nil => rfl
    | append_singleton schedule action ih =>
        rw [Process.after_concat]
        have ih := ih fun other listed => turns other (List.mem_append_left _ listed)
        rcases turns action (List.mem_append_right _ (.head _)) with rfl | ⟨thread, rfl⟩
        · simp only [Process.perform]
          split
          · simp only [Request.launch, Runner.run]
            split <;> exact ih
          · exact ih
        · exact (pure.isStopped_turn (Process.turn_turns setting _ thread)).trans ih
  intro moment earlier
  rw [calm _ moment fun action listed => ?_]
  · simp only [Runner.ready, Runner.init, if_true]
    split <;> rfl
  · rcases List.mem_cons.mp (earlier.subset listed) with rfl | turned
    · exact .inl rfl
    · obtain ⟨thread, -, rfl⟩ := List.mem_map.mp turned
      exact .inr ⟨thread, rfl⟩

end Calm

/-- How far a worker is from its end. -/
def Worker.weight (branch : Branch) : Worker Call → Nat
  | seeking => 2
  | claiming => 1
  | walking _ activity => activity.weight branch
  | ended => 0

def Worker.patience (pure : setting.executor.Pure) : Worker Call → Nat
  | walking _ activity => activity.patience pure
  | _ => 0

/-- What workers share that have one branch to run, unhindered. -/
structure Shared.Lone (branch : Branch) (shared : Shared Env) : Prop where
  branches : shared.suite.branches = [branch]
  around : shared.suite.around = ([], [])
  unstopped : shared.world.isStopped = false
  unrequested : shared.pauseRequested = false
  unknown : branch.passedLastTime = false

section Workers

variable {pure : setting.executor.Pure} {shared : Shared Env} {branch later : Branch} {step : Nat}
  {error : StepError}

/-- A branch of which everything needed is known: it is bound to fail at a step, and fails there if it
ends. -/
structure Bound (pure : setting.executor.Pure) (step : Nat) (error : StepError) (branch : Branch) :
    Prop where
  undebugged : branch.hasDebugStep = false
  spotless : branch.Spotless
  settled : ∃ front, branch.Settled front
  fails : branch.FailsAt pure.results step error
  kept : branch.status.isCompleted = true → branch.FailedAt step error

/-- A worker that walks along the branch. -/
structure Along (pure : setting.executor.Pure) (suite : Suite) (branch : Branch) (cursor : Cursor)
    (activity : Activity Call) : Prop where
  found : suite.branch? cursor.branch = some branch
  stands : activity.stage.Stands cursor branch
  flows : cursor.Flows activity.stage
  foretold : Foretells pure.toFunctional branch cursor activity

/-- What a turn of a worker comes to: it comes nearer to its end, and does not end before the branch was
taken up. -/
structure Proceeds (pure : setting.executor.Pure) (step : Nat) (error : StepError) (branch : Branch)
    (worker : Worker Call) (move : Worker.Move Call Env) (later : Branch) : Prop where
  lone : move.shared.Lone later
  plan : later.plan = branch.plan
  kept : later.status.isCompleted = true → later.FailedAt step error
  busy : branch.isIdle = false ∨ move.worker = .ended → later.isIdle = false
  unpaused : move.paused = none
  nearer : worker.hasEnded = false → later.left < branch.left ∨ later.left = branch.left ∧
    (move.worker.weight branch < worker.weight branch ∨
      move.worker.weight branch = worker.weight branch ∧
        move.worker.patience pure < worker.patience pure)

theorem Shared.Lone.branch?_eq (lone : shared.Lone branch) {index : Nat} {found : Branch} :
    shared.suite.branch? index = some found ↔ index = 0 ∧ found = branch := by
  rw [Suite.branch?, lone.branches]
  cases index with
  | zero => simp [eq_comm]
  | succ index => simp

theorem Shared.Lone.keepsOthers (lone : shared.Lone branch) {after : Shared Env} {index : Nat}
    (keeps : Suite.KeepsOthers index shared.suite after.suite)
    (present : after.suite.branch? 0 = some later) (unstopped : after.world.isStopped = false)
    (unrequested : after.pauseRequested = false) (unknown : later.passedLastTime = false) :
    after.Lone later := by
  refine ⟨?_, keeps.around.trans lone.around, unstopped, unrequested, unknown⟩
  have length := keeps.length
  rw [lone.branches] at length
  obtain ⟨first, only⟩ := List.length_eq_one_iff.mp length
  rw [Suite.branch?, only] at present
  rw [only, Option.some.inj present]

theorem Shared.Lone.nextBranch (lone : shared.Lone branch) :
    shared.suite.nextBranch = if branch.isIdle then some 0 else none := by
  have waiting : branch.isWaiting = branch.isIdle := by simp [Branch.isWaiting, lone.unknown]
  rw [Suite.nextBranch, lone.branches, List.findIdx?_singleton, Suite.mayStart, waiting]
  cases idle : branch.isIdle with
  | false => rfl
  | true =>
      have inactive : branch.isActive = false := by
        simp only [Branch.isIdle, Bool.and_eq_true, Bool.not_eq_true'] at idle
        simp [Branch.isActive, idle.1]
      have free : shared.suite.busyIds = [] := by
        simp [Suite.busyIds, lone.branches, inactive]
      simp [free]

theorem proceeds_seeking (lone : shared.Lone branch) (bound : Bound pure step error branch) :
    Proceeds pure step error branch .seeking (Worker.seeking.turn setting shared) branch := by
  have goes : (shared.world.isStopped || shared.pauseRequested) = false := by
    rw [lone.unstopped, lone.unrequested]
    rfl
  simp only [Worker.turn, goes, Bool.false_eq_true, if_false]
  refine ⟨lone, rfl, bound.kept, ?_, rfl, fun _ => .inr ⟨rfl, .inl (Nat.lt_succ_self 1)⟩⟩
  rintro (busy | ended)
  · exact busy
  · cases ended

theorem proceeds_claiming (lone : shared.Lone branch) (bound : Bound pure step error branch) :
    ∃ later, Proceeds pure step error branch .claiming (Worker.claiming.turn setting shared) later := by
  simp only [Worker.turn, Suite.claimNext, lone.nextBranch]
  cases idle : branch.isIdle with
  | true =>
      have stands := idle
      simp only [Branch.isIdle, Bool.and_eq_true, Bool.not_eq_true'] at stands
      obtain ⟨still, unfinished⟩ := stands
      refine ⟨Suite.markRunning branch, ?_, rfl, ?_, ?_, rfl, fun _ => .inl ?_⟩
      · refine ⟨?_, lone.around, lone.unstopped, lone.unrequested, lone.unknown⟩
        simp [Suite.modify, lone.branches, setAt]
      · intro completed
        exact absurd (unfinished.symm.trans completed) Bool.false_ne_true
      · intro _
        simp [Suite.markRunning, Branch.isIdle]
      · have active : (Suite.markRunning branch).isActive = true := Branch.isActive_iff.mpr ⟨rfl, unfinished⟩
        rw [Branch.left_of_active active, Branch.left, unfinished, still]
        exact Nat.lt_succ_self _
  | false =>
      have waiting : branch.isWaiting = false := by simp [Branch.isWaiting, idle]
      have none : shared.suite.branches.any Branch.isWaiting = false := by
        simp [lone.branches, waiting]
      simp only [Bool.false_eq_true, if_false, Option.map_none, none]
      exact ⟨branch, lone, rfl, bound.kept, fun _ => idle, rfl, fun _ => .inr ⟨rfl, .inl Nat.zero_lt_one⟩⟩

theorem proceeds_walking (lone : shared.Lone branch) (bound : Bound pure step error branch)
    {cursor : Cursor} {activity : Activity Call}
    (along : Along pure shared.suite branch cursor activity) :
    ∃ later, Proceeds pure step error branch (.walking cursor activity)
      ((Worker.walking cursor activity).turn setting shared) later := by
  obtain ⟨found, stands, flows, foretold⟩ := along
  have walk := Cursor.turn_walks setting .run cursor shared activity
  obtain ⟨later, treads⟩ := walk.treads found stands bound.settled
  obtain ⟨calm, unpaused, -⟩ := walk.flows found bound.undebugged flows lone.unrequested
  have unstopped := (pure.isStopped_cursor .run cursor shared activity).trans lone.unstopped
  have nears := nears_turn .run found stands treads.found
  have free : cursor.held = 0 := by rw [Cursor.held, flows.free]; rfl
  have kept : later.status.isCompleted = true → later.FailedAt step error :=
    failedAt_turn found stands flows bound.undebugged bound.spotless foretold bound.fails bound.kept
      treads.found
  have present : (cursor.turn setting .run shared activity).shared.suite.branch? 0 = some later := by
    have first := (lone.branch?_eq.mp found).1
    rw [← first]
    exact treads.found
  have alone : (cursor.turn setting .run shared activity).shared.Lone later :=
    lone.keepsOthers treads.others present unstopped calm (treads.follows.known.trans lone.unknown)
  have busy := treads.follows.busy
  have heavy := three_le_weight branch activity
  have left := nears.left
  rw [free] at left
  have lasts : later.left < branch.left ∨ later.left = branch.left := by omega
  refine ⟨later, ?_⟩
  simp only [Worker.turn]
  cases turned : (cursor.turn setting .run shared activity).turn with
  | onward next =>
      refine ⟨alone, treads.follows.plan, kept, fun _ => busy, rfl, fun _ => ?_⟩
      rcases nears.onward next turned with less | lighter
      · exact .inl (by omega)
      · exact lasts.imp_right fun same => ⟨same, .inl lighter⟩
  | asleep time next =>
      refine ⟨alone, treads.follows.plan, kept, fun _ => busy, rfl, fun _ => ?_⟩
      exact lasts.imp_right fun same =>
        ⟨same, .inr ⟨nears.asleep time next turned, patience_of_asleep pure turned⟩⟩
  | left departure =>
      cases departure with
      | done =>
          refine ⟨alone, treads.follows.plan, kept, fun _ => busy, rfl, fun _ => ?_⟩
          exact lasts.imp_right fun same => ⟨same, .inl heavy⟩
      | stopped =>
          refine ⟨alone, treads.follows.plan, kept, fun _ => busy, rfl, fun _ => ?_⟩
          exact lasts.imp_right fun same =>
            ⟨same, .inl (Nat.lt_of_lt_of_le (Nat.zero_lt_succ 2) heavy)⟩
      | paused => exact absurd (by rw [turned]; rfl) unpaused

theorem proceeds_worker (lone : shared.Lone branch) (bound : Bound pure step error branch)
    (worker : Worker Call) (along : ∀ cursor activity, worker = .walking cursor activity →
      Along pure shared.suite branch cursor activity)
    (rests : worker = .ended → branch.isIdle = false) :
    ∃ later, Proceeds pure step error branch worker (worker.turn setting shared) later := by
  cases worker with
  | seeking => exact ⟨branch, proceeds_seeking lone bound⟩
  | claiming => exact proceeds_claiming lone bound
  | walking cursor activity => exact proceeds_walking lone bound (along cursor activity rfl)
  | ended => exact ⟨branch, lone, rfl, bound.kept, fun _ => rests rfl, rfl, nofun⟩

end Workers

/-- How far an operation is from its end, when it runs this branch alone. -/
def Operation.distance (pure : setting.executor.Pure) (branch : Branch) :
    Operation Call → Nat × Nat × Nat
  | .beforeEverything _ _ => (branch.steps.length + 7, 0, 0)
  | .starting => (branch.steps.length + 6, 0, 0)
  | .working workers _ => (branch.left + 3, (workers.map (Worker.weight branch)).sum,
      (workers.map (Worker.patience pure)).sum)
  | .afterEverything _ _ _ => (2, 0, 0)
  | .concluding _ => (1, 0, 0)
  | _ => (0, 0, 0)

def Nearer : Nat × Nat × Nat → Nat × Nat × Nat → Prop := Prod.Lex (· < ·) (Prod.Lex (· < ·) (· < ·))

theorem nearer_iff {first second third left middle right : Nat} :
    Nearer (first, second, third) (left, middle, right) ↔
      first < left ∨ first = left ∧ (second < middle ∨ second = middle ∧ third < right) := by
  simp only [Nearer, Prod.lex_def]

theorem wellFounded_nearer : WellFounded Nearer :=
  (Prod.lex ⟨_, Nat.lt_wfRel.wf⟩ (Prod.lex ⟨_, Nat.lt_wfRel.wf⟩ ⟨_, Nat.lt_wfRel.wf⟩)).wf

/-- Workers that run one branch end when it is at its end. -/
def Operation.Lone (branch : Branch) : Operation Call → Prop
  | .beforeEverything _ _ | .starting => True
  | .working workers _ =>
      workers.all Worker.hasEnded = false ∧ (.ended ∈ workers → branch.isIdle = false)
  | .afterEverything _ _ ending | .concluding ending =>
      ending = .run ∧ branch.status.isCompleted = true
  | .finished _ => branch.status.isCompleted = true
  | _ => False

namespace Process

variable {pure : setting.executor.Pure} {process : Process Call Env} {branch later : Branch}
  {step : Nat} {error : StepError}

/-- A run of one branch that is bound to fail. -/
structure Lone (pure : setting.executor.Pure) (step : Nat) (error : StepError) (branch : Branch)
    (process : Process Call Env) : Prop where
  predicted : process.Predicted pure.toFunctional
  covered : process.Covered
  shared : process.runner.shared.Lone branch
  fails : branch.FailsAt pure.results step error
  kept : branch.status.isCompleted = true → branch.FailedAt step error
  operation : process.operation.Lone branch

theorem Lone.next (lone : process.Lone pure step error branch) {thread : Nat}
    (shared : (process.turn setting thread).1.runner.shared.Lone later)
    (plan : later.plan = branch.plan)
    (kept : later.status.isCompleted = true → later.FailedAt step error)
    (operation : (process.turn setting thread).1.Covered →
      (process.turn setting thread).1.operation.Lone later) :
    (process.turn setting thread).1.Lone pure step error later := by
  have going : process.operation.ending? ≠ some .stop := by
    intro stopping
    have alone := lone.operation
    unfold Operation.ending? at stopping
    split at stopping
    · next same =>
        rw [same] at alone
        obtain rfl := Option.some.inj stopping
        cases alone.1
    · next same =>
        rw [same] at alone
        exact alone
    · next same =>
        rw [same] at alone
        obtain rfl := Option.some.inj stopping
        cases alone.1
    · cases stopping
  have covered : (process.perform setting (.turn thread)).Covered :=
    lone.predicted.order.covered_perform going lone.shared.unstopped shared.unstopped lone.covered
  exact ⟨lone.predicted.perform (.turn thread), covered, shared,
    lone.fails.alike (Branch.alike_of_plan plan _), kept, operation covered⟩

/-- What a turn of a run of one branch comes to. -/
def Lone.Turns (pure : setting.executor.Pure) (step : Nat) (error : StepError) (branch : Branch)
    (process : Process Call Env) (thread : Nat) : Prop :=
  ∃ later, (process.turn setting thread).1.Lone pure step error later ∧
    (thread ∈ process.threads → Nearer ((process.turn setting thread).1.operation.distance pure later)
      (process.operation.distance pure branch))

theorem Lone.turns {next : Process Call Env} (lone : process.Lone pure step error branch) {thread : Nat}
    (turned : (process.turn setting thread).1 = next) (shared : next.runner.shared.Lone later)
    (plan : later.plan = branch.plan)
    (kept : later.status.isCompleted = true → later.FailedAt step error)
    (operation : next.Covered → next.operation.Lone later)
    (nearer : thread ∈ process.threads →
      Nearer (next.operation.distance pure later) (process.operation.distance pure branch)) :
    Lone.Turns pure step error branch process thread := by
  subst turned
  exact ⟨later, lone.next shared plan kept operation, nearer⟩

theorem Lone.along (lone : process.Lone pure step error branch) {cursor : Cursor}
    {activity : Activity Call} {workers : List (Worker Call)} {paused : List Cursor}
    (working : process.operation = .working workers paused)
    (listed : .walking cursor activity ∈ workers) :
    Along pure process.runner.shared.suite branch cursor activity := by
  have among : (cursor, activity) ∈ process.courses := by
    rw [courses, working]
    exact List.mem_append_left _ (List.mem_append_left _ (List.mem_filterMap.mpr ⟨_, listed, rfl⟩))
  obtain ⟨own, found, stands⟩ := lone.predicted.order.stands among
  obtain rfl := (lone.shared.branch?_eq.mp found).2
  have flowing := lone.predicted.flows.operation
  rw [working] at flowing
  exact ⟨found, stands, flowing.2 cursor activity listed,
    lone.predicted.foretold _ among own found⟩

theorem Lone.toBound (lone : process.Lone pure step error branch) : Bound pure step error branch := by
  have found : process.suite.branch? 0 = some branch := lone.shared.branch?_eq.mpr ⟨rfl, rfl⟩
  exact ⟨lone.predicted.undebugged 0 branch found, lone.predicted.spotless 0 branch found,
    lone.predicted.order.orderly.settled 0 branch found, lone.fails, lone.kept⟩

theorem weight_worker_congr (plan : later.plan = branch.plan) (worker : Worker Call) :
    worker.weight later = worker.weight branch := by
  cases worker with
  | walking cursor activity => exact weight_congr plan activity
  | seeking | claiming | ended => rfl

/-- The workers that are left with one of them having had its turn are nearer to their end. -/
theorem nearer_set {workers : List (Worker Call)} {paused held : List Cursor} {thread : Nat}
    {worker turned : Worker Call} (found : workers[thread]? = some worker)
    (plan : later.plan = branch.plan)
    (nearer : later.left < branch.left ∨ later.left = branch.left ∧
      (turned.weight branch < worker.weight branch ∨ turned.weight branch = worker.weight branch ∧
        turned.patience pure < worker.patience pure)) :
    Nearer ((Operation.working (workers.set thread turned) held).distance pure later)
      ((Operation.working workers paused).distance pure branch) := by
  have same : (Worker.weight later : Worker Call → Nat) = Worker.weight branch :=
    funext (weight_worker_congr plan)
  have heavy := sum_map_set (Worker.weight branch) found turned
  have long := sum_map_set (Worker.patience pure) found turned
  rw [Operation.distance, Operation.distance, nearer_iff, same]
  omega

theorem alive_of_mem_threads {workers : List (Worker Call)} {paused : List Cursor} {thread : Nat}
    {worker : Worker Call} (working : process.operation = .working workers paused)
    (found : workers[thread]? = some worker) (live : thread ∈ process.threads) :
    worker.hasEnded = false := by
  simp only [threads, working, List.mem_filter, found, Option.any_some] at live
  simpa using live.2

/-- When the last worker has ended, the branch is at its end. -/
theorem Lone.turns_joined (lone : process.Lone pure step error branch) {workers : List (Worker Call)}
    (working : process.operation = .working workers []) (thread : Nat) {runner : Runner Env}
    (turned : (process.turn setting thread).1 = runner.enterAfterEverything .run)
    (unpaused : runner.control.paused = []) (alone : runner.shared.Lone later)
    (plan : later.plan = branch.plan)
    (kept : later.status.isCompleted = true → later.FailedAt step error)
    (busy : later.isIdle = false) : Lone.Turns pure step error branch process thread := by
  have shared : (runner.enterAfterEverything .run : Process Call Env).runner.shared = runner.shared := by
    unfold Runner.enterAfterEverything
    split <;> rfl
  refine lone.turns turned (by rw [shared]; exact alone) plan kept ?_ fun _ => ?_
  · intro covered
    have found : (runner.enterAfterEverything .run : Process Call Env).suite.branch? 0 = some later := by
      rw [suite_enterAfterEverything]
      exact alone.branch?_eq.mpr ⟨rfl, rfl⟩
    have ended : later.status.isCompleted = true := by
      rcases Branch.isIdle_eq_false.mp busy with active | completed
      · have owned := covered 0 later found active
        rw [owned_eq, courses_enterAfterEverything, unpaused] at owned
        cases owned
      · exact completed
    unfold Runner.enterAfterEverything
    split
    · exact ⟨rfl, ended⟩
    · exact ⟨rfl, ended⟩
  · rw [working]
    unfold Runner.enterAfterEverything
    split
    · rw [Operation.distance, Operation.distance, nearer_iff]
      omega
    · rw [Operation.distance, Operation.distance, nearer_iff]
      omega

theorem Lone.turns_working (lone : process.Lone pure step error branch) {workers : List (Worker Call)}
    {paused : List Cursor} (working : process.operation = .working workers paused) (thread : Nat) :
    Lone.Turns pure step error branch process thread := by
  have rests : .ended ∈ workers → branch.isIdle = false := by
    have alone := lone.operation
    rw [working] at alone
    exact alone.2
  have flowing := lone.predicted.flows.operation
  rw [working] at flowing
  obtain ⟨rfl, -⟩ := flowing
  cases found : workers[thread]? with
  | none =>
      have turned : (process.turn setting thread).1 = process := by
        simp only [Process.turn, working, found]
      refine lone.turns turned lone.shared rfl lone.kept (fun _ => lone.operation) ?_
      intro live
      simp [threads, working, found] at live
  | some worker =>
      have listed := List.mem_of_getElem? found
      obtain ⟨later, proceeds⟩ := proceeds_worker lone.shared lone.toBound worker
        (fun cursor activity isWalking => lone.along working (isWalking ▸ listed))
        (fun isEnded => rests (isEnded ▸ listed))
      by_cases allEnded : (workers.set thread
          (worker.turn setting process.runner.shared).worker).all Worker.hasEnded = true
      · have turned : (process.turn setting thread).1 = Runner.enterAfterEverything
            { process.runner with shared := (worker.turn setting process.runner.shared).shared } .run := by
          simp only [Process.turn, working, found, allEnded, if_true, proceeds.unpaused, join]
          rfl
        refine lone.turns_joined working thread turned ?_ proceeds.lone proceeds.plan proceeds.kept ?_
        · exact lone.predicted.flows.unpaused
        · have inside := (List.getElem?_eq_some_iff.mp found).1
          have last := List.all_eq_true.mp allEnded _ (List.mem_set inside _)
          refine proceeds.busy (.inr ?_)
          revert last
          cases (worker.turn setting process.runner.shared).worker with
          | ended => exact fun _ => rfl
          | seeking | claiming | walking =>
              intro last
              cases last
      · have turned : (process.turn setting thread).1 =
            ⟨{ process.runner with shared := (worker.turn setting process.runner.shared).shared },
              .working (workers.set thread (worker.turn setting process.runner.shared).worker) []⟩ := by
          simp only [Process.turn, working, found, allEnded, proceeds.unpaused]
          rfl
        refine lone.turns turned proceeds.lone proceeds.plan proceeds.kept (fun _ => ?_) fun live => ?_
        · refine ⟨by simpa using allEnded, fun among => ?_⟩
          rcases List.mem_or_eq_of_mem_set among with kept | turned
          · exact proceeds.busy (.inl (rests kept))
          · exact proceeds.busy (.inr turned.symm)
        rw [working]
        exact nearer_set found proceeds.plan (proceeds.nearer (alive_of_mem_threads working found live))

/-- Every turn of a run of one branch keeps it one, and a turn of a live thread brings it nearer to its
end. -/
theorem Lone.turn (lone : process.Lone pure step error branch) (thread : Nat) :
    Lone.Turns pure step error branch process thread := by
  have shared := lone.shared
  have entry : process.runner.suite.beforeEverything = [] := congrArg (·.1) shared.around
  have exit : process.runner.suite.afterEverything = [] := congrArg (·.2) shared.around
  have alone := lone.operation
  cases operation : process.operation with
  | beforeEverything index scope =>
      have turned : (process.turn setting thread).1 = ⟨process.runner, .starting⟩ := by
        simp [Process.turn, operation, shared.unstopped, entry]
      refine lone.turns turned shared rfl lone.kept (fun _ => trivial) fun _ => ?_
      rw [operation, Operation.distance, Operation.distance, nearer_iff]
      omega
  | starting =>
      have turned : (process.turn setting thread).1 = startWorkers setting process.runner := by
        simp [Process.turn, operation, shared.unstopped]
      have unpaused := lone.predicted.flows.unpaused
      have fresh : (startWorkers setting process.runner).runner.shared.Lone branch :=
        ⟨shared.branches, shared.around, shared.unstopped, rfl, shared.unknown⟩
      refine lone.turns turned fresh rfl lone.kept (fun _ => ?_) fun _ => ?_
      · refine ⟨?_, ?_⟩
        · rw [unpaused, List.map_nil, List.nil_append, List.all_replicate]
          simp [Worker.hasEnded]
        · rw [unpaused]
          intro ended
          cases List.eq_of_mem_replicate ended
      · have left := branch.left_le
        rw [operation, startWorkers, Operation.distance, Operation.distance, nearer_iff]
        omega
  | working workers paused =>
      have unpaused := lone.predicted.flows.operation
      rw [operation] at unpaused
      obtain ⟨rfl, -⟩ := unpaused
      exact lone.turns_working operation thread
  | afterEverything index scope ending =>
      rw [operation] at alone
      have turned : (process.turn setting thread).1 = ⟨process.runner, .concluding ending⟩ := by
        simp [Process.turn, operation, exit]
      refine lone.turns turned shared rfl lone.kept (fun _ => alone) fun _ => ?_
      rw [operation, Operation.distance, Operation.distance, nearer_iff]
      omega
  | concluding ending =>
      rw [operation] at alone
      obtain ⟨rfl, ended⟩ := alone
      have turned : (process.turn setting thread).1 =
          process.runner.conclude.finish (.flag (!process.runner.shared.world.isStopped)) := by
        simp only [Process.turn, operation, concludeWith]
      refine lone.turns turned ?_ rfl lone.kept (fun _ => ended) fun _ => ?_
      · exact ⟨shared.branches, shared.around, shared.unstopped, shared.unrequested, shared.unknown⟩
      · rw [operation]
        exact nearer_iff.mpr (.inl Nat.zero_lt_one)
  | finished answer =>
      have turned : (process.turn setting thread).1 = process := by
        simp only [Process.turn, operation]
      refine lone.turns turned shared rfl lone.kept (fun _ => lone.operation) fun live => ?_
      simp [threads, operation] at live
  | beforeHook | afterHook | single | injecting =>
      rw [operation] at alone
      exact alone.elim

/-- A run of one branch that has not ended has a thread that may go on. -/
theorem Lone.live (lone : process.Lone pure step error branch) (busy : process.isFinished = false) :
    ∃ thread, thread ∈ process.threads := by
  have alone := lone.operation
  cases operation : process.operation with
  | working workers paused =>
      rw [operation] at alone
      obtain ⟨worker, listed, alive⟩ := List.all_eq_false.mp alone.1
      obtain ⟨thread, found⟩ := List.getElem?_of_mem listed
      have inside := (List.getElem?_eq_some_iff.mp found).1
      refine ⟨thread, ?_⟩
      simp only [threads, operation, List.mem_filter, List.mem_range, found, Option.any_some]
      exact ⟨inside, by simpa using alive⟩
  | finished answer => simp [isFinished, operation] at busy
  | beforeEverything | beforeHook | starting | afterEverything | afterHook | concluding | single
  | injecting => exact ⟨0, by simp [threads, operation]⟩

theorem undebugged_alone {env : Env} (undebugged : branch.hasDebugStep = false) :
    (Runner.alone branch env).suite.Undebugged := by
  intro index own found
  have listed : own ∈ [{ branch with passedLastTime := false }] := List.mem_of_getElem? found
  rw [List.mem_singleton.mp listed]
  exact undebugged

/-- A run of one branch begins with that branch reset. -/
theorem runs_alone (setting : Setting Call Env) (branch : Branch) (env : Env) :
    (Runner.alone branch env).runs setting [] =
      (Runner.initial { branches := [{ branch.reset with passedLastTime := false }] } env).run := by
  have ready : (Runner.alone branch env).ready setting =
      (Runner.initial { branches := [{ branch.reset with passedLastTime := false }] } env).finish
        .nothing := by
    simp only [Runner.ready, Runner.init, if_true]
    split <;> rfl
  rw [Runner.runs, ready]
  rfl

theorem lone_start (pure : setting.executor.Pure) (env : Env)
    (undebugged : branch.hasDebugStep = false) (fails : branch.FailsAt pure.results step error) :
    ((Runner.alone branch env).runs setting []).Lone pure step error
      { branch.reset with passedLastTime := false } := by
  have predicted : ((Runner.alone branch env).runs setting []).Predicted pure.toFunctional :=
    predicted_after pure.toFunctional (undebugged_alone undebugged) [.request .run]
  rw [runs_alone] at predicted ⊢
  refine ⟨predicted, ?_, ⟨rfl, rfl, rfl, rfl, rfl⟩, ?_, nofun, trivial⟩
  · intro index own found active
    obtain rfl := List.mem_singleton.mp (List.mem_of_getElem? found)
    cases active
  · have plan : Branch.plan { branch.reset with passedLastTime := false } = branch.plan :=
      Branch.plan_reset branch
    exact fails.alike (Branch.alike_of_plan plan _)

theorem lone_runs (pure : setting.executor.Pure) (env : Env)
    (undebugged : branch.hasDebugStep = false) (fails : branch.FailsAt pure.results step error)
    (threads : List Nat) :
    ∃ own, ((Runner.alone branch env).runs setting threads).Lone pure step error own := by
  induction threads using List.reverseRecOn with
  | nil => exact ⟨_, lone_start pure env undebugged fails⟩
  | append_singleton threads thread ih =>
      obtain ⟨own, lone⟩ := ih
      obtain ⟨later, next, -⟩ := lone.turn thread
      refine ⟨later, ?_⟩
      have turned : (Runner.alone branch env).runs setting (threads ++ [thread]) =
          (((Runner.alone branch env).runs setting threads).turn setting thread).1 := by
        rw [Runner.runs, List.map_append, ← List.cons_append]
        exact after_concat _ _
      rw [turned]
      exact next

/-- A run of one branch can be brought to its end from wherever it stands, by turns of any thread that is alive. -/
theorem Lone.ends (lone : process.Lone pure step error branch) :
    ∃ threads : List Nat, (process.after setting (threads.map .turn)).isFinished = true := by
  induction distance : process.operation.distance pure branch using wellFounded_nearer.induction
    generalizing process branch with
  | _ distance ih =>
      subst distance
      cases finished : process.isFinished with
      | true => exact ⟨[], finished⟩
      | false =>
          obtain ⟨thread, live⟩ := lone.live finished
          obtain ⟨later, next, nearer⟩ := lone.turn thread
          obtain ⟨threads, ends⟩ := ih _ (nearer live) next rfl
          exact ⟨thread :: threads, ends⟩

end Process

/-- Run on its own from a fresh state, in whatever order of turns, the branch has failed at this step with
this error when the run is over, and the run can be brought to its end from wherever it stands. -/
structure FailsAlone (setting : Setting Call Env) (branch : Branch) (step : Nat) (error : StepError) :
    Prop where
  fails : ∀ (env : Env) (threads : List Nat),
    ((Runner.alone branch env).runs setting threads).isFinished = true →
      ∃ ended, ((Runner.alone branch env).runs setting threads).suite.branches = [ended] ∧
        ended.FailedAt step error
  ends : ∀ (env : Env) (threads : List Nat), ∃ further,
    ((Runner.alone branch env).runs setting (threads ++ further)).isFinished = true

theorem failsAlone (pure : setting.executor.Pure) {branch : Branch} {step : Nat} {error : StepError}
    (undebugged : branch.hasDebugStep = false) (fails : branch.FailsAt pure.results step error) :
    FailsAlone setting branch step error where
  fails env threads finished := by
    obtain ⟨own, lone⟩ := Process.lone_runs pure env undebugged fails threads
    have alone := lone.operation
    unfold Process.isFinished at finished
    split at finished
    · next answer operation =>
        rw [operation] at alone
        exact ⟨own, lone.shared.branches, lone.kept alone⟩
    · cases finished
  ends env threads := by
    obtain ⟨own, lone⟩ := Process.lone_runs pure env undebugged fails threads
    obtain ⟨further, ends⟩ := lone.ends
    refine ⟨further, ?_⟩
    rw [Runner.runs, List.map_append, ← List.cons_append, Process.after_append]
    exact ends

end Run

end TestTree
