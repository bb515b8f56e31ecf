import Mathlib.Algebra.Order.BigOperators.Group.List
import Mathlib.Algebra.Order.Ring.Nat
import TestTree.Proofs.Run.Faults
import TestTree.Proofs.Run.Nearing
import TestTree.Proofs.Run.Pausing

/-!
What is left of a run. The branches and the workers of a run have a rank, which no turn of a worker raises.
A turn that leaves it as it is only looks around: a body sleeps on, or a worker is about to claim a
branch, or finds none and goes to sleep.
-/
namespace TestTree

/-- If one element of a list changes and no other weighs more, the list weighs as much less as it. -/
theorem sum_map_add_le {α : Type} (weight : α → Nat) {list changed : List α} {index : Nat} {old new : α}
    (length : changed.length = list.length)
    (others : ∀ other, other ≠ index → ∀ before after, list[other]? = some before →
      changed[other]? = some after → weight after ≤ weight before)
    (found : list[index]? = some old) (present : changed[index]? = some new) :
    (changed.map weight).sum + weight old ≤ (list.map weight).sum + weight new := by
  have lighter : ((changed.set index old).map weight).sum ≤ (list.map weight).sum := by
    refine List.Forall₂.sum_le_sum (List.forall₂_iff_get.mpr ⟨by simp [length], ?_⟩)
    intro other inside bound
    have there : other < changed.length := by simpa using inside
    have here : other < list.length := by simpa using bound
    by_cases same : other = index
    · subst same
      have same := (List.getElem?_eq_some_iff.mp found).2
      simp [same]
    · have le := others other same _ _ (List.getElem?_eq_getElem here) (List.getElem?_eq_getElem there)
      simpa [List.getElem_set_ne (Ne.symm same)] using le
  have sum := Run.sum_map_set weight present old
  omega

namespace Branch

variable {branch later : Branch}

/-- More than any activity along the branch weighs. -/
def toll (branch : Branch) : Nat :=
  2 * branch.afterEveryBranch.length + branch.afterEveryStep.length + branch.beforeEveryStep.length +
    branch.beforeEveryBranch.length + 17

def rank (branch : Branch) : Nat := branch.left * branch.toll

theorem toll_congr (plan : later.plan = branch.plan) : later.toll = branch.toll := by
  obtain ⟨entry, exit, before, after⟩ := lengths_of_plan plan
  simp only [toll, entry, exit, before, after]

theorem rank_skip (line : Text) (branch : Branch) : (Suite.skip line branch).rank = 0 := by
  have completed : (Suite.skip line branch).status.isCompleted = true := by
    simp [Suite.skip, Status.isCompleted]
  rw [rank, left_of_completed completed, Nat.zero_mul]

/-- What a claim takes from the rank of a branch pays for the walk up to the first step. -/
theorem rank_markRunning (idle : branch.isIdle = true) :
    (Suite.markRunning branch).rank + branch.toll = branch.rank := by
  obtain ⟨still, unfinished⟩ : branch.status.isRunning = false ∧ branch.status.isCompleted = false := by
    simpa [isIdle] using idle
  have active : (Suite.markRunning branch).isActive = true := isActive_iff.mpr ⟨rfl, unfinished⟩
  have left : branch.left = (Suite.markRunning branch).left + 1 := by
    rw [left_of_active active, Branch.left, unfinished, still]
    rfl
  rw [rank, rank, left, Nat.succ_mul]
  rfl

end Branch

namespace Suite

variable {suite after : Suite} {index : Nat} {branch later : Branch}

def rank (suite : Suite) : Nat := (suite.branches.map Branch.rank).sum

/-- What is done along one branch changes the rank by what it does to that branch, or lowers it more. -/
theorem KeepsOthers.rank_le (keeps : KeepsOthers index suite after)
    (found : suite.branch? index = some branch) (present : after.branch? index = some later) :
    after.rank + branch.rank ≤ suite.rank + later.rank := by
  refine sum_map_add_le Branch.rank keeps.length ?_ found present
  intro other different before fellow listed changed
  rcases keeps.others other different with same | ⟨line, text, was, -, skipped⟩
  · obtain rfl : before = fellow := Option.some.inj (listed.symm.trans (same.symm.trans changed))
    exact Nat.le_refl _
  · obtain rfl : skip text line = fellow := Option.some.inj (skipped.symm.trans changed)
    rw [Branch.rank_skip]
    exact Nat.zero_le _

theorem KeepsOthers.plans_eq (keeps : KeepsOthers index suite after)
    (found : suite.branch? index = some branch) (present : after.branch? index = some later)
    (plan : later.plan = branch.plan) : after.plans = suite.plans := by
  refine List.ext_getElem? fun other => ?_
  rw [plans, plans, List.getElem?_map, List.getElem?_map, ← branch?, ← branch?]
  by_cases same : other = index
  · rw [same, found, present, Option.map_some, Option.map_some, plan]
  · rcases keeps.others other same with kept | ⟨line, text, was, -, skipped⟩
    · rw [kept]
    · rw [was, skipped]
      rfl

end Suite

namespace Run

variable {Call Env : Type} {setting : Setting Call Env}

theorem weight_lt_toll (branch : Branch) (activity : Activity Call) :
    activity.weight branch < branch.toll := by
  cases activity <;> simp only [Activity.weight, Branch.toll] <;> omega

/-- How far a worker is from its end, with what is left of the branches counted apart. -/
def Worker.rank (suite : Suite) : Worker Call → Nat
  | seeking | claiming => 2
  | walking cursor activity =>
      let branch := (suite.branch? cursor.branch).getD {}
      cursor.held * branch.toll + activity.weight branch
  | ended => 0

theorem Worker.rank_walking {suite : Suite} {cursor : Cursor} {branch : Branch}
    (found : suite.branch? cursor.branch = some branch) (activity : Activity Call) :
    (walking cursor activity).rank suite = cursor.held * branch.toll + activity.weight branch := by
  simp only [rank, found, Option.getD_some]

theorem Worker.rank_congr {suite after : Suite} (plans : after.plans = suite.plans)
    (worker : Worker Call) : worker.rank after = worker.rank suite := by
  cases worker with
  | seeking | claiming | ended => rfl
  | walking cursor activity =>
      cases found : suite.branch? cursor.branch with
      | some branch =>
          obtain ⟨later, present, plan⟩ := Suite.plan_of_plans plans.symm found
          rw [rank_walking found, rank_walking present, Branch.toll_congr plan.symm,
            weight_congr plan.symm]
      | none =>
          cases present : after.branch? cursor.branch with
          | none => simp only [rank, found, present]
          | some later =>
              obtain ⟨branch, there, -⟩ := Suite.plan_of_plans plans present
              rw [found] at there
              cases there

/-- A turn of a worker that only looks around. -/
inductive Worker.Idles (setting : Setting Call Env) (shared : Shared Env) :
    Worker Call → Worker Call → Prop
  | sleeps (cursor next : Cursor) (activity later : Activity Call) (time : Nat)
      (asleep : (cursor.turn setting .run shared activity).turn = .asleep time later) :
      Idles setting shared (.walking cursor activity) (.walking next later)
  | seeks (unstopped : shared.world.isStopped = false) (unrequested : shared.pauseRequested = false) :
      Idles setting shared .seeking .claiming
  | polls (sleeps : (Worker.claiming.turn setting shared : Worker.Move Call Env).sleep = some pollInterval) :
      Idles setting shared .claiming .seeking
  | rests : Idles setting shared .ended .ended

/-- What a turn of a worker does to the rank. -/
structure Worker.Sinks (setting : Setting Call Env) (shared : Shared Env) (worker : Worker Call)
    (move : Worker.Move Call Env) : Prop where
  plans : move.shared.suite.plans = shared.suite.plans
  rank_le : move.shared.suite.rank + move.worker.rank move.shared.suite ≤
    shared.suite.rank + worker.rank shared.suite
  idles : move.shared.suite.rank + move.worker.rank move.shared.suite =
    shared.suite.rank + worker.rank shared.suite → worker.Idles setting shared move.worker

namespace Worker

variable {shared : Shared Env} {worker : Worker Call} {move : Worker.Move Call Env}

theorem sinks_of_lt (plans : move.shared.suite.plans = shared.suite.plans)
    (less : move.shared.suite.rank + move.worker.rank move.shared.suite <
      shared.suite.rank + worker.rank shared.suite) : worker.Sinks setting shared move :=
  ⟨plans, Nat.le_of_lt less, fun same => absurd same (Nat.ne_of_lt less)⟩

theorem sinks_seeking (setting : Setting Call Env) (shared : Shared Env) :
    Worker.seeking.Sinks setting shared (Worker.seeking.turn setting shared) := by
  simp only [turn]
  split
  · exact sinks_of_lt rfl (Nat.add_lt_add_left Nat.zero_lt_two _)
  · next goes =>
    have goes := Bool.or_eq_false_iff.mp (Bool.not_eq_true _ ▸ goes)
    exact ⟨rfl, Nat.le_refl _, fun _ => .seeks goes.1 goes.2⟩

theorem sinks_claiming (setting : Setting Call Env) (shared : Shared Env) :
    Worker.claiming.Sinks setting shared (Worker.claiming.turn setting shared) := by
  simp only [turn, Suite.claimNext]
  cases next : shared.suite.nextBranch with
  | some index =>
      obtain ⟨branch, found, waiting, -⟩ := Suite.nextBranch_eq_some next
      have idle : branch.isIdle = true := (Bool.and_eq_true_iff.mp waiting).1
      have present := Suite.branch?_modify_self found Suite.markRunning
      have keeps := Suite.keepsOthers_modify index shared.suite Suite.markRunning
      have fewer := keeps.rank_le found present
      have paid := Branch.rank_markRunning idle
      have dear : (Activity.opening : Activity Call).weight (Suite.markRunning branch) < branch.toll :=
        weight_lt_toll _ _
      refine sinks_of_lt (keeps.plans_eq found present rfl) ?_
      simp only [Option.map_some]
      rw [rank_walking present, Cursor.held]
      simp only [Option.isSome_none, Bool.false_eq_true, if_false, Nat.zero_mul, Nat.zero_add]
      omega
  | none =>
      simp only [Option.map_none]
      split
      · next waits =>
        refine ⟨rfl, Nat.le_refl _, fun _ => .polls ?_⟩
        simp [turn, Suite.claimNext, next, waits]
      · exact sinks_of_lt rfl (Nat.add_lt_add_left Nat.zero_lt_two _)

/-- Each turn of a walk lowers the rank, but for one of a body that sleeps on. -/
theorem sinks_walking {cursor : Cursor} {activity : Activity Call} {branch later : Branch}
    (found : shared.suite.branch? cursor.branch = some branch)
    (stands : activity.stage.Stands cursor branch)
    (treads : Treads cursor shared.suite branch (cursor.turn setting .run shared activity).shared.suite
      (cursor.turn setting .run shared activity).cursor
      (cursor.turn setting .run shared activity).turn.arrival later) :
    (walking cursor activity).Sinks setting shared ((walking cursor activity).turn setting shared) := by
  have plans := treads.others.plans_eq found treads.found treads.follows.plan
  have toll := Branch.toll_congr treads.follows.plan
  have heavy := three_le_weight branch activity
  have fewer := treads.others.rank_le found treads.found
  obtain ⟨left, onward, asleep⟩ := nears_turn .run found stands treads.found
  have rank (further : Activity Call) :
      (walking (cursor.turn setting .run shared activity).cursor further).rank
          (cursor.turn setting .run shared activity).shared.suite =
        (cursor.turn setting .run shared activity).cursor.held * branch.toll + further.weight branch := by
    rw [rank_walking (treads.own.symm ▸ treads.found), toll, weight_congr treads.follows.plan]
  have level := Nat.mul_le_mul_right branch.toll left
  simp only [Branch.rank, toll] at fewer
  rw [Nat.add_mul, Nat.add_mul] at level
  simp only [turn]
  split
  · next further turned =>
    refine sinks_of_lt plans ?_
    dsimp only
    rw [rank, rank_walking found]
    rcases onward further turned with steps | lighter
    · have lower := Nat.mul_le_mul_right branch.toll (Nat.succ_le_of_lt steps)
      rw [Nat.succ_mul, Nat.add_mul, Nat.add_mul] at lower
      have light := weight_lt_toll branch further
      omega
    · omega
  · next time further turned =>
    refine ⟨plans, ?_, fun _ => .sleeps cursor _ activity further time turned⟩
    dsimp only
    rw [rank, rank_walking found, asleep time further turned]
    omega
  all_goals
    refine sinks_of_lt plans ?_
    dsimp only
    rw [rank_walking found]
    simp only [Worker.rank]
    omega

end Worker

namespace Process

variable {process : Process Call Env} {action : Action} {thread : Nat} {worker : Worker Call}
  {workers others : List (Worker Call)} {paused held : List Cursor}

/-- What is left of the run that is under way. -/
def rank (process : Process Call Env) : Nat :=
  match process.operation with
  | .working workers _ => process.suite.rank + (workers.map (Worker.rank process.suite)).sum
  | _ => 0

theorem InOrder.sinks (order : process.InOrder) (setting : Setting Call Env)
    (working : process.operation = .working workers paused) (found : workers[thread]? = some worker) :
    worker.Sinks setting process.runner.shared (worker.turn setting process.runner.shared) := by
  cases worker with
  | seeking => exact Worker.sinks_seeking setting process.runner.shared
  | claiming => exact Worker.sinks_claiming setting process.runner.shared
  | walking cursor activity =>
      have listed : (cursor, activity) ∈ process.courses := by
        rw [courses, working]
        refine List.mem_append_left _ (List.mem_append_left _ (List.mem_filterMap.mpr ?_))
        exact ⟨_, List.mem_of_getElem? found, rfl⟩
      obtain ⟨own, after, there, stands, treads⟩ := order.treads setting .run listed
      exact Worker.sinks_walking there stands treads
  | ended => exact ⟨rfl, Nat.le_refl _, fun _ => .rests⟩

/-- A turn of a worker does to the run what it does to the worker. -/
theorem rank_unjoined (working : process.operation = .working workers paused)
    (found : workers[thread]? = some worker)
    (sinks : worker.Sinks setting process.runner.shared (worker.turn setting process.runner.shared)) :
    (unjoined setting process thread workers paused worker).rank ≤ process.rank ∧
      ((unjoined setting process thread workers paused worker).rank = process.rank →
        worker.Idles setting process.runner.shared
          (worker.turn setting process.runner.shared).worker) := by
  obtain ⟨plans, rank_le, idles⟩ := sinks
  have same : Worker.rank (worker.turn setting process.runner.shared).shared.suite =
      (Worker.rank process.runner.shared.suite : Worker Call → Nat) :=
    funext (Worker.rank_congr plans)
  have sum := sum_map_set (Worker.rank process.runner.shared.suite) found
    (worker.turn setting process.runner.shared).worker
  rw [same] at rank_le idles
  simp only [rank, working, unjoined, suite, Runner.suite, same]
  refine ⟨by omega, fun level => idles (by omega)⟩

/-- What happens to workers at work never raises the rank, and where it stays only looks around. -/
structure Levels (setting : Setting Call Env) (process : Process Call Env) (action : Action) : Prop where
  rank_le : (process.perform setting action).rank ≤ process.rank
  others : ∀ thread, action ≠ .turn thread →
    (process.perform setting action).worker? thread = process.worker? thread
  idles : (process.perform setting action).rank = process.rank →
    ∀ thread worker, action = .turn thread → process.worker? thread = some worker →
      ∃ next, (process.perform setting action).worker? thread = some next ∧
        worker.Idles setting process.runner.shared next

theorem InOrder.levels (order : process.InOrder)
    (working : process.operation = .working workers paused)
    (still : (process.perform setting action).operation = .working others held) :
    process.Levels setting action := by
  rcases working_perform still with
    ⟨same, suite, -, rests⟩ | ⟨starting, -⟩ | ⟨before, kept, thread, worker, rfl, at_, found, -, turned⟩
  · have rank : (process.perform setting action).rank = process.rank := by
      simp only [rank, same, still, Process.suite, Runner.suite, suite]
    refine ⟨Nat.le_of_eq rank, fun thread _ => ?_, fun _ thread worker turns found => ?_⟩
    · simp only [worker?, same, still]
    · rw [rests thread turns] at found
      cases found
  · rw [working] at starting
    cases starting
  · obtain ⟨rank_le, idles⟩ := rank_unjoined at_ found (order.sinks setting at_ found)
    rw [← turned] at rank_le idles
    refine ⟨rank_le, fun other different => ?_, fun level other fellow turns listed => ?_⟩
    · have apart : thread ≠ other := fun same => different (same ▸ rfl)
      simp only [worker?, turned, unjoined, at_, List.getElem?_set_ne apart]
    · cases turns
      have listed : before[thread]? = some fellow := by simpa only [worker?, at_] using listed
      obtain rfl := Option.some.inj (found.symm.trans listed)
      refine ⟨(worker.turn setting process.runner.shared).worker, ?_, idles level⟩
      simp only [worker?, turned, unjoined]
      exact List.getElem?_set_self (List.getElem?_eq_some_iff.mp found).1

end Process

end Run

end TestTree
