import Mathlib.Order.OrderIsoNat
import TestTree.Proofs.Run.Overlap
import TestTree.Proofs.Run.Polling
import TestTree.Proofs.Run.Ranking

/-!
Runs that go on for ever. Where every thread gets its turns and every body returns, workers do not look
again for ever. The rank never rises, so it is level from some moment on; from there nobody walks, since
a body that returns lowers it, and so nobody waits for somebody who walks.
-/
namespace TestTree.Run.Process

variable {Call Env : Type} {setting : Setting Call Env} {process : Process Call Env}
  {actions : Nat → Action} {moment later thread : Nat} {worker : Worker Call}

/-- The process at a moment of a run that goes on for ever. -/
def along (setting : Setting Call Env) (process : Process Call Env) (actions : Nat → Action)
    (moment : Nat) : Process Call Env :=
  process.after setting ((List.range moment).map actions)

theorem along_succ (setting : Setting Call Env) (process : Process Call Env) (actions : Nat → Action)
    (moment : Nat) : process.along setting actions (moment + 1) =
      (process.along setting actions moment).perform setting (actions moment) := by
  rw [along, List.range_succ, List.map_append]
  exact after_concat _ _

theorem along_add (setting : Setting Call Env) (process : Process Call Env) (actions : Nat → Action)
    (first second : Nat) : process.along setting actions (first + second) =
      (process.along setting actions first).along setting (fun moment => actions (first + moment))
        second := by
  induction second with
  | zero => rfl
  | succ second ih => rw [← Nat.add_assoc, along_succ, ih, along_succ]

/-- Every thread with a turn to take gets one, and every body returns: some turn of its thread does not
put it to sleep. -/
structure Fair (setting : Setting Call Env) (process : Process Call Env) (actions : Nat → Action) :
    Prop where
  turns : ∀ moment, ∀ thread ∈ (process.along setting actions moment).threads,
    ∃ later ≥ moment, actions later = .turn thread
  returns : ∀ moment, ∀ thread ∈ (process.along setting actions moment).threads,
    ((process.along setting actions moment).role? thread).isSome = true →
      ∃ later ≥ moment, actions later = .turn thread ∧
        ((process.along setting actions later).turn setting thread).2 = none

theorem Fair.from (fair : process.Fair setting actions) (moment : Nat) :
    (process.along setting actions moment).Fair setting (fun later => actions (moment + later)) := by
  refine ⟨fun later thread listed => ?_, fun later thread listed runs => ?_⟩
  · rw [← along_add] at listed
    obtain ⟨turn, after, turns⟩ := fair.turns _ thread listed
    obtain ⟨gap, rfl⟩ := Nat.exists_eq_add_of_le (Nat.le_of_add_right_le after)
    exact ⟨gap, Nat.le_of_add_le_add_left after, turns⟩
  · rw [← along_add] at listed runs
    obtain ⟨turn, after, turns, returns⟩ := fair.returns _ thread listed runs
    obtain ⟨gap, rfl⟩ := Nat.exists_eq_add_of_le (Nat.le_of_add_right_le after)
    refine ⟨gap, Nat.le_of_add_le_add_left after, turns, ?_⟩
    rw [← along_add]
    exact returns

theorem along_of_finished (finished : (process.along setting actions moment).isFinished = true)
    (turns : ∀ moment, ∃ thread, actions moment = .turn thread) (after : moment ≤ later) :
    process.along setting actions later = process.along setting actions moment := by
  induction later, after using Nat.le_induction with
  | base => rfl
  | succ later after ih =>
      obtain ⟨thread, turn⟩ := turns later
      rw [along_succ, ih, turn, perform_of_isFinished setting finished]

/-- A run that comes to its end is fair if it is fair up to there. -/
theorem fair_of_finished {last : Nat} (finished : (process.along setting actions last).isFinished = true)
    (turns : ∀ moment, ∃ thread, actions moment = .turn thread)
    (fair : ∀ moment < last, ∀ thread ∈ (process.along setting actions moment).threads,
      ∃ later < last, moment ≤ later ∧ actions later = .turn thread ∧
        (((process.along setting actions moment).role? thread).isSome = true →
          ((process.along setting actions later).turn setting thread).2 = none)) :
    process.Fair setting actions := by
  have early (moment thread : Nat) (listed : thread ∈ (process.along setting actions moment).threads) :
      moment < last := by
    by_contra late
    rw [along_of_finished finished turns (Nat.le_of_not_lt late)] at listed
    obtain ⟨answer, rests⟩ := operation_of_isFinished finished
    simp only [threads, rests, List.not_mem_nil] at listed
  refine ⟨fun moment thread listed => ?_, fun moment thread listed runs => ?_⟩
  · obtain ⟨later, -, after, turn, -⟩ := fair moment (early moment thread listed) thread listed
    exact ⟨later, after, turn⟩
  · obtain ⟨later, -, after, turn, returns⟩ := fair moment (early moment thread listed) thread listed
    exact ⟨later, after, turn, returns runs⟩

theorem Reached.along (reached : process.Reached setting) (actions : Nat → Action) (moment : Nat) :
    (process.along setting actions moment).Reached setting := by
  obtain ⟨runner, schedule, rfl⟩ := reached
  refine ⟨runner, schedule ++ (List.range moment).map actions, ?_⟩
  rw [after_append]
  rfl

/-- Workers that are at work for ever, with as much left at every moment. -/
structure Lingers (setting : Setting Call Env) (process : Process Call Env) (actions : Nat → Action) :
    Prop where
  reached : process.Reached setting
  working : ∀ moment, ∃ workers paused,
    (process.along setting actions moment).operation = .working workers paused
  level : ∀ moment, (process.along setting actions moment).rank = process.rank

theorem levels_along (reached : process.Reached setting)
    (working : ∀ moment, ∃ workers paused,
      (process.along setting actions moment).operation = .working workers paused) (moment : Nat) :
    (process.along setting actions moment).Levels setting (actions moment) := by
  obtain ⟨workers, paused, here⟩ := working moment
  obtain ⟨others, held, still⟩ := working (moment + 1)
  rw [along_succ] at still
  exact (reached.along actions moment).inOrder.levels here still

/-- What is left cannot become less for ever. -/
theorem lingers_of_working (reached : process.Reached setting)
    (working : ∀ moment, ∃ workers paused,
      (process.along setting actions moment).operation = .working workers paused) :
    ∃ start, (process.along setting actions start).Lingers setting
      (fun moment => actions (start + moment)) := by
  have falls : Antitone fun moment => (process.along setting actions moment).rank := by
    refine antitone_nat_of_succ_le fun moment => ?_
    rw [along_succ]
    exact (levels_along reached working moment).rank_le
  obtain ⟨start, level⟩ := WellFoundedLT.antitone_chain_condition falls
  refine ⟨start, reached.along actions start, fun moment => ?_, fun moment => ?_⟩
  · rw [← along_add]
    exact working (start + moment)
  · rw [← along_add]
    exact (level (start + moment) (Nat.le_add_right _ _)).symm

/-- How long a worker sleeps is how long its thread sleeps. -/
theorem sleep_turn {others : List (Worker Call)} {held : List Cursor}
    (found : process.worker? thread = some worker)
    (still : (process.perform setting (.turn thread)).operation = .working others held) :
    (process.turn setting thread).2 = (worker.turn setting process.runner.shared).sleep := by
  obtain ⟨workers, paused, working, found⟩ := worker?_eq_some.mp found
  simp only [perform, turn, working, found] at still ⊢
  split
  · next ended =>
    rw [if_pos ended] at still
    exact absurd still (idle_join _ _)
  · rfl

theorem mem_threads (found : process.worker? thread = some worker) (live : worker.hasEnded = false) :
    thread ∈ process.threads := by
  obtain ⟨workers, paused, working, found⟩ := worker?_eq_some.mp found
  simp only [threads, working, List.mem_filter, List.mem_range]
  refine ⟨(List.getElem?_eq_some_iff.mp found).1, ?_⟩
  rw [found, Option.any_some, live]
  rfl

theorem role?_of_walking {cursor : Cursor} {activity : Activity Call}
    (found : process.worker? thread = some (.walking cursor activity)) :
    process.role? thread = activity.role? cursor.branch := by
  obtain ⟨workers, paused, working, found⟩ := worker?_eq_some.mp found
  simp only [role?, walk?, working, found, Option.bind_some]

/-- A pause that is asked for stays asked for while workers are at work. -/
theorem requested_perform {workers others : List (Worker Call)} {paused held : List Cursor}
    {action : Action} (working : process.operation = .working workers paused)
    (still : (process.perform setting action).operation = .working others held)
    (requested : process.runner.shared.pauseRequested = true) :
    (process.perform setting action).runner.shared.pauseRequested = true := by
  rcases working_perform still with
    ⟨-, -, same, -⟩ | ⟨starting, -⟩ | ⟨_, _, _, worker, _, _, _, _, turned⟩
  · exact same.trans requested
  · rw [working] at starting
    cases starting
  · rw [turned]
    exact worker.keeps_request requested

namespace Lingers

theorem keeps (lingers : process.Lingers setting actions) (other : actions moment ≠ .turn thread) :
    (process.along setting actions (moment + 1)).worker? thread =
      (process.along setting actions moment).worker? thread := by
  rw [along_succ]
  exact (levels_along lingers.reached lingers.working moment).others thread other

theorem idles (lingers : process.Lingers setting actions) (turns : actions moment = .turn thread)
    (found : (process.along setting actions moment).worker? thread = some worker) :
    ∃ next, (process.along setting actions (moment + 1)).worker? thread = some next ∧
      worker.Idles setting (process.along setting actions moment).runner.shared next := by
  have level : (process.along setting actions (moment + 1)).rank =
      (process.along setting actions moment).rank :=
    (lingers.level (moment + 1)).trans (lingers.level moment).symm
  rw [along_succ] at level ⊢
  exact (levels_along lingers.reached lingers.working moment).idles level thread worker turns found

theorem sleep (lingers : process.Lingers setting actions) (turns : actions moment = .turn thread)
    (found : (process.along setting actions moment).worker? thread = some worker) :
    ((process.along setting actions moment).turn setting thread).2 =
      (worker.turn setting (process.along setting actions moment).runner.shared).sleep := by
  obtain ⟨others, held, still⟩ := lingers.working (moment + 1)
  rw [along_succ, turns] at still
  exact sleep_turn found still

/-- A worker stays as it is until it has its turn. -/
theorem next_turn (lingers : process.Lingers setting actions) (fair : process.Fair setting actions)
    (found : (process.along setting actions moment).worker? thread = some worker)
    (live : worker.hasEnded = false) :
    ∃ later ≥ moment, actions later = .turn thread ∧
      (process.along setting actions later).worker? thread = some worker := by
  obtain ⟨turn, after, turns⟩ := fair.turns moment thread (mem_threads found live)
  obtain ⟨gap, rfl⟩ := Nat.exists_eq_add_of_le after
  induction gap generalizing moment with
  | zero => exact ⟨moment, Nat.le_refl _, turns, found⟩
  | succ gap ih =>
      by_cases now : actions moment = .turn thread
      · exact ⟨moment, Nat.le_refl _, now, found⟩
      · obtain ⟨later, after, turns, still⟩ := ih ((lingers.keeps now).trans found)
          (Nat.le_add_right _ _) (by rw [← turns]; congr 1; omega)
        exact ⟨later, Nat.le_of_succ_le after, turns, still⟩

/-- Whoever walks walks on, and sleeps whenever it has its turn. -/
theorem walks_on (lingers : process.Lingers setting actions) {cursor : Cursor} {activity : Activity Call}
    (found : (process.along setting actions moment).worker? thread = some (.walking cursor activity))
    (after : moment ≤ later) : ∃ cursor activity,
      (process.along setting actions later).worker? thread = some (.walking cursor activity) := by
  induction later, after using Nat.le_induction with
  | base => exact ⟨cursor, activity, found⟩
  | succ later after ih =>
      obtain ⟨cursor, activity, found⟩ := ih
      by_cases turns : actions later = .turn thread
      · obtain ⟨next, there, idles⟩ := lingers.idles turns found
        cases idles with
        | sleeps cursor next activity further => exact ⟨next, further, there⟩
      · exact ⟨cursor, activity, (lingers.keeps turns).trans found⟩

theorem asleep (lingers : process.Lingers setting actions) {cursor : Cursor} {activity : Activity Call}
    (turns : actions moment = .turn thread)
    (found : (process.along setting actions moment).worker? thread = some (.walking cursor activity)) :
    ∃ time further, (cursor.turn setting .run (process.along setting actions moment).runner.shared
      activity).turn = .asleep time further := by
  obtain ⟨next, -, idles⟩ := lingers.idles turns found
  cases idles with
  | sleeps cursor next activity further time asleep => exact ⟨time, further, asleep⟩

/-- As every body returns, nobody walks. -/
theorem unwalked (lingers : process.Lingers setting actions) (fair : process.Fair setting actions)
    (cursor : Cursor) (activity : Activity Call) :
    (process.along setting actions moment).worker? thread ≠ some (.walking cursor activity) := by
  intro found
  obtain ⟨turn, after, turns, here⟩ := lingers.next_turn fair found rfl
  obtain ⟨time, further, sleeps⟩ := lingers.asleep turns here
  obtain ⟨call, -, runs, -⟩ := waiting_of_asleep sleeps
  have runs : ((process.along setting actions turn).role? thread).isSome = true := by
    rw [role?_of_walking here]
    cases activity <;> cases runs <;> rfl
  obtain ⟨later, behind, again, returns⟩ := fair.returns turn thread (mem_threads here rfl) runs
  obtain ⟨cursor, activity, there⟩ := lingers.walks_on here behind
  obtain ⟨time, further, sleeps⟩ := lingers.asleep again there
  rw [lingers.sleep again there] at returns
  simp [Worker.turn, sleeps] at returns

/-- A worker that seeks a branch sees that nobody is to stop or to pause. -/
theorem seeks (lingers : process.Lingers setting actions) (fair : process.Fair setting actions)
    (found : (process.along setting actions moment).worker? thread = some .seeking) :
    ∃ later ≥ moment, (process.along setting actions later).isStopped = false ∧
      (process.along setting actions later).runner.shared.pauseRequested = false ∧
      (process.along setting actions (later + 1)).worker? thread = some .claiming := by
  obtain ⟨later, after, turns, here⟩ := lingers.next_turn fair found rfl
  obtain ⟨next, there, idles⟩ := lingers.idles turns here
  cases idles with
  | seeks unstopped unrequested => exact ⟨later, after, unstopped, unrequested, there⟩

/-- A worker that may claim a branch finds none and looks again. -/
theorem polls (lingers : process.Lingers setting actions) (fair : process.Fair setting actions)
    (found : (process.along setting actions moment).worker? thread = some .claiming) :
    ∃ later ≥ moment, (process.along setting actions later).Polls setting thread ∧
      (process.along setting actions (later + 1)).worker? thread = some .seeking := by
  obtain ⟨later, after, turns, here⟩ := lingers.next_turn fair found rfl
  obtain ⟨next, there, idles⟩ := lingers.idles turns here
  cases idles with
  | polls sleeps => exact ⟨later, after, ⟨here, (lingers.sleep turns here).trans sleeps⟩, there⟩

theorem unstopped_of_le (lingers : process.Lingers setting actions)
    (latching : setting.executor.Latching) (after : moment ≤ later)
    (unstopped : (process.along setting actions later).isStopped = false)
    (unrequested : (process.along setting actions later).runner.shared.pauseRequested = false) :
    (process.along setting actions moment).isStopped = false ∧
      (process.along setting actions moment).runner.shared.pauseRequested = false := by
  induction later, after using Nat.le_induction with
  | base => exact ⟨unstopped, unrequested⟩
  | succ later after ih =>
      obtain ⟨workers, paused, working⟩ := lingers.working later
      obtain ⟨others, held, still⟩ := lingers.working (later + 1)
      rw [along_succ] at unstopped unrequested still
      refine ih ?_ ?_
      · by_contra stopped
        rw [isStopped_perform latching (by simpa using stopped)] at unstopped
        cases unstopped
      · by_contra requested
        rw [requested_perform working still (by simpa using requested)] at unrequested
        cases unrequested

/-- As not all have ended and nobody walks, someone comes to claim a branch. -/
theorem claims (lingers : process.Lingers setting actions) (fair : process.Fair setting actions) :
    ∃ moment thread, (process.along setting actions moment).worker? thread = some .claiming := by
  obtain ⟨workers, paused, working⟩ := lingers.working 0
  have live := (lingers.reached.along actions 0).heeds.live workers paused working
  obtain ⟨worker, listed, live⟩ := List.all_eq_false.mp live
  obtain ⟨thread, found⟩ := List.mem_iff_getElem?.mp listed
  have here := worker?_eq_some.mpr ⟨workers, paused, working, found⟩
  cases worker with
  | seeking =>
      obtain ⟨later, -, -, -, there⟩ := lingers.seeks fair here
      exact ⟨later + 1, thread, there⟩
  | claiming => exact ⟨0, thread, here⟩
  | walking cursor activity => exact absurd here (lingers.unwalked fair cursor activity)
  | ended => exact absurd rfl live

/-- A fair run does not linger. -/
theorem not_fair (lingers : process.Lingers setting actions) (latching : setting.executor.Latching) :
    ¬process.Fair setting actions := by
  intro fair
  obtain ⟨moment, thread, found⟩ := lingers.claims fair
  obtain ⟨later, -, polls, behind⟩ := lingers.polls fair found
  obtain ⟨sought, after, unstopped, unrequested, -⟩ := lingers.seeks fair behind
  obtain ⟨calm, unasked⟩ :=
    lingers.unstopped_of_le latching (Nat.le_of_succ_le after) unstopped unrequested
  obtain ⟨-, branch, listed, waiting⟩ := polls.sees
  have attended : (process.along setting actions later).Attended branch := by
    rcases attended_of_polls (lingers.reached.along actions later) latching polls with
      stopped | requested | all
    · cases calm.symm.trans stopped
    · cases unasked.symm.trans requested
    · exact all branch listed waiting
  obtain ⟨workers, paused, id, cursor, activity, fellow, working, -, walks, -⟩ := attended
  obtain ⟨other, there⟩ := List.mem_iff_getElem?.mp walks
  exact lingers.unwalked fair cursor activity
    (worker?_eq_some.mpr ⟨workers, paused, working, there⟩)

end Lingers

/-- Workers that look again wait for workers at work, unless they all are to stop or to pause, and where
every thread gets its turns and every body returns they do so only for a while. -/
theorem polling_ends (setting : Setting Call Env) (runner : Runner Env)
    (latching : setting.executor.Latching) (schedule : List Action) :
    (∀ thread, ((runner.ready setting).after setting schedule).Polls setting thread →
      ((runner.ready setting).after setting schedule).isStopped = true ∨
        ((runner.ready setting).after setting schedule).runner.shared.pauseRequested = true ∨
        ∀ branch ∈ ((runner.ready setting).after setting schedule).suite.branches,
          branch.isWaiting = true →
            ((runner.ready setting).after setting schedule).Attended branch) ∧
    ∀ actions, ((runner.ready setting).after setting schedule).Fair setting actions →
      ∃ moment, ∀ workers paused,
        (((runner.ready setting).after setting schedule).along setting actions moment).operation ≠
          .working workers paused := by
  refine ⟨fun thread polls => attended_of_polls ⟨runner, schedule, rfl⟩ latching polls,
    fun actions fair => ?_⟩
  by_contra lasts
  have working : ∀ moment, ∃ workers paused,
      (((runner.ready setting).after setting schedule).along setting actions moment).operation =
        .working workers paused := by
    simpa only [not_exists, not_forall, not_not] using lasts
  obtain ⟨start, lingers⟩ := lingers_of_working ⟨runner, schedule, rfl⟩ working
  exact lingers.not_fair latching (fair.from start)

theorem latching_drowsy : drowsy.Latching := by
  intro call world stopped
  simp only [drowsy]
  split <;> exact stopped

def isClaiming : Worker Call → Bool
  | .claiming => true
  | _ => false

/-- Two branches through one non-parallel step that takes its time. -/
def narrow : Tree := .grown "A + \x7b\n    z\n\x7d\n    B -\n    C -"

def narrowSetting : Setting (Bool × Variables) Unit :=
  { executor := drowsy, tree := narrow, maxParallel := 2 }

/-- One worker walks into the step of the first branch, and the other one is about to claim a branch. -/
def crowding : List Action := .request .run :: List.replicate 8 (.turn 0) ++ [.turn 1]

def crowded : Process (Bool × Variables) Unit :=
  ((Runner.initial narrow.suite ()).ready narrowSetting).after narrowSetting crowding

def alternating (moment : Nat) : Action := .turn (moment % 2)

/-- The second worker looks again while the body of the first branch sleeps. -/
theorem polling_ends_crowding :
    narrow.generate {} = .ok narrow.suite ∧ drowsy.Latching ∧ crowded.Polls narrowSetting 1 ∧
      crowded.Fair narrowSetting alternating ∧
      (crowded.isStopped = true ∨ crowded.runner.shared.pauseRequested = true ∨
        ∀ branch ∈ crowded.suite.branches, branch.isWaiting = true → crowded.Attended branch) ∧
      ∃ moment, ∀ workers paused,
        (crowded.along narrowSetting alternating moment).operation ≠ .working workers paused := by
  have claims : (crowded.worker? 1).any isClaiming = true := by decide +kernel
  obtain ⟨worker, found, claims⟩ := (Option.any_eq_true _ _).mp claims
  have polls : crowded.Polls narrowSetting 1 := by
    cases worker with
    | claiming => exact ⟨found, by decide +kernel⟩
    | seeking | walking | ended => cases claims
  have finished : (crowded.along narrowSetting alternating 51).isFinished = true := by decide +kernel
  have fair : crowded.Fair narrowSetting alternating :=
    fair_of_finished finished (fun moment => ⟨moment % 2, rfl⟩) (by decide +kernel)
  have settled := polling_ends narrowSetting (.initial narrow.suite ()) latching_drowsy crowding
  rw [← crowded] at settled
  obtain ⟨attended, ends⟩ := settled
  exact ⟨Tree.generate_eq_suite (by decide +kernel) (by decide +kernel), latching_drowsy, polls, fair,
    attended 1 polls, ends alternating fair⟩

end TestTree.Run.Process
