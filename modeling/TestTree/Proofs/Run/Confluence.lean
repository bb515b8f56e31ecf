import TestTree.Proofs.Run.Completion
import TestTree.Proofs.Run.Destiny
import TestTree.Proofs.Run.Repeats

/-!
Confluence of runs. When repeats are not skipped, a walk touches no branch but its own. So every branch
comes to its destiny, in whatever order the workers take their turns and however many there are, and two
runs of one suite end with the same branches.
-/
namespace TestTree

open Run

namespace Suite

/-- The variables behind the hooks before everything; none if one of them fails. -/
def entry (results : Results) (suite : Suite) : Option Variables :=
  entering results suite.beforeEverything {}

/-- What a run makes of the branches. They do not run if a hook before everything fails. -/
def outcome (results : Results) (suite : Suite) : List Branch :=
  if (suite.entry results).isSome then
    suite.branches.map fun branch => if branch.isWaiting then branch.destiny results else branch
  else suite.branches

end Suite

namespace Run

variable {Call Env : Type} {setting : Setting Call Env}

section Walks

variable {purpose : Purpose} {cursor next : Cursor} {shared after : Shared Env} {stage : Stage}
  {arrival : Arrival} {other : Nat}

theorem branch?_of_nextStep {taken : Option Nat} {suite : Suite} (off : setting.skipRepeat = false)
    (different : other ≠ cursor.branch)
    (next : shared.suite.nextStep cursor.branch true setting.skipRepeat = (taken, suite)) :
    suite.branch? other = shared.suite.branch? other := by
  have kept := Suite.branch?_nextStep_of_ne different shared.suite true
  rw [off] at next
  rw [next] at kept
  exact kept

theorem branch?_of_takes {step : Nat} {suite : Suite} (off : setting.skipRepeat = false)
    (different : other ≠ cursor.branch) (takes : cursor.Takes setting shared.suite step suite) :
    suite.branch? other = shared.suite.branch? other := by
  rcases takes with ⟨-, rfl⟩ | ⟨-, next⟩
  · rfl
  · exact branch?_of_nextStep off different next

/-- Unless repeats are skipped, a walk leaves all branches alone but its own. -/
theorem Walk.branch?_of_ne (walk : Walk setting purpose cursor shared stage after next arrival)
    (off : setting.skipRepeat = false) (different : other ≠ cursor.branch) :
    after.suite.branch? other = shared.suite.branch? other := by
  cases walk with
  | opened | unguarded | entering | admitted | refused | halted | interrupted | continued | preparing
  | begun | unbegun | sleeping | ended | trailing | leaving | tarnished | left => rfl
  | turnedAway | skipped | recorded => exact Suite.branch?_modify_of_ne different _ _
  | exhausted suite absent next => exact branch?_of_nextStep off different next
  | facing step suite next => exact branch?_of_nextStep off different next
  | atEnd suite next => exact branch?_of_nextStep off different next
  | taken step suite takes | passedOver step suite takes | paused step suite takes =>
      exact branch?_of_takes off different takes
  | marked step error =>
      dsimp only
      rw [off]
      exact Suite.branch?_markStep_of_ne different _ _ _ _

/-- A walk of which nothing is left is at its end, unless the run is to stop. -/
theorem done_of_keeps {turn : Turn Call} (unstopped : shared.world.isStopped = false)
    (walk : Walk setting purpose cursor shared stage after next turn.arrival)
    (gone : ∀ course, next.keeps turn ≠ some course) : turn = .left .done := by
  cases turn with
  | onward activity => exact absurd rfl (gone _)
  | asleep time activity => exact absurd rfl (gone _)
  | left departure =>
      cases departure with
      | done => rfl
      | paused => exact absurd rfl (gone _)
      | stopped =>
          rw [walk.isStopped_of_stopped] at unstopped
          cases unstopped

end Walks

namespace Process

variable {process between : Process Call Env} {action : Action} {pure : setting.executor.Functional}
  {first : Suite}

/-- Every branch that waited in the first suite waits still, or is on the way to its destiny, or has come
to that. The others do not change. -/
structure Destines (pure : setting.executor.Functional) (first : Suite) (process : Process Call Env) :
    Prop where
  length : process.suite.branches.length = first.branches.length
  owned : ∀ course ∈ process.courses, ∀ branch, process.suite.branch? course.1.branch = some branch →
    ∃ before, first.branch? course.1.branch = some before ∧ before.isWaiting = true ∧
      Destined pure (before.destiny pure.results) branch course.1 course.2
  aside : ∀ index before, first.branch? index = some before →
    (∀ course ∈ process.courses, course.1.branch ≠ index) →
    process.suite.branch? index = some before ∨
      before.isWaiting = true ∧ process.suite.branch? index = some (before.destiny pure.results)

theorem InOrder.length_steers (order : process.InOrder)
    (steers : Steers setting process action between) :
    between.suite.branches.length = process.suite.branches.length := by
  cases steers with
  | walked purpose cursor activity others walking held suite left =>
      obtain ⟨own, after, present, stands, treads⟩ :=
        order.treads setting purpose (held.mem_iff.mpr (.head _))
      rw [suite]
      exact treads.others.length
  | claimed index claims still suite left =>
      rw [suite]
      exact process.suite.length_modify _ _
  | restaged cursor scope activity others still unclaimed held branches => exact congrArg _ branches
  | stayed still unclaimed branches => exact congrArg _ branches
  | prepared still fresh branches => rw [branches, List.length_map]
  | swept still unclaimed branches => rw [branches, List.length_map]

theorem Destines.claimed (destines : process.Destines pure first) (order : process.InOrder)
    {index : Nat} {branch : Branch} (claims : process.claimed action = some index)
    (found : process.suite.branch? index = some branch) :
    first.branch? index = some branch ∧ branch.isWaiting = true := by
  obtain ⟨chosen, there, waiting, -⟩ := Suite.nextBranch_eq_some (claimed_eq_some claims).1
  obtain ⟨own, present, idle, -, unowned⟩ := order.fresh claims
  obtain rfl := Option.some.inj (there.symm.trans found)
  refine ⟨?_, waiting⟩
  have inside : index < first.branches.length := by
    rw [← destines.length]
    exact (List.getElem?_eq_some_iff.mp found).1
  have free : ∀ course ∈ process.courses, course.1.branch ≠ index := fun course listed =>
    unowned course.walker (by rw [walkers_eq]; exact List.mem_map_of_mem listed)
  have known : first.branch? index = some first.branches[index] := List.getElem?_eq_getElem inside
  rcases destines.aside index _ known free with same | ⟨-, gone⟩
  · rw [known, ← same, found]
  · obtain rfl := Option.some.inj (gone.symm.trans found)
    simp [Branch.isWaiting, Branch.isIdle, Branch.completed_destiny] at waiting

theorem Destines.owned_steers (destines : process.Destines pure first)
    (predicted : process.Predicted pure) {thread : Nat}
    (steers : Steers setting process (.turn thread) between) {course : Course Call}
    (listed : course ∈ between.courses) {branch : Branch}
    (found : between.suite.branch? course.1.branch = some branch) :
    ∃ before, first.branch? course.1.branch = some before ∧ before.isWaiting = true ∧
      Destined pure (before.destiny pure.results) branch course.1 course.2 := by
  refine predicted.order.courses_steers steers (fun course branch => ∃ before,
    first.branch? course.1.branch = some before ∧ before.isWaiting = true ∧
      Destined pure (before.destiny pure.results) branch course.1 course.2) destines.owned ?walked
    ?claimed ?taken ?prepared listed found
  case walked =>
    intro thread purpose cursor activity walking rests branch found course kept
    obtain ⟨rfl, flows⟩ := predicted.flows.walk? walking
    obtain ⟨own, later, present, stands, treads⟩ := predicted.order.treads setting .run rests
    obtain ⟨before, known, waiting, destined⟩ := destines.owned _ rests own present
    obtain ⟨after, there, fulfils⟩ := fulfils_turn present stands (predicted.undebugged _ own present)
      flows (predicted.foretold _ rests own present) destined
    obtain rfl := Option.some.inj (there.symm.trans found)
    refine ⟨before, ?_, waiting, fulfils.onward course kept⟩
    rw [Cursor.eq_of_keeps kept, treads.own]
    exact known
  case claimed =>
    intro index branch claims present
    obtain ⟨known, waiting⟩ := destines.claimed predicted.order claims present
    exact ⟨branch, known, waiting, rfl⟩
  case taken =>
    intro cursor scope activity branch goes same destined
    obtain rfl := same.resolve_right (by simp [predicted.flows.injects])
    obtain ⟨before, known, waiting, destined⟩ := destined
    refine ⟨before, known, waiting, ?_⟩
    rcases goes with rfl | rfl
    · exact destined
    · exact destined
  case prepared =>
    intro still
    exact absurd rfl (still thread)

theorem Destines.aside_steers (destines : process.Destines pure first)
    (predicted : process.Predicted pure) (off : setting.skipRepeat = false)
    (going : process.operation.ending? ≠ some .stop) (unstopped : process.isStopped = false)
    {thread : Nat} (steers : Steers setting process (.turn thread) between) {index : Nat}
    {before : Branch} (known : first.branch? index = some before)
    (free : ∀ course ∈ between.courses, course.1.branch ≠ index) :
    between.suite.branch? index = some before ∨
      before.isWaiting = true ∧ between.suite.branch? index = some (before.destiny pure.results) := by
  cases steers with
  | walked purpose cursor activity others walking held suite left =>
      have rests := held.mem_iff.mpr (.head _)
      obtain ⟨rfl, flows⟩ := predicted.flows.walk? walking
      have walk := Cursor.turn_walks setting .run cursor process.runner.shared activity
      rw [suite]
      by_cases same : index = cursor.branch
      · subst same
        obtain ⟨own, later, present, stands, treads⟩ := predicted.order.treads setting .run rests
        obtain ⟨waiter, here, waiting, destined⟩ := destines.owned _ rests own present
        obtain rfl := Option.some.inj (here.symm.trans known)
        obtain ⟨after, there, fulfils⟩ := fulfils_turn present stands
          (predicted.undebugged _ own present) flows (predicted.foretold _ rests own present) destined
        have gone := done_of_keeps unstopped walk fun course kept => by
          apply free course
          · exact left.mem_iff.mpr (List.mem_append_left _ (Option.mem_toList.mpr kept))
          · rw [Cursor.eq_of_keeps kept]
            exact treads.own
        exact .inr ⟨waiting, by rw [there, fulfils.done gone]⟩
      · rw [walk.branch?_of_ne off same]
        refine destines.aside index before known fun course listed => ?_
        rcases List.mem_cons.mp (held.mem_iff.mp listed) with rfl | among
        · exact Ne.symm same
        · exact free course (left.mem_iff.mpr (List.mem_append_right _ among))
  | claimed claim claims still suite left =>
      have different : index ≠ claim := fun same =>
        free _ (left.mem_iff.mpr (.head _)) same.symm
      rw [suite, Suite.branch?_modify_of_ne different]
      exact destines.aside index before known fun course listed =>
        free course (left.mem_iff.mpr (.tail _ listed))
  | restaged cursor scope activity others still unclaimed held branches goes same left =>
      rw [Suite.branch?_congr branches]
      refine destines.aside index before known fun course listed => ?_
      rcases List.mem_cons.mp (held.mem_iff.mp listed) with rfl | among
      · have moved := free _ (left.mem_iff.mpr (.head _))
        exact moved
      · exact free course (left.mem_iff.mpr (.tail _ among))
  | stayed still unclaimed branches left =>
      rw [Suite.branch?_congr branches]
      exact destines.aside index before known fun course listed =>
        free course (left.mem_iff.mpr listed)
  | prepared still => exact absurd rfl (still thread)
  | swept still unclaimed branches dropped stopped stopping => exact absurd stopping going

theorem Destines.turn (destines : process.Destines pure first) (predicted : process.Predicted pure)
    (off : setting.skipRepeat = false) (going : process.operation.ending? ≠ some .stop)
    (unstopped : process.isStopped = false) {thread : Nat}
    (calm : (process.turn setting thread).1.isStopped = false) :
    (process.turn setting thread).1.Destines pure first := by
  have order := predicted.order
  obtain ⟨between, steers, settles⟩ := perform_steers setting order.sound order.started (.turn thread)
  obtain ⟨branches, -, -, courses⟩ : Settles between (process.turn setting thread).1 := settles
  have kept := courses.resolve_right fun ⟨stopped, _⟩ => by simp [calm] at stopped
  refine ⟨?_, ?_, ?_⟩
  · rw [branches, order.length_steers steers]
    exact destines.length
  · intro course listed branch found
    rw [Suite.branch?_congr branches] at found
    exact destines.owned_steers predicted steers (kept.mem_iff.mp listed) found
  · intro index before known free
    rw [Suite.branch?_congr branches]
    exact destines.aside_steers predicted off going unstopped steers known fun course listed =>
      free course (kept.mem_iff.mpr listed)

/-- When no cursor is left and no branch waits, the run has made of the branches what it should. -/
theorem Destines.outcome (destines : process.Destines pure first) (idle : process.courses = [])
    (enters : (first.entry pure.results).isSome = true)
    (exhausted : process.suite.Exhausted) : process.suite.branches = first.outcome pure.results := by
  rw [Suite.outcome, if_pos enters]
  apply List.ext_getElem?
  intro index
  rw [List.getElem?_map]
  cases known : first.branches[index]? with
  | none =>
      rw [List.getElem?_eq_none_iff, ← destines.length] at known
      exact List.getElem?_eq_none known
  | some before =>
      have free : ∀ course ∈ process.courses, course.1.branch ≠ index := by
        intro course listed
        rw [idle] at listed
        cases listed
      rcases destines.aside index before known free with same | ⟨waiting, gone⟩
      · rw [Option.map_some, exhausted index before same]
        exact same
      · rw [Option.map_some, waiting]
        exact gone

theorem Guarded.exhausted_turn {claims : List Nat} (guarded : process.Guarded setting claims)
    (exhausted : process.suite.Exhausted) (thread : Nat) :
    (process.turn setting thread).1.suite.Exhausted := by
  obtain ⟨between, moves, settles⟩ :=
    perform_moves setting guarded.order.sound guarded.order.started (.turn thread)
  intro index branch found
  have same : (process.turn setting thread).1.suite.branch? index = between.suite.branch? index :=
    Suite.branch?_congr settles.branches index
  rw [same] at found
  exact guarded.exhausted_moves moves exhausted index branch found

theorem exhausted_of_hasEnded {shared : Shared Env} {worker : Worker Call}
    (unstopped : shared.world.isStopped = false) (unrequested : shared.pauseRequested = false)
    (unpaused : (worker.turn setting shared).paused = none)
    (before : worker.hasEnded = true → shared.suite.Exhausted)
    (ended : (worker.turn setting shared).worker.hasEnded = true) :
    (worker.turn setting shared).shared.suite.Exhausted := by
  rcases Worker.ended_cases unstopped ended with earlier | requested | paused | exhausted
  · cases worker with
    | ended => exact before rfl
    | seeking | claiming | walking => cases earlier
  · simp [unrequested] at requested
  · simp [unpaused] at paused
  · exact exhausted

/-- How far a run has come, seen from the suite that it started with. -/
def Unfolds (pure : setting.executor.Functional) (first : Suite) (process : Process Call Env) : Prop :=
  match process.operation with
  | .beforeEverything index scope => process.suite = first ∧
      entering pure.results (first.beforeEverything.drop index) scope = first.entry pure.results
  | .beforeHook index call => process.suite = first ∧
      ∃ scope hook, first.beforeEverything[index]? = some hook ∧
        pure.Computes call hook.codeBlock hook.text scope ∧
        entering pure.results (first.beforeEverything.drop index) scope = first.entry pure.results
  | .starting => (first.entry pure.results).isSome = true
  | .working workers _ => (first.entry pure.results).isSome = true ∧
      ∀ worker ∈ workers, worker.hasEnded = true → process.suite.Exhausted
  | .afterEverything _ _ ending | .afterHook _ _ ending | .concluding ending =>
      ending = .run ∧ process.suite.branches = first.outcome pure.results
  | .finished _ => process.suite.branches = first.outcome pure.results
  | .single _ _ _ | .injecting _ _ _ => False

theorem unfolds_enterAfterEverything {runner : Runner Env}
    (comes : runner.suite.branches = first.outcome pure.results) :
    (runner.enterAfterEverything .run : Process Call Env).Unfolds pure first := by
  unfold Runner.enterAfterEverything
  split
  · exact ⟨rfl, comes⟩
  · exact ⟨rfl, comes⟩

theorem unfolds_beforeEverything {runner : Runner Env} {index : Nat} {scope : Variables}
    (unfolds : (⟨runner, .beforeEverything index scope⟩ : Process Call Env).Unfolds pure first)
    (unstopped : runner.shared.world.isStopped = false) (thread : Nat) :
    (turn setting ⟨runner, .beforeEverything index scope⟩ thread).1.Unfolds pure first := by
  obtain ⟨same, enters⟩ := unfolds
  have hooks : runner.suite.beforeEverything = first.beforeEverything :=
    congrArg (·.beforeEverything) same
  simp only [turn, unstopped, Bool.false_eq_true, if_false, hooks]
  cases found : first.beforeEverything[index]? with
  | none =>
      rw [List.drop_eq_nil_of_le (List.getElem?_eq_none_iff.mp found), entering] at enters
      simp only [Unfolds, ← enters, Option.isSome_some]
  | some hook => exact ⟨same, scope, hook, found, pure.starts _ _, enters⟩

theorem unfolds_beforeHook {runner : Runner Env} {index : Nat} {call : Call}
    (unfolds : (⟨runner, .beforeHook index call⟩ : Process Call Env).Unfolds pure first)
    (thread : Nat) : (turn setting ⟨runner, .beforeHook index call⟩ thread).1.Unfolds pure first := by
  obtain ⟨same, scope, hook, listed, computes, enters⟩ := unfolds
  have hooks : runner.suite.beforeEverything = first.beforeEverything :=
    congrArg (·.beforeEverything) same
  simp only [turn]
  obtain ⟨time, later, world, advanced, runs⟩ | ⟨value, after, world, advanced, results⟩ :=
    advance_cases runner.shared computes
  · rw [advanced]
    exact ⟨same, scope, hook, listed, runs, enters⟩
  · rw [drop_cons listed, entering, results] at enters
    rw [advanced]
    cases value with
    | error message =>
        have kept : ({ runner with shared := { runner.shared with world } } :
            Runner Env).suite.beforeEverything[index]? = some hook := by
          rw [← listed, ← hooks]
          rfl
        have refused : (first.entry pure.results).isSome = false := by
          rw [← enters]
          rfl
        simp only [kept]
        apply unfolds_enterAfterEverything
        rw [Suite.outcome, refused, ← same]
        rfl
    | ok value => exact ⟨same, enters⟩

theorem unfolds_starting {runner : Runner Env}
    (unfolds : (⟨runner, .starting⟩ : Process Call Env).Unfolds pure first)
    (unstopped : runner.shared.world.isStopped = false) (unpaused : runner.control.paused = [])
    (thread : Nat) : (turn setting ⟨runner, .starting⟩ thread).1.Unfolds pure first := by
  simp only [turn, unstopped, Bool.false_eq_true, if_false, startWorkers, unpaused, List.map_nil,
    List.nil_append]
  refine ⟨unfolds, fun worker listed ended => ?_⟩
  rw [List.eq_of_mem_replicate listed] at ended
  cases ended

theorem unfolds_ending {runner : Runner Env} {operation : Operation Call} {ending : Ending}
    (ends : operation.ending? = some ending)
    (unfolds : (⟨runner, operation⟩ : Process Call Env).Unfolds pure first) (thread : Nat) :
    (turn setting ⟨runner, operation⟩ thread).1.Unfolds pure first := by
  cases operation with
  | afterEverything index scope ending =>
      simp only [turn]
      split
      · exact unfolds
      · exact unfolds
  | afterHook index call ending =>
      obtain ⟨reply, world, advanced⟩ := Cursor.advance_eq setting runner.shared call
      simp only [turn, advanced]
      rcases reply with ⟨time, later⟩ | ⟨result, scope⟩
      · exact unfolds
      · dsimp only
        split
        · exact unfolds
        · exact unfolds
  | concluding ending =>
      obtain ⟨rfl, comes⟩ := unfolds
      exact comes
  | beforeEverything | beforeHook | starting | working | single | injecting | finished => cases ends

/-- A turn of a worker: if it is the last to end, the branches have come to what they should. -/
theorem unfolds_working {runner : Runner Env} {workers : List (Worker Call)} {paused : List Cursor}
    (unfolds : (⟨runner, .working workers paused⟩ : Process Call Env).Unfolds pure first)
    (predicted : (⟨runner, .working workers paused⟩ : Process Call Env).Predicted pure)
    {claims : List Nat}
    (guarded : (⟨runner, .working workers paused⟩ : Process Call Env).Guarded setting claims)
    (unstopped : runner.shared.world.isStopped = false) {thread : Nat}
    (after : (turn setting ⟨runner, .working workers paused⟩ thread).1.Destines pure first) :
    (turn setting ⟨runner, .working workers paused⟩ thread).1.Unfolds pure first := by
  obtain ⟨enters, ended⟩ := unfolds
  have kept : runner.suite.Exhausted →
      (turn setting ⟨runner, .working workers paused⟩ thread).1.suite.Exhausted :=
    fun exhausted => guarded.exhausted_turn exhausted thread
  have flows := predicted.flows
  obtain ⟨rfl, walks⟩ := flows.operation
  cases found : workers[thread]? with
  | none =>
      simp only [turn, found]
      exact ⟨enters, ended⟩
  | some worker =>
      have listed := List.mem_of_getElem? found
      obtain ⟨calm, none, onward⟩ := flows_worker setting worker flows.unrequested
        predicted.undebugged (by
          intro cursor activity isWalking
          subst isWalking
          obtain ⟨branch, present, -⟩ := predicted.order.orderly.stands (cursor, activity.stage)
            (List.mem_append_left _ (List.mem_append_left _
              (List.mem_filterMap.mpr ⟨_, listed, rfl⟩)))
          exact ⟨⟨branch, present⟩, walks cursor activity listed⟩)
      have own : (worker.turn setting runner.shared).worker.hasEnded = true →
          (worker.turn setting runner.shared).shared.suite.Exhausted :=
        exhausted_of_hasEnded unstopped flows.unrequested none (ended worker listed)
      simp only [turn, found, none, Option.toList_none, List.append_nil] at kept after ⊢
      split
      · next all =>
          rw [if_pos all] at after
          have joined (runner : Runner Env) :
              join runner [] = (runner.enterAfterEverything .run : Process Call Env) := rfl
          have last := List.all_eq_true.mp all _
            (List.mem_set (List.getElem?_eq_some_iff.mp found).1 _)
          rw [joined] at after ⊢
          apply unfolds_enterAfterEverything
          have comes := after.outcome ?_ enters ?_
          · rw [suite_enterAfterEverything] at comes
            exact comes
          · rw [courses_enterAfterEverything]
            exact congrArg (List.map Cursor.pausing) flows.unpaused
          · rw [suite_enterAfterEverything]
            exact own last
      · next some =>
          rw [if_neg some] at kept
          refine ⟨enters, fun other among finished => ?_⟩
          rcases List.mem_or_eq_of_mem_set among with old | rfl
          · exact kept (ended other old finished)
          · exact own finished

theorem Unfolds.turn (unfolds : process.Unfolds pure first) (predicted : process.Predicted pure)
    {claims : List Nat} (guarded : process.Guarded setting claims)
    (unstopped : process.isStopped = false) {thread : Nat}
    (after : (process.turn setting thread).1.Destines pure first) :
    (process.turn setting thread).1.Unfolds pure first := by
  obtain ⟨runner, operation⟩ := process
  cases operation with
  | beforeEverything index scope => exact unfolds_beforeEverything unfolds unstopped thread
  | beforeHook index call => exact unfolds_beforeHook unfolds thread
  | starting => exact unfolds_starting unfolds unstopped predicted.flows.unpaused thread
  | working workers paused => exact unfolds_working unfolds predicted guarded unstopped after
  | afterEverything index scope ending => exact unfolds_ending rfl unfolds thread
  | afterHook index call ending => exact unfolds_ending rfl unfolds thread
  | concluding ending => exact unfolds_ending rfl unfolds thread
  | single | injecting => cases unfolds
  | finished answer => exact unfolds

end Process

/-- A run along a schedule, asked for once. -/
def Runner.runAlong (setting : Setting Call Env) (runner : Runner Env) (schedule : List Action) :
    Process Call Env :=
  (runner.ready setting).after setting (.request .run :: schedule)

/-- The run comes to its end along the schedule. It is never stopped, and nothing else is asked of the
runner. -/
structure Runner.Completes (setting : Setting Call Env) (runner : Runner Env) (schedule : List Action) :
    Prop where
  unasked : ∀ action ∈ schedule, action.isRequest = false
  unstopped : (runner.ready setting).Unstopped setting (.request .run :: schedule)
  finished : (runner.runAlong setting schedule).isFinished = true

namespace Process

variable {pure : setting.executor.Functional} {runner : Runner Env}

theorem unfolds_launched (pure : setting.executor.Functional) (runner : Runner Env) :
    (runner.runAlong setting []).Destines pure (runner.ready setting).suite ∧
      (runner.runAlong setting []).Unfolds pure (runner.ready setting).suite := by
  have fresh := control_ready setting runner
  have launched : runner.runAlong setting [] = (runner.ready setting).runner.run := rfl
  have suite : (runner.runAlong setting []).suite = (runner.ready setting).suite := by
    rw [launched, Runner.run, fresh, if_neg (by simp)]
    rfl
  have opens : (runner.runAlong setting []).operation = .beforeEverything 0 {} := by
    rw [launched, Runner.run, fresh, if_neg (by simp)]
    rfl
  have unpaused : (runner.runAlong setting []).runner.control.paused = [] := by
    rw [launched, Runner.run, fresh, if_neg (by simp)]
    exact congrArg Control.paused fresh
  have idle : (runner.runAlong setting []).courses = [] := by
    rw [courses, opens, unpaused]
    rfl
  refine ⟨⟨?_, ?_, ?_⟩, ?_⟩
  · rw [suite]
  · intro course listed
    rw [idle] at listed
    cases listed
  · intro index before known free
    rw [suite]
    exact .inl known
  · unfold Unfolds
    rw [opens]
    exact ⟨suite, rfl⟩

/-- A run that nobody stops unfolds as it should, whatever the order of turns. That no worker ends before all
branches are claimed is carried along, as the end of the run is told by it. -/
theorem unfolds_after (pure : setting.executor.Functional) (undebugged : runner.suite.Undebugged)
    (off : setting.skipRepeat = false) {schedule : List Action}
    (unasked : ∀ action ∈ schedule, action.isRequest = false)
    (unstopped : (runner.ready setting).Unstopped setting (.request .run :: schedule)) :
    (runner.runAlong setting schedule).Destines pure (runner.ready setting).suite ∧
      (runner.runAlong setting schedule).Unfolds pure (runner.ready setting).suite := by
  induction schedule using List.reverseRecOn with
  | nil => exact unfolds_launched pure runner
  | append_singleton schedule action ih =>
      have earlier : (.request .run :: schedule) <+: (.request .run :: (schedule ++ [action])) :=
        ⟨[action], rfl⟩
      obtain ⟨destines, unfolds⟩ := ih
        (fun other listed => unasked other (List.mem_append_left _ listed))
        (fun moment before => unstopped moment (before.trans earlier))
      have going := unstopped _ earlier
      have calm := unstopped _ List.prefix_rfl
      have extended : runner.runAlong setting (schedule ++ [action]) =
          (runner.runAlong setting schedule).perform setting action := after_concat _ _
      change (runner.runAlong setting (schedule ++ [action])).isStopped = false at calm
      rw [extended] at calm ⊢
      have guarded := guarded_after setting runner
        (fun moment before => unstopped moment (before.trans earlier))
      cases action with
      | turn thread =>
          have predicted := predicted_after pure undebugged (.request .run :: schedule)
          have later := destines.turn predicted off guarded.going going calm
          exact ⟨later, unfolds.turn predicted guarded going later⟩
      | request request => cases unasked _ (List.mem_append_right _ (.head _))
      | raiseStop => cases calm
      | wait milliseconds => exact ⟨⟨destines.length, destines.owned, destines.aside⟩, unfolds⟩

/-- What a run makes of the branches can be told from the suite. -/
theorem branches_of_completes {schedule : List Action} (completes : runner.Completes setting schedule)
    (pure : setting.executor.Functional) (undebugged : runner.suite.Undebugged)
    (off : setting.skipRepeat = false) :
    (runner.runAlong setting schedule).suite.branches =
      (runner.ready setting).suite.outcome pure.results := by
  obtain ⟨unasked, unstopped, finished⟩ := completes
  obtain ⟨-, unfolds⟩ := unfolds_after pure undebugged off unasked unstopped
  unfold isFinished at finished
  unfold Unfolds at unfolds
  split at finished
  · next answer operation =>
      rw [operation] at unfolds
      exact unfolds
  · cases finished

theorem suite_ready {other : Runner Env} (same : other.suite = runner.suite) (few many : Nat) :
    (other.ready { setting with maxParallel := many }).suite =
      (runner.ready { setting with maxParallel := few }).suite := by
  simp only [Runner.ready, Runner.init, if_true, same]
  split
  · rfl
  · rfl

/-- Results do not depend on the schedule. For a tree without a step to debug, and an executor whose
results are functions of code, text and variables, two runs of its suite end with the same branches,
however many workers each of them has and in whatever order these take their turns. -/
theorem branches_eq_of_completes {tree : Tree} {options : BranchOptions} {suite : Suite}
    (built : tree.Built)
    (plain : ∀ id, id < tree.size → (tree.node id).step.identifiers.isDebug = false)
    (generated : tree.generate options = .ok suite) (pure : setting.executor.Functional)
    (off : setting.skipRepeat = false) {runner other : Runner Env}
    (planned : runner.suite.plans = suite.plans) (same : other.suite = runner.suite) (few many : Nat)
    {schedule fellow : List Action}
    (completes : runner.Completes { setting with maxParallel := few } schedule)
    (also : other.Completes { setting with maxParallel := many } fellow) :
    (runner.runAlong { setting with maxParallel := few } schedule).suite.branches =
      (other.runAlong { setting with maxParallel := many } fellow).suite.branches := by
  have undebugged := (undebugged_generate built.wellFormed plain generated).of_plans planned
  have beside : other.suite.Undebugged := by
    rw [same]
    exact undebugged
  calc (runner.runAlong { setting with maxParallel := few } schedule).suite.branches
      = (runner.ready { setting with maxParallel := few }).suite.outcome pure.results :=
        branches_of_completes completes pure undebugged off
    _ = (other.ready { setting with maxParallel := many }).suite.outcome pure.results := by
        rw [suite_ready same few many]
    _ = (other.runAlong { setting with maxParallel := many } fellow).suite.branches :=
        (branches_of_completes also pure beside off).symm

/-- One worker walks along both branches, or each of two workers along one. -/
theorem branches_eq_of_completes_siblings :
    let setting : Setting (Text × Variables) Unit :=
      { executor := verdicts, tree := siblings, skipRepeat := false }
    let runner := Runner.initial siblings.suite ()
    let turns := (List.replicate 28 0).map .turn
    let fellows := (List.replicate 15 [0, 1]).flatten.map .turn
    runner.Completes { setting with maxParallel := 1 } turns ∧
      runner.Completes { setting with maxParallel := 2 } fellows ∧
      (runner.runAlong { setting with maxParallel := 1 } turns).suite.branches =
        (runner.runAlong { setting with maxParallel := 2 } fellows).suite.branches := by
  intro setting runner turns fellows
  have generated : siblings.generate {} = .ok siblings.suite :=
    Tree.generate_eq_suite (by decide +kernel) (by decide +kernel)
  have plain : ∀ id, id < siblings.size → (siblings.node id).step.identifiers.isDebug = false := by
    decide +kernel
  have completes : runner.Completes { setting with maxParallel := 1 } turns :=
    ⟨by decide +kernel, verdictsPure.unstopped runner _, by decide +kernel⟩
  have also : runner.Completes { setting with maxParallel := 2 } fellows :=
    ⟨by decide +kernel, verdictsPure.unstopped runner _, by decide +kernel⟩
  have planned : runner.suite.plans = siblings.suite.plans := rfl
  exact ⟨completes, also, branches_eq_of_completes (.parseIn .empty _ _ _) plain generated
    verdictsPure.toFunctional rfl planned rfl 1 2 completes also⟩

end Process

end Run

end TestTree
