import Mathlib.Data.List.Perm.Basic
import TestTree.Proofs.Run.Turns

/-!
The cursors of a process. Every action is a claim, one edge of one walk, a change of a resting cursor
that does not touch its branch, or the end of some walks; `perform_steers` says so once for all
statements about what walks do to branches, and `perform_moves` for those that only ask for stages.
-/
namespace TestTree.Run

variable {Call Env : Type}

/-- A cursor with its stage. -/
abbrev Walker := Cursor × Stage

/-- A cursor with what it does next. -/
abbrev Course (Call : Type) := Cursor × Activity Call

def Course.walker (course : Course Call) : Walker := (course.1, course.2.stage)

/-- A paused cursor goes on where it looks around. -/
def Cursor.resting (cursor : Cursor) : Walker := (cursor, .looping)

def Cursor.pausing (cursor : Cursor) : Course Call := (cursor, .looping)

def Worker.course? : Worker Call → Option (Course Call)
  | walking cursor activity => some (cursor, activity)
  | _ => none

def Worker.walker? : Worker Call → Option Walker
  | walking cursor activity => some (cursor, activity.stage)
  | _ => none

def Operation.courses : Operation Call → List (Course Call)
  | .working workers paused => workers.filterMap Worker.course? ++ paused.map Cursor.pausing
  | .single _ cursor activity => [(cursor, activity)]
  | .injecting cursor _ _ => [cursor.pausing]
  | _ => []

def Operation.walkers : Operation Call → List Walker
  | .working workers paused => workers.filterMap Worker.walker? ++ paused.map Cursor.resting
  | .single _ cursor activity => [(cursor, activity.stage)]
  | .injecting cursor _ _ => [cursor.resting]
  | _ => []

/-- All cursors of a process, at work or paused. -/
def Process.courses (process : Process Call Env) : List (Course Call) :=
  process.operation.courses ++ process.runner.control.paused.map Cursor.pausing

def Process.walkers (process : Process Call Env) : List Walker :=
  process.operation.walkers ++ process.runner.control.paused.map Cursor.resting

/-- The branches that the cursors of a process own. -/
def Process.owned (process : Process Call Env) : List Nat :=
  process.walkers.map fun walker => walker.1.branch

/-- What a turn leaves of a walker. -/
def Cursor.remains (cursor : Cursor) : Arrival → Option Walker
  | .at stage => some (cursor, stage)
  | .away .paused => some cursor.resting
  | .away _ => none

/-- What a turn leaves of a course. -/
def Cursor.keeps (cursor : Cursor) : Turn Call → Option (Course Call)
  | .onward activity | .asleep _ activity => some (cursor, activity)
  | .left .paused => some cursor.pausing
  | .left _ => none

/-- No cursor stays paused while workers are at work, and a stopped runner does nothing more. -/
structure Process.Sound (process : Process Call Env) : Prop where
  calm : ∀ workers paused, process.operation = .working workers paused →
    process.runner.control.paused = []
  final : process.runner.control.phase = .stopped →
    process.isFinished = true ∨ process.operation.ending? = some .stop

theorem perm_set {α : Type} {list : List α} {index : Nat} {old : α}
    (found : list[index]? = some old) (new : α) :
    ∃ rest, list.Perm (old :: rest) ∧ (list.set index new).Perm (new :: rest) := by
  obtain ⟨bound, rfl⟩ := List.getElem?_eq_some_iff.mp found
  exact ⟨list.eraseIdx index, (List.getElem_cons_eraseIdx_perm bound).symm,
    List.set_perm_cons_eraseIdx bound new⟩

/-- What one action does to the branches and the cursors, but for what the last worker does behind
its turn. -/
inductive Steers (setting : Setting Call Env) (process : Process Call Env) :
    Action → Process Call Env → Prop
  | walked {thread : Nat} {after : Process Call Env} (purpose : Purpose) (cursor : Cursor)
      (activity : Activity Call) (others : List (Course Call))
      (walking : process.walk? thread = some (purpose, cursor, activity))
      (held : process.courses.Perm ((cursor, activity) :: others))
      (suite : after.suite = (cursor.turn setting purpose process.runner.shared activity).shared.suite)
      (holds : after.courses.Perm (((cursor.turn setting purpose process.runner.shared
        activity).cursor.keeps (cursor.turn setting purpose process.runner.shared
        activity).turn).toList ++ others)) :
      Steers setting process (.turn thread) after
  | claimed {thread : Nat} {after : Process Call Env} (index : Nat)
      (claims : process.claimed (.turn thread) = some index)
      (still : process.walk? thread = none)
      (suite : after.suite = process.suite.modify index Suite.markRunning)
      (holds : after.courses.Perm (({ branch := index }, .opening) :: process.courses)) :
      Steers setting process (.turn thread) after
  | restaged {action : Action} {after : Process Call Env} (cursor : Cursor) (scope : Variables)
      (activity : Activity Call)
      (others : List (Course Call))
      (still : ∀ thread, action = .turn thread → process.walk? thread = none)
      (unclaimed : process.claimed action = none)
      (held : process.courses.Perm (cursor.pausing :: others))
      (branches : after.suite.branches = process.suite.branches)
      (taken : activity = .looping ∨ activity = .taking)
      (same : scope = cursor.scope ∨ process.injects action = some cursor.branch)
      (holds : after.courses.Perm (({ cursor with scope }, activity) :: others)) :
      Steers setting process action after
  | stayed {action : Action} {after : Process Call Env}
      (still : ∀ thread, action = .turn thread → process.walk? thread = none)
      (unclaimed : process.claimed action = none)
      (branches : after.suite.branches = process.suite.branches)
      (holds : after.courses.Perm process.courses) :
      Steers setting process action after
  | prepared {action : Action} {after : Process Call Env}
      (still : ∀ thread, action ≠ .turn thread)
      (fresh : setting.skipPassed = false)
      (branches : after.suite.branches =
        process.suite.branches.map fun branch => { branch with passedLastTime := false })
      (holds : after.courses.Perm process.courses) :
      Steers setting process action after
  | swept {action : Action} {after : Process Call Env}
      (still : ∀ thread, action = .turn thread → process.walk? thread = none)
      (unclaimed : process.claimed action = none)
      (branches : after.suite.branches = process.suite.branches.map fun branch =>
        if branch.status.isCompleted then branch
        else { branch with status := { branch.status with isRunning := false } })
      (dropped : after.courses = [])
      (stopped : after.runner.control.phase = .stopped)
      (stopping : process.operation.ending? = some .stop) :
      Steers setting process action after

/-- What is seen of that when only the stages of the cursors count. -/
inductive Moves (setting : Setting Call Env) (process : Process Call Env) :
    Action → Process Call Env → Prop
  | walked {thread : Nat} {after : Process Call Env} (purpose : Purpose) (cursor : Cursor)
      (activity : Activity Call) (others : List Walker)
      (walking : process.walk? thread = some (purpose, cursor, activity))
      (held : process.walkers.Perm ((cursor, activity.stage) :: others))
      (suite : after.suite = (cursor.turn setting purpose process.runner.shared activity).shared.suite)
      (holds : after.walkers.Perm (((cursor.turn setting purpose process.runner.shared
        activity).cursor.remains (cursor.turn setting purpose process.runner.shared
        activity).turn.arrival).toList ++ others)) :
      Moves setting process (.turn thread) after
  | claimed {thread : Nat} {after : Process Call Env} (index : Nat)
      (claims : process.claimed (.turn thread) = some index)
      (still : process.walk? thread = none)
      (suite : after.suite = process.suite.modify index Suite.markRunning)
      (holds : after.walkers.Perm (({ branch := index }, .opening) :: process.walkers)) :
      Moves setting process (.turn thread) after
  | restaged {action : Action} {after : Process Call Env} (cursor : Cursor) (scope : Variables)
      (stage : Stage) (others : List Walker)
      (still : ∀ thread, action = .turn thread → process.walk? thread = none)
      (unclaimed : process.claimed action = none)
      (held : process.walkers.Perm (cursor.resting :: others))
      (branches : after.suite.branches = process.suite.branches)
      (taken : stage = .looping ∨ stage = .taking)
      (holds : after.walkers.Perm (({ cursor with scope }, stage) :: others)) :
      Moves setting process action after
  | stayed {action : Action} {after : Process Call Env}
      (still : ∀ thread, action = .turn thread → process.walk? thread = none)
      (unclaimed : process.claimed action = none)
      (branches : after.suite.branches = process.suite.branches)
      (holds : after.walkers.Perm process.walkers) :
      Moves setting process action after
  | prepared {action : Action} {after : Process Call Env}
      (still : ∀ thread, action ≠ .turn thread)
      (fresh : setting.skipPassed = false)
      (branches : after.suite.branches =
        process.suite.branches.map fun branch => { branch with passedLastTime := false })
      (holds : after.walkers.Perm process.walkers) :
      Moves setting process action after
  | swept {action : Action} {after : Process Call Env}
      (still : ∀ thread, action = .turn thread → process.walk? thread = none)
      (unclaimed : process.claimed action = none)
      (branches : after.suite.branches = process.suite.branches.map fun branch =>
        if branch.status.isCompleted then branch
        else { branch with status := { branch.status with isRunning := false } })
      (dropped : after.walkers = [])
      (stopped : after.runner.control.phase = .stopped)
      (stopping : process.operation.ending? = some .stop) :
      Moves setting process action after

/-- What the last worker does behind its turn: it keeps the paused cursors, or drops them if the run is
to stop. -/
structure Settles (before after : Process Call Env) : Prop where
  branches : after.suite.branches = before.suite.branches
  stopped : after.isStopped = before.isStopped
  final : before.runner.control.phase = .stopped → after.runner.control.phase = .stopped
  courses : after.courses.Perm before.courses ∨ after.isStopped = true ∧ after.courses = []

theorem Worker.walker?_eq (worker : Worker Call) :
    worker.walker? = worker.course?.map Course.walker := by
  cases worker <;> rfl

theorem Process.walkers_eq (process : Process Call Env) :
    process.walkers = process.courses.map Course.walker := by
  have resting (cursors : List Cursor) : cursors.map Cursor.resting =
      (cursors.map (Cursor.pausing : Cursor → Course Call)).map Course.walker := by
    rw [List.map_map]
    rfl
  rw [walkers, courses, List.map_append, resting]
  congr 1
  cases process.operation with
  | working workers paused =>
      rw [Operation.walkers, Operation.courses, List.map_append, resting, List.map_filterMap]
      congr 2
      funext worker
      exact worker.walker?_eq
  | single | injecting | beforeEverything | beforeHook | starting | afterEverything | afterHook
  | concluding | finished => rfl

theorem Process.owned_eq (process : Process Call Env) :
    process.owned = process.courses.map fun course => course.1.branch := by
  rw [owned, walkers_eq, List.map_map]
  rfl

theorem Cursor.remains_eq (cursor : Cursor) (turn : Turn Call) :
    cursor.remains turn.arrival = (cursor.keeps turn).map Course.walker := by
  rcases turn with activity | ⟨time, activity⟩ | departure
  · rfl
  · rfl
  · cases departure <;> rfl

theorem Cursor.of_remains {cursor : Cursor} {arrival : Arrival} {walker : Walker}
    (remains : cursor.remains arrival = some walker) : walker.1 = cursor := by
  cases arrival with
  | «at» => cases remains; rfl
  | away departure => cases departure <;> cases remains; rfl

theorem Cursor.eq_of_keeps {cursor : Cursor} {turn : Turn Call} {course : Course Call}
    (kept : cursor.keeps turn = some course) : course.1 = cursor := by
  rcases turn with activity | ⟨time, activity⟩ | departure
  · cases kept
    rfl
  · cases kept
    rfl
  · cases departure <;> cases kept
    rfl

theorem Settles.walkers {before after : Process Call Env} (settles : Settles before after) :
    after.walkers.Perm before.walkers ∨ after.isStopped = true ∧ after.walkers = [] := by
  rw [after.walkers_eq, before.walkers_eq]
  rcases settles.courses with kept | ⟨stopped, dropped⟩
  · exact .inl (kept.map _)
  · exact .inr ⟨stopped, by rw [dropped]; rfl⟩

theorem Steers.moves {setting : Setting Call Env} {process after : Process Call Env}
    {action : Action} (steers : Steers setting process action after) :
    Moves setting process action after := by
  have walkers (process : Process Call Env) := process.walkers_eq
  cases steers with
  | walked purpose cursor activity others walking held suite holds =>
      refine .walked purpose cursor activity (others.map Course.walker) walking ?_ suite ?_
      · rw [walkers]
        exact held.map _
      · have kept := holds.map Course.walker
        rw [List.map_append, ← Option.toList_map, ← Cursor.remains_eq] at kept
        rw [walkers]
        exact kept
  | claimed index claims still suite holds =>
      refine .claimed index claims still suite ?_
      rw [walkers, walkers]
      exact holds.map _
  | restaged cursor scope activity others still unclaimed held branches taken same holds =>
      refine .restaged cursor scope activity.stage (others.map Course.walker) still unclaimed ?_
        branches ?_ ?_
      · rw [walkers]
        exact held.map _
      · rcases taken with rfl | rfl
        · exact .inl rfl
        · exact .inr rfl
      · rw [walkers]
        exact holds.map _
  | stayed still unclaimed branches holds =>
      refine .stayed still unclaimed branches ?_
      rw [walkers, walkers]
      exact holds.map _
  | prepared still fresh branches holds =>
      refine .prepared still fresh branches ?_
      rw [walkers, walkers]
      exact holds.map _
  | swept still unclaimed branches dropped stopped stopping =>
      refine .swept still unclaimed branches ?_ stopped stopping
      rw [walkers, dropped]
      rfl

theorem Settles.refl (process : Process Call Env) : Settles process process :=
  ⟨rfl, rfl, id, .inl (.refl _)⟩

namespace Process

variable {setting : Setting Call Env} {process : Process Call Env}

@[simp] theorem courses_finish (runner : Runner Env) (answer : Answer) :
    (runner.finish answer : Process Call Env).courses = runner.control.paused.map Cursor.pausing := rfl

@[simp] theorem courses_enterAfterEverything (runner : Runner Env) (ending : Ending) :
    (runner.enterAfterEverything ending : Process Call Env).courses =
      runner.control.paused.map Cursor.pausing := by
  unfold Runner.enterAfterEverything
  split <;> rfl

theorem Sound.phase_ne (sound : process.Sound) (busy : process.isFinished = false)
    (goes : process.operation.ending? ≠ some .stop) : process.runner.control.phase ≠ .stopped := by
  intro stopped
  rcases sound.final stopped with finished | stopping
  · simp [busy] at finished
  · exact goes stopping

theorem settles_join (runner : Runner Env) (workers : List (Worker Call)) (paused : List Cursor)
    (calm : runner.control.paused = []) (running : runner.control.phase ≠ .stopped)
    (ended : workers.all Worker.hasEnded = true) :
    Settles ⟨runner, .working workers paused⟩ (join runner paused : Process Call Env) := by
  have idle : workers.filterMap Worker.course? = [] := by
    rw [List.filterMap_eq_nil_iff]
    intro worker member
    have := List.all_eq_true.mp ended worker member
    cases worker <;> simp_all [Worker.hasEnded, Worker.course?]
  unfold join
  split
  · next empty =>
    refine ⟨by rw [suite_enterAfterEverything]; rfl, by rw [isStopped_enterAfterEverything]; rfl,
      fun stopped => absurd stopped running, .inl ?_⟩
    rw [courses_enterAfterEverything, calm]
    simp [courses, Operation.courses, idle, calm, List.isEmpty_iff.mp empty]
  · split
    · next stopped =>
      refine ⟨by rw [suite_enterAfterEverything]; rfl, by rw [isStopped_enterAfterEverything]; rfl,
        fun stopped => absurd stopped running, .inr ⟨?_, ?_⟩⟩
      · rw [isStopped_enterAfterEverything]
        exact stopped
      · rw [courses_enterAfterEverything, calm]
        rfl
    · refine ⟨rfl, rfl, fun stopped => absurd stopped running, .inl ?_⟩
      simp [courses, Operation.courses, Runner.finish, Runner.withSuite, Runner.withControl, idle, calm]

theorem courses_unjoined (setting : Setting Call Env) (runner : Runner Env)
    {workers : List (Worker Call)} (paused : List Cursor) {thread : Nat} {worker : Worker Call}
    (found : workers[thread]? = some worker) :
    ∃ others, (⟨runner, .working workers paused⟩ : Process Call Env).courses.Perm
        (worker.course?.toList ++ others) ∧
      (unjoined setting ⟨runner, .working workers paused⟩ thread workers paused worker).courses.Perm
        ((worker.turn setting runner.shared).worker.course?.toList ++
          ((worker.turn setting runner.shared).paused.map Cursor.pausing).toList ++ others) := by
  obtain ⟨rest, before, after⟩ := perm_set found (worker.turn setting runner.shared).worker
  have split (first : Worker Call) : (first :: rest).filterMap Worker.course? =
      first.course?.toList ++ rest.filterMap Worker.course? := by
    cases shown : first.course? <;> simp [shown]
  refine ⟨rest.filterMap Worker.course? ++
    (paused.map Cursor.pausing ++ runner.control.paused.map Cursor.pausing), ?_, ?_⟩
  · have before := (before.filterMap Worker.course?).append_right
      (paused.map Cursor.pausing ++ runner.control.paused.map Cursor.pausing)
    rw [split] at before
    simpa only [courses, Operation.courses, List.append_assoc] using before
  · have after := after.filterMap Worker.course?
    rw [split] at after
    have moved : (paused ++ (worker.turn setting runner.shared).paused.toList).map
        (Cursor.pausing : Cursor → Course Call) =
        paused.map Cursor.pausing ++
          ((worker.turn setting runner.shared).paused.map Cursor.pausing).toList := by
      cases (worker.turn setting runner.shared).paused <;> simp
    simp only [unjoined, courses, Operation.courses, moved, List.append_assoc]
    refine (after.append_right _).trans ?_
    rw [List.append_assoc]
    refine .append_left _ ?_
    exact (List.perm_append_comm_assoc _ _ _).append_left _ |>.trans
      (List.perm_append_comm_assoc _ _ _)

theorem steers_unjoined {runner : Runner Env} {workers : List (Worker Call)} {paused : List Cursor}
    {thread : Nat} {worker : Worker Call} (found : workers[thread]? = some worker) :
    Steers setting ⟨runner, .working workers paused⟩ (.turn thread)
      (unjoined setting ⟨runner, .working workers paused⟩ thread workers paused worker) := by
  obtain ⟨others, before, after⟩ :=
    courses_unjoined setting runner paused found
  cases worker with
  | seeking =>
      refine .stayed ?_ ?_ ?_ ?_
      · rintro _ ⟨⟩
        simp [walk?, found]
      · simp [claimed, found]
      · simp only [suite, unjoined, Worker.turn]
        split <;> rfl
      · refine after.trans (.trans ?_ before.symm)
        simp only [Worker.turn]
        split <;> exact .refl _
  | claiming =>
      cases next : runner.shared.suite.claimNext with
      | none =>
          refine .stayed ?_ ?_ ?_ ?_
          · rintro _ ⟨⟩
            simp [walk?, found]
          · have absent : runner.suite.nextBranch = none := by
              simpa [Suite.claimNext, Runner.suite] using next
            simp [claimed, found, suite, absent]
          · simp only [suite, unjoined, Worker.turn, next]
            split <;> rfl
          · refine after.trans (.trans ?_ before.symm)
            simp only [Worker.turn, next]
            split <;> exact .refl _
      | some claim =>
          obtain ⟨index, suite⟩ := claim
          have chosen : runner.suite.nextBranch = some index ∧
              runner.suite.modify index Suite.markRunning = suite := by
            simpa [Suite.claimNext, Runner.suite] using next
          refine .claimed index ?_ ?_ ?_ ?_
          · simp [claimed, found, Process.suite, chosen.1]
          · simp [walk?, found]
          · simp only [Process.suite, unjoined, Worker.turn, next]
            exact chosen.2.symm
          · refine after.trans (.trans ?_ (before.symm.cons _))
            simp only [Worker.turn, next]
            exact .refl _
  | walking cursor activity =>
      refine .walked .run cursor activity others ?_ before ?_ ?_
      · simp [walk?, found]
      · simp only [suite, unjoined, Worker.turn]
        split <;> rfl
      · refine after.trans ?_
        simp only [Worker.turn]
        split <;> next turned => simp [turned, Cursor.keeps, Worker.course?]
  | ended =>
      refine .stayed ?_ ?_ rfl ?_
      · rintro _ ⟨⟩
        simp [walk?, found]
      · simp [claimed, found]
      · exact after.trans before.symm

theorem courses_startWorkers {runner : Runner Env}
    (started : ∀ cursor ∈ runner.control.paused, cursor.isStarted = true) :
    (startWorkers setting runner).courses = runner.control.paused.map Cursor.pausing := by
  have resumed : ∀ cursors : List Cursor, (∀ cursor ∈ cursors, cursor.isStarted = true) →
      (cursors.map Worker.resume : List (Worker Call)).filterMap Worker.course? =
        cursors.map Cursor.pausing := by
    intro cursors started
    induction cursors with
    | nil => rfl
    | cons cursor rest ih =>
        have first := started cursor (by simp)
        have ih := ih fun cursor member => started cursor (by simp [member])
        simp [Worker.resume, Worker.course?, Cursor.pausing, first, ih]
  have waiting (count : Nat) :
      (List.replicate count (Worker.seeking : Worker Call)).filterMap Worker.course? = [] := by
    simp [List.filterMap_eq_nil_iff, Worker.course?]
  simp only [startWorkers, courses, Operation.courses, List.filterMap_append, resumed _ started,
    waiting, List.map_nil, List.append_nil]

theorem courses_afterSingle (runner : Runner Env) (cursor : Cursor) (departure : Departure) :
    (afterSingle runner cursor departure : Process Call Env).courses =
      (cursor.keeps (.left departure : Turn Call)).toList ++ runner.control.paused.map Cursor.pausing := by
  cases departure with
  | paused => rfl
  | done | stopped =>
      simp only [afterSingle, reduceCtorEq, if_false, Cursor.keeps, Option.toList_none,
        List.nil_append]
      split
      · rfl
      · split
        · rfl
        · rw [courses_enterAfterEverything]

theorem suite_afterSingle (runner : Runner Env) (cursor : Cursor) (departure : Departure) :
    (afterSingle runner cursor departure : Process Call Env).suite = runner.suite := by
  unfold afterSingle
  split
  · rfl
  · split
    · rfl
    · split
      · rfl
      · rw [suite_enterAfterEverything]

theorem isStopped_afterSingle (runner : Runner Env) (cursor : Cursor) (departure : Departure) :
    (afterSingle runner cursor departure : Process Call Env).isStopped =
      runner.shared.world.isStopped := by
  unfold afterSingle
  split
  · rfl
  · split
    · rfl
    · split
      · rfl
      · rw [isStopped_enterAfterEverything]

theorem isStopped_join (runner : Runner Env) (paused : List Cursor) :
    (join runner paused : Process Call Env).isStopped = runner.shared.world.isStopped := by
  unfold join
  split
  · rw [isStopped_enterAfterEverything]
  · split
    · rw [isStopped_enterAfterEverything]
    · rfl

section Aside

variable {thread : Nat}

theorem walk?_of_isAside (aside : process.operation.isAside = true) :
    process.walk? thread = none := by
  obtain ⟨runner, operation⟩ := process
  cases operation with
  | working | single | injecting | finished => cases aside
  | beforeEverything | beforeHook | starting | afterEverything | afterHook | concluding => rfl

theorem claimed_of_isAside (aside : process.operation.isAside = true) :
    process.claimed (.turn thread) = none := by
  obtain ⟨runner, operation⟩ := process
  cases operation with
  | working | single | injecting | finished => cases aside
  | beforeEverything | beforeHook | starting | afterEverything | afterHook | concluding => rfl

theorem isFinished_of_isAside (aside : process.operation.isAside = true) :
    process.isFinished = false := by
  obtain ⟨runner, operation⟩ := process
  cases operation with
  | working | single | injecting | finished => cases aside
  | beforeEverything | beforeHook | starting | afterEverything | afterHook | concluding => rfl

theorem courses_of_isAside (aside : process.operation.isAside = true) :
    process.courses = process.runner.control.paused.map Cursor.pausing := by
  obtain ⟨runner, operation⟩ := process
  cases operation with
  | working | single | injecting | finished => cases aside
  | beforeEverything | beforeHook | starting | afterEverything | afterHook | concluding => rfl

/-- Nothing is steered as long as the process is outside a run and outside a walk. -/
theorem steers_of_isAside {after : Process Call Env} (aside : process.operation.isAside = true)
    (branches : after.suite.branches = process.suite.branches)
    (courses : after.courses = process.runner.control.paused.map Cursor.pausing) :
    Steers setting process (.turn thread) after := by
  refine .stayed ?_ (claimed_of_isAside aside) branches ?_
  · intro _ _
    exact walk?_of_isAside aside
  · rw [courses, courses_of_isAside aside]

theorem steers_concluding {ending : Ending} (last : process.operation = .concluding ending) :
    Steers setting process (.turn thread) (concludeWith process.runner ending) := by
  have aside : process.operation.isAside = true := by
    rw [last]
    rfl
  cases ending with
  | run | single => exact steers_of_isAside aside rfl rfl
  | stop =>
      refine .swept ?_ (claimed_of_isAside aside) rfl rfl rfl ?_
      · intro _ _
        exact walk?_of_isAside aside
      · rw [last]
        rfl

end Aside

/-- A thread that is not among the workers, or behind their end, neither walks nor claims. -/
theorem idle_of_rests {thread : Nat}
    (rests : process.isFinished = true ∨ ∃ workers paused,
      process.operation = .working workers paused ∧ workers[thread]? = none) :
    process.walk? thread = none ∧ process.claimed (.turn thread) = none := by
  rcases rests with finished | ⟨workers, paused, working, absent⟩
  · obtain ⟨answer, ended⟩ := operation_of_isFinished finished
    simp [walk?, claimed, ended]
  · simp [walk?, claimed, working, absent]

/-- What a turn does to branches and cursors, but for that of the last worker. -/
theorem turn_steers_or_joins {thread : Nat} {after : Process Call Env}
    (started : ∀ cursor ∈ process.runner.control.paused, cursor.isStarted = true)
    (turns : Turns setting process thread after) :
    Steers setting process (.turn thread) after ∨
      ∃ workers paused worker, process.operation = .working workers paused ∧
        workers[thread]? = some worker ∧
        (workers.set thread (worker.turn setting process.runner.shared).worker).all Worker.hasEnded =
          true ∧
        after = join (unjoined setting process thread workers paused worker).runner
          (paused ++ (worker.turn setting process.runner.shared).paused.toList) := by
  cases turns with
  | rested rests =>
      obtain ⟨still, unclaimed⟩ := idle_of_rests rests
      refine .inl (.stayed ?_ unclaimed rfl (.refl _))
      rintro _ ⟨⟩
      exact still
  | tended runner operation tended was aside =>
      have courses : (⟨runner, operation⟩ : Process Call Env).courses = _ := courses_of_isAside aside
      rw [tended.paused] at courses
      exact .inl (steers_of_isAside was tended.branches courses)
  | started starting =>
      have aside : process.operation.isAside = true := by
        rw [starting]
        rfl
      exact .inl (steers_of_isAside aside rfl (courses_startWorkers started))
  | worked workers paused worker working found =>
      obtain ⟨runner, operation⟩ := process
      obtain rfl := working
      exact .inl (steers_unjoined found)
  | joined workers paused worker working found ended =>
      exact .inr ⟨workers, paused, worker, working, found, ended, rfl⟩
  | concluded ending last => exact .inl (steers_concluding last)
  | walked purpose cursor activity later single keeps =>
      obtain ⟨runner, operation⟩ := process
      obtain rfl := single
      refine .inl (.walked purpose cursor activity (runner.control.paused.map Cursor.pausing) rfl
        (.refl _) rfl ?_)
      rcases keeps with turned | ⟨time, turned⟩
      · simp [turned, Cursor.keeps, courses, Operation.courses]
      · simp [turned, Cursor.keeps, courses, Operation.courses]
  | departed purpose cursor activity departure single left =>
      obtain ⟨runner, operation⟩ := process
      obtain rfl := single
      refine .inl (.walked purpose cursor activity (runner.control.paused.map Cursor.pausing) rfl
        (.refl _) ?_ ?_)
      · rw [suite_afterSingle]
        rfl
      · rw [left, courses_afterSingle]
  | delayed cursor step call later runner tended injecting =>
      obtain ⟨before, operation⟩ := process
      obtain rfl := injecting
      refine .inl (.stayed ?_ rfl tended.branches ?_)
      · intro _ _
        rfl
      · simp only [courses, Operation.courses, tended.paused]
        exact .refl _
  | injected cursor step call runner outcome tended injecting =>
      obtain ⟨before, operation⟩ := process
      obtain rfl := injecting
      refine .inl (.restaged cursor outcome.1 .looping (before.control.paused.map Cursor.pausing) ?_
        rfl (.refl _) tended.branches (.inl rfl) (.inr rfl) ?_)
      · intro _ _
        rfl
      · simp only [Runner.finishInjection, courses_finish, Runner.putBack, Runner.withControl,
          List.map_cons, tended.paused]
        exact .refl _

/-- A request changes no branch, but may take up the first paused cursor, or take it up and put it
back; to prepare once more forgets which branches passed last time. -/
theorem steers_request {runner : Runner Env} {answer : Answer} {request : Request}
    {after : Process Call Env} (launches : Launches setting runner request after) :
    Steers setting ⟨runner, .finished answer⟩ (.request request) after := by
  have still : ∀ thread, Action.request request = .turn thread →
      (⟨runner, .finished answer⟩ : Process Call Env).walk? thread = none := nofun
  cases launches with
  | refused => exact .stayed still rfl rfl (.refl _)
  | prepared =>
      by_cases keeps : setting.skipPassed = true
      · exact .stayed still rfl (by simp [Runner.init, keeps, suite, Runner.finish])
          (by simp [Runner.init, keeps, courses, Runner.finish, Operation.courses])
      · have keeps : setting.skipPassed = false := by simpa using keeps
        refine .prepared nofun keeps ?_ ?_
        · simp [Runner.init, keeps, suite, Runner.finish, Runner.withSuite, Runner.suite]
        · simp [Runner.init, keeps, courses, Runner.finish, Runner.withSuite, Operation.courses]
  | begun operation running opens =>
      refine .stayed still rfl rfl ?_
      rcases opens with rfl | rfl
      · exact .refl _
      · exact .refl _
  | single _ purpose cursor rest taken =>
      obtain ⟨_, others, held, rfl⟩ := takePaused_eq taken
      exact .restaged cursor cursor.scope .taking (others.map Cursor.pausing) still rfl
        (by simp [courses, Operation.courses, held]) rfl (.inr rfl) (.inl rfl) (.refl _)
  | injecting line cursor rest step call taken =>
      obtain ⟨_, others, held, rfl⟩ := takePaused_eq taken
      exact .restaged cursor cursor.scope .looping (others.map Cursor.pausing) still rfl
        (by simp [courses, Operation.courses, held]) rfl (.inl rfl) (.inl rfl) (.refl _)
  | injected line cursor rest step outcome taken =>
      have injects : (⟨runner, .finished answer⟩ : Process Call Env).injects
          (.request (.inject line)) = some cursor.branch := by
        simp [injects, isFinished, taken]
      obtain ⟨_, others, held, rfl⟩ := takePaused_eq taken
      exact .restaged cursor outcome.1 .looping (others.map Cursor.pausing) still rfl
        (by simp [courses, Operation.courses, held]) rfl (.inl rfl) (.inr injects) (.refl _)
  | stopped =>
      refine .stayed still rfl ?_ ?_
      · rw [suite_enterAfterEverything]
        rfl
      · rw [courses_enterAfterEverything]
        exact .refl _

/-- All that an action does to branches and cursors, but for the turn of the last worker. -/
theorem perform_steers_or_joins (setting : Setting Call Env)
    (started : ∀ cursor ∈ process.runner.control.paused, cursor.isStarted = true)
    (action : Action) :
    Steers setting process action (process.perform setting action) ∨
      ∃ thread workers paused worker, action = .turn thread ∧
        process.operation = .working workers paused ∧ workers[thread]? = some worker ∧
        (workers.set thread (worker.turn setting process.runner.shared).worker).all Worker.hasEnded =
          true ∧
        process.perform setting action =
          join (unjoined setting process thread workers paused worker).runner
            (paused ++ (worker.turn setting process.runner.shared).paused.toList) := by
  cases action with
  | turn thread =>
      refine (turn_steers_or_joins started (turn_turns setting process thread)).imp_right ?_
      rintro ⟨workers, paused, worker, joins⟩
      exact ⟨thread, workers, paused, worker, rfl, joins⟩
  | request request =>
      obtain ⟨runner, operation⟩ := process
      cases operation with
      | finished answer => exact .inl (steers_request (launch_launches setting runner request))
      | beforeEverything | beforeHook | starting | working | afterEverything | afterHook | concluding
      | single | injecting => exact .inl (.stayed nofun rfl rfl (.refl _))
  | raiseStop | wait => exact .inl (.stayed nofun rfl rfl (.refl _))

/-- All that an action does to branches and cursors. -/
theorem perform_steers (setting : Setting Call Env) (sound : process.Sound)
    (started : ∀ cursor ∈ process.runner.control.paused, cursor.isStarted = true)
    (action : Action) :
    ∃ between, Steers setting process action between ∧
      Settles between (process.perform setting action) := by
  obtain steers | ⟨thread, workers, paused, worker, rfl, working, found, ended, joins⟩ :=
    perform_steers_or_joins setting started action
  · exact ⟨_, steers, .refl _⟩
  · rw [joins]
    obtain ⟨runner, operation⟩ := process
    obtain rfl := working
    refine ⟨_, steers_unjoined found, ?_⟩
    exact settles_join _ _ _ (sound.calm workers paused rfl) (sound.phase_ne rfl nofun) ended

theorem perform_moves (setting : Setting Call Env) (sound : process.Sound)
    (started : ∀ cursor ∈ process.runner.control.paused, cursor.isStarted = true)
    (action : Action) :
    ∃ between, Moves setting process action between ∧
      Settles between (process.perform setting action) := by
  obtain ⟨between, steers, settles⟩ := perform_steers setting sound started action
  exact ⟨between, steers.moves, settles⟩

theorem sound_finish (runner : Runner Env) (answer : Answer) :
    (runner.finish answer : Process Call Env).Sound :=
  ⟨nofun, fun _ => .inl rfl⟩

theorem sound_enterAfterEverything {runner : Runner Env} {ending : Ending}
    (last : ending = .stop ∨ runner.control.phase ≠ .stopped) :
    (runner.enterAfterEverything ending : Process Call Env).Sound := by
  refine ⟨?_, ?_⟩
  · intro workers paused
    unfold Runner.enterAfterEverything
    split <;> nofun
  · rw [phase_enterAfterEverything]
    intro stopped
    rcases last with rfl | running
    · right
      unfold Runner.enterAfterEverything
      split <;> rfl
    · exact absurd stopped running

theorem sound_of_phase {after : Process Call Env}
    (idle : ∀ workers paused, after.operation ≠ .working workers paused)
    (running : after.runner.control.phase ≠ .stopped) : after.Sound :=
  ⟨fun workers paused same => absurd same (idle workers paused), fun stopped => absurd stopped running⟩

theorem sound_join {runner : Runner Env} (running : runner.control.phase ≠ .stopped)
    (paused : List Cursor) : (join runner paused : Process Call Env).Sound := by
  unfold join
  split
  · exact sound_enterAfterEverything (.inr running)
  · split
    · exact sound_enterAfterEverything (.inr running)
    · exact sound_finish _ _

theorem sound_afterSingle {runner : Runner Env} (running : runner.control.phase ≠ .stopped)
    (cursor : Cursor) (departure : Departure) :
    (afterSingle runner cursor departure : Process Call Env).Sound := by
  unfold afterSingle
  split
  · exact sound_finish _ _
  · split
    · exact sound_finish _ _
    · split
      · exact sound_finish _ _
      · exact sound_enterAfterEverything (.inr running)

theorem sound_turn {thread : Nat} {after : Process Call Env} (sound : process.Sound)
    (turns : Turns setting process thread after) : after.Sound := by
  cases turns with
  | rested => exact sound
  | tended runner operation tended was aside ending =>
      refine ⟨fun workers paused same => ?_, fun stopped => ?_⟩
      · cases same
        cases aside
      · rw [tended.phase] at stopped
        rcases sound.final stopped with finished | stopping
        · rw [isFinished_of_isAside was] at finished
          cases finished
        · exact .inr (ending.mpr stopping)
  | started starting =>
      have running := sound.phase_ne (by simp [isFinished, starting]) (by rw [starting]; exact nofun)
      exact ⟨fun _ _ _ => rfl, fun stopped => absurd stopped running⟩
  | worked workers paused worker working =>
      have running := sound.phase_ne (by simp [isFinished, working]) (by rw [working]; exact nofun)
      exact ⟨fun _ _ _ => sound.calm workers paused working, fun stopped => absurd stopped running⟩
  | joined workers paused worker working =>
      apply sound_join
      exact sound.phase_ne (by simp [isFinished, working]) (by rw [working]; exact nofun)
  | concluded ending => cases ending <;> exact sound_finish _ _
  | walked purpose cursor activity later single =>
      refine sound_of_phase nofun ?_
      exact sound.phase_ne (by simp [isFinished, single]) (by rw [single]; exact nofun)
  | departed purpose cursor activity departure single =>
      apply sound_afterSingle
      exact sound.phase_ne (by simp [isFinished, single]) (by rw [single]; exact nofun)
  | delayed cursor step call later runner tended injecting =>
      refine sound_of_phase nofun ?_
      rw [tended.phase]
      exact sound.phase_ne (by simp [isFinished, injecting]) (by rw [injecting]; exact nofun)
  | injected => exact sound_finish _ _

theorem sound_launch {runner : Runner Env} {request : Request} {after : Process Call Env}
    (launches : Launches setting runner request after) : after.Sound := by
  have resumed {rest : Runner Env} {cursor : Cursor} {operation : Operation Call}
      (taken : runner.takePaused = some (cursor, rest))
      (idle : ∀ workers paused, operation ≠ .working workers paused) :
      (⟨rest, operation⟩ : Process Call Env).Sound := by
    obtain ⟨phase, _, _, rfl⟩ := takePaused_eq taken
    exact sound_of_phase idle (by simp [Runner.withControl, phase])
  cases launches with
  | refused | prepared | injected => exact sound_finish _ _
  | begun operation running opens =>
      refine sound_of_phase ?_ nofun
      rcases opens with rfl | rfl <;> exact nofun
  | single _ purpose cursor rest taken => exact resumed taken nofun
  | injecting line cursor rest step call taken => exact resumed taken nofun
  | stopped => exact sound_enterAfterEverything (.inl rfl)

theorem sound_perform (sound : process.Sound) (action : Action) :
    (process.perform setting action).Sound := by
  cases action with
  | turn thread => exact sound_turn sound (turn_turns setting process thread)
  | request request =>
      simp only [perform]
      split
      · exact sound_launch (launch_launches setting process.runner request)
      · exact sound
  | raiseStop => exact ⟨sound.calm, sound.final⟩
  | wait milliseconds => exact ⟨sound.calm, sound.final⟩

theorem stopped_turn {thread : Nat} {after : Process Call Env} (sound : process.Sound)
    (stopped : process.runner.control.phase = .stopped) (turns : Turns setting process thread after) :
    after.runner.control.phase = .stopped := by
  have final := sound.final stopped
  cases turns with
  | rested => exact stopped
  | tended runner operation tended => exact tended.phase.trans stopped
  | concluded ending last =>
      have ends : ending = .stop := by simpa [isFinished, last, Operation.ending?] using final
      rw [ends]
      rfl
  | started busy | worked _ _ _ busy | joined _ _ _ busy | walked _ _ _ _ busy
  | departed _ _ _ _ busy | delayed _ _ _ _ _ _ busy | injected _ _ _ _ _ _ busy =>
      simp [isFinished, busy, Operation.ending?] at final

theorem stopped_launch {runner : Runner Env} {request : Request} {after : Process Call Env}
    (stopped : runner.control.phase = .stopped) (launches : Launches setting runner request after) :
    after.runner.control.phase = .stopped := by
  have absent {taken : Cursor × Runner Env} (some : runner.takePaused = some taken) : False := by
    obtain ⟨phase, -⟩ := takePaused_eq some
    rw [stopped] at phase
    cases phase
  cases launches with
  | refused => exact stopped
  | prepared =>
      simp only [Runner.init]
      split <;> exact stopped
  | begun operation running => exact absurd stopped running
  | single _ purpose cursor rest taken => exact (absent taken).elim
  | injecting line cursor rest step call taken => exact (absent taken).elim
  | injected line cursor rest step outcome taken => exact (absent taken).elim
  | stopped =>
      rw [phase_enterAfterEverything]
      exact stopped

theorem stopped_perform (sound : process.Sound) (stopped : process.runner.control.phase = .stopped)
    (action : Action) : (process.perform setting action).runner.control.phase = .stopped := by
  cases action with
  | turn thread => exact stopped_turn sound stopped (turn_turns setting process thread)
  | request request =>
      simp only [perform]
      split
      · exact stopped_launch stopped (launch_launches setting process.runner request)
      · exact stopped
  | raiseStop | wait => exact stopped

end Process

end TestTree.Run
