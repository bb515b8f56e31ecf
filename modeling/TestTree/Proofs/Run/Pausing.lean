import TestTree.Branch.Selection
import TestTree.Proofs.Branch.Expands
import TestTree.Proofs.Run.Once
import TestTree.Run.Script

namespace TestTree

/-- A branch with a step to debug is the only one. -/
def Suite.Lone (suite : Suite) : Prop :=
  (∃ branch ∈ suite.branches, branch.hasDebugStep = true) → suite.branches.length = 1

namespace Selection

theorem debugs_assignIds (known : List NodeId) (branches : List Branch) :
    (assignIds known branches).map Branch.hasDebugStep = branches.map Branch.hasDebugStep := by
  induction branches generalizing known with
  | nil => rfl
  | cons branch rest ih =>
      simp only [assignIds]
      split
      · simp only [List.map_cons, ih]
      · simp only [List.map_cons, ih]
        rfl

theorem lone_isolateDebug (branches : List Branch) :
    Suite.Lone { branches := isolateDebug branches } := by
  rintro ⟨branch, member, debugs⟩
  unfold isolateDebug at member ⊢
  split
  · rfl
  · next absent =>
    rw [absent] at member
    exact absurd debugs (List.find?_eq_none.mp absent branch member)

end Selection

/-- Every suite that is made from a tree has at most one branch if it has one to debug. -/
theorem Suite.lone_of_generate {tree : Tree} {options : BranchOptions} {suite : Suite}
    (generated : tree.generate options = .ok suite) : suite.Lone := by
  simp only [Tree.generate] at generated
  cases selected : Selection.select tree Tree.rootId options with
  | error error => simp [selected, bind, Except.bind] at generated
  | ok branches =>
      simp only [selected, bind, Except.bind, pure, Except.pure, Except.ok.injEq] at generated
      subst generated
      have lone : Suite.Lone { branches := branches } := by
        simp only [Selection.select, bind, Except.bind] at selected
        split at selected
        · cases selected
        · split at selected
          · cases selected
          · cases selected
            exact Selection.lone_isolateDebug _
      have same := Selection.debugs_assignIds [] (Selection.sortByFrequency branches)
      have sorted : (Selection.sortByFrequency branches).Perm branches := List.mergeSort_perm _ _
      rintro ⟨branch, member, debugs⟩
      have inside := List.mem_map_of_mem (f := Branch.hasDebugStep) member
      rw [same, debugs] at inside
      obtain ⟨first, present, debug⟩ := List.mem_map.mp inside
      have single := lone ⟨first, sorted.mem_iff.mp present, debug⟩
      have length := congrArg List.length same
      simp only [List.length_map, sorted.length_eq] at length
      exact length.trans single

/-- Whether a branch to debug is alone is a matter of what there is to do, and of how many branches. -/
theorem Suite.Lone.of_branches {suite other : Suite} (lone : suite.Lone)
    (source : ∀ {index : Nat} {branch : Branch}, other.branch? index = some branch →
      ∃ before, suite.branch? index = some before ∧ branch.plan = before.plan) : other.Lone := by
  rintro ⟨branch, member, debugs⟩
  obtain ⟨index, found⟩ := List.getElem?_of_mem member
  obtain ⟨before, present, plan⟩ := source found
  have single : suite.branches.length = 1 := by
    refine lone ⟨before, List.mem_of_getElem? present, ?_⟩
    rw [← Branch.hasDebugStep_of_plan plan]
    exact debugs
  have inside := (List.getElem?_eq_some_iff.mp found).1
  by_contra more
  obtain ⟨_, second, _⟩ := source (List.getElem?_eq_getElem (i := 1) (by omega))
  have beyond := (List.getElem?_eq_some_iff.mp second).1
  omega

namespace Run

variable {Call Env : Type}

/-- The branch and the step in front of which a run leaves a cursor paused. -/
def Process.pausedAt (setting : Setting Call Env) (process : Process Call Env) :
    Action → Option (Nat × Nat)
  | .turn thread =>
      match process.operation with
      | .working workers _ =>
          match workers[thread]? with
          | some (.walking cursor activity) =>
              let move := cursor.turn setting .run process.runner.shared activity
              match move.turn with
              | .left .paused => move.cursor.pending.map fun step => (cursor.branch, step)
              | _ => none
          | _ => none
      | _ => none
  | _ => none

/-- A stage that a walk to the end of a branch may come to. -/
def Stage.IsStraight : Stage → Prop
  | .skipping _ | .lookingAhead => False
  | _ => True

section

variable {setting : Setting Call Env} {purpose : Purpose} {cursor next : Cursor}
  {shared after : Shared Env} {stage : Stage} {arrival : Arrival}

theorem Walk.straight (walk : Walk setting .run cursor shared stage after next arrival)
    (straight : stage.IsStraight) {reached : Stage} (arrives : arrival = .at reached) :
    reached.IsStraight := by
  cases walk with
  | skipped | facing | atEnd => cases straight
  | passedOver _ _ _ skips => cases skips
  | marked => cases arrives; exact straight
  | recorded _ _ _ goes => rcases goes with rfl | rfl <;> cases arrives; exact straight
  | halted | interrupted | paused | left => cases arrives
  | opened | unguarded | entering | admitted | refused | turnedAway | continued | exhausted | taken
  | preparing | begun | unbegun | sleeping | ended | trailing | leaving | tarnished =>
      cases arrives
      trivial

/-- Only the decision to pause asks all cursors to pause. -/
theorem Walk.requests (walk : Walk setting purpose cursor shared stage after next arrival)
    (requested : after.pauseRequested = true) :
    shared.pauseRequested = true ∨ arrival = .away .paused ∧ stage = .taking := by
  cases walk with
  | paused => exact .inr ⟨rfl, rfl⟩
  | opened | unguarded | entering | admitted | refused | turnedAway | halted | interrupted | continued
  | exhausted | taken | passedOver | skipped | preparing | begun | unbegun | sleeping | ended
  | trailing | marked | facing | atEnd | leaving | tarnished | left | recorded => exact .inl requested

/-- A cursor is to pause in front of the next step only behind a failure in a branch to debug. -/
theorem Walk.prompts (walk : Walk setting purpose cursor shared stage after next arrival)
    (prompted : next.pauseBeforeNext = true) :
    cursor.pauseBeforeNext = true ∨ (shared.branch cursor.branch).hasDebugStep = true := by
  cases walk with
  | paused | facing => cases prompted
  | marked =>
      simp only [Bool.or_eq_true, Bool.and_eq_true] at prompted
      exact prompted.imp_right (·.2)
  | opened | unguarded | entering | admitted | refused | turnedAway | halted | interrupted | continued
  | exhausted | taken | passedOver | skipped | preparing | begun | unbegun | sleeping | ended
  | trailing | atEnd | leaving | tarnished | left | recorded => exact .inl prompted

/-- A walk to the end of a branch leaves its cursor paused as it is asked to, or as it decides to. -/
theorem Walk.rests (walk : Walk setting purpose cursor shared stage after next arrival)
    (straight : stage.IsStraight) (rests : arrival = .away .paused) :
    shared.pauseRequested = true ∨ stage = .taking := by
  cases walk with
  | interrupted _ requested => exact .inl requested
  | paused => exact .inr rfl
  | facing => cases straight
  | recorded _ _ _ goes => rcases goes with rfl | rfl <;> cases rests
  | opened | unguarded | entering | admitted | refused | turnedAway | halted | continued | exhausted
  | taken | passedOver | skipped | preparing | begun | unbegun | sleeping | ended | trailing | marked
  | atEnd | leaving | tarnished | left => cases rests

theorem Cursor.hasDebugStep_of_pausesAt {branch : Branch} {step : Nat}
    (pauses : cursor.pausesAt branch step = true) :
    cursor.pauseBeforeNext = true ∨ branch.hasDebugStep = true := by
  simp only [pausesAt, Bool.or_eq_true, Bool.and_eq_true] at pauses
  rcases pauses with prompted | ⟨debugs, _⟩
  · exact .inl prompted
  · obtain ⟨found, present, debug⟩ := (Option.any_eq_true _ _).mp debugs
    exact .inr (List.any_eq_true.mpr ⟨found, List.mem_of_getElem? present, debug⟩)

end

namespace Process

variable {setting : Setting Call Env} {process : Process Call Env}

/-- A cursor that is to pause in front of the next step has a branch to debug. -/
def Prompted (process : Process Call Env) : Prop :=
  ∀ walker ∈ process.walkers, walker.1.pauseBeforeNext = true → ∀ branch,
    process.suite.branch? walker.1.branch = some branch → branch.hasDebugStep = true

theorem InOrder.prompted_moves {between : Process Call Env} {action : Action} (order : process.InOrder)
    (prompted : process.Prompted) (moves : Moves setting process action between) :
    between.Prompted := by
  intro walker member prompts after found
  obtain ⟨before, present, evolves⟩ := order.evolves moves found
  rw [Branch.hasDebugStep_of_plan evolves.plan]
  have kept : walker ∈ process.walkers → before.hasDebugStep = true :=
    fun held => prompted walker held prompts before present
  cases moves with
  | walked purpose cursor activity rest walking held suite holds =>
      rcases List.mem_append.mp (holds.mem_iff.mp member) with own | other
      · have remains := Cursor.of_remains (Option.mem_toList.mp own)
        obtain ⟨_, _, _, _, treads⟩ := (order.orderly.perm rfl held.symm).treads setting purpose
        rw [remains] at prompts present
        rw [treads.own] at present
        rcases (Cursor.turn_walks setting purpose cursor process.runner.shared activity).prompts
          prompts with earlier | debugs
        · exact prompted _ (held.mem_iff.mpr List.mem_cons_self) earlier before present
        · have same : process.runner.shared.branch cursor.branch = before := by
            unfold Shared.branch
            rw [show process.runner.shared.suite.branch? cursor.branch = some before from present]
            rfl
          rw [same] at debugs
          exact debugs
      · exact kept (held.mem_iff.mpr (List.mem_cons_of_mem _ other))
  | claimed index claims still suite holds =>
      rcases List.mem_cons.mp (holds.mem_iff.mp member) with rfl | other
      · cases prompts
      · exact kept other
  | restaged cursor scope stage rest still unclaimed held branches taken holds =>
      rcases List.mem_cons.mp (holds.mem_iff.mp member) with rfl | other
      · exact prompted cursor.resting (held.mem_iff.mpr List.mem_cons_self) prompts before present
      · exact kept (held.mem_iff.mpr (List.mem_cons_of_mem _ other))
  | stayed still unclaimed branches holds => exact kept (holds.mem_iff.mp member)
  | prepared still fresh branches holds => exact kept (holds.mem_iff.mp member)
  | swept still unclaimed branches dropped =>
      rw [dropped] at member
      cases member

theorem InOrder.prompted_perform (order : process.InOrder) (prompted : process.Prompted)
    (action : Action) : (process.perform setting action).Prompted := by
  obtain ⟨between, moves, settles⟩ := perform_moves setting order.sound order.started action
  have between := order.prompted_moves prompted moves
  intro walker member prompts branch found
  rw [Suite.branch?_congr settles.branches] at found
  rcases settles.walkers with kept | ⟨_, dropped⟩
  · exact between walker (kept.mem_iff.mp member) prompts branch found
  · rw [dropped] at member
    cases member

/-- While workers are at work, a pause is asked for only by the last cursor to walk. -/
structure Quiet (process : Process Call Env) : Prop where
  straight : ∀ workers paused, process.operation = .working workers paused →
    ∀ cursor activity, .walking cursor activity ∈ workers → activity.stage.IsStraight
  alone : ∀ workers paused, process.operation = .working workers paused →
    process.runner.shared.pauseRequested = true →
    (∀ cursor activity, .walking cursor activity ∉ workers) ∧
    ∀ index branch, process.suite.branch? index = some branch → branch.isIdle = false

theorem idle_enterAfterEverything (runner : Runner Env) (ending : Ending) {workers : List (Worker Call)}
    {paused : List Cursor} :
    (runner.enterAfterEverything ending : Process Call Env).operation ≠ .working workers paused := by
  unfold Runner.enterAfterEverything
  split <;> nofun

theorem idle_join (runner : Runner Env) (held : List Cursor) {workers : List (Worker Call)}
    {paused : List Cursor} : (join runner held).operation ≠ .working workers paused := by
  unfold join
  split
  · exact idle_enterAfterEverything _ _
  · split
    · exact idle_enterAfterEverything _ _
    · exact nofun

/-- The worker that a thread is. -/
def worker? (process : Process Call Env) (thread : Nat) : Option (Worker Call) :=
  match process.operation with
  | .working workers _ => workers[thread]?
  | _ => none

theorem worker?_eq_some {thread : Nat} {worker : Worker Call} :
    process.worker? thread = some worker ↔ ∃ workers paused,
      process.operation = .working workers paused ∧ workers[thread]? = some worker := by
  constructor
  · intro found
    simp only [worker?] at found
    split at found
    · next workers paused working => exact ⟨workers, paused, working, found⟩
    · cases found
  · rintro ⟨workers, paused, working, found⟩
    rw [worker?, working]
    exact found

/-- How workers come to be at work: they were before, or just start, or one of them has its turn. -/
theorem working_turn {thread : Nat} {after : Process Call Env} {workers : List (Worker Call)}
    {paused : List Cursor} (turns : Turns setting process thread after)
    (working : after.operation = .working workers paused) :
    after = process ∧ process.worker? thread = none ∨
    process.operation = .starting ∧ after = startWorkers setting process.runner ∨
    ∃ others held worker, process.operation = .working others held ∧ others[thread]? = some worker ∧
      (others.set thread
        (worker.turn setting process.runner.shared).worker).all Worker.hasEnded = false ∧
      after = unjoined setting process thread others held worker := by
  cases turns with
  | rested rests =>
      refine .inl ⟨rfl, ?_⟩
      rcases rests with finished | ⟨others, held, at_, absent⟩
      · rw [isFinished, working] at finished
        cases finished
      · rw [worker?, at_]
        exact absent
  | started starting => exact .inr (.inl ⟨starting, rfl⟩)
  | worked others held worker at_ found live =>
      exact .inr (.inr ⟨others, held, worker, at_, found, live, rfl⟩)
  | tended runner operation tended was aside =>
      cases working
      cases aside
  | joined => exact absurd working (idle_join _ _)
  | concluded ending => cases ending <;> cases working
  | departed =>
      unfold afterSingle at working
      split at working
      · cases working
      · split at working
        · cases working
        · split at working
          · cases working
          · exact absurd working (idle_enterAfterEverything _ _)
  | walked | delayed | injected => cases working

theorem idle_launch {runner : Runner Env} {request : Request} {after : Process Call Env}
    (launches : Launches setting runner request after) {workers : List (Worker Call)}
    {paused : List Cursor} : after.operation ≠ .working workers paused := by
  cases launches with
  | begun operation running opens => rcases opens with rfl | rfl <;> exact nofun
  | stopped => exact idle_enterAfterEverything _ _
  | refused | prepared | single | injecting | injected => exact nofun

theorem working_perform {action : Action} {workers : List (Worker Call)} {paused : List Cursor}
    (working : (process.perform setting action).operation = .working workers paused) :
    (process.operation = .working workers paused ∧
      (process.perform setting action).runner.shared.suite = process.runner.shared.suite ∧
      (process.perform setting action).runner.shared.pauseRequested =
        process.runner.shared.pauseRequested ∧
      ∀ thread, action = .turn thread → process.worker? thread = none) ∨
    process.operation = .starting ∧
      process.perform setting action = startWorkers setting process.runner ∨
    ∃ others held thread worker, action = .turn thread ∧ process.operation = .working others held ∧
      others[thread]? = some worker ∧
      (others.set thread
        (worker.turn setting process.runner.shared).worker).all Worker.hasEnded = false ∧
      process.perform setting action = unjoined setting process thread others held worker := by
  cases action with
  | raiseStop | wait => 
      refine .inl ⟨working, rfl, rfl, ?_⟩
      rintro _ ⟨⟩
  | request request =>
      simp only [perform] at working ⊢
      split
      · next finished =>
        rw [if_pos finished] at working
        exact absurd working (idle_launch (launch_launches setting process.runner request))
      · next busy =>
        rw [if_neg busy] at working
        refine .inl ⟨working, rfl, rfl, ?_⟩
        rintro _ ⟨⟩
  | turn thread =>
      obtain ⟨same, rests⟩ | starts | ⟨others, held, worker, at_, found, live, turned⟩ :=
        working_turn (turn_turns setting process thread) working
      · have same : process.perform setting (.turn thread) = process := same
        rw [same] at working ⊢
        refine .inl ⟨working, rfl, rfl, ?_⟩
        rintro _ ⟨⟩
        exact rests
      · exact .inr (.inl starts)
      · exact .inr (.inr ⟨others, held, thread, worker, rfl, at_, found, live, turned⟩)

theorem isStraight_unjoined {runner : Runner Env} {workers : List (Worker Call)}
    {thread : Nat} {worker : Worker Call} (found : workers[thread]? = some worker)
    (straight : ∀ cursor activity, .walking cursor activity ∈ workers → activity.stage.IsStraight)
    {cursor : Cursor} {activity : Activity Call}
    (member : .walking cursor activity ∈
      workers.set thread (worker.turn setting runner.shared).worker) :
    activity.stage.IsStraight := by
  rcases List.mem_or_eq_of_mem_set member with old | new
  · exact straight cursor activity old
  · cases worker with
    | walking last doing =>
        have walk := Cursor.turn_walks setting .run last runner.shared doing
        have before := straight last doing (List.mem_of_getElem? found)
        simp only [Worker.turn] at new
        split at new
        · next turned =>
          cases new
          exact walk.straight before (by rw [turned]; rfl)
        · next turned =>
          cases new
          exact walk.straight before (by rw [turned]; rfl)
        · cases new
        · cases new
        · cases new
    | seeking =>
        simp only [Worker.turn] at new
        split at new <;> cases new
    | claiming =>
        simp only [Worker.turn] at new
        split at new
        · cases new
          trivial
        · split at new <;> cases new
    | ended => cases new

/-- Where there is a single branch, nobody walks as long as a cursor has been set aside. -/
theorem unwalked_of_single {suite : Suite} {runner : Runner Env} {workers : List (Worker Call)}
    {paused : List Cursor} {held : Cursor}
    (orderly : Orderly suite (⟨runner, .working workers paused⟩ : Process Call Env).walkers)
    (single : suite.branches.length = 1) (rests : held ∈ paused) (cursor : Cursor)
    (activity : Activity Call) : .walking cursor activity ∉ workers := by
  intro walks
  have walking : (cursor, activity.stage) ∈ workers.filterMap Worker.walker? :=
    List.mem_filterMap.mpr ⟨_, walks, rfl⟩
  have resting : held.resting ∈ paused.map Cursor.resting := List.mem_map_of_mem rests
  obtain ⟨_, there, _⟩ := orderly.stands _ (List.mem_append_left _ (List.mem_append_left _ walking))
  obtain ⟨_, here, _⟩ := orderly.stands _ (List.mem_append_left _ (List.mem_append_right _ resting))
  have first : cursor.branch < suite.branches.length := (List.getElem?_eq_some_iff.mp there).1
  have second : held.branch < suite.branches.length := (List.getElem?_eq_some_iff.mp here).1
  have distinct := orderly.distinct
  simp only [walkers, Operation.walkers, List.map_append, List.append_assoc] at distinct
  have apart : cursor.branch ≠ held.branch :=
    (List.nodup_append.mp distinct).2.2 _ (List.mem_map_of_mem walking) _
      (List.mem_append_left _ (List.mem_map_of_mem resting))
  omega

/-- A run decides to pause on a branch with a debug step only, and that is the only branch. -/
theorem single_of_decides {runner : Runner Env} {cursor next : Cursor} {after : Shared Env}
    {before branch : Branch} {stage : Stage}
    (walk : Walk setting .run cursor runner.shared stage after next (.away .paused))
    (taking : stage = .taking) (lone : runner.suite.Lone)
    (present : runner.shared.suite.branch? cursor.branch = some before)
    (treads : Treads cursor runner.shared.suite before after.suite next (.away .paused) branch)
    (prompts : cursor.pauseBeforeNext = true → before.hasDebugStep = true) :
    runner.shared.suite.branches.length = 1 := by
  have debugs : before.hasDebugStep = true := by
    obtain ⟨step, _, _, pauses⟩ := walk.decides taking rfl
    rw [treads.found] at pauses
    rcases Cursor.hasDebugStep_of_pausesAt pauses with prompt | debugs
    · exact prompts prompt
    · rw [← Branch.hasDebugStep_of_plan treads.follows.plan]
      exact debugs
  exact lone ⟨before, List.mem_of_getElem? present, debugs⟩

/-- Behind the decision to pause nobody else walks along a branch, and no branch waits. -/
theorem InOrder.alone_decided {runner : Runner Env} {workers : List (Worker Call)}
    {paused : List Cursor} {thread : Nat} {cursor : Cursor} {activity : Activity Call}
    (order : (⟨runner, .working workers paused⟩ : Process Call Env).InOrder)
    (prompted : (⟨runner, .working workers paused⟩ : Process Call Env).Prompted)
    (lone : runner.suite.Lone) (found : workers[thread]? = some (.walking cursor activity))
    (arrives : (cursor.turn setting .run runner.shared activity).turn.arrival = .away .paused)
    (taking : activity.stage = .taking) :
    (∀ other doing, .walking other doing ∉ workers.set thread
      ((Worker.walking cursor activity).turn setting runner.shared).worker) ∧
    ∀ index branch, (cursor.turn setting .run runner.shared activity).shared.suite.branch? index =
      some branch → branch.isIdle = false := by
  have moves : Moves setting ⟨runner, .working workers paused⟩ (.turn thread) _ :=
    (steers_unjoined found).moves
  have after := order.orderly_moves moves
  obtain ⟨others, courses, _⟩ := courses_unjoined setting runner paused found
  have held := courses.map Course.walker
  rw [← walkers_eq] at held
  obtain ⟨before, branch, present, stands, treads⟩ :=
    (order.orderly.perm rfl held.symm).treads setting .run
  dsimp only at present treads
  have walk := Cursor.turn_walks setting .run cursor runner.shared activity
  dsimp only at walk
  rw [arrives] at walk treads
  have single : runner.shared.suite.branches.length = 1 :=
    single_of_decides walk taking lone present treads fun prompts =>
      prompted _ (held.mem_iff.mpr List.mem_cons_self) prompts before present
  have left : (cursor.turn setting .run runner.shared activity).turn = .left .paused := by
    cases turned : (cursor.turn setting .run runner.shared activity).turn with
    | onward | asleep => rw [turned] at arrives; cases arrives
    | left departure => rw [turned] at arrives; cases arrives; rfl
  have turned : (Worker.walking cursor activity).turn setting runner.shared =
      { shared := (cursor.turn setting .run runner.shared activity).shared
        worker := .ended
        paused := some (cursor.turn setting .run runner.shared activity).cursor } := by
    simp only [Worker.turn, left]
  simp only [unjoined, turned] at after
  rw [turned]
  generalize cursor.turn setting .run runner.shared activity = move at *
  have same : move.shared.suite.branches.length = 1 := treads.others.length.trans single
  refine ⟨unwalked_of_single after same (List.mem_append_right _ List.mem_cons_self), ?_⟩
  intro index other located
  have inside : index < move.shared.suite.branches.length := (List.getElem?_eq_some_iff.mp located).1
  have own : cursor.branch < move.shared.suite.branches.length :=
    (List.getElem?_eq_some_iff.mp treads.found).1
  obtain rfl : index = cursor.branch := by omega
  obtain rfl : branch = other := Option.some.inj (treads.found.symm.trans located)
  exact treads.follows.busy

theorem InOrder.alone_unjoined {runner : Runner Env} {workers : List (Worker Call)}
    {paused : List Cursor} {thread : Nat} {worker : Worker Call}
    (order : (⟨runner, .working workers paused⟩ : Process Call Env).InOrder)
    (prompted : (⟨runner, .working workers paused⟩ : Process Call Env).Prompted)
    (lone : runner.suite.Lone) (quiet : (⟨runner, .working workers paused⟩ : Process Call Env).Quiet)
    (found : workers[thread]? = some worker)
    (requested : (worker.turn setting runner.shared).shared.pauseRequested = true) :
    (∀ cursor activity, .walking cursor activity ∉
      workers.set thread (worker.turn setting runner.shared).worker) ∧
    ∀ index branch, (worker.turn setting runner.shared).shared.suite.branch? index = some branch →
      branch.isIdle = false := by
  cases before : runner.shared.pauseRequested with
  | true =>
      obtain ⟨unwalked, busy⟩ := quiet.alone workers paused rfl before
      have stays : (∀ cursor activity,
          (worker.turn setting runner.shared).worker ≠ .walking cursor activity) ∧
          (worker.turn setting runner.shared).shared = runner.shared := by
        cases worker with
        | walking cursor activity => exact absurd (List.mem_of_getElem? found) (unwalked _ _)
        | seeking => simp [Worker.turn, before]
        | claiming =>
            cases next : runner.shared.suite.claimNext with
            | none =>
                simp only [Worker.turn, next]
                split <;> simp
            | some claim =>
                obtain ⟨index, chosen, _⟩ := Option.map_eq_some_iff.mp next
                obtain ⟨branch, present, waiting, _⟩ := Suite.nextBranch_eq_some chosen
                simp [Branch.isWaiting, busy index branch present] at waiting
        | ended => exact ⟨by simp [Worker.turn], rfl⟩
      refine ⟨?_, ?_⟩
      · intro cursor activity member
        rcases List.mem_or_eq_of_mem_set member with old | new
        · exact unwalked cursor activity old
        · exact stays.1 cursor activity new.symm
      · rw [stays.2]
        exact busy
  | false =>
      cases worker with
      | walking cursor activity =>
          have walk := Cursor.turn_walks setting .run cursor runner.shared activity
          rw [Worker.shared_turn_walking] at requested ⊢
          obtain ⟨arrives, taking⟩ := (walk.requests requested).resolve_left (by simp [before])
          exact order.alone_decided prompted lone found arrives taking
      | seeking =>
          simp only [Worker.turn] at requested
          split at requested <;> simp [before] at requested
      | claiming =>
          simp only [Worker.turn] at requested
          split at requested
          · simp [before] at requested
          · split at requested <;> simp [before] at requested
      | ended => simp [Worker.turn, before] at requested

/-- A run goes along branches, whatever else happens. -/
theorem straight_perform {action : Action}
    (straight : ∀ workers paused, process.operation = .working workers paused →
      ∀ cursor activity, .walking cursor activity ∈ workers → activity.stage.IsStraight)
    {workers : List (Worker Call)} {paused : List Cursor}
    (working : (process.perform setting action).operation = .working workers paused) {cursor : Cursor}
    {activity : Activity Call} (member : .walking cursor activity ∈ workers) :
    activity.stage.IsStraight := by
  rcases working_perform working with
    ⟨same, _⟩ | ⟨-, starts⟩ | ⟨others, held, thread, worker, _, at_, found, -, turned⟩
  · exact straight workers paused same cursor activity member
  · rw [starts] at working
    cases working
    rcases List.mem_append.mp member with resumed | waiting
    · obtain ⟨resting, _, same⟩ := List.mem_map.mp resumed
      unfold Worker.resume at same
      split at same <;> cases same <;> trivial
    · cases List.eq_of_mem_replicate waiting
  · rw [turned] at working
    cases working
    exact isStraight_unjoined found (straight others held at_) member

theorem InOrder.quiet_perform (order : process.InOrder) (prompted : process.Prompted)
    (lone : process.suite.Lone) (quiet : process.Quiet) (action : Action) :
    (process.perform setting action).Quiet := by
  refine ⟨?_, ?_⟩
  · intro workers paused working cursor activity member
    exact straight_perform quiet.straight working member
  · intro workers paused working requested
    rcases working_perform working with ⟨same, suite, request, -⟩ | ⟨-, starts⟩ |
      ⟨others, held, thread, worker, _, at_, found, -, turned⟩
    · rw [request] at requested
      obtain ⟨unwalked, busy⟩ := quiet.alone workers paused same requested
      refine ⟨unwalked, fun index branch located => busy index branch ?_⟩
      simp only [Process.suite, Runner.suite, suite] at located
      exact located
    · rw [starts] at requested
      cases requested
    · obtain ⟨runner, operation⟩ := process
      subst at_
      rw [turned] at working requested ⊢
      cases working
      exact order.alone_unjoined prompted lone quiet found requested

/-- A run leaves a cursor paused only where it decides to pause. -/
theorem Quiet.pausedBefore_of_pausedAt (quiet : process.Quiet) {action : Action} {place : Nat × Nat}
    (paused : process.pausedAt setting action = some place) :
    process.pausedBefore setting action = some place := by
  obtain ⟨runner, operation⟩ := process
  cases action with
  | request | raiseStop | wait => cases paused
  | turn thread =>
      cases operation with
      | working workers held =>
          simp only [pausedAt] at paused
          split at paused
          · next cursor activity found =>
            have member := List.mem_of_getElem? found
            have walk := Cursor.turn_walks setting .run cursor runner.shared activity
            have straight := quiet.straight workers held rfl cursor activity member
            cases left : (cursor.turn setting .run runner.shared activity).turn with
            | onward | asleep => simp [left] at paused
            | left departure =>
                cases departure with
                | done | stopped => simp [left] at paused
                | paused =>
                    have arrives : (cursor.turn setting .run runner.shared activity).turn.arrival =
                        .away .paused := by
                      rw [left]
                      rfl
                    rcases walk.rests straight arrives with requested | taking
                    · exact absurd member ((quiet.alone workers held rfl requested).1 cursor activity)
                    · cases activity with
                      | taking =>
                          simp only [pausedBefore, walk?, found]
                          exact paused
                      | opening | beforeBranch | beforeBranchFailed | looping | skipping | preparing
                      | beforeStep | body | afterStep | marking | lookingAhead | closing
                      | afterBranch | afterBranchFailed => cases taking
          · cases paused
      | beforeEverything | beforeHook | starting | afterEverything | afterHook | concluding | single
      | injecting | finished => cases paused

theorem quiet_after (setting : Setting Call Env) (runner : Runner Env) (lone : runner.suite.Lone)
    (schedule : List Action) :
    ((runner.ready setting).after setting schedule).Prompted ∧
      ((runner.ready setting).after setting schedule).Quiet := by
  induction schedule using List.reverseRecOn with
  | nil =>
      refine ⟨?_, nofun, nofun⟩
      intro walker member
      rw [after_nil, walkers_ready] at member
      cases member
  | append_singleton schedule action ih =>
      have order := inOrder_after setting runner schedule
      have lone := lone.of_branches fun found => plan_after setting runner schedule found
      rw [after_concat]
      exact ⟨order.prompted_perform ih.1 action, order.quiet_perform ih.1 lone ih.2 action⟩

theorem pausedAt_sublist (setting : Setting Call Env) (runner : Runner Env) (lone : runner.suite.Lone)
    (schedule : List Action) :
    ((runner.ready setting).history setting (pausedAt setting) schedule).Sublist
      ((runner.ready setting).history setting (pausedBefore setting) schedule) := by
  induction schedule using List.reverseRecOn with
  | nil => exact .refl _
  | append_singleton schedule action ih =>
      rw [history_concat, history_concat]
      refine ih.append ?_
      cases paused : ((runner.ready setting).after setting schedule).pausedAt setting action with
      | none => exact List.nil_sublist _
      | some place =>
          have quiet := (quiet_after setting runner lone schedule).2
          rw [quiet.pausedBefore_of_pausedAt paused]

/-- How steps are run, whatever is asked of the runner, and whoever has a turn. A run pauses at most once in front of
each step if what there is to do is what a tree says. -/
structure Disciplined (setting : Setting Call Env) (runner : Runner Env) (schedule : List Action) :
    Prop where
  proper : ((runner.ready setting).log setting schedule).Proper
  settled : ∀ index branch,
    ((runner.ready setting).after setting schedule).suite.branch? index = some branch →
      ∃ front, branch.Settled front
  pauses : ∀ (tree : Tree) options suite, tree.generate options = .ok suite → runner.suite.plans = suite.plans →
    ((runner.ready setting).history setting (pausedAt setting) schedule).Nodup

theorem disciplined (setting : Setting Call Env) (runner : Runner Env) (schedule : List Action) :
    Disciplined setting runner schedule := by
  have tracked := Tracked.after setting runner schedule
  refine ⟨tracked.proper, tracked.order.orderly.settled, fun tree options suite generated planned => ?_⟩
  have lone := (Suite.lone_of_generate generated).of_branches fun found => Suite.plan_of_plans planned found
  exact tracked.proper.once.sublist (pausedAt_sublist setting runner lone schedule)

/-- A step with two steps to debug below each other. -/
def landing : Tree :=
  .grown ("A \x7b\n    a\n\x7d\n    B ~ \x7b\n        b\n    \x7d\n" ++
    "        C ~ \x7b\n            c\n        \x7d")

/-- Two runs, each up to a step to debug; the second of these steps is skipped. -/
def climb : List Action :=
  let turns (count : Nat) : List Action := List.replicate count (.turn 0)
  .request .run :: turns 20 ++ .request .run :: turns 20 ++ .request .skip :: turns 20

theorem disciplined_landing :
    let setting := { executor := scripts, tree := landing, maxParallel := 1 }
    let runner := Runner.initial landing.suite []
    landing.generate {} = .ok landing.suite ∧
      (runner.ready setting).history setting (pausedAt setting) climb = [(0, 1), (0, 2)] ∧
      ((runner.ready setting).log setting climb).roles = [.step 0 0, .step 0 1] ∧
      ((runner.ready setting).log setting climb).skips = [(0, 2)] ∧
      ((runner.ready setting).log setting climb).Proper ∧
      ((runner.ready setting).history setting (pausedAt setting) climb).Nodup := by
  intro setting runner
  have generated : landing.generate {} = .ok landing.suite :=
    Tree.generate_eq_suite (by decide +kernel) (by decide +kernel)
  have discipline := disciplined setting runner climb
  exact ⟨generated, by decide +kernel, by decide +kernel, by decide +kernel, discipline.proper,
    discipline.pauses landing {} landing.suite generated rfl⟩

end Process

end Run

end TestTree
