import TestTree.Proofs.Branch.Expands
import TestTree.Proofs.Run.Log
import TestTree.Proofs.Run.Safety

namespace TestTree

/-- Neither active nor waiting to be. -/
structure Branch.Retired (branch : Branch) : Prop where
  inactive : branch.isActive = false
  settled : branch.isWaiting = false

namespace Branch

variable {branch : Branch}

theorem retired_of_completed (completed : branch.status.isCompleted = true) : branch.Retired :=
  ⟨by simp [isActive, completed], by simp [isWaiting, isIdle, completed]⟩

theorem Retired.completed (retired : branch.Retired) (busy : branch.isIdle = false) :
    branch.status.isCompleted = true := by
  refine (isIdle_eq_false.mp busy).resolve_left ?_
  simp [retired.inactive]

end Branch

namespace Run

variable {Call Env : Type} {setting : Setting Call Env}

/-- Whether a body runs behind the end of its branch. -/
def Role.isClosing : Role → Bool
  | .afterBranch _ _ => true
  | _ => false

namespace Process

variable {process between : Process Call Env} {action : Action} {thread : Nat} {role : Role}
  {index first second : Nat}

/-- Whenever a body is run for the second branch, those of the first that count are over, and none of
them is to come. -/
def Ahead (setting : Setting Call Env) (process : Process Call Env) (counts : Role → Bool)
    (first second : Nat) (schedule : List Action) : Prop :=
  ∀ earlier action later role, schedule = earlier ++ action :: later →
    (process.after setting earlier).handed setting action = some role →
    role.branch? = some second →
    ∀ other, other.branch? = some first → counts other = true →
      (∀ thread, (process.after setting earlier).role? thread ≠ some other) ∧
        other ∉ (process.after setting earlier).history setting (handed setting) (action :: later)

theorem InOrder.retired_moves (order : process.InOrder) (moves : Moves setting process action between)
    (fresh : setting.skipPassed = false → ∀ index branch,
      process.suite.branch? index = some branch → branch.passedLastTime = false)
    {before after : Branch} (found : process.suite.branch? index = some before)
    (present : between.suite.branch? index = some after) (retired : before.Retired) :
    after.Retired := by
  cases moves with
  | walked purpose cursor activity others walking held suite holds =>
      obtain ⟨own, left, there, stands, treads⟩ :=
        (order.orderly.perm rfl held.symm).treads setting purpose
      rw [suite] at present
      by_cases same : index = cursor.branch
      · subst same
        obtain rfl := Option.some.inj (there.symm.trans found)
        obtain rfl := Option.some.inj (treads.found.symm.trans present)
        exact Branch.retired_of_completed (treads.follows.ends (retired.completed stands.busy))
      · rcases treads.others.others index same with kept | ⟨idle, line, -, -, skipped⟩
        · obtain rfl := Option.some.inj (found.symm.trans (kept.symm.trans present))
          exact retired
        · obtain rfl := Option.some.inj (skipped.symm.trans present)
          exact Branch.retired_of_completed (by simp [Suite.skip, Status.isCompleted])
  | claimed claim claims still suite holds =>
      rw [suite] at present
      by_cases same : index = claim
      · subst same
        obtain ⟨chosen, located, waiting, -⟩ := Suite.nextBranch_eq_some (claimed_eq_some claims).1
        obtain rfl := Option.some.inj (located.symm.trans found)
        simp [retired.settled] at waiting
      · rw [Suite.branch?_modify_of_ne same] at present
        obtain rfl := Option.some.inj (found.symm.trans present)
        exact retired
  | restaged cursor scope stage others still unclaimed held branches taken holds =>
      rw [Suite.branch?_congr branches] at present
      obtain rfl := Option.some.inj (found.symm.trans present)
      exact retired
  | stayed still unclaimed branches holds =>
      rw [Suite.branch?_congr branches] at present
      obtain rfl := Option.some.inj (found.symm.trans present)
      exact retired
  | prepared still keeps branches holds =>
      rw [Suite.branch?_map branches, found] at present
      obtain rfl := Option.some.inj present
      have unknown := fresh keeps index before found
      have settled := retired.settled
      rw [Branch.isWaiting, unknown] at settled
      exact ⟨retired.inactive, settled⟩
  | swept still unclaimed branches dropped stopped stopping =>
      rw [Suite.branch?_map branches, found] at present
      obtain rfl := Option.some.inj present
      dsimp only
      split
      · exact retired
      · next unfinished =>
        have unfinished : before.status.isCompleted = false := by simpa using unfinished
        have halted : before.status.isRunning = false := by
          simpa [Branch.isActive, unfinished] using retired.inactive
        have same : ({ before.status with isRunning := false } : Status) = before.status := by
          rw [← halted]
        rw [same]
        exact retired

/-- If branches that have passed are not to be skipped, none is known to have. -/
theorem known_after (setting : Setting Call Env) (runner : Runner Env) (schedule : List Action)
    (keeps : setting.skipPassed = false) {branch : Branch}
    (found : ((runner.ready setting).after setting schedule).suite.branch? index = some branch) :
    branch.passedLastTime = false := by
  induction schedule using List.reverseRecOn generalizing branch with
  | nil =>
      obtain ⟨before, known, -, rfl, fresh⟩ := branch?_ready found
      exact fresh keeps
  | append_singleton schedule action ih =>
      have order := inOrder_after setting runner schedule
      obtain ⟨between, moves, settles⟩ := perform_moves setting order.sound order.started action
      rw [after_concat, Suite.branch?_congr settles.branches] at found
      obtain ⟨before, present, evolves⟩ := order.evolves moves found
      rcases evolves.known with same | ⟨-, unknown⟩
      · exact same.trans (ih present)
      · exact unknown

theorem claimed_of_owned (setting : Setting Call Env) (runner : Runner Env) (schedule : List Action)
    (owned : index ∈ ((runner.ready setting).after setting schedule).owned) :
    index ∈ (runner.ready setting).history setting claimed schedule := by
  induction schedule using List.reverseRecOn with
  | nil =>
      rw [after_nil, Process.owned, walkers_ready] at owned
      cases owned
  | append_singleton schedule action ih =>
      have order := inOrder_after setting runner schedule
      obtain ⟨between, moves, settles⟩ := perform_moves setting order.sound order.started action
      rw [after_concat] at owned
      rw [history_concat, List.mem_append]
      have owned : index ∈ between.owned := by
        rcases settles.walkers with kept | ⟨-, dropped⟩
        · exact (owned_perm kept).mem_iff.mp owned
        · rw [Process.owned, dropped] at owned
          cases owned
      obtain ⟨walker, among, owns⟩ := mem_owned.mp owned
      cases moves with
      | walked purpose cursor activity others walking held suite holds =>
          refine .inl (ih (mem_owned.mpr ?_))
          rcases List.mem_append.mp (holds.mem_iff.mp among) with left | aside
          · obtain ⟨_, _, _, _, treads⟩ :=
              (order.orderly.perm rfl held.symm).treads setting purpose
            have same := Cursor.of_remains (Option.mem_toList.mp left)
            refine ⟨_, held.mem_iff.mpr (.head _), ?_⟩
            rw [← owns, same]
            exact treads.own.symm
          · exact ⟨walker, held.mem_iff.mpr (.tail _ aside), owns⟩
      | claimed claim claims still suite holds =>
          rcases List.mem_cons.mp (holds.mem_iff.mp among) with rfl | aside
          · exact .inr (Option.mem_toList.mpr (claims.trans (congrArg some owns)))
          · exact .inl (ih (mem_owned.mpr ⟨walker, aside, owns⟩))
      | restaged cursor scope stage others still unclaimed held branches taken holds =>
          refine .inl (ih (mem_owned.mpr ?_))
          rcases List.mem_cons.mp (holds.mem_iff.mp among) with rfl | aside
          · exact ⟨_, held.mem_iff.mpr (.head _), owns⟩
          · exact ⟨walker, held.mem_iff.mpr (.tail _ aside), owns⟩
      | stayed still unclaimed branches holds | prepared still fresh branches holds =>
          exact .inl (ih (mem_owned.mpr ⟨walker, holds.mem_iff.mp among, owns⟩))
      | swept still unclaimed branches dropped stopped stopping =>
          rw [dropped] at among
          cases among

/-- Of two branches with one id, the earlier has retired by the time at which the later is claimed. -/
theorem retired_of_claimed (setting : Setting Call Env) (runner : Runner Env) (schedule : List Action)
    {branch fellow now : Branch} {id : Text} (less : first < second)
    (found : runner.suite.branch? first = some branch)
    (present : runner.suite.branch? second = some fellow)
    (own : branch.nonParallelId = some id) (shared : fellow.nonParallelId = some id)
    (claims : second ∈ (runner.ready setting).history setting claimed schedule)
    (here : ((runner.ready setting).after setting schedule).suite.branch? first = some now) :
    now.Retired := by
  induction schedule using List.reverseRecOn generalizing now with
  | nil => cases claims
  | append_singleton schedule action ih =>
      have order := inOrder_after setting runner schedule
      obtain ⟨between, moves, settles⟩ := perform_moves setting order.sound order.started action
      rw [after_concat, Suite.branch?_congr settles.branches] at here
      obtain ⟨before, located, -⟩ := order.evolves moves here
      have fresh (keeps : setting.skipPassed = false) (index : Nat) (branch : Branch)
          (found : ((runner.ready setting).after setting schedule).suite.branch? index =
            some branch) : branch.passedLastTime = false :=
        known_after setting runner schedule keeps found
      refine order.retired_moves moves fresh located here ?_
      rw [history_concat, List.mem_append] at claims
      rcases claims with old | new
      · exact ih old located
      · have claims := Option.mem_toList.mp new
        have sameId {index : Nat} {planned branch : Branch}
            (found : runner.suite.branch? index = some planned)
            (present : ((runner.ready setting).after setting schedule).suite.branch? index =
              some branch) : branch.nonParallelId = planned.nonParallelId := by
          obtain ⟨first, isFirst, plan⟩ := plan_after setting runner schedule present
          obtain rfl := Option.some.inj (found.symm.trans isFirst)
          exact Branch.nonParallelId_of_plan plan
        obtain ⟨chosen, there, -, free, -⟩ := Suite.nextBranch_eq_some (claimed_eq_some claims).1
        have ownId := (sameId found located).trans own
        have sharedId := (sameId present there).trans shared
        refine ⟨?_, not_isWaiting_of_claimed claims less located there ownId sharedId⟩
        have idle := free id sharedId
        rw [Suite.mem_busyIds] at idle
        by_contra active
        exact idle ⟨first, before, located, by simpa using active, ownId⟩

theorem walk_of_role? (runs : process.role? thread = some role) (own : role.branch? = some index) :
    ∃ purpose cursor activity, process.walk? thread = some (purpose, cursor, activity) ∧
      activity.role? cursor.branch = some role := by
  unfold role? at runs
  split at runs
  · cases runs
    cases own
  · cases runs
    cases own
  · cases runs
    cases own
  · obtain ⟨⟨purpose, cursor, activity⟩, walking, runs⟩ := Option.bind_eq_some_iff.mp runs
    exact ⟨purpose, cursor, activity, walking, runs⟩

theorem mem_walkers_of_walk {purpose : Purpose} {cursor : Cursor} {activity : Activity Call}
    (walking : process.walk? thread = some (purpose, cursor, activity)) :
    (cursor, activity.stage) ∈ process.walkers := by
  unfold walk? at walking
  unfold walkers
  split at walking
  · next workers paused operation =>
    split at walking
    · next found =>
      cases walking
      rw [operation]
      refine List.mem_append_left _ (List.mem_append_left _ ?_)
      exact List.mem_filterMap.mpr ⟨_, List.mem_of_getElem? found, rfl⟩
    · cases walking
  · next operation =>
    cases walking
    rw [operation]
    exact List.mem_append_left _ (.head _)
  · cases walking

/-- A body belongs to the branch of its cursor, and runs before the end of that branch unless it is one
of the hooks after it. -/
theorem branch_of_role {cursor : Cursor} {activity : Activity Call}
    (runs : activity.role? cursor.branch = some role) (own : role.branch? = some index) :
    cursor.branch = index ∧ (role.isClosing = false → ∀ branch,
      activity.stage.Stands cursor branch → branch.isActive = true) := by
  cases activity with
  | beforeBranch =>
      cases runs
      exact ⟨Option.some.inj own, fun _ branch stands => stands.2.1⟩
  | beforeStep | body | afterStep =>
      cases runs
      exact ⟨Option.some.inj own, fun _ branch stands => stands.2.active⟩
  | afterBranch =>
      cases runs
      exact ⟨Option.some.inj own, nofun⟩
  | opening | beforeBranchFailed | looping | taking | skipping | preparing | marking | lookingAhead
  | closing | afterBranchFailed => cases runs

theorem InOrder.active_of_role? (order : process.InOrder) (runs : process.role? thread = some role)
    (own : role.branch? = some index) (opens : role.isClosing = false) :
    ∃ branch, process.suite.branch? index = some branch ∧ branch.isActive = true := by
  obtain ⟨purpose, cursor, activity, walking, runs⟩ := walk_of_role? runs own
  obtain ⟨branch, found, stands⟩ := order.orderly.stands _ (mem_walkers_of_walk walking)
  obtain ⟨rfl, active⟩ := branch_of_role runs own
  exact ⟨branch, found, active opens branch stands⟩

theorem exists_role?_of_handed (hands : process.handed setting action = some role) :
    ∃ thread, (process.perform setting action).role? thread = some role := by
  cases action with
  | turn thread => exact ⟨thread, role?_of_handed hands⟩
  | request request =>
      simp only [handed] at hands
      split at hands
      · next finished => exact ⟨0, by rw [perform, if_pos finished]; exact hands⟩
      · cases hands
  | raiseStop | wait => cases hands

theorem InOrder.owned_of_handed (order : process.InOrder)
    (hands : process.handed setting action = some role) (own : role.branch? = some index) :
    index ∈ process.owned := by
  cases action with
  | turn thread =>
      cases walking : process.walk? thread with
      | none =>
          have aside := aside_of_still (fun other same => by cases same; exact walking) hands
          rw [aside] at own
          cases own
      | some walk =>
          obtain ⟨purpose, cursor, activity⟩ := walk
          have among := mem_walkers_of_walk walking
          obtain ⟨next, -, runs⟩ := handed_of_walk walking hands
          obtain ⟨branch, found, stands⟩ := order.orderly.stands _ among
          obtain ⟨after, treads⟩ := (Cursor.turn_walks setting purpose cursor process.runner.shared
            activity).treads found stands (order.orderly.settled _ branch found)
          rw [treads.own] at runs
          exact mem_owned.mpr ⟨_, among, (branch_of_role runs own).1⟩
  | request | raiseStop | wait =>
      have aside := aside_of_still (fun other same => by cases same) hands
      rw [aside] at own
      cases own

theorem exists_of_mem_history {α : Type} {observe : Process Call Env → Action → Option α} {note : α}
    {schedule : List Action} (noted : note ∈ process.history setting observe schedule) :
    ∃ earlier action later, schedule = earlier ++ action :: later ∧
      observe (process.after setting earlier) action = some note := by
  induction schedule generalizing process with
  | nil => cases noted
  | cons action rest ih =>
      rcases List.mem_append.mp noted with now | later
      · exact ⟨[], action, rest, rfl, Option.mem_toList.mp now⟩
      · obtain ⟨earlier, next, behind, rfl, observed⟩ := ih later
        exact ⟨action :: earlier, next, behind, rfl, observed⟩

/-- Branches with one id do not overlap, but for the hooks after them: by the time at which a body is run
for the later one, all other bodies of the earlier one are over. -/
theorem ahead_after (setting : Setting Call Env) (runner : Runner Env) (schedule : List Action)
    {branch fellow : Branch} {id : Text} (less : first < second)
    (found : runner.suite.branch? first = some branch)
    (present : runner.suite.branch? second = some fellow)
    (own : branch.nonParallelId = some id) (shared : fellow.nonParallelId = some id) :
    (runner.ready setting).Ahead setting (fun role => !role.isClosing) first second schedule := by
  intro earlier action later role _ hands ofSecond other ofFirst counts
  have opens : other.isClosing = false := by simpa using counts
  have claims := claimed_of_owned setting runner earlier
    ((inOrder_after setting runner earlier).owned_of_handed hands ofSecond)
  have quiet (further : List Action) (thread : Nat) :
      ((runner.ready setting).after setting (earlier ++ further)).role? thread ≠ some other := by
    intro runs
    obtain ⟨now, here, active⟩ :=
      (inOrder_after setting runner _).active_of_role? runs ofFirst opens
    have kept : second ∈ (runner.ready setting).history setting claimed (earlier ++ further) := by
      rw [history_append]
      exact List.mem_append_left _ claims
    have retired := retired_of_claimed setting runner _ less found present own shared kept here
    simp [retired.inactive] at active
  refine ⟨fun thread => by simpa using quiet [] thread, fun handed => ?_⟩
  obtain ⟨before, next, behind, -, observed⟩ := exists_of_mem_history handed
  rw [← after_append] at observed
  obtain ⟨thread, runs⟩ := exists_role?_of_handed observed
  rw [← after_concat, List.append_assoc] at runs
  exact quiet _ thread runs

/-- Bodies that sleep once if there is a letter z in their code. -/
def drowsy : Executor (Bool × Variables) Unit where
  start body scope := (body.code.contains 'z', scope)
  advance call world :=
    if call.1 then (.waiting 1 (false, call.2), world) else (.done (.ok none) call.2, world)

/-- Two branches through one non-parallel step, and a hook after them that takes its time. -/
def lingering : Tree :=
  .grown "* After Every Branch \x7b\n    z\n\x7d\n\nA + \x7b\n    a\n\x7d\n    B -\n    C -"

def lingeringSetting : Setting (Bool × Variables) Unit :=
  { executor := drowsy, tree := lingering, maxParallel := 2 }

/-- One worker runs the first branch up to the sleep of the hook after it, and then the other one begins
the second branch. -/
def overtaking : List Action :=
  .request .run :: List.replicate 18 (.turn 0) ++ List.replicate 6 (.turn 1)

theorem ahead_after_overtaking :
    ∃ branch fellow id, lingering.suite.branch? 0 = some branch ∧
      lingering.suite.branch? 1 = some fellow ∧ branch.nonParallelId = some id ∧
      fellow.nonParallelId = some id ∧
      ((Runner.initial lingering.suite ()).ready lingeringSetting).Ahead lingeringSetting
        (fun role => !role.isClosing) 0 1 overtaking := by
  have alike : ((lingering.suite.branch? 0).any fun branch =>
      (lingering.suite.branch? 1).any fun fellow => branch.nonParallelId.any fun id =>
        fellow.nonParallelId == some id) = true := by
    decide +kernel
  obtain ⟨branch, found, alike⟩ := (Option.any_eq_true _ _).mp alike
  obtain ⟨fellow, present, alike⟩ := (Option.any_eq_true _ _).mp alike
  obtain ⟨id, own, alike⟩ := (Option.any_eq_true _ _).mp alike
  have shared : fellow.nonParallelId = some id := eq_of_beq alike
  exact ⟨branch, fellow, id, found, present, own, shared,
    ahead_after lingeringSetting (.initial lingering.suite ()) overtaking (by decide) found present
      own shared⟩

/-- The hooks after a branch may overlap with another branch that has the same id. -/
theorem not_ahead_overtaking :
    let process := (Runner.initial lingering.suite ()).ready lingeringSetting
    lingering.generate {} = .ok lingering.suite ∧
      (∃ id, (lingering.suite.branch? 0).bind (·.nonParallelId) = some id ∧
        (lingering.suite.branch? 1).bind (·.nonParallelId) = some id) ∧
      ¬ process.Ahead lingeringSetting (fun _ => true) 0 1 overtaking ∧
      ¬ process.Ahead lingeringSetting (fun _ => true) 1 0 overtaking := by
  intro process
  have ids : ((lingering.suite.branch? 0).bind (·.nonParallelId)).any (fun id =>
      (lingering.suite.branch? 1).bind (·.nonParallelId) == some id) = true := by
    decide +kernel
  obtain ⟨id, own, shared⟩ := (Option.any_eq_true _ _).mp ids
  refine ⟨Tree.generate_eq_suite (by decide +kernel) (by decide +kernel),
    ⟨id, own, eq_of_beq shared⟩, fun ahead => ?_, fun ahead => ?_⟩
  · have hands : (process.after lingeringSetting (overtaking.take 24)).handed lingeringSetting
        (.turn 1) = some (.step 1 0) := by
      decide +kernel
    have sleeps : (process.after lingeringSetting (overtaking.take 24)).role? 0 =
        some (.afterBranch 0 0) := by
      decide +kernel
    exact (ahead (overtaking.take 24) (.turn 1) [] _ rfl hands rfl (.afterBranch 0 0) rfl rfl).1 0
      sleeps
  · have hands : (process.after lingeringSetting (overtaking.take 8)).handed lingeringSetting
        (.turn 0) = some (.step 0 0) := by
      decide +kernel
    have comes : Role.step 1 0 ∈ (process.after lingeringSetting (overtaking.take 8)).history
        lingeringSetting (handed lingeringSetting) (overtaking.drop 8) := by
      decide +kernel
    exact (ahead (overtaking.take 8) (.turn 0) (overtaking.drop 9) _ rfl hands rfl (.step 1 0) rfl
      rfl).2 comes

end Process

end Run

end TestTree
