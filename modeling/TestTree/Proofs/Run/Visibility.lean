import TestTree.Proofs.Run.Finale
import TestTree.Proofs.Run.Handover
import TestTree.Proofs.Run.Locals

/-!
What a body can see. Along every run the frames of a cursor hold only what the steps that were begun put there, as
`Accounts` says. With bodies that leave variables alone, a step is therefore given its own parameters, and
locals of calls that no step begun since has left. A call that was left counts as active for as long as the
steps behind its body are skipped, or stopped by a hook, because only a step that is begun drops frames.
-/
namespace TestTree.Run

variable {Call Env : Type}

/-- A cursor whose variables are accounted for by the steps of its branch that were begun. -/
structure Course.Accounted (scopeOf : Call → Variables) (begun : Nat → Prop) (branch : Branch)
    (course : Course Call) : Prop where
  carries : Carries scopeOf course.1.scope course.2
  accounts : Accounts branch.plan.steps begun course.1.scope
  reached : branch.status.isCompleted = true ∨ ∃ front, branch.Settled front ∧
    ∀ step, begun step → step < front + course.2.stage.begun
  inside : ∀ step, course.2.stage = .within step → begun step

namespace Course.Accounted

variable {setting : Setting Call Env} {scopeOf : Call → Variables} {begun : Nat → Prop}
  {branch after : Branch} {course next : Course Call} {cursor : Cursor} {activity : Activity Call}
  {shared : Shared Env} {purpose : Purpose} {step : Nat}

theorem of_same {others : Nat → Prop} (accounted : course.Accounted scopeOf begun branch)
    (same : ∀ step, others step ↔ begun step) (plan : after.plan = branch.plan)
    (status : after.status = branch.status) (steps : after.steps = branch.steps) :
    course.Accounted scopeOf others after := by
  obtain rfl : others = begun := funext fun step => propext (same step)
  refine ⟨accounted.carries, plan ▸ accounted.accounts, ?_, accounted.inside⟩
  rcases accounted.reached with completed | ⟨front, settled, below⟩
  · exact .inl (by rw [status]; exact completed)
  · exact .inr ⟨front, settled.of_steps steps, below⟩

/-- All that was begun stands in front of the step that a cursor is at, or is that step. -/
theorem below (accounted : course.Accounted scopeOf begun branch) (at_ : course.1.At branch step) :
    ∀ earlier, begun earlier → earlier < step + course.2.stage.begun := by
  rcases accounted.reached with completed | ⟨front, settled, below⟩
  · simp [(Branch.isActive_iff.mp at_.active).2] at completed
  · obtain rfl := settled.unique at_.faces.settled
    exact below

/-- What a turn makes of the variables is accounted for, together with the step that it begins. -/
theorem alters {now : Option Nat} {scope : Variables}
    (accounted : Course.Accounted scopeOf begun branch (cursor, activity))
    (stands : activity.stage.Stands cursor branch)
    (alters : Alters branch.steps activity.stage cursor.scope now scope) :
    Accounts branch.plan.steps (fun other => begun other ∨ now = some other) scope := by
  have planned {index : Nat} {step : BranchStep} (found : branch.steps[index]? = some step) :
      branch.plan.steps[index]? = some step.reset := by
    rw [branch.steps_plan, found]
    rfl
  have prepared {index : Nat} {step : BranchStep} (before : activity.stage = .before index)
      (found : branch.steps[index]? = some step) :
      Accounts branch.plan.steps (fun other => begun other ∨ some index = some other)
        (step.prepare cursor.scope).1 := by
    rw [before] at stands
    have below := accounted.below stands.2
    rw [before] at below
    refine (accounted.accounts.prepare (planned found) below).congr fun other => ?_
    rw [Option.some.injEq, @eq_comm _ index]
  cases alters with
  | kept => exact accounted.accounts.congr fun other => by simp
  | absent index before missing =>
      rw [before] at stands
      exact absurd (List.getElem?_eq_none_iff.mp missing) (Nat.not_le_of_lt stands.2.faces.inside)
  | begun index step before found => exact prepared before found
  | passed index step value before found =>
      rw [← BranchStep.assign_reset]
      refine (prepared before found).assign (planned found) (.inr rfl) ?_ value
      rw [before] at stands
      have below := accounted.below stands.2
      rw [before] at below
      rintro other (earlier | same)
      · exact Nat.le_of_lt (below other earlier)
      · exact Nat.le_of_eq (Option.some.inj same).symm
  | ended index step value within found =>
      rw [within] at stands
      have below := accounted.below stands.2
      rw [within] at below
      rw [← BranchStep.assign_reset]
      refine (accounted.accounts.assign (planned found) (accounted.inside index within) ?_ value).congr
        fun other => by simp
      exact fun other earlier => Nat.le_of_lt_succ (below other earlier)

/-- A turn of a walk keeps account of the variables. -/
theorem turn (keeps : setting.executor.KeepsVariables scopeOf) (purpose : Purpose)
    (accounted : Course.Accounted scopeOf begun branch (cursor, activity))
    (found : shared.suite.branch? cursor.branch = some branch) (stands : activity.stage.Stands cursor branch)
    (treads : Treads cursor shared.suite branch (cursor.turn setting purpose shared activity).shared.suite
      (cursor.turn setting purpose shared activity).cursor
      (cursor.turn setting purpose shared activity).turn.arrival after)
    (remains : (cursor.turn setting purpose shared activity).cursor.keeps
      (cursor.turn setting purpose shared activity).turn = some next) :
    next.Accounted scopeOf
      (fun step => begun step ∨ cursor.begins setting shared activity = some step) after := by
  have conveys := Cursor.turn_conveys keeps purpose shared accounted.carries
  have same := Cursor.eq_of_keeps remains
  have here : shared.branch cursor.branch = branch := by rw [Shared.branch, found, Option.getD_some]
  have walk := Cursor.turn_walks setting purpose cursor shared activity
  have left := Cursor.remains_eq (cursor.turn setting purpose shared activity).cursor
    (cursor.turn setting purpose shared activity).turn
  rw [remains, Option.map_some] at left
  refine ⟨conveys.carries next remains, ?_, ?_, ?_⟩
  · rw [same, treads.follows.plan]
    exact accounted.alters stands (here ▸ conveys.alters)
  · rcases accounted.reached with completed | ⟨front, settled, below⟩
    · exact .inl (treads.follows.ends completed)
    · refine (walk.gains found stands treads settled left).imp_right ?_
      rintro ⟨front', reached, gains⟩
      refine ⟨front', reached, ?_⟩
      rintro step (earlier | now)
      · exact Nat.lt_of_lt_of_le (below step earlier) gains.begun
      · obtain ⟨stage, goes, begins⟩ := conveys.begins step now
        have alters := conveys.alters
        rw [now] at alters
        rw [alters.stands] at stands
        obtain rfl := settled.unique stands.2.faces.settled
        rw [goes, Cursor.remains] at left
        have comes := congrArg Prod.snd (Option.some.inj left)
        have one : next.2.stage.begun = 1 := (congrArg Stage.begun comes).symm.trans begins
        have forward := gains.forward
        omega
  · intro step within
    have arrives : (cursor.turn setting purpose shared activity).turn.arrival = .at (.within step) := by
      cases goes : (cursor.turn setting purpose shared activity).turn.arrival with
      | «at» stage =>
          rw [goes, Cursor.remains] at left
          have comes := congrArg Prod.snd (Option.some.inj left)
          exact congrArg Arrival.at (comes.trans within)
      | away departure =>
          rw [goes] at left
          cases departure with
          | paused => cases (congrArg Prod.snd (Option.some.inj left)).trans within
          | done | stopped => cases left
    exact (conveys.enters step arrives).imp_left (accounted.inside step)

end Course.Accounted

namespace Process

variable {setting : Setting Call Env} {scopeOf : Call → Variables} {process between : Process Call Env}
  {action : Action} {thread : Nat} {purpose : Purpose} {cursor : Cursor} {activity : Activity Call}

/-- The branch and the step that an action begins. -/
def begins (setting : Setting Call Env) (process : Process Call Env) : Action → Option (Nat × Nat)
  | .turn thread =>
      match process.walk? thread with
      | some (_, cursor, activity) =>
          (cursor.begins setting process.runner.shared activity).map fun step => (cursor.branch, step)
      | none => none
  | _ => none

theorem begins_of_walk (walking : process.walk? thread = some (purpose, cursor, activity)) :
    process.begins setting (.turn thread) =
      (cursor.begins setting process.runner.shared activity).map fun step => (cursor.branch, step) := by
  rw [begins, walking]

theorem begins_of_still (still : ∀ thread, action = .turn thread → process.walk? thread = none) :
    process.begins setting action = none := by
  cases action with
  | turn thread => rw [begins, still thread rfl]
  | request | raiseStop | wait => rfl

section Uninjected

theorem injects_enterAfterEverything (runner : Runner Env) (ending : Ending) :
    (runner.enterAfterEverything ending : Process Call Env).injects (.turn thread) = none := by
  unfold Runner.enterAfterEverything
  split <;> rfl

theorem injects_turn (setting : Setting Call Env) (process : Process Call Env) (thread other : Nat) :
    (process.perform setting (.turn other)).injects (.turn thread) = none ∨
      (process.perform setting (.turn other)).injects (.turn thread) = process.injects (.turn thread) := by
  have turns := turn_turns setting process other
  rw [perform]
  generalize (process.turn setting other).1 = after at turns
  cases turns with
  | rested => exact .inr rfl
  | tended runner operation tended was aside =>
      cases operation with
      | injecting => cases aside
      | beforeEverything | beforeHook | starting | working | afterEverything | afterHook | concluding
      | single | finished => exact .inl rfl
  | started | worked | walked | injected => exact .inl rfl
  | joined =>
      left
      unfold join
      split
      · exact injects_enterAfterEverything _ _
      · split
        · exact injects_enterAfterEverything _ _
        · rfl
  | concluded ending => cases ending <;> exact .inl rfl
  | departed =>
      left
      unfold afterSingle
      split
      · rfl
      · split
        · rfl
        · split
          · rfl
          · exact injects_enterAfterEverything _ _
  | delayed cursor step call later runner tended injecting =>
      right
      rw [injects, injects, injecting]

/-- What is injected was injected before, or is injected by this action. -/
theorem injects_perform (setting : Setting Call Env) (process : Process Call Env) (action : Action)
    (thread : Nat) :
    (process.perform setting action).injects (.turn thread) = none ∨
      (process.perform setting action).injects (.turn thread) = process.injects (.turn thread) ∨
      (process.perform setting action).injects (.turn thread) = process.injects action := by
  cases action with
  | turn other => exact (injects_turn setting process thread other).imp_right .inl
  | raiseStop | wait => exact .inr (.inl rfl)
  | request request =>
      rw [perform]
      split
      · next finished =>
          have launches := launch_launches setting process.runner request
          generalize request.launch setting process.runner = after at launches
          cases launches with
          | refused | prepared | single | injected => exact .inl rfl
          | begun operation running opens => rcases opens with rfl | rfl <;> exact .inl rfl
          | injecting line cursor rest step call taken =>
              right
              right
              simp [injects, finished, taken]
          | stopped => exact .inl (injects_enterAfterEverything _ _)
      · exact .inr (.inl rfl)

/-- Where no line is injected, nothing is injected. -/
theorem injects_after {schedule : List Action} (runner : Runner Env)
    (uninjected : ∀ line, Action.request (.inject line) ∉ schedule) (thread : Nat) :
    ((runner.ready setting).after setting schedule).injects (.turn thread) = none := by
  induction schedule using List.reverseRecOn with
  | nil => rfl
  | append_singleton schedule action ih =>
      have ih := ih fun line listed => uninjected line (List.mem_append_left _ listed)
      rw [after_concat]
      obtain none | same | same :=
        injects_perform setting ((runner.ready setting).after setting schedule) action thread
      · exact none
      · exact same.trans ih
      · refine same.trans ?_
        cases action with
        | turn other => exact ih
        | request request =>
            cases request with
            | inject line => exact absurd (List.mem_append_right _ (.head _)) (uninjected line)
            | prepare | run | step | skip | stop => rfl
        | raiseStop | wait => rfl

end Uninjected

end Process

/-- The variables of every cursor are accounted for by the steps that were begun so far. -/
structure Accountable (scopeOf : Call → Variables) (process : Process Call Env) (entries : List (Nat × Nat)) :
    Prop where
  order : process.InOrder
  courses : ∀ course ∈ process.courses, ∃ branch, process.suite.branch? course.1.branch = some branch ∧
    course.Accounted scopeOf (fun step => (course.1.branch, step) ∈ entries) branch
  unused : process.runner.control.phase = .stopped ∨ ∀ index branch,
    process.suite.branch? index = some branch → branch.isIdle = true → ∀ step, (index, step) ∉ entries

namespace Accountable

variable {setting : Setting Call Env} {scopeOf : Call → Variables} {process between : Process Call Env}
  {action : Action} {entries : List (Nat × Nat)} {course : Course Call}

/-- What a turn of a walk does to its branch. -/
theorem treads (accountable : Accountable scopeOf process entries) (setting : Setting Call Env)
    (purpose : Purpose) {cursor : Cursor}
    {activity : Activity Call} {others : List (Course Call)}
    (held : process.courses.Perm ((cursor, activity) :: others)) :
    ∃ before after, process.suite.branch? cursor.branch = some before ∧
      activity.stage.Stands cursor before ∧
      Course.Accounted scopeOf (fun step => (cursor.branch, step) ∈ entries) before (cursor, activity) ∧
      Treads cursor process.suite before
        (cursor.turn setting purpose process.runner.shared activity).shared.suite
        (cursor.turn setting purpose process.runner.shared activity).cursor
        (cursor.turn setting purpose process.runner.shared activity).turn.arrival after ∧
      ∀ other ∈ others, other.1.branch ≠ cursor.branch := by
  have walkers : process.walkers.Perm ((cursor, activity.stage) :: others.map Course.walker) := by
    rw [process.walkers_eq]
    exact held.map _
  have orderly := accountable.order.orderly.perm rfl walkers.symm
  obtain ⟨before, after, found, stands, treads⟩ := orderly.treads setting purpose
  obtain ⟨branch, present, accounted⟩ := accountable.courses _ (held.mem_iff.mpr List.mem_cons_self)
  obtain rfl : branch = before := Option.some.inj (present.symm.trans found)
  exact ⟨branch, after, found, stands, accounted, treads,
    fun other listed => orderly.ne_of_mem (List.mem_map_of_mem listed)⟩

/-- What happens in one branch leaves the cursors of all others accounted for. -/
theorem aside (accountable : Accountable scopeOf process entries) {index : Nat} (new : Option Nat)
    (listed : course ∈ process.courses) (keeps : Suite.KeepsOthers index process.suite between.suite)
    (different : course.1.branch ≠ index) :
    ∃ branch, between.suite.branch? course.1.branch = some branch ∧ course.Accounted scopeOf
      (fun step => (course.1.branch, step) ∈ entries ++ (new.map fun step => (index, step)).toList) branch := by
  obtain ⟨branch, found, accounted⟩ := accountable.courses course listed
  have walking : course.walker ∈ process.walkers := by
    rw [process.walkers_eq]
    exact List.mem_map_of_mem listed
  obtain ⟨other, present, stands⟩ := accountable.order.orderly.stands _ walking
  obtain rfl : other = branch := Option.some.inj (present.symm.trans found)
  refine ⟨other, ?_, accounted.of_same (fun step => ?_) rfl rfl rfl⟩
  · rcases keeps.others _ different with same | ⟨skipped, line, located, idle, _⟩
    · exact same.trans found
    · obtain rfl : skipped = other := Option.some.inj (located.symm.trans found)
      simp [stands.busy] at idle
  · cases new with
    | none => simp
    | some now => simp [different]

theorem courses_steers (accountable : Accountable scopeOf process entries)
    (keeps : setting.executor.KeepsVariables scopeOf) (uninjected : process.injects action = none)
    (steers : Steers setting process action between) :
    ∀ course ∈ between.courses, ∃ branch, between.suite.branch? course.1.branch = some branch ∧
      course.Accounted scopeOf (fun step => (course.1.branch, step) ∈
        entries ++ (process.begins setting action).toList) branch := by
  intro course listed
  cases steers with
  | walked purpose cursor activity others walking held suite holds =>
      obtain ⟨before, after, found, stands, accounted, treads, elsewhere⟩ :=
        accountable.treads setting purpose held
      rw [Process.begins_of_walk walking]
      rcases List.mem_append.mp (holds.mem_iff.mp listed) with own | other
      · have remains := Option.mem_toList.mp own
        have goes := accounted.turn keeps purpose found stands treads remains
        rw [Cursor.eq_of_keeps remains, treads.own, suite]
        refine ⟨after, treads.found, goes.of_same (fun step => ?_) rfl rfl rfl⟩
        simp
      · rw [← suite] at treads
        exact accountable.aside _ (held.mem_iff.mpr (List.mem_cons_of_mem _ other)) treads.others
          (elsewhere course other)
  | claimed index claims still suite holds =>
      rw [Process.begins_of_still (by rintro _ ⟨⟩; exact still)]
      obtain ⟨branch, found, idle, untouched, elsewhere⟩ := accountable.order.fresh claims
      have others := Suite.keepsOthers_modify index process.suite Suite.markRunning
      rw [← suite] at others
      rcases List.mem_cons.mp (holds.mem_iff.mp listed) with rfl | other
      · have unused := accountable.unused.resolve_left (accountable.order.running_of_claimed claims)
        refine ⟨Suite.markRunning branch, ?_, ?_⟩
        · rw [suite]
          exact Suite.branch?_modify_self found _
        · refine ⟨nofun, accounts_nil _ _, .inr ⟨0, untouched.settled.of_steps rfl, ?_⟩, nofun⟩
          intro step begun
          rw [Option.toList_none, List.append_nil] at begun
          exact absurd begun (unused index branch found idle step)
      · refine accountable.aside none other others (elsewhere course.walker ?_)
        rw [process.walkers_eq]
        exact List.mem_map_of_mem other
  | restaged cursor scope activity others still unclaimed held branches taken same holds =>
      rw [Process.begins_of_still still, Option.toList_none, List.append_nil, Suite.branch?_congr branches]
      rcases List.mem_cons.mp (holds.mem_iff.mp listed) with rfl | other
      · obtain ⟨branch, found, accounted⟩ :=
          accountable.courses cursor.pausing (held.mem_iff.mpr List.mem_cons_self)
        have unchanged : scope = cursor.scope := by
          refine same.resolve_right ?_
          rw [uninjected]
          exact nofun
        subst unchanged
        refine ⟨branch, found, ?_, accounted.accounts, ?_, ?_⟩
        · rcases taken with rfl | rfl <;> exact nofun
        · rcases taken with rfl | rfl <;> exact accounted.reached
        · rcases taken with rfl | rfl <;> exact nofun
      · exact accountable.courses course (held.mem_iff.mpr (List.mem_cons_of_mem _ other))
  | stayed still unclaimed branches holds =>
      rw [Process.begins_of_still still, Option.toList_none, List.append_nil, Suite.branch?_congr branches]
      exact accountable.courses course (holds.mem_iff.mp listed)
  | prepared still fresh branches holds =>
      rw [Process.begins_of_still fun thread same => absurd same (still thread), Option.toList_none,
        List.append_nil, Suite.branch?_map branches]
      obtain ⟨branch, found, accounted⟩ := accountable.courses course (holds.mem_iff.mp listed)
      exact ⟨_, congrArg _ found, accounted.of_same (fun _ => .rfl) rfl rfl rfl⟩
  | swept still unclaimed branches dropped =>
      rw [dropped] at listed
      cases listed

theorem unused_steers (accountable : Accountable scopeOf process entries)
    (steers : Steers setting process action between)
    (unused : ∀ index branch, process.suite.branch? index = some branch → branch.isIdle = true →
      ∀ step, (index, step) ∉ entries) :
    between.runner.control.phase = .stopped ∨ ∀ index branch,
      between.suite.branch? index = some branch → branch.isIdle = true →
        ∀ step, (index, step) ∉ entries ++ (process.begins setting action).toList := by
  cases steers with
  | walked purpose cursor activity others walking held suite holds =>
      obtain ⟨before, after, found, stands, accounted, treads, elsewhere⟩ :=
        accountable.treads setting purpose held
      rw [← suite] at treads
      rw [Process.begins_of_walk walking]
      refine .inr fun index branch present idle step listed => ?_
      by_cases same : index = cursor.branch
      · subst same
        obtain rfl : after = branch := Option.some.inj (treads.found.symm.trans present)
        simp [treads.follows.busy] at idle
      · rcases List.mem_append.mp listed with old | new
        · rcases treads.others.others index same with unchanged | ⟨skipped, line, _, _, located⟩
          · exact unused index branch (unchanged.symm.trans present) idle step old
          · obtain rfl : Suite.skip line skipped = branch := Option.some.inj (located.symm.trans present)
            simp [Branch.isIdle_skip] at idle
        · obtain ⟨begun, -, place⟩ := Option.map_eq_some_iff.mp (Option.mem_toList.mp new)
          exact same (congrArg Prod.fst place).symm
  | claimed index claims still suite holds =>
      rw [Process.begins_of_still (by rintro _ ⟨⟩; exact still), Option.toList_none, List.append_nil]
      obtain ⟨before, found, _⟩ := accountable.order.fresh claims
      refine .inr fun other branch present idle => ?_
      rw [suite] at present
      by_cases same : other = index
      · subst same
        rw [Suite.branch?_modify_self found] at present
        obtain rfl := Option.some.inj present
        simp [Suite.markRunning, Branch.isIdle] at idle
      · rw [Suite.branch?_modify_of_ne same] at present
        exact unused other branch present idle
  | restaged cursor scope activity others still unclaimed held branches =>
      rw [Process.begins_of_still still, Option.toList_none, List.append_nil]
      exact .inr fun index branch present => unused index branch ((Suite.branch?_congr branches _) ▸ present)
  | stayed still unclaimed branches =>
      rw [Process.begins_of_still still, Option.toList_none, List.append_nil]
      exact .inr fun index branch present => unused index branch ((Suite.branch?_congr branches _) ▸ present)
  | prepared still fresh branches holds =>
      rw [Process.begins_of_still fun thread same => absurd same (still thread), Option.toList_none,
        List.append_nil]
      refine .inr fun index branch present idle => ?_
      rw [Suite.branch?_map branches] at present
      obtain ⟨before, found, rfl⟩ := Option.map_eq_some_iff.mp present
      exact unused index before found idle
  | swept still unclaimed branches dropped stopped => exact .inl stopped

theorem perform (accountable : Accountable scopeOf process entries)
    (keeps : setting.executor.KeepsVariables scopeOf) (uninjected : process.injects action = none) :
    Accountable scopeOf (process.perform setting action)
      (entries ++ (process.begins setting action).toList) := by
  have order := accountable.order
  obtain ⟨between, steers, settles⟩ := Process.perform_steers setting order.sound order.started action
  have same := Suite.branch?_congr settles.branches
  refine ⟨order.perform action, ?_, ?_⟩
  · intro course listed
    rcases settles.courses with kept | ⟨_, dropped⟩
    · rw [same]
      exact accountable.courses_steers keeps uninjected steers course (kept.mem_iff.mp listed)
    · rw [dropped] at listed
      cases listed
  · rcases accountable.unused with stopped | unused
    · exact .inl (Process.stopped_perform order.sound stopped action)
    · refine (accountable.unused_steers steers unused).imp settles.final fun unused index branch found => ?_
      exact unused index branch ((same _).symm.trans found)

theorem after (keeps : setting.executor.KeepsVariables scopeOf) (runner : Runner Env) {schedule : List Action}
    (uninjected : ∀ line, Action.request (.inject line) ∉ schedule) :
    Accountable scopeOf ((runner.ready setting).after setting schedule)
      ((runner.ready setting).history setting (Process.begins setting) schedule) := by
  induction schedule using List.reverseRecOn with
  | nil =>
      refine ⟨Process.inOrder_ready setting runner, ?_, .inr fun _ _ _ _ _ => List.not_mem_nil⟩
      intro course listed
      have none : ((runner.ready setting).courses).map Course.walker = [] := by
        rw [← Process.walkers_eq, Process.walkers_ready]
      rw [Process.after_nil, List.map_eq_nil_iff.mp none] at listed
      cases listed
  | append_singleton schedule action ih =>
      have earlier : ∀ line, Action.request (.inject line) ∉ schedule :=
        fun line listed => uninjected line (List.mem_append_left _ listed)
      rw [Process.after_concat, Process.history_concat]
      refine (ih earlier).perform keeps ?_
      cases action with
      | turn thread => exact Process.injects_after runner earlier thread
      | request request =>
          cases request with
          | inject line => exact absurd (List.mem_append_right _ (.head _)) (uninjected line)
          | prepare | run | step | skip | stop => rfl
      | raiseStop | wait => rfl

end Accountable

namespace Process

variable {setting : Setting Call Env} {scopeOf : Call → Variables} {process : Process Call Env}

/-- A turn of a walk that goes on leaves its thread walking. -/
theorem walk?_of_onward {thread : Nat} {purpose : Purpose} {cursor : Cursor} {activity next : Activity Call}
    (walking : process.walk? thread = some (purpose, cursor, activity))
    (onward : (cursor.turn setting purpose process.runner.shared activity).turn = .onward next) :
    (process.perform setting (.turn thread)).walk? thread =
      some (purpose, (cursor.turn setting purpose process.runner.shared activity).cursor, next) := by
  obtain ⟨runner, operation⟩ := process
  cases operation with
  | working workers paused =>
      simp only [walk?] at walking
      split at walking
      · next found =>
        cases walking
        have bound := (List.getElem?_eq_some_iff.mp found).1
        have moves : ((Worker.walking cursor activity).turn setting runner.shared).worker =
            .walking (cursor.turn setting .run runner.shared activity).cursor next := by
          simp only [Worker.turn]
          split <;> next turned => cases onward.symm.trans turned <;> rfl
        have live : (workers.set thread ((Worker.walking cursor activity).turn setting
            runner.shared).worker).all Worker.hasEnded = false := by
          rw [List.all_eq_false]
          refine ⟨_, List.mem_set bound _, ?_⟩
          rw [moves]
          rintro ⟨⟩
        simp only [perform, turn, found, live, Bool.false_eq_true, if_false]
        simp only [walk?, moves, List.getElem?_set_self bound]
      · cases walking
  | single purpose cursor activity =>
      cases walking
      simp only [perform, turn, onward]
      rfl
  | beforeEverything | beforeHook | starting | afterEverything | afterHook | concluding | injecting
  | finished => cases walking

/-- Only a walk hands over the body of a step. -/
theorem walk?_of_handed {action : Action} {index step : Nat}
    (hands : process.handed setting action = some (.step index step)) :
    ∃ thread purpose cursor activity, action = .turn thread ∧
      process.walk? thread = some (purpose, cursor, activity) := by
  by_cases still : ∀ thread, action = .turn thread → process.walk? thread = none
  · cases aside_of_still still hands
  · cases action with
    | turn thread =>
        cases walking : process.walk? thread with
        | none => exact absurd (by rintro _ ⟨⟩; exact walking) still
        | some walk => exact ⟨thread, walk.1, walk.2.1, walk.2.2, rfl, walking⟩
    | request | raiseStop | wait => exact absurd nofun still

/-- The body of a step of the suite is handed over with locals that the step may read, where only those steps
count that were begun. -/
theorem mayRead_of_handed {options : BranchOptions} {runner : Runner Env} {schedule : List Action}
    {action : Action} {index step : Nat} (built : setting.tree.Built)
    (generated : setting.tree.generate options = .ok runner.suite)
    (keeps : setting.executor.KeepsVariables scopeOf)
    (uninjected : ∀ line, Action.request (.inject line) ∉ schedule)
    (hands : ((runner.ready setting).after setting schedule).handed setting action =
      some (.step index step)) :
    ∃ thread purpose cursor branch here code, action = .turn thread ∧
      runner.suite.branch? index = some branch ∧ branch.steps[step]? = some here ∧
      (((runner.ready setting).after setting schedule).perform setting action).walk? thread =
        some (purpose, cursor, .body step
          (setting.executor.start (here.body (.step index step) code) cursor.scope)) ∧
      ∀ name value, cursor.scope.get? name true = some value → MayRead branch.steps
        (fun later => (index, later) ∈ (runner.ready setting).history setting (begins setting) schedule)
        step (Text.trim name) := by
  have accountable := Accountable.after keeps runner uninjected
  have planned := @plan_after _ _ setting runner schedule
  generalize (runner.ready setting).history setting (begins setting) schedule = entries at *
  generalize (runner.ready setting).after setting schedule = process at *
  obtain ⟨thread, purpose, cursor, activity, rfl, walking⟩ := walk?_of_handed hands
  obtain ⟨next, onward, runs⟩ := handed_of_walk walking hands
  obtain ⟨first, second, split⟩ := List.append_of_mem
    (List.mem_append_left (process.runner.control.paused.map Cursor.pausing) (mem_courses_of_walk walking))
  have held : process.courses.Perm ((cursor, activity) :: (first ++ second)) := by
    rw [courses, split]
    exact List.perm_middle
  obtain ⟨before, after, found, stands, accounted, treads, -⟩ :=
    accountable.treads setting purpose held
  obtain ⟨rfl, stage, -⟩ := (notes_of_walk treads.own walking).bodies index step
    (Option.mem_toList.mpr hands)
  obtain ⟨call, rfl⟩ : ∃ call, next = .body step call := by
    have within := (Activity.stage_of_body runs).2
    cases next with
    | body other call =>
        cases within
        exact ⟨call, rfl⟩
    | opening | beforeBranch | beforeBranchFailed | looping | taking | skipping | preparing | beforeStep
    | afterStep | marking | lookingAhead | closing | afterBranch | afterBranchFailed => cases within
  have conveys := Cursor.turn_conveys keeps purpose process.runner.shared accounted.carries
  obtain ⟨here, code, present, prepared, rfl⟩ := conveys.hands step call onward
  obtain ⟨branch, first, plan⟩ := planned found
  have steps : before.plan.steps = branch.steps.map BranchStep.reset := congrArg Branch.steps plan
  have nests := Selection.nestsAll_of_generate built.wellFormed generated (List.mem_of_getElem? first)
  have running : process.runner.shared.branch cursor.branch = before := by
    rw [Shared.branch, show process.runner.shared.suite.branch? cursor.branch = _ from found, Option.getD_some]
  rw [running] at present
  obtain ⟨own, listed, alike⟩ : ∃ own, branch.steps[step]? = some own ∧ own.reset = here.reset := by
    have same := before.steps_plan step
    rw [steps, List.getElem?_map, present, Option.map_some, Option.map_eq_some_iff] at same
    exact same
  refine ⟨thread, purpose, (cursor.turn setting purpose process.runner.shared activity).cursor, branch, own,
    code, rfl, first, listed, ?_, ?_⟩
  · rw [walk?_of_onward walking onward]
    have body : here.body (.step cursor.branch step) code = own.body (.step cursor.branch step) code :=
      (congrArg (fun same : BranchStep => same.body (.step cursor.branch step) code) alike.symm :)
    rw [body]
  · intro name value read
    rw [prepared] at read
    obtain ⟨depth, frame, placed, named⟩ := Variables.exists_frame_of_get? read
    rcases frames_prepare placed named with ⟨-, parameter⟩ | ⟨shallow, kept⟩
    · exact .own own listed ((congrArg (fun step : BranchStep => step.HasParameter _) alike).mpr parameter)
    · obtain ⟨source, giver, stems⟩ := accounted.accounts depth frame kept _ named
      rw [steps] at stems
      obtain ⟨giver, stems⟩ := stems.of_reset
      have level : own.branchIndents = here.branchIndents := (congrArg BranchStep.branchIndents alike :)
      rw [stage] at stands
      have below := accounted.below stands.2 source stems.counted
      rw [stage] at below
      exact stems.mayRead nests listed below (level ▸ shallow)

theorem keepsVariables_silent : silent.KeepsVariables id where
  starts _ _ := rfl
  waits _ _ _ _ := nofun
  ends _ _ _ _ := by
    rintro ⟨⟩
    rfl

/-- A call with a parameter, and behind it one in front of which the run pauses. -/
def lane : Tree :=
  .grown ("G 'y'\n    F ~\n\n* G \x7b\x7bq\x7d\x7d \x7b\n    g\n\x7d\n\n" ++
    "* F\n    A \x7b\n        a\n    \x7d")

/-- The run pauses in front of the second call, which is skipped, and the step in its body is run. -/
def detour : List Action :=
  .request .run :: List.replicate 12 (.turn 0) ++ .request .skip :: List.replicate 3 (.turn 0) ++
    [.request .step, .turn 0]

theorem generate_lane : lane.generate {} = .ok lane.suite :=
  Tree.generate_eq_suite (by decide +kernel) (by decide +kernel)

theorem mayRead_of_handed_lane :
    let setting := { executor := silent, tree := lane, maxParallel := 1 }
    let process := ((Runner.initial lane.suite ()).ready setting).after setting detour
    (∀ line, Action.request (.inject line) ∉ detour) ∧
    process.handed setting (.turn 0) = some (.step 0 2) ∧
    ∃ thread purpose cursor branch here code, Action.turn 0 = .turn thread ∧
      lane.suite.branch? 0 = some branch ∧ branch.steps[2]? = some here ∧
      (process.perform setting (.turn 0)).walk? thread = some (purpose, cursor, .body 2
        (setting.executor.start (here.body (.step 0 2) code) cursor.scope)) ∧
      ∀ name value, cursor.scope.get? name true = some value → MayRead branch.steps
        (fun later => (0, later) ∈ ((Runner.initial lane.suite ()).ready setting).history setting
          (begins setting) detour) 2 (Text.trim name) := by
  intro setting process
  have uninjected : ∀ line, Action.request (.inject line) ∉ detour := by
    intro line listed
    simp [detour] at listed
  have hands : process.handed setting (.turn 0) = some (.step 0 2) := by decide +kernel
  exact ⟨uninjected, hands,
    mayRead_of_handed (.parseIn .empty _ _ _) generate_lane keepsVariables_silent uninjected hands⟩

/-- The step in the body of the call that was skipped can still read the parameter of the call before, which has
returned: that one is not active for it. -/
theorem parameter_read_behind_return :
    let setting := { executor := silent, tree := lane, maxParallel := 1 }
    let process := ((Runner.initial lane.suite ()).ready setting).after setting detour
    lane.generate {} = .ok lane.suite ∧ process.handed setting (.turn 0) = some (.step 0 2) ∧
      ∃ branch purpose cursor activity, lane.suite.branch? 0 = some branch ∧
        (process.perform setting (.turn 0)).walk? 0 = some (purpose, cursor, activity) ∧
        cursor.scope.get? "q".toList true = some "y".toList ∧
        ¬ MayRead branch.steps (fun _ => True) 2 "q".toList := by
  intro setting process
  have hands : process.handed setting (.turn 0) = some (.step 0 2) := by decide +kernel
  have reads : ((process.perform setting (.turn 0)).walk? 0).any (fun (_, cursor, _) =>
      cursor.scope.get? "q".toList true == some "y".toList) = true := by decide +kernel
  have shape : (lane.suite.branch? 0).map (fun branch => branch.steps.map fun step =>
      (step.branchIndents, step.bindings.map (·.name), step.assignments)) =
        some [(0, ["q".toList], []), (0, [], []), (1, [], [])] := by decide +kernel
  obtain ⟨⟨purpose, cursor, activity⟩, walking, read⟩ := (Option.any_eq_true _ _).mp reads
  obtain ⟨branch, found, steps⟩ := Option.map_eq_some_iff.mp shape
  refine ⟨generate_lane, hands, branch, purpose, cursor, activity, found, walking, by simpa using read, ?_⟩
  have shown {index : Nat} {step : BranchStep} (listed : branch.steps[index]? = some step) :
      ([(0, ["q".toList], []), (0, [], []), (1, [], [])] :
        List (Nat × List Text × List Assignment))[index]? =
          some (step.branchIndents, step.bindings.map (·.name), step.assignments) := by
    rw [← steps, List.getElem?_map, listed, Option.map_some]
  have unset {index : Nat} {step : BranchStep} (listed : branch.steps[index]? = some step) {name : Text} :
      ¬ step.SetsLocal name := by
    rintro ⟨assignment, assigned, -⟩
    have among := List.mem_of_getElem? (shown listed)
    simp only [List.mem_cons, Prod.mk.injEq, List.not_mem_nil, or_false] at among
    rcases among with ⟨-, -, empty⟩ | ⟨-, -, empty⟩ | ⟨-, -, empty⟩ <;> simp [empty] at assigned
  intro read
  cases read with
  | own step listed parameter =>
      have unbound : step.bindings.map (·.name) = [] :=
        (congrArg (·.2.1) (Option.some.inj (shown listed))).symm
      rw [BranchStep.HasParameter, unbound] at parameter
      cases parameter
  | parameter outer call active parameter =>
      have early := active.earlier
      obtain rfl | rfl : outer = 0 ∨ outer = 1 := by omega
      · have second := congrArg (·[1]?) steps
        simp only [List.getElem?_map, List.getElem?_cons_succ, List.getElem?_cons_zero] at second
        obtain ⟨skipped, listed, -⟩ := Option.map_eq_some_iff.mp second
        have deeper := active.between 1 skipped Nat.one_pos Nat.one_lt_two trivial listed
        have level : skipped.branchIndents = 0 := (congrArg Prod.fst (Option.some.inj (shown listed))).symm
        rw [level] at deeper
        exact Nat.not_lt_zero _ deeper
      · have unbound : call.bindings.map (·.name) = [] :=
          (congrArg (·.2.1) (Option.some.inj (shown active.found))).symm
        rw [BranchStep.HasParameter, unbound] at parameter
        cases parameter
  | within _ _ _ _ _ _ _ listed sets => exact unset listed sets
  | top _ _ _ listed _ sets => exact unset listed sets

end Process

end TestTree.Run
