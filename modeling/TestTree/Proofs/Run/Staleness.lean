import TestTree.Proofs.Run.Faults
import TestTree.Proofs.Run.Guises
import TestTree.Proofs.Run.Visibility

/-!
Variables that nobody reads. They are stale as long as the cursor that has them rests and the next that is done
with them finds them as they should be, or an injected step is under way that will replace them. Whatever is done
with a runner in a guise whose variables are stale, either they stay so, or they are gone; so all that is seen
along the way is what is seen without the guise.
-/
namespace TestTree.Run

variable {Call Env : Type} {setting : Setting Call Env} {alike : Env → Env → Prop}
  {process : Process Call Env} {index : Nat} {scope known : Variables} {deed : Deed} {action : Action}
  {later : List Deed}

namespace Runner

/-- Runs an injected step. -/
def enact (setting : Setting Call Env) (rest : Runner Env) (cursor : Cursor) (step : BranchStep) :
    Process Call Env :=
  match step.prepare cursor.scope, step.codeBlock with
  | (scope, some error), _ => rest.finishInjection cursor step (scope, some error)
  | (scope, none), some code =>
      ⟨rest, .injecting cursor step
        (setting.executor.start (step.body (.injected cursor.branch) code) scope)⟩
  | (scope, none), none => rest.finishInjection cursor step (step.assign none scope)

variable {runner rest : Runner Env} {cursor : Cursor} {line : Text}

theorem inject_of_error (taken : runner.takePaused = some (cursor, rest)) {error : TreeError}
    (refused : rest.injectedStep setting cursor line = .error error) :
    (runner.inject setting line : Process Call Env) = runner.finish (.refused (.tree error)) := by
  simp only [inject, taken, refused]

theorem inject_of_ok (taken : runner.takePaused = some (cursor, rest)) {step : BranchStep}
    (accepted : rest.injectedStep setting cursor line = .ok step) :
    runner.inject setting line = rest.enact setting cursor step := by
  simp only [inject, taken, accepted]
  rfl

end Runner

namespace Process

theorem perform_inject (finished : process.isFinished = true) (line : Text) :
    process.perform setting (.request (.inject line)) = process.runner.inject setting line := by
  rw [perform, if_pos finished]
  rfl

/-- The cursor of a branch has no body in progress, and the variables `known`. -/
def Rests (process : Process Call Env) (index : Nat) (known : Variables) : Prop :=
  ∀ course ∈ process.courses, course.1.branch = index →
    course.2.call? = none ∧ course.1.scope = known

/-- Nobody sees whether the cursor of a branch has other variables: they are used only where they are the same, or
replaced by those of an injected call in progress. -/
inductive Stale (setting : Setting Call Env) (index : Nat) (scope : Variables) (process : Process Call Env)
    (later : List Deed) : Prop
  | resting (known : Variables) (calm : process.injects (.turn 0) ≠ some index) (rests : process.Rests index known)
      (first : ∀ use, process.firstUse setting index later = some use → use.Agrees scope known)
  | injecting (cursor : Cursor) (step : BranchStep) (call : Call)
      (injecting : process.operation = .injecting cursor step call) (own : cursor.branch = index)
      (same : step.prepare scope = step.prepare cursor.scope)

theorem firstUse_of_unused (unused : process.uses setting index (.act action) = none) :
    process.firstUse setting index (.act action :: later) =
      (process.perform setting action).firstUse setting index later := by
  simp [firstUse, unused, undertake]

theorem firstUse_of_used {use : Use} (used : process.uses setting index (.act action) = some use) :
    process.firstUse setting index (.act action :: later) = some use := by
  simp [firstUse, used]

/-- A runner at rest has no cursors but those that are paused. -/
theorem courses_of_taken (finished : process.isFinished = true) {cursor : Cursor} {rest : Runner Env}
    (taken : process.runner.takePaused = some (cursor, rest)) :
    process.courses = cursor.pausing :: rest.control.paused.map Cursor.pausing := by
  obtain ⟨answer, rests⟩ := operation_of_isFinished finished
  obtain ⟨-, waiting, held, rfl⟩ := takePaused_eq taken
  rw [courses, rests, held]
  rfl

theorem InOrder.apart_of_taken (order : process.InOrder) (finished : process.isFinished = true) {cursor : Cursor}
    {rest : Runner Env} (taken : process.runner.takePaused = some (cursor, rest)) :
    ∀ other ∈ rest.control.paused, other.branch ≠ cursor.branch := by
  intro other listed
  have held : process.courses.Perm (cursor.pausing :: rest.control.paused.map Cursor.pausing) := by
    rw [courses_of_taken finished taken]
  exact order.apart held (List.mem_map_of_mem listed : other.pausing ∈ _)

/-- What a turn of a walk needs of the variables of its branch. -/
theorem uses_of_walk {thread : Nat} {purpose : Purpose} {cursor : Cursor} {activity : Activity Call}
    (walking : process.walk? thread = some (purpose, cursor, activity)) (own : cursor.branch = index) :
    process.uses setting index (.act (.turn thread)) = cursor.uses process.runner.shared activity := by
  simp [uses, walking, own]

/-- A branch that is claimed has no cursor yet. -/
theorem InOrder.unclaimed (order : process.InOrder) {claim : Nat} (claims : process.claimed action = some claim)
    {course : Course Call} (among : course ∈ process.courses) : course.1.branch ≠ claim := by
  obtain ⟨-, -, -, -, unowned⟩ := order.fresh claims
  have listed : course.walker ∈ process.walkers := by
    rw [process.walkers_eq]
    exact List.mem_map_of_mem among
  exact unowned _ listed

theorem Rests.perm {before after : Process Call Env} (rests : before.Rests index known)
    (same : after.courses.Perm before.courses) : after.Rests index known :=
  fun course listed => rests course (same.mem_iff.mp listed)

theorem Rests.perform (order : process.InOrder) (rests : process.Rests index known)
    (owned : ∃ course ∈ process.courses, course.1.branch = index)
    (unused : process.uses setting index (.act action) = none) (other : process.injects action ≠ some index) :
    (process.perform setting action).Rests index known := by
  obtain ⟨between, steers, settles⟩ := perform_steers setting order.sound order.started action
  have steered : between.Rests index known := by
    cases steers with
    | walked purpose cursor activity others walking held suite holds =>
        intro course listed own
        rcases List.mem_append.mp (holds.mem_iff.mp listed) with kept | aside
        · have kept := Option.mem_toList.mp kept
          have same := Cursor.eq_of_keeps kept
          have walk := Cursor.turn_walks setting purpose cursor process.runner.shared activity
          rw [same, walk.branch_eq] at own
          rw [uses_of_walk walking own] at unused
          obtain ⟨unchanged, calm, -⟩ := Cursor.turn_unused unused setting purpose known
          obtain ⟨-, agrees⟩ := rests _ (held.mem_iff.mpr (.head _)) own
          refine ⟨calm course kept, ?_⟩
          rw [same, unchanged]
          exact agrees
        · exact rests course (held.mem_iff.mpr (List.mem_cons_of_mem _ aside)) own
    | claimed claim claims still suite holds =>
        intro course listed own
        rcases List.mem_cons.mp (holds.mem_iff.mp listed) with rfl | old
        · obtain ⟨course, among, same⟩ := owned
          exact absurd (same.trans own.symm) (order.unclaimed claims among)
        · exact rests course old own
    | restaged cursor renewed activity others still unclaimed held branches taken same holds =>
        intro course listed own
        rcases List.mem_cons.mp (holds.mem_iff.mp listed) with rfl | aside
        · obtain ⟨-, agrees⟩ := rests cursor.pausing (held.mem_iff.mpr (.head _)) own
          obtain rfl := same.resolve_right fun injected => other (injected.trans (congrArg some own))
          refine ⟨?_, agrees⟩
          rcases taken with rfl | rfl
          · rfl
          · rfl
        · exact rests course (held.mem_iff.mpr (List.mem_cons_of_mem _ aside)) own
    | stayed still unclaimed branches holds => exact rests.perm holds
    | prepared still fresh branches holds => exact rests.perm holds
    | swept still unclaimed branches dropped =>
        intro course listed
        rw [dropped] at listed
        cases listed
  rcases settles.courses with kept | ⟨-, dropped⟩
  · exact steered.perm kept
  · intro course listed
    rw [dropped] at listed
    cases listed

section Guised

variable {guise : Guise Env}

/-- A guise that changes the variables of one branch. -/
theorem cursor_of_stale (stale : guise.stale = some (index, scope)) {cursor : Cursor}
    (own : cursor.branch = index) : guise.cursor cursor = { cursor with scope } := by
  simp only [Guise.cursor, stale, own, if_true]

theorem spares_of_stale (stale : guise.stale = some (index, scope)) {branch : Nat} (other : branch ≠ index) :
    guise.Spares branch := by
  intro known same
  rw [stale] at same
  obtain rfl := Option.some.inj same
  exact other

theorem hidden_of_unused (order : process.InOrder) (stale : guise.stale = some (index, scope))
    (owned : ∃ course ∈ process.courses, course.1.branch = index)
    (unused : process.uses setting index (.act action) = none) (other : process.injects action ≠ some index) :
    guise.Hidden setting process action where
  walks thread purpose cursor activity turns walking := by
    subst turns
    have walk := Cursor.turn_walks setting purpose cursor process.runner.shared activity
    by_cases own : cursor.branch = index
    · rw [uses_of_walk walking own] at unused
      obtain ⟨-, -, same⟩ := Cursor.turn_unused unused setting purpose scope
      rw [cursor_of_stale stale own, cursor_of_stale stale (walk.branch_eq.trans own)]
      exact same
    · rw [Guise.cursor_of_spares (spares_of_stale stale own),
        Guise.cursor_of_spares (spares_of_stale stale (walk.branch_eq.symm ▸ own))]
  claims claim claims := by
    refine spares_of_stale stale ?_
    rintro rfl
    obtain ⟨course, among, same⟩ := owned
    exact order.unclaimed claims among same
  injects injected injects := by
    refine spares_of_stale stale ?_
    rintro rfl
    exact other injects

/-- Among the cursors besides the one of a branch, none differs. -/
theorem InOrder.spares_others (order : process.InOrder) (stale : guise.stale = some (index, scope))
    {course : Course Call} (own : course.1.branch = index) {others : List (Course Call)}
    (held : process.courses.Perm (course :: others)) : ∀ other ∈ others, guise.Spares other.1.branch := by
  intro other listed
  refine spares_of_stale stale ?_
  rw [← own]
  exact order.apart held listed

theorem runner_of_settled {runner : Runner Env} (here : guise.env = runner.shared.world.env)
    (spares : ∀ cursor ∈ runner.control.paused, guise.Spares cursor.branch) : guise.runner runner = runner := by
  simp only [Guise.runner, Guise.map_cursor_of_spares spares, here]
  rfl

/-- Among some workers, one has the same turn with other variables, and no other cursor differs. -/
theorem working_settled (order : process.InOrder) (stale : guise.stale = some (index, scope)) {runner : Runner Env}
    (here : guise.env = runner.shared.world.env) {cursor : Cursor} {activity : Activity Call}
    {first second : List (Worker Call)} {paused : List Cursor}
    (working : process = ⟨runner, .working (first ++ .walking cursor activity :: second) paused⟩)
    (own : cursor.branch = index)
    (same : ({ cursor with scope } : Cursor).turn setting .run runner.shared activity =
      cursor.turn setting .run runner.shared activity) :
    (guise.process process).perform setting (.turn first.length) =
      process.perform setting (.turn first.length) := by
  let others := first.filterMap Worker.course? ++ (second.filterMap Worker.course? ++
    (paused.map Cursor.pausing ++ runner.control.paused.map Cursor.pausing))
  have held : process.courses.Perm ((cursor, activity) :: others) := by
    simp only [working, courses, Operation.courses, List.filterMap_append, List.filterMap_cons, Worker.course?,
      List.append_assoc]
    exact List.perm_middle
  have spared := order.spares_others stale own held
  have ahead : first.map guise.worker = first :=
    Guise.map_worker_of_spares fun course listed => spared course (List.mem_append_left _ listed)
  have spared : ∀ course ∈ second.filterMap Worker.course? ++
      (paused.map Cursor.pausing ++ runner.control.paused.map Cursor.pausing), guise.Spares course.1.branch :=
    fun course listed => spared course (List.mem_append_right _ listed)
  have behind : second.map guise.worker = second :=
    Guise.map_worker_of_spares fun course listed => spared course (List.mem_append_left _ listed)
  have aside : paused.map guise.cursor = paused :=
    Guise.map_cursor_of_spares fun cursor listed => spared cursor.pausing
      (List.mem_append_right _ (List.mem_append_left _ (List.mem_map_of_mem listed)))
  have runs : guise.runner runner = runner :=
    runner_of_settled here fun cursor listed => spared cursor.pausing
      (List.mem_append_right _ (List.mem_append_right _ (List.mem_map_of_mem listed)))
  have turns : (Worker.walking { cursor with scope } activity).turn setting runner.shared =
      (Worker.walking cursor activity).turn setting runner.shared := by
    simp only [Worker.turn, same]
  simp only [working, perform, turn, Guise.process, Guise.operation, runs, List.map_append, List.map_cons, ahead,
    behind, aside, Guise.worker, cursor_of_stale stale own]
  simp [turns]

/-- Where a cursor has the same turn with other variables, these are gone behind it. -/
theorem perform_settled (order : process.InOrder) (stale : guise.stale = some (index, scope))
    (here : guise.env = process.runner.shared.world.env) {thread : Nat} {purpose : Purpose} {cursor : Cursor}
    {activity : Activity Call} (walking : process.walk? thread = some (purpose, cursor, activity))
    (own : cursor.branch = index)
    (same : ({ cursor with scope } : Cursor).turn setting purpose process.runner.shared activity =
      cursor.turn setting purpose process.runner.shared activity) :
    (guise.process process).perform setting (.turn thread) = process.perform setting (.turn thread) := by
  obtain ⟨runner, operation⟩ := process
  cases operation with
  | working workers paused =>
      simp only [walk?] at walking
      split at walking
      · next cursor activity found =>
        cases walking
        obtain ⟨inside, placed⟩ := List.getElem?_eq_some_iff.mp found
        have parts : workers.take thread ++ .walking cursor activity :: workers.drop (thread + 1) = workers := by
          rw [← placed, List.cons_getElem_drop_succ, List.take_append_drop]
        have place : (workers.take thread).length = thread := List.length_take_of_le inside.le
        have settled := working_settled order stale here (by rw [parts]) own same
        rwa [place] at settled
      · cases walking
  | single purpose cursor activity =>
      cases walking
      have runs : guise.runner runner = runner := runner_of_settled here fun other listed =>
        order.spares_others stale own (.refl _) other.pausing (List.mem_map_of_mem listed)
      simp only [perform, turn, Guise.process, Guise.operation, runs, cursor_of_stale stale own, same]
  | beforeEverything | beforeHook | starting | afterEverything | afterHook | concluding | injecting
  | finished => cases walking

/-- An injected step leaves its cursor with variables of its own. -/
theorem finishInjection_settled (guise : Guise Env) (runner : Runner Env)
    (others : ∀ cursor ∈ runner.control.paused, guise.Spares cursor.branch) (cursor : Cursor)
    (step : BranchStep) (outcome : Variables × Option StepError) :
    ((guise.runner runner).finishInjection (guise.cursor cursor) step outcome : Process Call Env) =
      guise.plain.process (runner.finishInjection cursor step outcome) := by
  obtain ⟨scope, same⟩ := guise.cursor_eq cursor
  rw [Guise.runner_of_spares others, same]
  exact Guise.process_finishInjection guise.plain runner (guise.plain_spares cursor.branch) step outcome

/-- What comes of a guise by a deed: the same, in a guise that is still not seen. -/
def Follows (setting : Setting Call Env) (alike : Env → Env → Prop) (guise : Guise Env)
    (process : Process Call Env) (deed : Deed) (later : List Deed) : Prop :=
  ∃ next : Guise Env, alike (process.undertake setting deed).runner.shared.world.env next.env ∧
    (guise.process process).undertake setting deed = next.process (process.undertake setting deed) ∧
    ∀ index scope, next.stale = some (index, scope) →
      Stale setting index scope (process.undertake setting deed) later

theorem follows_of_stale (next : Guise Env)
    (kin : alike (process.undertake setting deed).runner.shared.world.env next.env)
    (same : (guise.process process).undertake setting deed = next.process (process.undertake setting deed))
    (stale : next.stale = some (index, scope))
    (unseen : Stale setting index scope (process.undertake setting deed) later) :
    Follows setting alike guise process deed later := by
  refine ⟨next, kin, same, fun known others differs => ?_⟩
  obtain ⟨rfl, rfl⟩ := Prod.mk.inj (Option.some.inj (stale.symm.trans differs))
  exact unseen

theorem follows_plain (respects : setting.executor.Respects alike)
    (kin : alike process.runner.shared.world.env guise.env) (plain : guise.stale = none) (deed : Deed)
    (later : List Deed) : Follows setting alike guise process deed later := by
  have spares (branch : Nat) : guise.Spares branch := fun _ known => by
    rw [plain] at known
    cases known
  cases deed with
  | act action =>
      have hidden : guise.Hidden setting process action := Guise.hidden_of_spares
        (fun _ _ _ _ _ _ => spares _) (fun _ _ => spares _) (fun _ _ => spares _)
      obtain ⟨env, kin, same⟩ := Guise.perform_process respects kin hidden
      refine ⟨guise.on env, kin, same, fun index scope known => ?_⟩
      rw [Guise.on, plain] at known
      cases known
  | restart =>
      refine ⟨guise, ?_, ?_, fun index scope known => ?_⟩
      · simp only [undertake]
        split
        · rw [Guise.env_ready]
          exact kin
        · exact kin
      · simp only [undertake, Guise.isFinished_process]
        split
        · exact Guise.process_ready guise setting process.runner
        · rfl
      · rw [plain] at known
        cases known

theorem follows_unused (respects : setting.executor.Respects alike) (order : process.InOrder)
    (kin : alike process.runner.shared.world.env guise.env) (stale : guise.stale = some (index, scope))
    (owned : ∃ course ∈ process.courses, course.1.branch = index) (calm : process.injects (.turn 0) ≠ some index)
    (rests : process.Rests index known) (other : process.injects action ≠ some index)
    (unused : process.uses setting index (.act action) = none)
    (first : ∀ use, process.firstUse setting index (.act action :: later) = some use → use.Agrees scope known) :
    Follows setting alike guise process (.act action) later := by
  obtain ⟨env, kin, same⟩ :=
    Guise.perform_process respects kin (hidden_of_unused order stale owned unused other)
  refine follows_of_stale (guise.on env) kin same stale
    (.resting known ?_ (rests.perform order owned unused other) ?_)
  · intro injects
    obtain none | same | same := injects_perform setting process action 0
    · cases injects.symm.trans none
    · exact calm (same.symm.trans injects)
    · exact other (same.symm.trans injects)
  · rw [firstUse_of_unused unused] at first
    exact first

/-- A step that is begun drops what differs. -/
theorem follows_used (respects : setting.executor.Respects alike) (order : process.InOrder)
    (kin : alike process.runner.shared.world.env guise.env) (stale : guise.stale = some (index, scope))
    (rests : process.Rests index known) (other : process.injects action ≠ some index) {use : Use}
    (used : process.uses setting index (.act action) = some use) (agrees : use.Agrees scope known) :
    Follows setting alike guise process (.act action) later := by
  cases action with
  | turn thread =>
      simp only [uses] at used
      split at used
      · next purpose cursor activity walking =>
        split at used
        · next own =>
          obtain ⟨-, rfl⟩ := rests _ (List.mem_append_left _ (mem_courses_of_walk walking)) own
          have same : ({ cursor with scope } : Cursor).turn setting purpose process.runner.shared activity =
              cursor.turn setting purpose process.runner.shared activity := by
            cases use with
            | whole =>
                obtain rfl : scope = cursor.scope := agrees
                rfl
            | upTo level => exact Cursor.turn_settled used setting purpose agrees
          let here := guise.on process.runner.shared.world.env
          have settled : (here.process process).perform setting (.turn thread) =
              process.perform setting (.turn thread) :=
            perform_settled order (show here.stale = some (index, scope) from stale) rfl walking own same
          have kin' : alike (here.process process).runner.shared.world.env guise.plain.env := kin
          have follows : Follows setting alike guise.plain (here.process process) (.act (.turn thread)) later :=
            follows_plain respects kin' rfl _ _
          obtain ⟨next, kin, changed, seen⟩ := follows
          rw [Guise.process_plain] at changed
          simp only [undertake, settled] at kin changed seen
          exact ⟨next, kin, changed, seen⟩
        · cases used
      · cases used
  | request request =>
      cases request with
      | inject line =>
          simp only [uses] at used
          split at used
          · next cursor rest finished taken =>
            split at used
            · next own =>
              refine absurd ?_ other
              simp [injects, finished, taken, own]
            · cases used
          · cases used
      | prepare | run | step | skip | stop => cases used
  | raiseStop | wait => cases used

/-- A line that is refused changes nothing. -/
theorem follows_refused (kin : alike process.runner.shared.world.env guise.env)
    (stale : guise.stale = some (index, scope)) (rests : process.Rests index known)
    (finished : process.isFinished = true) {line : Text} {cursor : Cursor} {rest : Runner Env}
    (taken : process.runner.takePaused = some (cursor, rest)) (own : cursor.branch = index) {error : TreeError}
    (refused : rest.injectedStep setting cursor line = .error error)
    (first : ∀ use, process.firstUse setting index (.act (.request (.inject line)) :: later) = some use →
      use.Agrees scope known) :
    Follows setting alike guise process (.act (.request (.inject line))) later := by
  have answers : process.undertake setting (.act (.request (.inject line))) =
      process.runner.finish (.refused (.tree error)) := by
    rw [undertake, perform_inject finished, Runner.inject_of_error taken refused]
  have unused : process.uses setting index (.act (.request (.inject line))) = none := by
    simp [uses, finished, taken, own, refused, Except.toOption]
  rw [firstUse_of_unused unused, ← undertake, answers] at first
  refine follows_of_stale guise (answers ▸ kin) ?_ stale ?_
  · have read : (guise.runner rest).injectedStep setting (guise.cursor cursor) line = .error error := by
      rw [cursor_of_stale stale own]
      exact refused
    rw [answers, undertake, perform_inject ((guise.isFinished_process process).trans finished)]
    exact Runner.inject_of_error (Guise.takePaused_of_taken taken) read
  · rw [answers]
    refine .resting known ?_ (fun course listed => rests course (List.mem_append_right _ listed)) first
    intro injects
    cases injects

/-- An injected step is prepared with what is the same, and leaves its cursor with variables of its own. -/
theorem follows_injected (order : process.InOrder) (kin : alike process.runner.shared.world.env guise.env)
    (stale : guise.stale = some (index, scope)) (rests : process.Rests index known)
    (finished : process.isFinished = true) {line : Text} {cursor : Cursor} {rest : Runner Env}
    (taken : process.runner.takePaused = some (cursor, rest)) (own : cursor.branch = index) {step : BranchStep}
    (accepted : rest.injectedStep setting cursor line = .ok step)
    (agrees : scope.enter step.branchIndents = known.enter step.branchIndents) :
    Follows setting alike guise process (.act (.request (.inject line))) later := by
  have enacts : process.undertake setting (.act (.request (.inject line))) = rest.enact setting cursor step := by
    rw [undertake, perform_inject finished, Runner.inject_of_ok taken accepted]
  have enacts' : (guise.process process).undertake setting (.act (.request (.inject line))) =
      (guise.runner rest).enact setting (guise.cursor cursor) step := by
    have read : (guise.runner rest).injectedStep setting (guise.cursor cursor) line = .ok step := by
      rw [cursor_of_stale stale own]
      exact accepted
    rw [undertake, perform_inject ((guise.isFinished_process process).trans finished)]
    exact Runner.inject_of_ok (Guise.takePaused_of_taken taken) read
  have others : ∀ other ∈ rest.control.paused, guise.Spares other.branch := fun other listed =>
    spares_of_stale stale (own ▸ order.apart_of_taken finished taken other listed)
  obtain ⟨-, rfl⟩ := rests cursor.pausing (courses_of_taken finished taken ▸ .head _) own
  have prepared : step.prepare scope = step.prepare cursor.scope := step.prepare_congr agrees
  have env : rest.shared.world.env = process.runner.shared.world.env := by
    obtain ⟨-, waiting, -, rfl⟩ := takePaused_eq taken
    rfl
  rw [← env] at kin
  have ends (outcome : Variables × Option StepError) :
      ∃ next : Guise Env,
        alike (rest.finishInjection cursor step outcome : Process Call Env).runner.shared.world.env next.env ∧
        (guise.runner rest).finishInjection (guise.cursor cursor) step outcome =
          next.process (rest.finishInjection cursor step outcome : Process Call Env) ∧
        ∀ index scope, next.stale = some (index, scope) →
          Stale setting index scope (rest.finishInjection cursor step outcome) later :=
    ⟨guise.plain, kin, finishInjection_settled guise rest others cursor step outcome, nofun⟩
  have prepared' : step.prepare (guise.cursor cursor).scope = step.prepare cursor.scope := by
    rw [cursor_of_stale stale own, prepared]
  rw [Follows, enacts, enacts', Runner.enact, Runner.enact, Guise.branch_cursor, prepared']
  rcases step.prepare cursor.scope with ⟨bound, _ | error⟩
  · cases coded : step.codeBlock with
    | none => exact ends _
    | some code =>
        refine ⟨guise, kin, rfl, fun known others differs => ?_⟩
        obtain ⟨rfl, rfl⟩ := Prod.mk.inj (Option.some.inj (stale.symm.trans differs))
        exact .injecting cursor step _ rfl own prepared
  · exact ends _

theorem follows_injecting (respects : setting.executor.Respects alike) (order : process.InOrder)
    (kin : alike process.runner.shared.world.env guise.env) (stale : guise.stale = some (index, scope))
    {cursor : Cursor} {step : BranchStep} {call : Call}
    (injecting : process.operation = .injecting cursor step call) (own : cursor.branch = index)
    (same : step.prepare scope = step.prepare cursor.scope) (deed : Deed) (later : List Deed) :
    Follows setting alike guise process deed later := by
  obtain ⟨runner, operation⟩ := process
  obtain rfl := injecting
  cases deed with
  | restart => exact follows_of_stale guise kin rfl stale (.injecting cursor step call rfl own same)
  | act action =>
      cases action with
      | raiseStop | wait | request =>
          exact follows_of_stale guise kin rfl stale (.injecting cursor step call rfl own same)
      | turn thread =>
          have others : ∀ other ∈ runner.control.paused, guise.Spares other.branch := fun other listed =>
            order.spares_others stale own (.refl _) other.pausing (List.mem_map_of_mem listed)
          obtain ⟨after, kin, advanced⟩ := Shared.advance_within respects kin call
          have advanced' : (guise.runner runner).shared.advance setting call = _ := advanced
          rw [Follows]
          simp only [undertake, perform, turn, Guise.process, Guise.operation, advanced']
          generalize runner.shared.advance setting call = answer at kin
          obtain ⟨⟨time, later⟩ | ⟨message | value, scope⟩, between⟩ := answer
          · refine ⟨guise.on after, kin, rfl, fun known others differs => ?_⟩
            obtain ⟨rfl, rfl⟩ := Prod.mk.inj (Option.some.inj (stale.symm.trans differs))
            exact .injecting cursor step later rfl own same
          · refine ⟨(guise.on after).plain, kin,
              finishInjection_settled (guise.on after) { runner with shared := between } others cursor step _, ?_⟩
            rintro _ _ ⟨⟩
          · refine ⟨(guise.on after).plain, kin,
              finishInjection_settled (guise.on after) { runner with shared := between } others cursor step _, ?_⟩
            rintro _ _ ⟨⟩

theorem follows_injects (order : process.InOrder) (kin : alike process.runner.shared.world.env guise.env)
    (stale : guise.stale = some (index, scope)) (calm : process.injects (.turn 0) ≠ some index)
    (rests : process.Rests index known) (injects : process.injects action = some index)
    (first : ∀ use, process.firstUse setting index (.act action :: later) = some use → use.Agrees scope known) :
    Follows setting alike guise process (.act action) later := by
  cases action with
  | turn thread => exact absurd injects calm
  | raiseStop | wait => cases injects
  | request request =>
      cases request with
      | prepare | run | step | skip | stop => cases injects
      | inject line =>
          simp only [Process.injects] at injects
          split at injects
          · next finished =>
            obtain ⟨⟨cursor, rest⟩, taken, own⟩ := Option.map_eq_some_iff.mp injects
            cases read : rest.injectedStep setting cursor line with
            | error error => exact follows_refused kin stale rests finished taken own read first
            | ok step =>
                have used : process.uses setting index (.act (.request (.inject line))) =
                    some (.upTo step.branchIndents) := by
                  simp only [uses, finished, taken]
                  rw [if_pos own, read]
                  rfl
                exact follows_injected order kin stale rests finished taken own read
                  (first _ (firstUse_of_used used))
          · cases injects

/-- To prepare the runner once more drops every cursor. -/
theorem follows_restart (kin : alike process.runner.shared.world.env guise.env)
    (stale : guise.stale = some (index, scope)) (calm : process.injects (.turn 0) ≠ some index)
    (rests : process.Rests index known)
    (first : ∀ use, process.firstUse setting index (.restart :: later) = some use → use.Agrees scope known) :
    Follows setting alike guise process .restart later := by
  cases finished : process.isFinished with
  | true =>
      have ready : process.undertake setting .restart = process.runner.ready setting := by
        rw [undertake, if_pos finished]
      refine ⟨guise.plain, ?_, ?_, nofun⟩
      · rw [ready, Guise.env_ready]
        exact kin
      · rw [ready, undertake, if_pos ((guise.isFinished_process process).trans finished),
          ← Guise.process_of_spares]
        · exact guise.process_ready setting process.runner
        · intro course listed
          rw [courses_ready] at listed
          cases listed
  | false =>
      have busy : process.undertake setting .restart = process := by
        rw [undertake, finished]
        rfl
      have busy' : (guise.process process).undertake setting .restart = guise.process process := by
        rw [undertake, guise.isFinished_process, finished]
        rfl
      refine follows_of_stale guise (busy.symm ▸ kin) (by rw [busy, busy']) stale ?_
      have same : process.firstUse setting index (.restart :: later) = process.firstUse setting index later := by
        simp [firstUse, uses, finished, busy]
      rw [same] at first
      rw [busy]
      exact .resting known calm rests first

/-- Whatever is done, what nobody sees of a guise stays unseen. -/
theorem follows (respects : setting.executor.Respects alike) (order : process.InOrder)
    (kin : alike process.runner.shared.world.env guise.env)
    (unseen : ∀ index scope, guise.stale = some (index, scope) →
      Stale setting index scope process (deed :: later)) : Follows setting alike guise process deed later := by
  cases stale : guise.stale with
  | none => exact follows_plain respects kin stale deed later
  | some known =>
      obtain ⟨index, scope⟩ := known
      cases unseen index scope stale with
      | injecting cursor step call injecting own same =>
          exact follows_injecting respects order kin stale injecting own same deed later
      | resting known calm rests first =>
          by_cases owned : ∃ course ∈ process.courses, course.1.branch = index
          · cases deed with
            | act action =>
                by_cases other : process.injects action = some index
                · exact follows_injects order kin stale calm rests other first
                · cases used : process.uses setting index (.act action) with
                  | none => exact follows_unused respects order kin stale owned calm rests other used first
                  | some use =>
                      exact follows_used respects order kin stale rests other used
                        (first use (firstUse_of_used used))
            | restart => exact follows_restart kin stale calm rests first
          · have same : guise.process process = guise.plain.process process :=
              Guise.process_of_spares fun course listed =>
                spares_of_stale stale fun own => owned ⟨course, listed, own⟩
            have kin' : alike process.runner.shared.world.env guise.plain.env := kin
            have plain : Follows setting alike guise.plain process deed later :=
              follows_plain respects kin' rfl deed later
            rw [Follows, same]
            exact plain

theorem InOrder.undertake (order : process.InOrder) (deed : Deed) :
    (process.undertake setting deed).InOrder := by
  cases deed with
  | act action => exact order.perform action
  | restart =>
      rw [Process.undertake]
      split
      · exact inOrder_ready setting process.runner
      · exact order

/-- What nobody sees of a guise is not in sight. -/
theorem sight_of_unseen (setting : Setting Call Env) (isAnswer : Bool)
    (unseen : ∀ index scope, guise.stale = some (index, scope) → Stale setting index scope process later) :
    (guise.process process).sight setting isAnswer = process.sight setting isAnswer := by
  apply Guise.sight_process
  · rintro thread purpose cursor activity walking calls ⟨index, scope⟩ stale own
    cases unseen index scope stale with
    | resting known calm rests first =>
        exact calls (rests _ (List.mem_append_left _ (mem_courses_of_walk walking)) own).1
    | injecting cursor step call injecting =>
        rw [walk?, injecting] at walking
        cases walking
  · intro cursor step call injecting
    by_cases own : guise.Spares cursor.branch
    · rw [Guise.cursor_of_spares own]
    · obtain ⟨⟨index, scope⟩, stale, own⟩ : ∃ stale, guise.stale = some stale ∧ cursor.branch = stale.1 := by
        by_contra none
        exact own fun stale differs same => none ⟨stale, differs, same⟩
      cases unseen index scope stale with
      | resting known calm rests first =>
          refine absurd ?_ calm
          rw [injects, injecting]
          exact congrArg some own
      | injecting _ _ _ again _ same =>
          cases injecting.symm.trans again
          rw [cursor_of_stale stale own]
          exact same

/-- Along whatever is done, a guise shows the same as long as what it changes is read by nobody. -/
theorem sights_of_unseen (respects : setting.executor.Respects alike) (order : process.InOrder)
    (kin : alike process.runner.shared.world.env guise.env)
    (unseen : ∀ index scope, guise.stale = some (index, scope) → Stale setting index scope process later) :
    (guise.process process).sights setting later = process.sights setting later := by
  induction later generalizing process guise with
  | nil => rfl
  | cons deed later ih =>
      obtain ⟨next, kin, same, unseen⟩ := follows respects order kin unseen
      rw [sights, sights, same, Guise.isFinished_process, sight_of_unseen setting _ unseen,
        ih (order.undertake deed) kin unseen]

end Guised

end Process

end TestTree.Run
