import TestTree.Proofs.Run.Staleness
import TestTree.Proofs.Run.Safety

/-!
What an injection leaves behind. A paused cursor is given to the injected step and taken back behind it, with the
variables that the step was prepared with: what is deeper than the step is dropped, and the parameters of an
injected call stay as a frame of their own. Nothing else is left of a line that is refused, or of a step that
assigns nothing and whose body changes neither variables nor persistent values nor the stop token.

So a runner behind an injection is one in a guise, in which that cursor has other variables. It goes on as if
there had been no injection, as long as those are replaced before they are read: whatever is done first with the
variables of the branch must find them the same, as far as it needs them. To begin a step that is not deeper than
the injected one needs no more than what an injection leaves alone (`BranchStep.enter_prepare`). A hook, or a
deeper step behind one that is skipped, sees the difference.
-/
namespace TestTree.Run

variable {Call Env : Type} {setting : Setting Call Env} {alike : Env → Env → Prop}

/-- How a body ends that is run alone: its variables, and the world behind it. -/
inductive Executor.Ends (executor : Executor Call Env) : Call → World Env → Variables → World Env → Prop
  | done {call : Call} {world after : World Env} {result : Except Text (Option Text)} {scope : Variables}
      (advances : executor.advance call world = (.done result scope, after)) : Ends executor call world scope after
  | later {call next : Call} {world between after : World Env} {time : Nat} {scope : Variables}
      (advances : executor.advance call world = (.waiting time next, between))
      (ends : Ends executor next between scope after) : Ends executor call world scope after

/-- A step to inject that assigns nothing, and whose body, if it comes to that, leaves variables, persistent values
and stop token as they are, and the surroundings as good as they are. -/
structure Harmless (setting : Setting Call Env) (alike : Env → Env → Prop) (world : World Env)
    (cursor : Cursor) (step : BranchStep) : Prop where
  unassigned : step.assignments = []
  untouched : ∀ bound code, step.prepare cursor.scope = (bound, none) → step.codeBlock = some code →
    ∀ scope after, setting.executor.Ends
        (setting.executor.start (step.body (.injected cursor.branch) code) bound) world scope after →
      scope = bound ∧ after.persistent = world.persistent ∧ after.isStopped = world.isStopped ∧
        alike world.env after.env

/-- Whether nothing happens but that time passes. -/
def Action.passes : Action → Bool
  | .wait _ => true
  | _ => false

namespace Process

variable {process : Process Call Env} {schedule : List Action} {later : List Deed}

theorem after_cons (action : Action) (schedule : List Action) :
    process.after setting (action :: schedule) = (process.perform setting action).after setting schedule := rfl

/-- A process that only waits is a matter of the time. -/
theorem after_passing (setting : Setting Call Env) (schedule : List Action) :
    ∃ time, ∀ process : Process Call Env, process.after setting (schedule.filter Action.passes) =
      { process with runner := { process.runner with now := process.runner.now + time } } := by
  induction schedule with
  | nil => exact ⟨0, fun _ => rfl⟩
  | cons action schedule ih =>
      obtain ⟨time, waits⟩ := ih
      cases action with
      | wait milliseconds =>
          refine ⟨milliseconds + time, fun process => ?_⟩
          rw [List.filter_cons_of_pos rfl, after_cons, waits, perform, ← Nat.add_assoc]
      | turn | request | raiseStop => exact ⟨time, waits⟩

/-- Nobody else does anything: there are turns, and time passes. -/
def Alone (schedule : List Action) : Prop := ∀ action ∈ schedule, action.isRequest = false ∧ action ≠ .raiseStop

theorem after_of_isFinished (finished : process.isFinished = true) (alone : Alone schedule) :
    process.after setting schedule = process.after setting (schedule.filter Action.passes) := by
  induction schedule generalizing process with
  | nil => rfl
  | cons action schedule ih =>
      obtain ⟨own, others⟩ := List.forall_mem_cons.mp alone
      cases action with
      | turn thread =>
          rw [after_cons, perform_of_isFinished setting finished, ih finished others]
          rfl
      | wait milliseconds =>
          rw [after_cons, List.filter_cons_of_pos rfl, after_cons, ih _ others]
          exact finished
      | request => cases own.1
      | raiseStop => exact absurd rfl own.2

theorem after_injecting {runner : Runner Env} {cursor : Cursor} {step : BranchStep} {call : Call}
    (unassigned : step.assignments = []) (alone : Alone schedule)
    (finished : ((⟨runner, .injecting cursor step call⟩ : Process Call Env).after setting
      schedule).isFinished = true) :
    ∃ scope error world, setting.executor.Ends call runner.shared.world scope world ∧
      (⟨runner, .injecting cursor step call⟩ : Process Call Env).after setting schedule =
        (({ runner with shared := { runner.shared with world } } : Runner Env).finishInjection cursor step
          (scope, error)).after setting (schedule.filter Action.passes) := by
  induction schedule generalizing runner call with
  | nil => cases finished
  | cons action schedule ih =>
      obtain ⟨own, others⟩ := List.forall_mem_cons.mp alone
      cases action with
      | turn thread =>
          rw [after_cons] at finished ⊢
          rcases advanced : setting.executor.advance call runner.shared.world with
            ⟨⟨time, next⟩ | ⟨message | value, scope⟩, world⟩
          · simp only [perform, turn, Shared.advance, advanced] at finished ⊢
            obtain ⟨scope, error, after, ends, same⟩ := ih others finished
            exact ⟨scope, error, after, .later advanced ends, same⟩
          · simp only [perform, turn, Shared.advance, advanced]
            exact ⟨scope, some (step.failure message), world, .done advanced, after_of_isFinished rfl others⟩
          · simp only [perform, turn, Shared.advance, advanced, BranchStep.assign, unassigned,
              BranchStep.assignAll]
            exact ⟨scope, none, world, .done advanced, after_of_isFinished rfl others⟩
      | wait milliseconds =>
          obtain ⟨scope, error, world, ends, same⟩ := ih others finished
          exact ⟨scope, error, world, ends, same⟩
      | request => cases own.1
      | raiseStop => exact absurd rfl own.2

/-- An injected step comes to an end that leaves the cursor with the variables that the step was prepared with. -/
theorem after_enact {rest : Runner Env} {cursor : Cursor} {step : BranchStep} (refl : ∀ env, alike env env)
    (harmless : Harmless setting alike rest.shared.world cursor step) (alone : Alone schedule)
    (finished : ((rest.enact setting cursor step).after setting schedule).isFinished = true) :
    ∃ env error, alike rest.shared.world.env env ∧ (rest.enact setting cursor step).after setting schedule =
      (({ rest with shared := rest.shared.within env } : Runner Env).finishInjection cursor step
        ((step.prepare cursor.scope).1, error)).after setting (schedule.filter Action.passes) := by
  have untouched := harmless.untouched
  unfold Runner.enact at finished ⊢
  rcases prepared : step.prepare cursor.scope with ⟨bound, _ | error⟩
  · cases coded : step.codeBlock with
    | none =>
        refine ⟨rest.shared.world.env, none, refl _, ?_⟩
        simp only [BranchStep.assign, harmless.unassigned, BranchStep.assignAll]
        exact after_of_isFinished rfl alone
    | some code =>
        simp only [prepared, coded] at finished
        obtain ⟨scope, error, world, ends, same⟩ := after_injecting harmless.unassigned alone finished
        obtain ⟨rfl, persistent, stopped, kin⟩ := untouched bound code prepared coded scope world ends
        obtain ⟨_, _, env⟩ := world
        cases persistent
        cases stopped
        exact ⟨env, error, kin, same⟩
  · exact ⟨rest.shared.world.env, some error, refl _, after_of_isFinished rfl alone⟩

/-- Of a runner at rest the answer that it gave last is not seen again. -/
theorem sights_finish (setting : Setting Call Env) (runner : Runner Env) (answer another : Answer)
    (later : List Deed) :
    (runner.finish another : Process Call Env).sights setting later =
      (runner.finish answer : Process Call Env).sights setting later := by
  induction later generalizing runner with
  | nil => rfl
  | cons deed later ih =>
      cases deed with
      | restart => rfl
      | act action =>
          cases action with
          | request => rfl
          | turn | raiseStop | wait => exact congrArg (List.cons _) (ih _)

section Injected

variable {cursor : Cursor} {rest : Runner Env} {step : BranchStep}

/-- Behind an injection a runner is one at rest in a guise: its first cursor has the variables that the step was
prepared with. -/
theorem finishInjection_eq (order : process.InOrder) (finished : process.isFinished = true)
    (taken : process.runner.takePaused = some (cursor, rest)) (env : Env) (scope : Variables)
    (error : Option StepError) :
    (({ rest with shared := rest.shared.within env } : Runner Env).finishInjection cursor step (scope, error) :
        Process Call Env) =
      (({ env, stale := some (cursor.branch, scope) } : Guise Env).runner process.runner).finish
        (.step (Runner.injectedOutcome step error)) := by
  have apart := order.apart_of_taken finished taken
  obtain ⟨-, waiting, held, rfl⟩ := takePaused_eq taken
  have others : waiting.map ({ env, stale := some (cursor.branch, scope) } : Guise Env).cursor = waiting :=
    Guise.map_cursor_of_spares fun other listed => spares_of_stale rfl (apart other listed)
  have own : ({ env, stale := some (cursor.branch, scope) } : Guise Env).cursor cursor = { cursor with scope } :=
    cursor_of_stale rfl rfl
  simp only [Guise.runner, held, List.map_cons, others, own]
  rfl

/-- The first cursor of a runner at rest may have other variables, if they are not read as long as they differ. -/
theorem stale_of_rest (order : process.InOrder) (finished : process.isFinished = true)
    {others : List (Course Call)} (held : process.courses = cursor.pausing :: others)
    {scope : Variables} (unread : ∀ use, process.firstUse setting cursor.branch later = some use →
      use.Agrees scope cursor.scope) : Stale setting cursor.branch scope process later := by
  refine .resting cursor.scope ?_ ?_ unread
  · obtain ⟨answer, rests⟩ := operation_of_isFinished finished
    rw [injects, rests]
    intro holds
    cases holds
  · intro course listed own
    rw [held] at listed
    rcases List.mem_cons.mp listed with rfl | other
    · exact ⟨rfl, rfl⟩
    · have perm : process.courses.Perm (cursor.pausing :: others) := .of_eq held
      exact absurd own (order.apart perm other)

end Injected

/-- Let a line be injected along a paused cursor, alone, until it is refused or its body is through. Everything
that is seen from there on is as if it had not been injected, but for the time that passed: the line was refused,
or its step is harmless and the first that needs variables of the branch finds them the same. -/
theorem sights_after_injection (respects : setting.executor.Respects alike) {runner : Runner Env}
    {before middle : List Action} (reached : (runner.ready setting).after setting before = process)
    (finished : process.isFinished = true) {cursor : Cursor} {rest : Runner Env}
    (taken : process.runner.takePaused = some (cursor, rest)) {line : Text} (alone : Alone middle)
    (ended : ((process.perform setting (.request (.inject line))).after setting middle).isFinished = true)
    (harmless : ∀ step, rest.injectedStep setting cursor line = .ok step →
      Harmless setting alike rest.shared.world cursor step)
    (unread : ∀ step, rest.injectedStep setting cursor line = .ok step → ∀ use,
      (process.after setting (middle.filter Action.passes)).firstUse setting cursor.branch later = some use →
        use.Agrees (step.prepare cursor.scope).1 cursor.scope) :
    ((process.perform setting (.request (.inject line))).after setting middle).sights setting later =
      (process.after setting (middle.filter Action.passes)).sights setting later := by
  obtain ⟨time, waits⟩ := after_passing setting middle
  have order : process.InOrder := reached ▸ inOrder_after setting runner before
  obtain ⟨answer, rests⟩ := operation_of_isFinished finished
  rw [perform_inject finished] at ended ⊢
  cases read : rest.injectedStep setting cursor line with
  | error error =>
      rw [Runner.inject_of_error taken read, after_of_isFinished rfl alone, waits, waits]
      obtain ⟨runner, _⟩ := process
      cases rests
      exact sights_finish setting _ answer _ later
  | ok step =>
      rw [Runner.inject_of_ok taken read] at ended ⊢
      obtain ⟨env, error, kin, same⟩ := after_enact respects.refl (harmless step read) alone ended
      rw [same, finishInjection_eq order finished taken, waits]
      rw [waits] at unread ⊢
      have order : (process.perform setting (.wait time)).InOrder := order.perform (.wait time)
      have held := courses_of_taken finished taken
      obtain ⟨-, waiting, -, rfl⟩ := takePaused_eq taken
      obtain ⟨runner, _⟩ := process
      cases rests
      let guise : Guise Env := { env, stale := some (cursor.branch, (step.prepare cursor.scope).1) }
      let waited : Process Call Env := ⟨{ runner with now := runner.now + time }, .finished answer⟩
      have unseen : ∀ index scope, guise.stale = some (index, scope) → Stale setting index scope waited later := by
        rintro _ _ ⟨⟩
        exact stale_of_rest order rfl held (unread step read)
      exact (sights_finish setting _ answer _ later).trans (sights_of_unseen respects order kin unseen)

/-- One step, to debug, that calls a function with a step of its own. Another function takes a parameter. -/
def yard : Tree :=
  .grown ("F ~\n\n* G \x7b\x7bq\x7d\x7d \x7b\n    g\n\x7d\n\n" ++ "* F\n    A \x7b\n        a\n    \x7d")

/-- The run pauses in front of the call. -/
def entrance : List Action := .request .run :: List.replicate 7 (.turn 0)

/-- Both steps are run, one by one. -/
def onward : List Deed :=
  let first : List Action := .request .step :: List.replicate 4 (.turn 0)
  let second : List Action := .request .step :: List.replicate 2 (.turn 0)
  (first ++ second).map .act

/-- The call is skipped, and the step in the body of its function is run. -/
def aside : List Deed :=
  let first : List Action := .request .skip :: List.replicate 3 (.turn 0)
  let second : List Action := .request .step :: List.replicate 2 (.turn 0)
  (first ++ second).map .act

theorem generate_yard : yard.generate {} = .ok yard.suite :=
  Tree.generate_eq_suite (by decide +kernel) (by decide +kernel)

theorem harmless_silent (tree : Tree) {world : World Unit} {cursor : Cursor} {step : BranchStep}
    (unassigned : step.assignments = []) :
    Harmless { executor := silent, tree, maxParallel := 1 } Eq world cursor step where
  unassigned := unassigned
  untouched bound code _ _ scope after ends := by
    cases ends with
    | done advances =>
        cases advances
        exact ⟨rfl, rfl, rfl, rfl⟩
    | later advances => cases advances

/-- In front of the call another one is injected. -/
theorem paused_yard :
    let setting := { executor := silent, tree := yard, maxParallel := 1 }
    let process := ((Runner.initial yard.suite ()).ready setting).after setting entrance
    process.isFinished = true ∧ ∃ cursor rest, process.runner.takePaused = some (cursor, rest) ∧
      cursor.branch = 0 ∧ ∃ step, rest.injectedStep setting cursor "G 'x'".toList = .ok step ∧
        Harmless setting Eq rest.shared.world cursor step := by
  intro setting process
  have observed : process.isFinished = true ∧ (process.runner.takePaused.any fun (cursor, rest) =>
      decide (cursor.branch = 0) && (rest.injectedStep setting cursor "G 'x'".toList).toOption.any
        fun step => step.assignments.isEmpty) = true := by
    decide +kernel
  obtain ⟨finished, pausing⟩ := observed
  obtain ⟨⟨cursor, rest⟩, taken, facing⟩ := (Option.any_eq_true _ _).mp pausing
  obtain ⟨own, accepts⟩ := (Bool.and_eq_true_iff).mp facing
  cases read : rest.injectedStep setting cursor "G 'x'".toList with
  | error error =>
      rw [read] at accepts
      cases accepts
  | ok step =>
      rw [read] at accepts
      exact ⟨finished, cursor, rest, taken, of_decide_eq_true own, step, read,
        harmless_silent yard (List.isEmpty_iff.mp accepts)⟩

/-- To run the call drops the parameter of the call that was injected in front of it. -/
theorem sights_after_injection_yard :
    let setting := { executor := silent, tree := yard, maxParallel := 1 }
    let process := ((Runner.initial yard.suite ()).ready setting).after setting entrance
    let injected := (process.perform setting (.request (.inject "G 'x'".toList))).after setting [.turn 0]
    process.firstUse setting 0 onward = some (.upTo 0) ∧
      injected.sights setting onward = process.sights setting onward := by
  intro setting process injected
  have uses : process.firstUse setting 0 onward = some (.upTo 0) := by decide +kernel
  obtain ⟨finished, cursor, rest, taken, own, step, read, harmless⟩ := paused_yard
  refine ⟨uses, sights_after_injection (Executor.respects_eq silent) rfl finished taken ?_ ?_ ?_ ?_⟩
  · simp [Alone, Action.isRequest]
  · decide +kernel
  · intro other again
    cases read.symm.trans again
    exact harmless
  · intro other again use first
    rw [own] at first
    cases uses.symm.trans first
    exact other.enter_prepare cursor.scope (Nat.zero_le _)

/-- When the call is skipped, the step in the body of its function can read the parameter of the call that was
injected in front of it. -/
theorem injected_parameter_seen :
    let setting := { executor := silent, tree := yard, maxParallel := 1 }
    let process := ((Runner.initial yard.suite ()).ready setting).after setting entrance
    let injected := (process.perform setting (.request (.inject "G 'x'".toList))).after setting [.turn 0]
    yard.generate {} = .ok yard.suite ∧ process.isFinished = true ∧ injected.isFinished = true ∧
      (∃ cursor rest step, process.runner.takePaused = some (cursor, rest) ∧
        rest.injectedStep setting cursor "G 'x'".toList = .ok step ∧
        Harmless setting Eq rest.shared.world cursor step) ∧
      injected.sights setting aside ≠ process.sights setting aside := by
  intro setting process injected
  obtain ⟨finished, cursor, rest, taken, -, step, read, harmless⟩ := paused_yard
  let shows (sights : List (Sight Variables)) : Bool := sights.any fun sight => sight.running.any fun (_, body) =>
    body.any fun (_, _, scope) => scope.any fun scope => scope.get? "q".toList true == some "x".toList
  have ends : injected.isFinished = true := by decide +kernel
  have traced : shows (injected.sights setting aside) = true := by decide +kernel
  have clear : shows (process.sights setting aside) = false := by decide +kernel
  refine ⟨generate_yard, finished, ends, ⟨cursor, rest, step, taken, read, harmless⟩, fun same => ?_⟩
  rw [same, clear] at traced
  cases traced

end Process

end TestTree.Run
