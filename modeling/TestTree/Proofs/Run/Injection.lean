import TestTree.Proofs.Branch.Frames
import TestTree.Proofs.Run.Leftovers

/-!
Injected calls. A runner at rest has every cursor in front of a step, and an injected call is resolved as if
it stood beside that step: along the frames that the earlier steps of the branch leave. All that a sibling of
the step could call can be called so. It is the same declaration unless an earlier step that the path has
left again shows one of that name, and no nearer frame does.
-/
namespace TestTree.Run

variable {Call Env : Type} {setting : Setting Call Env}

/-- A walk is paused in front of a step, or where somebody else asked it to pause. -/
theorem Walk.waits {purpose : Purpose} {cursor next : Cursor} {shared after : Shared Env} {stage : Stage}
    (walk : Walk setting purpose cursor shared stage after next (.away .paused)) :
    next.pending.isSome = true ∨ stage = .looping ∧ shared.pauseRequested = true := by
  cases walk with
  | interrupted _ requested => exact .inr ⟨rfl, requested⟩
  | paused | facing => exact .inl rfl
  | recorded index error _ goes => simp at goes

/-- The paused cursors that an operation holds. -/
def Operation.held : Operation Call → List Cursor
  | .working _ paused => paused
  | .injecting cursor _ _ => [cursor]
  | _ => []

namespace Process

variable {process after : Process Call Env} {thread : Nat} {runner : Runner Env}

/-- Every paused cursor waits in front of a step. -/
def Waiting (process : Process Call Env) : Prop :=
  ∀ cursor ∈ process.operation.held ++ process.runner.control.paused, cursor.pending.isSome = true

theorem waiting_of_unheld (unheld : process.operation.held = [])
    (waits : ∀ cursor ∈ process.runner.control.paused, cursor.pending.isSome = true) :
    process.Waiting := by
  intro cursor listed
  rw [unheld] at listed
  exact waits cursor listed

theorem waiting_enterAfterEverything (ending : Ending)
    (waits : ∀ cursor ∈ runner.control.paused, cursor.pending.isSome = true) :
    (runner.enterAfterEverything ending : Process Call Env).Waiting := by
  unfold Runner.enterAfterEverything
  split
  · exact waiting_of_unheld rfl waits
  · exact waiting_of_unheld rfl waits

theorem waiting_join {paused : List Cursor}
    (waits : ∀ cursor ∈ paused ++ runner.control.paused, cursor.pending.isSome = true) :
    (join runner paused : Process Call Env).Waiting := by
  have kept : ∀ cursor ∈ runner.control.paused, cursor.pending.isSome = true :=
    fun cursor listed => waits cursor (List.mem_append_right _ listed)
  unfold join
  split
  · exact waiting_enterAfterEverything _ kept
  · split
    · exact waiting_enterAfterEverything _ kept
    · exact waiting_of_unheld rfl fun cursor listed => waits cursor (List.mem_append_left _ listed)

theorem waiting_putBack {cursor : Cursor} {answer : Answer} (waits : cursor.pending.isSome = true)
    (others : ∀ cursor ∈ runner.control.paused, cursor.pending.isSome = true) :
    ((runner.putBack cursor).finish answer : Process Call Env).Waiting :=
  waiting_of_unheld rfl (List.forall_mem_cons.mpr ⟨waits, others⟩)

theorem waiting_afterSingle {cursor : Cursor} {departure : Departure}
    (waits : departure = .paused → cursor.pending.isSome = true)
    (others : ∀ cursor ∈ runner.control.paused, cursor.pending.isSome = true) :
    (afterSingle runner cursor departure : Process Call Env).Waiting := by
  unfold afterSingle
  split
  · next paused => exact waiting_putBack (waits paused) others
  · split
    · exact waiting_of_unheld rfl others
    · split
      · exact waiting_of_unheld rfl others
      · exact waiting_enterAfterEverything _ others

/-- A worker that leaves its cursor paused leaves it in front of a step. -/
theorem waiting_worker (quiet : process.Quiet) {workers : List (Worker Call)} {paused : List Cursor}
    {worker : Worker Call} (working : process.operation = .working workers paused)
    (found : workers[thread]? = some worker) :
    ∀ cursor ∈ (worker.turn setting process.runner.shared).paused,
      cursor.pending.isSome = true := by
  intro rested isRested
  cases worker with
  | seeking =>
      simp only [Worker.turn] at isRested
      split at isRested <;> cases isRested
  | claiming =>
      simp only [Worker.turn] at isRested
      split at isRested
      · cases isRested
      · split at isRested <;> cases isRested
  | ended => cases isRested
  | walking cursor activity =>
      have walk := Cursor.turn_walks setting .run cursor process.runner.shared activity
      dsimp only at walk
      simp only [Worker.turn] at isRested
      split at isRested
      · cases isRested
      · cases isRested
      · cases isRested
      · next turned =>
          cases isRested
          rw [turned] at walk
          cases walk.waits with
          | inl waits => exact waits
          | inr asked =>
              have unwalked := (quiet.alone workers paused working asked.2).1
              exact absurd (List.mem_of_getElem? found) (unwalked cursor activity)
      · cases isRested

theorem Waiting.turn (waiting : process.Waiting) (late : process.Late) (quiet : process.Quiet)
    (turns : Turns setting process thread after) : after.Waiting := by
  have kept : ∀ cursor ∈ process.runner.control.paused, cursor.pending.isSome = true :=
    fun cursor listed => waiting cursor (List.mem_append_right _ listed)
  cases turns with
  | rested => exact waiting
  | tended runner operation tended was aside =>
      apply waiting_of_unheld
      · cases operation with
        | working | single | injecting | finished => cases aside
        | beforeEverything | beforeHook | starting | afterEverything | afterHook | concluding => rfl
      · rw [tended.paused]
        exact kept
  | started =>
      intro cursor listed
      cases listed
  | worked workers paused worker working found =>
      intro cursor listed
      simp only [unjoined, Operation.held, List.mem_append, Option.mem_toList] at listed
      obtain (old | rests) | other := listed
      · exact waiting cursor (by rw [working]; exact List.mem_append_left _ old)
      · exact waiting_worker quiet working found cursor rests
      · exact kept cursor other
  | joined workers paused worker working found =>
      apply waiting_join
      intro cursor listed
      simp only [List.mem_append, Option.mem_toList] at listed
      obtain (old | rests) | other := listed
      · exact waiting cursor (by rw [working]; exact List.mem_append_left _ old)
      · exact waiting_worker quiet working found cursor rests
      · exact kept cursor other
  | concluded ending =>
      cases ending with
      | run | single => exact waiting_of_unheld rfl kept
      | stop =>
          apply waiting_of_unheld rfl
          intro cursor absent
          cases absent
  | walked purpose cursor activity later single => exact waiting_of_unheld rfl kept
  | departed purpose cursor activity departure single left =>
      refine waiting_afterSingle ?_ kept
      rintro rfl
      have walk := Cursor.turn_walks setting purpose cursor process.runner.shared activity
      dsimp only at walk
      rw [left] at walk
      cases walk.waits with
      | inl waits => exact waits
      | inr asked =>
          rw [Late, single] at late
          obtain ⟨_, behind⟩ := late
          rw [asked.1] at behind
          cases behind
  | delayed cursor step call later runner tended injecting =>
      intro other listed
      rw [tended.paused] at listed
      exact waiting other (by rw [injecting]; exact listed)
  | injected cursor step call runner outcome tended injecting =>
      apply waiting_putBack
      · exact waiting cursor (by rw [injecting]; exact List.mem_append_left _ (.head _))
      · rw [tended.paused]
        exact kept

theorem waiting_launch {request : Request} (waits : ∀ cursor ∈ runner.control.paused,
      cursor.pending.isSome = true) (launches : Launches setting runner request after) :
    after.Waiting := by
  cases launches with
  | refused => exact waiting_of_unheld rfl waits
  | prepared =>
      apply waiting_of_unheld rfl
      simp only [Runner.finish, Runner.init]
      split <;> exact waits
  | begun operation running opens => cases opens with
      | inl same | inr same => subst same; exact waiting_of_unheld rfl waits
  | single _ purpose cursor rest taken =>
      obtain ⟨_, others, held, rfl⟩ := takePaused_eq taken
      rw [held] at waits
      exact waiting_of_unheld rfl (List.forall_mem_cons.mp waits).2
  | injecting line cursor rest step call taken =>
      obtain ⟨_, others, held, rfl⟩ := takePaused_eq taken
      rw [held] at waits
      exact waits
  | injected line cursor rest step outcome taken =>
      obtain ⟨_, others, held, rfl⟩ := takePaused_eq taken
      rw [held, List.forall_mem_cons] at waits
      exact waiting_putBack waits.1 waits.2
  | stopped => exact waiting_enterAfterEverything _ waits

theorem waiting_after (setting : Setting Call Env) (runner : Runner Env) (lone : runner.suite.Lone)
    (schedule : List Action) : ((runner.ready setting).after setting schedule).Waiting := by
  induction schedule using List.reverseRecOn with
  | nil =>
      apply waiting_of_unheld rfl
      rw [after_nil, control_ready]
      exact nofun
  | append_singleton schedule action ih =>
      rw [after_concat]
      cases action with
      | turn thread =>
          have quiet := (quiet_after setting runner lone schedule).2
          exact ih.turn (late_after setting runner schedule) quiet (turn_turns setting _ thread)
      | request request =>
          rw [perform]
          split
          · apply waiting_launch _ (launch_launches setting _ request)
            exact fun cursor listed => ih cursor (List.mem_append_right _ listed)
          · exact ih
      | raiseStop | wait => exact ih

end Process

theorem isOk_map {α β : Type} (answer : Except TreeError α) (change : α → β) :
    (answer.map change).isOk = answer.isOk := by
  cases answer <;> rfl

/-- A line that may be injected, and that calls a function. -/
structure Callable (line : Text) (parsed : Step.ParsedLine) : Prop where
  read : Step.parseLine line none 0 = .ok parsed
  plain : (parsed.opensCode || parsed.step.identifiers.isDeclaration ||
    parsed.step.hook.isSome) = false
  calls : parsed.step.identifiers.isCall = true

/-- An injected call is given the declaration that is found along its frames. -/
theorem declaration_injectedStep (setting : Setting Call Env) (runner : Runner Env) (cursor : Cursor)
    {line : Text} {parsed : Step.ParsedLine} (callable : Callable line parsed) :
    (runner.injectedStep setting cursor line).map (·.declaration) =
      (setting.tree.resolveText parsed.step.callText (Runner.injectionPath cursor
        (Runner.injectionLead cursor (runner.shared.branch cursor.branch).steps))).map some := by
  simp only [Runner.injectedStep, callable.read, callable.plain, callable.calls, bind, Except.bind]
  cases setting.tree.resolveText parsed.step.callText (Runner.injectionPath cursor
    (Runner.injectionLead cursor (runner.shared.branch cursor.branch).steps)) with
  | error error => rfl
  | ok declaration => rfl

/-- Where a cursor waits in front of a step of its branch, an injected call is resolved beside that step,
along the frames that the steps in front of it leave. -/
theorem injectionPath_eq (runner : Runner Env) {cursor : Cursor} {steps : List BranchStep} {step : Nat}
    {here : BranchStep} {origin : NodeId} (pending : cursor.pending = some step)
    (same : (runner.shared.branch cursor.branch).steps.map BranchStep.reset = steps.map BranchStep.reset)
    (found : steps[step]? = some here) (stands : here.origin = some origin) :
    Runner.injectionPath cursor
        (Runner.injectionLead cursor (runner.shared.branch cursor.branch).steps) =
      ⟨origin, none⟩ ::
        Runner.framesAt ((steps.take step).foldl Runner.keep []) here.branchIndents := by
  have lead : Runner.callPath ((runner.shared.branch cursor.branch).steps.take (step + 1)) =
      Runner.callPath (steps.take (step + 1)) := by
    rw [← Runner.callPath_map_reset, List.map_take, same, ← List.map_take, Runner.callPath_map_reset]
  rw [Runner.injectionPath, Runner.injectionLead, pending]
  simp only [lead, Runner.callPath_take found stands]

/-- The step that a paused cursor takes next stems from the node `origin`, and `path` is the one along which an
expansion of the tree has come to it. -/
def Facing (setting : Setting Call Env) (suite : Suite) (rest : Runner Env) (cursor : Cursor)
    (origin : NodeId) (path : List Frame) : Prop :=
  ∃ (branch : Branch) (passage : Passage) (step : Nat) (here : BranchStep),
    suite.branch? cursor.branch = some branch ∧ branch.steps = passage.steps setting.tree 0 ∧
    passage.node = Tree.rootId ∧ setting.tree.Allows .whole [] passage ∧
    (cursor.take setting rest.shared).1 = some step ∧
    (passage.visits setting.tree 0 [])[step]? = some (path, here) ∧
    here.origin = some origin ∧ here.declaration = setting.tree.callee path origin

/-- A call injected there is resolved beside that node, along frames that retrace the path. Where a call beside
it refers to something along the path, so does the injected one; and unless a frame that strays is in the way,
it refers to the same, or to nothing for the same reason. -/
def InjectsBeside (setting : Setting Call Env) (rest : Runner Env) (cursor : Cursor)
    (origin : NodeId) (path : List Frame) : Prop :=
  ∃ (kept : List Frame) (marks : List (Frame × Option Frame)),
    Runner.injectionPath cursor (Runner.injectionLead cursor
      (rest.shared.branch cursor.branch).steps) = ⟨origin, none⟩ :: kept ∧
    setting.tree.Retraces path kept marks ∧
    ∀ line parsed, Callable line parsed →
      ((setting.tree.resolveBeside parsed.step.callText origin path).isOk = true →
        (rest.injectedStep setting cursor line).isOk = true) ∧
      (setting.tree.Unobstructed parsed.step.callText (setting.tree.siblings origin) marks →
        (rest.injectedStep setting cursor line).map (·.declaration) =
          (setting.tree.resolveBeside parsed.step.callText origin path).map some)

/-- A cursor that is paused waits in front of a step of its branch. -/
theorem Process.pending_of_paused {runner : Runner Env} {schedule : List Action} {cursor : Cursor}
    (lone : runner.suite.Lone)
    (isPaused : cursor ∈ ((runner.ready setting).after setting schedule).runner.control.paused) :
    ∃ step now, cursor.pending = some step ∧
      ((runner.ready setting).after setting schedule).runner.shared.suite.branch? cursor.branch =
        some now ∧ step < now.steps.length := by
  have order := Process.inOrder_after setting runner schedule
  have waiting := Process.waiting_after setting runner lone schedule
  obtain ⟨step, pending⟩ := Option.isSome_iff_exists.mp
    (waiting cursor (List.mem_append_right _ isPaused))
  obtain ⟨now, found, _, stands⟩ := order.orderly.stands cursor.resting
    (List.mem_append_right _ (List.mem_map_of_mem isPaused))
  refine ⟨step, now, pending, found, ?_⟩
  cases stands with
  | inl waits =>
      obtain ⟨other, isPending, waits⟩ := waits
      obtain rfl := Option.some.inj (pending.symm.trans isPending)
      exact waits.faces.inside
  | inr free => cases pending.symm.trans free.1

/-- Where an injected call is resolved along frames that retrace the path, it is resolved as if it stood
there. -/
theorem InjectsBeside.of_retraces {rest : Runner Env} {cursor : Cursor} {origin : NodeId}
    {path kept : List Frame} {marks : List (Frame × Option Frame)} (nested : setting.tree.Nested)
    (frames : Runner.injectionPath cursor (Runner.injectionLead cursor
      (rest.shared.branch cursor.branch).steps) = ⟨origin, none⟩ :: kept)
    (retraces : setting.tree.Retraces path kept marks) :
    InjectsBeside setting rest cursor origin path := by
  refine ⟨kept, marks, frames, retraces, ?_⟩
  intro line parsed callable
  have injected := declaration_injectedStep setting rest cursor callable
  rw [frames, Tree.resolveText_eq] at injected
  constructor
  · intro resolved
    have ok := congrArg Except.isOk injected
    rw [isOk_map, isOk_map] at ok
    exact ok.trans (retraces.resolveBeside_isOk nested resolved)
  · intro clear
    rw [injected, retraces.resolveBeside_eq nested clear]

/-- Whenever a cursor is paused in the suite of a tree, it waits in front of a step, and an injected call is
resolved as if it stood beside that step, but for the frames of steps that were left. -/
theorem Process.injectsBeside_of_paused {options : BranchOptions} {runner rest : Runner Env}
    {schedule : List Action} {cursor : Cursor} (built : setting.tree.Built)
    (generated : setting.tree.generate options = .ok runner.suite)
    (paused : ((runner.ready setting).after setting schedule).runner.takePaused = some (cursor, rest)) :
    ∃ origin path, Facing setting runner.suite rest cursor origin path ∧
      InjectsBeside setting rest cursor origin path := by
  obtain ⟨settled, nested⟩ := built.nested
  obtain ⟨_, others, held, rfl⟩ := Process.takePaused_eq paused
  obtain ⟨step, now, pending, found, inside⟩ :=
    Process.pending_of_paused (Suite.lone_of_generate generated) (held ▸ List.mem_cons_self)
  obtain ⟨branch, present, same⟩ := Process.plan_after setting runner schedule found
  have resets : now.steps.map BranchStep.reset = branch.steps.map BranchStep.reset :=
    congrArg Branch.steps same
  obtain ⟨passage, isRoot, allows, consists⟩ :=
    Selection.readable_of_generate built generated branch (List.mem_of_getElem? present)
  have visited : (passage.visits setting.tree 0 []).map Prod.snd = branch.steps :=
    (passage.steps_eq_visits setting.tree 0 []).symm.trans consists.steps.symm
  have bounded : step < (passage.visits setting.tree 0 []).length := by
    have lengths := congrArg List.length resets
    rw [List.length_map, List.length_map, ← visited, List.length_map] at lengths
    exact lengths ▸ inside
  obtain ⟨⟨path, here⟩, reached⟩ : ∃ visit, (passage.visits setting.tree 0 [])[step]? = some visit :=
    ⟨_, List.getElem?_eq_getElem bounded⟩
  have passed : branch.steps[step]? = some here := by
    rw [← visited, List.getElem?_map, reached]
    rfl
  have tracks := allows.tracked settled 0 [] (isRoot ▸ settled.root_lt) ⟨[], Tree.retraces_nil _⟩
  obtain ⟨⟨marks, retraces⟩, origin, placed, callee⟩ := tracks.reaches reached
  rw [visited] at retraces
  generalize resting : ((runner.ready setting).after setting schedule).runner.withControl
    (fun control => { control with paused := others }) = rest
  have steps : (rest.shared.branch cursor.branch).steps = now.steps := by
    rw [← resting, Shared.branch]
    exact congrArg (fun branch => (branch.getD {}).steps) found
  have frames := injectionPath_eq rest pending (steps ▸ resets) passed placed
  have taken : (cursor.take setting rest.shared).1 = some step := by rw [Cursor.take, pending]
  refine ⟨origin, path, ?_, .of_retraces nested frames retraces⟩
  exact ⟨branch, passage, step, here, present, consists.steps, isRoot, allows, taken, reached, placed,
    callee⟩

namespace Process

/-- A sequence of two steps, the second one to debug. Only below the first one a function is declared. -/
def alcove : Tree :=
  .grown ("A - ..\n    B -\n        * G \x7b\n            g\n        \x7d\n\n        E -\n\n" ++
    "    C ~ \x7b\n        c\n    \x7d")

/-- The run pauses in front of the second step of the sequence. -/
def approach : List Action := .request .run :: List.replicate 19 (.turn 0)

theorem generate_alcove : alcove.generate {} = .ok alcove.suite :=
  Tree.generate_eq_suite (by decide +kernel) (by decide +kernel)

theorem injectsBeside_of_paused_alcove :
    let setting := { executor := signals, tree := alcove, maxParallel := 1 }
    let process := ((Runner.initial alcove.suite ()).ready setting).after setting approach
    ∃ cursor rest, process.runner.takePaused = some (cursor, rest) ∧
      ∃ origin path, Facing setting alcove.suite rest cursor origin path ∧
        InjectsBeside setting rest cursor origin path := by
  intro setting process
  have present : process.runner.takePaused.isSome = true := by decide +kernel
  obtain ⟨⟨cursor, rest⟩, paused⟩ := Option.isSome_iff_exists.mp present
  exact ⟨cursor, rest, paused,
    injectsBeside_of_paused (.parseIn .empty _ _ _) generate_alcove paused⟩

/-- The function that is declared below the step that was left cannot be called beside the second step of the
sequence, which stands right below the first step of the branch. The injected call yet refers to it. -/
theorem injected_behind_left_step :
    let setting := { executor := signals, tree := alcove, maxParallel := 1 }
    let process := ((Runner.initial alcove.suite ()).ready setting).after setting approach
    alcove.generate {} = .ok alcove.suite ∧
      alcove.suite.branches.map (fun branch => branch.steps.map (·.origin)) =
        [[some 1, some 2, some 4, some 5]] ∧
      (alcove.node 5).parent = some 1 ∧ (alcove.node 1).parent = some Tree.rootId ∧
      (alcove.resolveBeside "G".toList 5 [⟨1, none⟩]).isOk = false ∧
      ∃ cursor rest, process.isFinished = true ∧
        process.runner.takePaused = some (cursor, rest) ∧
        (cursor.take setting rest.shared).1 = some 3 ∧
        (rest.injectedStep setting cursor "G".toList).toOption.bind (·.declaration) = some 3 := by
  intro setting process
  have observed : alcove.suite.branches.map (fun branch => branch.steps.map (·.origin)) =
        [[some 1, some 2, some 4, some 5]] ∧
      (alcove.node 5).parent = some 1 ∧ (alcove.node 1).parent = some Tree.rootId ∧
      (alcove.resolveBeside "G".toList 5 [⟨1, none⟩]).isOk = false ∧ process.isFinished = true ∧
      (process.runner.takePaused.any fun (cursor, rest) =>
        decide ((cursor.take setting rest.shared).1 = some 3 ∧
          (rest.injectedStep setting cursor "G".toList).toOption.bind (·.declaration) = some 3)) =
        true := by
    decide +kernel
  obtain ⟨origins, above, top, hidden, finished, pausing⟩ := observed
  obtain ⟨⟨cursor, rest⟩, paused, facing⟩ := (Option.any_eq_true _ _).mp pausing
  obtain ⟨taken, refers⟩ := of_decide_eq_true facing
  exact ⟨generate_alcove, origins, above, top, hidden, cursor, rest, finished, paused, taken, refers⟩

end Process

end TestTree.Run
