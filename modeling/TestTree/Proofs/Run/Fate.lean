import TestTree.Proofs.Branch.Bookkeeping
import TestTree.Run.Cursor

namespace TestTree

namespace Run

/-- The result of a code body of a step or hook with this text, and the variables behind it. -/
abbrev Results := Text → Text → Variables → Except Text (Option Text) × Variables

/-- An executor of such bodies. `Computes` tells what a call computes however long it sleeps. -/
structure Executor.Functional {Call Env : Type} (executor : Executor Call Env) where
  results : Results
  Computes : Call → Text → Text → Variables → Prop
  starts : ∀ body scope, Computes (executor.start body scope) body.code body.text scope
  waits : ∀ call code text scope world time later, Computes call code text scope →
    (executor.advance call world).1 = .waiting time later → Computes later code text scope
  ends : ∀ call code text scope world value after, Computes call code text scope →
    (executor.advance call world).1 = .done value after → results code text scope = (value, after)

/-- None of its calls sleeps for ever or raises the stop token. -/
structure Executor.Pure {Call Env : Type} (executor : Executor Call Env) extends
    Functional executor where
  length : Call → Nat
  shortens : ∀ call world time later, (executor.advance call world).1 = .waiting time later →
    length later < length call
  calm : ∀ call world, (executor.advance call world).2.isStopped = world.isStopped

end Run

open Run

def Hook.failureOf (hook : Hook) : Except Text (Option Text) → Option StepError
  | .ok _ => none
  | .error message => some (hook.failure message)

def BranchStep.isByHand (step : BranchStep) : Bool :=
  step.identifiers.isToDo || step.identifiers.isManual

section Fates

variable (results : Results)

/-- All hooks after a step run; the first error stays. -/
def trailing : List Hook → Option StepError → Variables → Variables × Option StepError
  | [], error, scope => (scope, error)
  | hook :: rest, error, scope =>
      let (value, scope) := results hook.codeBlock hook.text scope
      trailing rest (error.or (hook.failureOf value)) scope

/-- The variables behind hooks before a branch; none if one of them fails. -/
def entering : List Hook → Variables → Option Variables
  | [], scope => some scope
  | hook :: rest, scope =>
      match results hook.codeBlock hook.text scope with
      | (.ok _, scope) => entering rest scope
      | (.error _, _) => none

namespace Branch

def assigning (branch : Branch) (step : BranchStep) (value : Option Text) (scope : Variables) :
    Variables × Option StepError :=
  let (scope, error) := step.assign value scope
  trailing results branch.afterEveryStep error scope

def returning (branch : Branch) (step : BranchStep) :
    Except Text (Option Text) × Variables → Variables × Option StepError
  | (.ok value, scope) => branch.assigning results step value scope
  | (.error message, scope) =>
      trailing results branch.afterEveryStep (some (step.failure message)) scope

def performing (branch : Branch) (step : BranchStep) (scope : Variables) :
    Variables × Option StepError :=
  match step.prepare scope, step.codeBlock with
  | (scope, some error), _ => trailing results branch.afterEveryStep (some error) scope
  | (scope, none), some code => branch.returning results step (results code step.text scope)
  | (scope, none), none => branch.assigning results step none scope

/-- A step behind some hooks; the first of them that fails keeps it from running. -/
def leading (branch : Branch) (step : BranchStep) : List Hook → Variables → Variables × Option StepError
  | [], scope => branch.performing results step scope
  | hook :: rest, scope =>
      match results hook.codeBlock hook.text scope with
      | (.ok _, scope) => leading branch step rest scope
      | (.error message, scope) =>
          trailing results branch.afterEveryStep (some (hook.failure message)) scope

/-- What a step with all its hooks comes to. -/
def fate (branch : Branch) (step : BranchStep) (scope : Variables) : Variables × Option StepError :=
  branch.leading results step branch.beforeEveryStep scope

/-- The variables with which a branch reaches a step; none if it ends in front of it. -/
def reaches (branch : Branch) : Nat → Option Variables
  | 0 => entering results branch.beforeEveryBranch {}
  | index + 1 =>
      match branch.reaches index, branch.steps[index]? with
      | some scope, some step =>
          if step.isByHand then none
          else
            match branch.fate results step scope with
            | (scope, none) => some scope
            | (_, some _) => none
      | _, _ => none

structure Starts (branch : Branch) (index : Nat) (step : BranchStep) (scope : Variables) : Prop where
  found : branch.steps[index]? = some step
  automatic : step.isByHand = false
  reached : branch.reaches results index = some scope

/-- The branch fails at a step. -/
def FailsAt (branch : Branch) (index : Nat) (error : StepError) : Prop :=
  ∃ step scope, branch.Starts results index step scope ∧
    (branch.fate results step scope).2 = some error

end Branch

end Fates

section Reset

variable {results : Results} (step : BranchStep)

theorem BranchStep.assign_reset (value : Option Text) (scope : Variables) :
    step.reset.assign value scope = step.assign value scope := by
  have general (assignments : List Assignment) (scope : Variables) :
      step.reset.assignAll value assignments scope = step.assignAll value assignments scope := by
    induction assignments generalizing scope with
    | nil => rfl
    | cons assignment rest ih =>
        have one : step.reset.assignOne value assignment scope =
            step.assignOne value assignment scope := rfl
        rw [assignAll, assignAll, one]
        split
        · exact ih _
        · rfl
  exact general step.assignments scope

theorem Branch.fate_reset (branch : Branch) (scope : Variables) :
    branch.fate results step.reset scope = branch.fate results step scope := by
  have assigning (value : Option Text) (scope : Variables) :
      branch.assigning results step.reset value scope = branch.assigning results step value scope := by
    rw [Branch.assigning, Branch.assigning, BranchStep.assign_reset]
  have returning (result : Except Text (Option Text) × Variables) :
      branch.returning results step.reset result = branch.returning results step result := by
    rcases result with ⟨message | value, scope⟩
    · rfl
    · exact assigning value scope
  have performing (scope : Variables) :
      branch.performing results step.reset scope = branch.performing results step scope := by
    simp only [Branch.performing, assigning, returning]
    rfl
  have leading (hooks : List Hook) (scope : Variables) :
      branch.leading results step.reset hooks scope = branch.leading results step hooks scope := by
    induction hooks generalizing scope with
    | nil => exact performing scope
    | cons hook rest ih => simp only [Branch.leading, ih]
  exact leading _ _

theorem entering_plan (hooks : List Hook) (scope : Variables) :
    entering results (hooks.map Hook.plan) scope = entering results hooks scope := by
  induction hooks generalizing scope with
  | nil => rfl
  | cons hook rest ih => simp only [List.map_cons, entering, Hook.plan, ih]

end Reset

namespace Branch

variable {results : Results} {branch other : Branch} {count : Nat}

/-- Two branches with the same hooks, but for those after the branch. -/
structure SharesHooks (branch other : Branch) : Prop where
  entry : other.beforeEveryBranch.map Hook.plan = branch.beforeEveryBranch.map Hook.plan
  before : other.beforeEveryStep = branch.beforeEveryStep
  after : other.afterEveryStep = branch.afterEveryStep

instance (branch other : Branch) : Decidable (SharesHooks branch other) :=
  decidable_of_iff (_ ∧ _ ∧ _)
    ⟨fun ⟨entry, before, after⟩ => ⟨entry, before, after⟩,
      fun ⟨entry, before, after⟩ => ⟨entry, before, after⟩⟩

/-- Two branches with the same hooks that have the same first steps. -/
structure Alike (count : Nat) (branch other : Branch) : Prop extends SharesHooks branch other where
  steps : ∀ index, index < count →
    other.steps[index]?.map BranchStep.reset = branch.steps[index]?.map BranchStep.reset

theorem alike_of_plan (same : other.plan = branch.plan) (count : Nat) : Alike count branch other := by
  refine ⟨⟨congrArg (·.beforeEveryBranch) same, congrArg (·.beforeEveryStep) same,
    congrArg (·.afterEveryStep) same⟩, fun index _ => ?_⟩
  have steps : other.steps.map BranchStep.reset = branch.steps.map BranchStep.reset :=
    congrArg (·.steps) same
  rw [← List.getElem?_map, ← List.getElem?_map, steps]

section Hooks

variable (after : other.afterEveryStep = branch.afterEveryStep)

include after

theorem assigning_congr (step : BranchStep) (value : Option Text) (scope : Variables) :
    other.assigning results step value scope = branch.assigning results step value scope := by
  rw [Branch.assigning, Branch.assigning, after]

theorem returning_congr (step : BranchStep) (result : Except Text (Option Text) × Variables) :
    other.returning results step result = branch.returning results step result := by
  rcases result with ⟨message | value, scope⟩
  · rw [Branch.returning, Branch.returning, after]
  · exact assigning_congr after step value scope

theorem leading_congr (step : BranchStep) (hooks : List Hook) (scope : Variables) :
    other.leading results step hooks scope = branch.leading results step hooks scope := by
  induction hooks generalizing scope with
  | nil => simp only [Branch.leading, performing, assigning_congr after, returning_congr after, after]
  | cons hook rest ih => simp only [Branch.leading, ih, after]

end Hooks

theorem Alike.fate (alike : Alike count branch other) {step fellow : BranchStep}
    (same : fellow.reset = step.reset) (scope : Variables) :
    other.fate results fellow scope = branch.fate results step scope := by
  rw [← fate_reset, same, Branch.fate, leading_congr alike.after, alike.before, ← Branch.fate,
    fate_reset]

theorem Alike.reaches (alike : Alike count branch other) {index : Nat} (within : index ≤ count) :
    other.reaches results index = branch.reaches results index := by
  induction index with
  | zero =>
      rw [Branch.reaches, Branch.reaches, ← entering_plan, alike.entry, entering_plan]
  | succ index ih =>
      have steps := alike.steps index (by omega)
      rw [Branch.reaches, Branch.reaches, ih (by omega)]
      cases reached : branch.reaches results index with
      | none => rfl
      | some scope =>
          cases here : branch.steps[index]? with
          | none =>
              rw [here, Option.map_none, Option.map_eq_none_iff] at steps
              rw [steps]
          | some step =>
              rw [here, Option.map_some, Option.map_eq_some_iff] at steps
              obtain ⟨fellow, found, same⟩ := steps
              have byHand : fellow.isByHand = step.isByHand := congrArg (·.isByHand) same
              simp only [found, byHand, alike.fate same]

theorem Starts.alike {index : Nat} {step : BranchStep} {scope : Variables}
    (starts : branch.Starts results index step scope) (alike : Alike (index + 1) branch other) :
    ∃ fellow, other.Starts results index fellow scope ∧ fellow.reset = step.reset := by
  have steps := alike.steps index (by omega)
  rw [starts.found, Option.map_some, Option.map_eq_some_iff] at steps
  obtain ⟨fellow, found, same⟩ := steps
  refine ⟨fellow, ⟨found, ?_, ?_⟩, same⟩
  · exact (congrArg (·.isByHand) same).trans starts.automatic
  · rw [alike.reaches (by omega)]
    exact starts.reached

theorem FailsAt.alike {index : Nat} {error : StepError}
    (fails : branch.FailsAt results index error) (alike : Alike (index + 1) branch other) :
    other.FailsAt results index error := by
  obtain ⟨step, scope, starts, failed⟩ := fails
  obtain ⟨fellow, begins, same⟩ := starts.alike alike
  refine ⟨fellow, scope, begins, ?_⟩
  rw [alike.fate same]
  exact failed

theorem reaches_earlier {index earlier : Nat} {scope : Variables}
    (reached : branch.reaches results index = some scope) (before : earlier < index) :
    ∃ step start after, branch.Starts results earlier step start ∧
      branch.fate results step start = (after, none) := by
  induction index generalizing scope with
  | zero => omega
  | succ index ih =>
      rw [Branch.reaches] at reached
      split at reached
      · next start step inner here =>
          split at reached
          · cases reached
          · next automatic =>
              split at reached
              · next passed =>
                  rcases Nat.lt_succ_iff_lt_or_eq.mp before with less | rfl
                  · exact ih inner less
                  · exact ⟨step, start, _, ⟨here, by simpa using automatic, inner⟩, passed⟩
              · cases reached
      · cases reached

theorem FailsAt.last {index other : Nat} {error : StepError} {scope : Variables}
    (fails : branch.FailsAt results index error)
    (reached : branch.reaches results other = some scope) : other ≤ index := by
  by_cases behind : other ≤ index
  · exact behind
  · obtain ⟨step, start, after, begins, passed⟩ :=
      reaches_earlier reached (Nat.lt_of_not_le behind)
    obtain ⟨failing, begun, starts, failed⟩ := fails
    obtain rfl := Option.some.inj (begins.found.symm.trans starts.found)
    obtain rfl := Option.some.inj (begins.reached.symm.trans starts.reached)
    rw [passed] at failed
    cases failed

theorem Starts.next {index : Nat} {step : BranchStep} {scope after : Variables}
    (starts : branch.Starts results index step scope)
    (passed : branch.fate results step scope = (after, none)) :
    branch.reaches results (index + 1) = some after := by
  simp only [Branch.reaches, starts.reached, starts.found, starts.automatic, passed,
    Bool.false_eq_true, if_false]

end Branch

end TestTree
