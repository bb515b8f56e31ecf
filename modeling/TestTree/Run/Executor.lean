import TestTree.Branch.Basic
import TestTree.Variables

/-!
Executors. The code bodies of steps and hooks are handed to an executor, which advances each of them
in one or more turns; between two turns of one body, others may have theirs. A body has variables of
its own, and shares the world with all others.
-/
namespace TestTree.Run

inductive Role
  | beforeEverything (index : Nat)
  | afterEverything (index : Nat)
  | beforeBranch (branch index : Nat)
  | afterBranch (branch index : Nat)
  | beforeStep (branch step index : Nat)
  | afterStep (branch step index : Nat)
  | step (branch step : Nat)
  | injected (branch : Nat)
deriving DecidableEq, Repr

/-- A code body, with the text and the place of the line it belongs to. -/
structure Body where
  role : Role
  code : Text
  text : Text
  filename : Option Text
  lineNumber : Nat
deriving DecidableEq, Repr

/-- What all bodies share: named values that outlast a body, whether the run is to stop, and the
surroundings `Env` that only the executor knows. -/
structure World (Env : Type) where
  persistent : Bindings := []
  isStopped : Bool := false
  env : Env

/-- What a turn leads to: a pause of some milliseconds, or the end with a value or a message. -/
inductive Reply (Call : Type)
  | waiting (milliseconds : Nat) (call : Call)
  | done (result : Except Text (Option Text)) (scope : Variables)

/-- A way to run bodies; `Call` is a body in progress. -/
structure Executor (Call Env : Type) where
  start : Body → Variables → Call
  advance : Call → World Env → Reply Call × World Env

end Run

open Run

def Hook.body (hook : Hook) (role : Role) : Body :=
  { role
    code := hook.codeBlock
    text := hook.text
    filename := hook.filename
    lineNumber := hook.lineNumber }

def Hook.failure (hook : Hook) (message : Text) : StepError :=
  ⟨message, hook.filename, some hook.lineNumber⟩

namespace BranchStep

def body (step : BranchStep) (role : Role) (code : Text) : Body :=
  { role, code, text := step.text, filename := step.filename, lineNumber := step.lineNumber }

def failure (step : BranchStep) (message : Text) : StepError :=
  ⟨message, step.filename, some step.lineNumber⟩

/-- Brings the variables to the level of the step and binds its parameters. -/
def prepare (step : BranchStep) (scope : Variables) : Variables × Option StepError :=
  let entered := scope.enter step.branchIndents
  if step.bindings.isEmpty then (entered, none)
  else
    match entered.bindParams step.branchIndents step.bindings with
    | .ok bound => (bound, none)
    | .error unknown => (entered, some (step.failure unknown.message))

/-- Sets one variable; `value` is what the code of the step returned. -/
def assignOne (step : BranchStep) (value : Option Text) (assignment : Assignment)
    (scope : Variables) : Except UnknownVariable Variables := do
  let resolved ←
    match assignment.value with
    | .literal literal => scope.substitute literal
    | .call _ => pure (value.getD [])
  return if assignment.isLocal then
      scope.setLocalAt step.branchIndents assignment.name resolved
    else scope.set assignment.name resolved false

/-- Sets variables until one cannot be set. -/
def assignAll (step : BranchStep) (value : Option Text) :
    List Assignment → Variables → Variables × Option StepError
  | [], scope => (scope, none)
  | assignment :: rest, scope =>
      match step.assignOne value assignment scope with
      | .ok scope => step.assignAll value rest scope
      | .error unknown => (scope, some (step.failure unknown.message))

def assign (step : BranchStep) (value : Option Text) (scope : Variables) :
    Variables × Option StepError :=
  step.assignAll value step.assignments scope

end BranchStep

end TestTree
