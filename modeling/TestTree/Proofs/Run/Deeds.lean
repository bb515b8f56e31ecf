import TestTree.Proofs.Run.Nearing

/-!
What is seen of a runner that goes on, and what that needs of the variables of one branch. A deed is an action or
another first preparation; behind each of them an observer sees the branches, what the runner tells, the answer
of what has come to its end, and every body in progress with the variables that it was given.

The hooks around a branch and around its steps are given all variables of the cursor. To begin a step drops what is
deeper than the step, so it needs no more than the variables of the levels up to its own.
-/
namespace TestTree.Run

variable {Call Env : Type}

/-- What is done with a runner: an action, or to prepare it for a first run once more. -/
inductive Deed
  | act (action : Action)
  | restart
deriving DecidableEq, Repr

/-- Whether a deed has an answer of its own. -/
def Deed.asks : Deed → Bool
  | .act action => action.isRequest
  | .restart => true

/-- What is seen behind a deed. A body in progress is shown with the variables of its cursor; those of the hooks
around all branches are nobody's. -/
structure Sight (Call : Type) where
  suite : Suite
  persistent : Bindings
  isStopped : Bool
  snapshot : Snapshot
  answer : Option Answer
  running : List (Nat × Option (Role × Call × Option Variables))

/-- The body that an activity has in progress. -/
def Activity.running? (cursor : Cursor) (activity : Activity Call) : Option (Role × Call × Option Variables) :=
  match activity.role? cursor.branch, activity.call? with
  | some role, some call => some (role, call, some cursor.scope)
  | _, _ => none

namespace Process

/-- One deed. A busy runner is not prepared. -/
def undertake (setting : Setting Call Env) (process : Process Call Env) : Deed → Process Call Env
  | .act action => process.perform setting action
  | .restart => if process.isFinished then process.runner.ready setting else process

def answer? (process : Process Call Env) : Option Answer :=
  match process.operation with
  | .finished answer => some answer
  | _ => none

/-- The body that a thread has in progress. -/
def running? (process : Process Call Env) (thread : Nat) : Option (Role × Call × Option Variables) :=
  match process.operation with
  | .beforeHook index call => some (.beforeEverything index, call, none)
  | .afterHook index call _ => some (.afterEverything index, call, none)
  | .injecting cursor step call =>
      some (.injected cursor.branch, call, some (step.prepare cursor.scope).1)
  | _ => (process.walk? thread).bind fun (_, cursor, activity) => activity.running? cursor

/-- What is seen of a process that a deed has led to. -/
def sight (setting : Setting Call Env) (process : Process Call Env) (isAnswer : Bool) : Sight Call :=
  { suite := process.suite
    persistent := process.runner.shared.world.persistent
    isStopped := process.isStopped
    snapshot := process.runner.snapshot setting
    answer := if isAnswer then process.answer? else none
    running := process.threads.map fun thread => (thread, process.running? thread) }

/-- All that is seen along some deeds. The answer of a process is shown once. -/
def sights (setting : Setting Call Env) (process : Process Call Env) : List Deed → List (Sight Call)
  | [] => []
  | deed :: later =>
      let next := process.undertake setting deed
      next.sight setting (!process.isFinished || deed.asks) :: next.sights setting later

end Process

/-- What is needed of the variables of a cursor: all, or those of the levels up to one. -/
inductive Use
  | whole
  | upTo (level : Nat)
deriving DecidableEq, Repr

/-- Whether variables are the same as far as they are needed. -/
def Use.Agrees (scope other : Variables) : Use → Prop
  | whole => scope = other
  | upTo level => scope.enter level = other.enter level

namespace Cursor

/-- What a turn needs of the variables. -/
def uses (cursor : Cursor) (shared : Shared Env) : Activity Call → Option Use
  | .opening => (shared.branch cursor.branch).beforeEveryBranch.head?.map fun _ => .whole
  | .preparing step =>
      let branch := shared.branch cursor.branch
      if branch.beforeEveryStep.isEmpty then
        branch.steps[step]?.map fun branchStep => .upTo branchStep.branchIndents
      else some .whole
  | .closing => (shared.branch cursor.branch).afterEveryBranch.head?.map fun _ => .whole
  | .beforeBranchFailed _ _ | .looping | .taking | .skipping _ | .marking _ _ | .lookingAhead => none
  | .beforeBranch _ _ | .beforeStep _ _ _ | .body _ _ | .afterStep _ _ _ _ | .afterBranch _ _
  | .afterBranchFailed _ _ => some .whole

end Cursor

namespace Process

/-- What a deed needs of the variables of the branch at `index`. -/
def uses (setting : Setting Call Env) (index : Nat) (process : Process Call Env) : Deed → Option Use
  | .act (.turn thread) =>
      match process.walk? thread with
      | some (_, cursor, activity) =>
          if cursor.branch = index then cursor.uses process.runner.shared activity else none
      | none => none
  | .act (.request (.inject line)) =>
      match process.isFinished, process.runner.takePaused with
      | true, some (cursor, rest) =>
          if cursor.branch = index then
            (rest.injectedStep setting cursor line).toOption.map fun step => .upTo step.branchIndents
          else none
      | _, _ => none
  | _ => none

/-- What is first needed of the variables of the branch at `index`, unless the runner is prepared once more before
that. -/
def firstUse (setting : Setting Call Env) (index : Nat) (process : Process Call Env) :
    List Deed → Option Use
  | [] => none
  | deed :: later =>
      if deed = .restart ∧ process.isFinished = true then none
      else
        match process.uses setting index deed with
        | some use => some use
        | none => (process.undertake setting deed).firstUse setting index later

end Process

end TestTree.Run
