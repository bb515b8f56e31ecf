import Mathlib.Data.List.Induction
import TestTree.Run.Runner

/-!
Schedules. All that can happen to a runner once it is prepared is a list of actions: a thread has a
turn, something is asked of a runner at rest, the stop token is raised from outside, time passes. A
statement about every schedule is one about every sequence of operations and every order of turns,
and, as schedules are closed under cutting off their ends, about every moment.
-/
namespace TestTree.Run

variable {Call Env : Type}

/-- What can be asked of a runner at rest. To prepare is to do so once more, outcomes being kept. -/
inductive Request
  | prepare
  | run
  | step
  | skip
  | inject (line : Text)
  | stop
deriving DecidableEq, Repr

def Request.launch (setting : Setting Call Env) (runner : Runner Env) : Request → Process Call Env
  | prepare => (runner.init setting false).finish .nothing
  | run => runner.run
  | step => runner.runOneStep
  | skip => runner.skipOneStep
  | inject line => runner.inject setting line
  | stop => runner.stop

inductive Action
  | turn (thread : Nat)
  | request (request : Request)
  | raiseStop
  | wait (milliseconds : Nat)
deriving DecidableEq, Repr

def Action.isRequest : Action → Bool
  | .request _ => true
  | _ => false

/-- The runner just after its first preparation. -/
def Runner.ready (setting : Setting Call Env) (runner : Runner Env) : Process Call Env :=
  (runner.init setting true).finish .nothing

namespace Process

def suite (process : Process Call Env) : Suite := process.runner.suite

def isStopped (process : Process Call Env) : Bool := process.runner.shared.world.isStopped

/-- One action. A request made of a busy runner waits, and so changes nothing. -/
def perform (setting : Setting Call Env) (process : Process Call Env) : Action → Process Call Env
  | .turn thread => (process.turn setting thread).1
  | .request request =>
      if process.isFinished then request.launch setting process.runner else process
  | .raiseStop => process.raiseStop
  | .wait milliseconds =>
      { process with runner := { process.runner with now := process.runner.now + milliseconds } }

def after (setting : Setting Call Env) (process : Process Call Env) (schedule : List Action) :
    Process Call Env :=
  schedule.foldl (perform setting) process

/-- What an observer notes of each action along a schedule, in order. -/
def history {α : Type} (setting : Setting Call Env)
    (observe : Process Call Env → Action → Option α) (process : Process Call Env) :
    List Action → List α
  | [] => []
  | action :: rest =>
      (observe process action).toList ++ (process.perform setting action).history setting observe rest

/-- The walk along a branch that a turn of the thread goes on with. -/
def walk? (process : Process Call Env) (thread : Nat) :
    Option (Purpose × Cursor × Activity Call) :=
  match process.operation with
  | .working workers _ =>
      match workers[thread]? with
      | some (.walking cursor activity) => some (.run, cursor, activity)
      | _ => none
  | .single purpose cursor activity => some (purpose, cursor, activity)
  | _ => none

/-- The branch that an action claims. -/
def claimed (process : Process Call Env) : Action → Option Nat
  | .turn thread =>
      match process.operation with
      | .working workers _ =>
          match workers[thread]? with
          | some .claiming => process.suite.nextBranch
          | _ => none
      | _ => none
  | _ => none

end Process

/-- The body that an activity runs. -/
def Activity.role? (branch : Nat) : Activity Call → Option Role
  | .beforeBranch index _ => some (.beforeBranch branch index)
  | .beforeStep step index _ => some (.beforeStep branch step index)
  | .body step _ => some (.step branch step)
  | .afterStep step index _ _ => some (.afterStep branch step index)
  | .afterBranch index _ => some (.afterBranch branch index)
  | _ => none

namespace Process

def role? (process : Process Call Env) (thread : Nat) : Option Role :=
  match process.operation with
  | .beforeHook index _ => some (.beforeEverything index)
  | .afterHook index _ _ => some (.afterEverything index)
  | .injecting cursor _ _ => some (.injected cursor.branch)
  | _ => (process.walk? thread).bind fun (_, cursor, activity) => activity.role? cursor.branch

/-- The body that an action hands to the executor. A body that sleeps was handed over before. -/
def handed (setting : Setting Call Env) (process : Process Call Env) : Action → Option Role
  | .turn thread =>
      match process.turn setting thread with
      | (next, none) => next.role? thread
      | (_, some _) => none
  | .request request =>
      if process.isFinished then (request.launch setting process.runner).role? 0 else none
  | _ => none

/-- The branch and the step in front of which a run decides to pause. -/
def pausedBefore (setting : Setting Call Env) (process : Process Call Env) :
    Action → Option (Nat × Nat)
  | .turn thread =>
      match process.walk? thread with
      | some (purpose, cursor, .taking) =>
          let move := cursor.turn setting purpose process.runner.shared (.taking : Activity Call)
          match move.turn with
          | .left .paused => move.cursor.pending.map fun step => (cursor.branch, step)
          | _ => none
      | _ => none
  | _ => none

/-- The branch and the step that an action skips. -/
def skippedStep (process : Process Call Env) : Action → Option (Nat × Nat)
  | .turn thread =>
      match process.walk? thread with
      | some (_, cursor, .skipping step) => some (cursor.branch, step)
      | _ => none
  | _ => none

/-- The branch along which an action injects a step, or goes on with an injected one. -/
def injects (process : Process Call Env) : Action → Option Nat
  | .turn _ =>
      match process.operation with
      | .injecting cursor _ _ => some cursor.branch
      | _ => none
  | .request (.inject _) =>
      if process.isFinished then process.runner.takePaused.map fun taken => taken.1.branch else none
  | _ => none

variable {setting : Setting Call Env} {process : Process Call Env}

@[simp] theorem after_nil : process.after setting [] = process := rfl

theorem after_append (first second : List Action) :
    process.after setting (first ++ second) = (process.after setting first).after setting second :=
  List.foldl_append

theorem after_concat (schedule : List Action) (action : Action) :
    process.after setting (schedule ++ [action]) =
      (process.after setting schedule).perform setting action := by
  simp [after]

theorem history_append {α : Type} (observe : Process Call Env → Action → Option α)
    (first second : List Action) :
    process.history setting observe (first ++ second) =
      process.history setting observe first ++
        (process.after setting first).history setting observe second := by
  induction first generalizing process with
  | nil => rfl
  | cons action rest ih => simp [history, ih, after]

theorem history_concat {α : Type} (observe : Process Call Env → Action → Option α)
    (schedule : List Action) (action : Action) :
    process.history setting observe (schedule ++ [action]) =
      process.history setting observe schedule ++
        (observe (process.after setting schedule) action).toList := by
  simp [history_append, history]

end Process

end TestTree.Run
