import TestTree.Branch.Basic

namespace TestTree

/-- Changes the element at an index; out of range nothing happens. -/
def setAt {α : Type} (change : α → α) : Nat → List α → List α
  | _, [] => []
  | 0, x :: rest => change x :: rest
  | index + 1, x :: rest => x :: setAt change index rest

namespace Branch

/-- Claimed and not at its end. -/
def isActive (branch : Branch) : Bool := branch.status.isRunning && !branch.status.isCompleted

/-- Neither claimed nor at its end. -/
def isIdle (branch : Branch) : Bool := !branch.status.isRunning && !branch.status.isCompleted

/-- Idle, and not known to have passed in the previous run. -/
def isWaiting (branch : Branch) : Bool := branch.isIdle && !branch.passedLastTime

def firstFailure (branch : Branch) : Option Nat := branch.steps.findIdx? (·.status.isFailed)

/-- The branch at its end: failed if a step failed, and passed otherwise. -/
def finish (branch : Branch) : Branch :=
  { branch with
    status :=
      { branch.status with
        isRunning := false
        isPassed := branch.firstFailure.isNone
        isFailed := branch.firstFailure.isSome }
    steps := branch.steps.map fun step =>
      { step with status := { step.status with isRunning := false } } }

/-- The index of the step behind the running one, or of the first step. -/
def nextIndex (branch : Branch) : Nat :=
  match branch.steps.findIdx? (·.status.isRunning) with
  | some running => running + 1
  | none => 0

def advanceTo (index : Nat) (branch : Branch) : Branch :=
  let stopped := branch.steps.map fun step =>
    { step with status := { step.status with isRunning := false } }
  { branch with
    status := { branch.status with isRunning := true }
    steps := setAt (fun step => { step with status := { step.status with isRunning := true } })
      index stopped }

/-- Whether the first `count` steps of two branches come from the same nodes. -/
def agreesUpTo (count : Nat) (branch other : Branch) : Bool :=
  count ≤ branch.steps.length && count ≤ other.steps.length &&
    ((branch.steps.take count).zip (other.steps.take count)).all fun (a, b) =>
      a.origin.isSome && a.origin == b.origin

end Branch

structure Outcome where
  isPassed : Bool
  asExpected : Bool
  error : Option StepError := none
deriving DecidableEq, Repr

def BranchStep.record (outcome : Outcome) (step : BranchStep) : BranchStep :=
  { step with
    status := { step.status with isPassed := outcome.isPassed, isFailed := !outcome.isPassed }
    asExpected := some outcome.asExpected
    error := outcome.error }

inductive RepeatReason
  | failedAlready
  | ranAlready
deriving DecidableEq, Repr

def RepeatReason.message : RepeatReason → Text
  | failedAlready =>
      "Skipped because it's identical to a branch that already failed, up to and including this step"
  | ranAlready =>
      "Skipped because it's identical to a branch that already ran, up to the -T/-M step"

namespace Suite

def branch? (suite : Suite) (index : Nat) : Option Branch := suite.branches[index]?

def modify (suite : Suite) (index : Nat) (change : Branch → Branch) : Suite :=
  { suite with branches := setAt change index suite.branches }

def busyIds (suite : Suite) : List Text :=
  suite.branches.filterMap fun branch => if branch.isActive then branch.nonParallelId else none

/-- Whether a branch waits and shares its id with no active branch. -/
def mayStart (suite : Suite) (branch : Branch) : Bool :=
  branch.isWaiting && branch.nonParallelId.all fun id => !suite.busyIds.contains id

def nextBranch (suite : Suite) : Option Nat := suite.branches.findIdx? suite.mayStart

def markRunning (branch : Branch) : Branch :=
  { branch with status := { branch.status with isRunning := true } }

def claimNext (suite : Suite) : Option (Nat × Suite) :=
  suite.nextBranch.map fun index => (index, suite.modify index markRunning)

/-- The candidates whose first `count` steps come from the same nodes as those of a branch. -/
def similar (suite : Suite) (index count : Nat) (candidates : List Nat) : List Nat :=
  match suite.branch? index with
  | none => []
  | some branch =>
      candidates.filter fun other =>
        other != index && (suite.branch? other).any (branch.agreesUpTo count)

def idleIndices (suite : Suite) : List Nat :=
  (List.range suite.branches.length).filter fun index => (suite.branch? index).any Branch.isIdle

def skip (line : Text) (branch : Branch) : Branch :=
  { branch with
    status := { branch.status with isSkipped := true }
    log := branch.log ++ [line] }

/-- Skips every idle branch that begins with the first `count` steps of a branch. -/
def skipRepeats (suite : Suite) (index count : Nat) (reason : RepeatReason) : Suite :=
  let last := (suite.branch? index).bind fun branch => branch.steps[count - 1]?
  let line := reason.message ++ ": '" ++ (last.map (·.text)).getD [] ++ "'"
  (suite.similar index count suite.idleIndices).foldl
    (fun suite other => suite.modify other (skip line)) suite

/-- Ends a branch, and skips its repeats if it failed. -/
def finishBranch (suite : Suite) (index : Nat) (skipRepeat : Bool) : Suite :=
  match suite.branch? index with
  | none => suite
  | some branch =>
      let finished := suite.modify index Branch.finish
      match branch.firstFailure with
      | some failure =>
          if skipRepeat then finished.skipRepeats index (failure + 1) .failedAlready else finished
      | none => finished

/-- Records the outcome of a step. The branch ends with its last step, or if it is to stop now. -/
def markStep (suite : Suite) (index step : Nat) (outcome : Outcome)
    (stopBranch skipRepeat : Bool) : Suite :=
  match suite.branch? index with
  | none => suite
  | some branch =>
      let marked := suite.modify index fun branch =>
        { branch with steps := setAt (BranchStep.record outcome) step branch.steps }
      if step + 1 ≥ branch.steps.length || stopBranch then marked.finishBranch index skipRepeat
      else marked

/-- The step of a branch to run next. With `advance` it becomes the running step, and a branch without
a further step ends. A to-do or manual step ends the branch in any case. -/
def nextStep (suite : Suite) (index : Nat) (advance skipRepeat : Bool) : Option Nat × Suite :=
  match suite.branch? index with
  | none => (none, suite)
  | some branch =>
      if branch.status.isCompleted then (none, suite)
      else
        let next := branch.nextIndex
        match branch.steps[next]? with
        | none => (none, if advance then suite.modify index Branch.finish else suite)
        | some step =>
            if step.identifiers.isToDo || step.identifiers.isManual then
              let finished := suite.modify index Branch.finish
              (none,
                if skipRepeat then finished.skipRepeats index (next + 1) .ranAlready else finished)
            else
              (some next, if advance then suite.modify index (Branch.advanceTo next) else suite)

/-- The branches to count: without those that passed last time, or only completed ones. -/
def counted (suite : Suite) (runnableOnly completeOnly : Bool) : List Branch :=
  suite.branches.filter fun branch =>
    (!runnableOnly || !branch.passedLastTime) && (!completeOnly || branch.status.isCompleted)

def branchCount (suite : Suite) (runnableOnly completeOnly : Bool) : Nat :=
  (suite.counted runnableOnly completeOnly).length

def stepCount (suite : Suite) (runnableOnly completeOnly unexpectedOnly : Bool) : Nat :=
  (((suite.counted runnableOnly false).flatMap (·.steps)).filter fun step =>
    (!completeOnly || step.status.isCompleted) &&
      (!unexpectedOnly || step.asExpected == some false)).length

/-- Marks every branch whose step texts are those of a branch that passed in the previous run. -/
def markPassed (suite previous : Suite) : Suite :=
  let passed := (previous.branches.filter (·.status.isPassed)).map Branch.stepTexts
  { suite with
    branches := suite.branches.map fun branch =>
      { branch with passedLastTime := passed.contains branch.stepTexts } }

def passedLastTimeCount (suite : Suite) : Nat := suite.branches.countP (·.passedLastTime)

end Suite

end TestTree
