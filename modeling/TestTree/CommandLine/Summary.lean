import TestTree.CommandLine.Listing

namespace TestTree.CommandLine

def outcomeLabel (colors : Bool) (branch : Branch) : Text :=
  if branch.passedLastTime then paint colors .dimmed "passed last time"
  else if branch.status.isFailed then paint colors .boldRed "failed"
  else if branch.status.isSkipped then paint colors .yellow "skipped"
  else if branch.status.isPassed then paint colors .green "passed"
  else paint colors .dimmed "not run"

def stepErrorLine (colors : Bool) (step : BranchStep) : Text :=
  match step.error with
  | some error =>
      line ("  ".toList ++ paint colors .cyan step.text ++ [' '] ++ paint colors .red error.describe)
  | none => []

def failureLines (colors : Bool) (index : Nat) (branch : Branch) : Text :=
  if branch.status.isFailed then
    line (branchTitle colors index ++ [' '] ++ outcomeLabel colors branch) ++
      branch.steps.flatMap (stepErrorLine colors) ++
      branch.log.flatMap fun entry => line ("  ".toList ++ paint colors .dimmed entry)
  else []

def totalsLine (colors : Bool) (suite : Suite) : Text :=
  let total (style : Style) (holds : Branch → Bool) (label : String) : Text :=
    paint colors style (Text.ofNat (suite.branches.countP holds) ++ label.toList)
  line (paint colors .bold "Summary:" ++ [' '] ++ total .green (·.status.isPassed) " passed" ++
    ", ".toList ++ total .red (·.status.isFailed) " failed" ++
    ", ".toList ++ total .yellow (·.status.isSkipped) " skipped")

/-- A line for a number that is not 0. -/
def countLine (colors : Bool) (style : Style) (count : Nat) (label : String) : Text :=
  if count = 0 then [] else line (paint colors style (Text.ofNat count ++ label.toList))

def elapsedLine (colors : Bool) (elapsed : Int) : Text :=
  line (paint colors .dimmed
    (if elapsed = -1 then "Elapsed time not measured (the run was paused)"
      else "Elapsed: ".toList ++ (toString elapsed).toList ++ " ms".toList))

def summary (colors : Bool) (suite : Suite) : Text :=
  line [] ++ (suite.branches.mapIdx (failureLines colors)).flatten ++ totalsLine colors suite ++
    countLine colors .dimmed suite.passedLastTimeCount " passed last time" ++
    countLine colors .yellow (suite.stepCount true true true) " steps did not behave as expected" ++
    elapsedLine colors suite.elapsed

end TestTree.CommandLine
