import TestTree.Branch.Progress
import TestTree.CommandLine.Style

namespace TestTree.CommandLine

def branchTitle (colors : Bool) (index : Nat) : Text :=
  paint colors .bold ("Branch ".toList ++ Text.ofNat (index + 1))

/-- What tells a branch from others that run. -/
def branchTags (branch : Branch) : List Text :=
  (branch.frequency.map fun frequency => "frequency=".toList ++ frequency.name).toList ++
    (if branch.groups.isEmpty then [] else ["groups=".toList ++ Text.join [','] branch.groups]) ++
    if branch.nonParallelId.isSome then ["non-parallel".toList] else []

def stepLine (colors : Bool) (step : BranchStep) : Text :=
  let text :=
    if step.identifiers.isDebug then paint colors .magenta (step.text ++ " ~".toList) else step.text
  line (List.replicate (4 * (step.branchIndents + 1)) ' ' ++ text)

def branchLines (colors : Bool) (index : Nat) (branch : Branch) : Text :=
  let tags := branchTags branch
  let suffix :=
    if tags.isEmpty then []
    else ' ' :: paint colors .dimmed (['['] ++ Text.join [' '] tags ++ [']'])
  line (branchTitle colors index ++ suffix) ++ branch.steps.flatMap (stepLine colors)

/-- Every branch, and how many branches and steps there are. -/
def listing (colors : Bool) (suite : Suite) : Text :=
  if suite.branches.isEmpty then line (paint colors .yellow "No branches to run.")
  else
    (suite.branches.mapIdx (branchLines colors)).flatten ++
      line (Text.ofNat (suite.branchCount false false) ++ " branches, ".toList ++
        Text.ofNat (suite.stepCount false false false) ++ " steps".toList ++
        if suite.isDebug then " (debug mode)".toList else [])

end TestTree.CommandLine
