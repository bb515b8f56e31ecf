import TestTree.Call.Name
import TestTree.Tree.Basic

namespace TestTree

structure StepError where
  message : Text
  filename : Option Text := none
  lineNumber : Option Nat := none
deriving DecidableEq, Repr

/-- The message, followed by the location if the line is known. -/
def StepError.describe (error : StepError) : Text :=
  match error.filename, error.lineNumber with
  | some file, some line => error.message ++ " [" ++ file ++ ":" ++ Text.ofNat line ++ "]"
  | none, some line => error.message ++ " [line " ++ Text.ofNat line ++ "]"
  | _, none => error.message

/-- A declared hook, with the error of its last run. -/
structure Hook where
  kind : HookKind
  text : Text
  codeBlock : Text
  filename : Option Text
  lineNumber : Nat
  isBuiltIn : Bool := false
  error : Option StepError := none
deriving DecidableEq, Repr

def Hook.ofNode (node : Node) (kind : HookKind) : Hook :=
  { kind
    text := node.step.text
    codeBlock := node.step.codeBlock.getD []
    filename := node.step.filename
    lineNumber := node.step.lineNumber
    isBuiltIn := node.isBuiltIn }

structure Status where
  isRunning : Bool := false
  isPassed : Bool := false
  isFailed : Bool := false
  isSkipped : Bool := false
deriving DecidableEq, Repr

def Status.isCompleted (status : Status) : Bool :=
  status.isPassed || status.isFailed || status.isSkipped

/-- A step of a branch. `origin` is its node, and `declaration` what a call refers to. -/
structure BranchStep where
  text : Text
  filename : Option Text
  lineNumber : Nat
  identifiers : Identifiers := {}
  codeBlock : Option Text
  assignments : List Assignment := []
  bindings : List ParamBinding := []
  branchIndents : Nat := 0
  origin : Option NodeId := none
  declaration : Option NodeId := none
  status : Status := {}
  asExpected : Option Bool := none
  error : Option StepError := none
deriving DecidableEq, Repr

namespace BranchStep

/-- A step that stands nowhere in the tree. -/
def ofStep (step : Step) (branchIndents : Nat) : BranchStep :=
  { text := step.text
    filename := step.filename
    lineNumber := step.lineNumber
    identifiers := step.identifiers
    codeBlock := step.codeBlock
    assignments := step.assignments
    branchIndents }

def ofNode (node : Node) (branchIndents : Nat) : BranchStep :=
  { ofStep node.step branchIndents with origin := some node.id }

def reset (step : BranchStep) : BranchStep :=
  { step with status := {}, asExpected := none, error := none }

end BranchStep

/-- One way through the tree. The hook lists begin with the innermost hooks. -/
structure Branch where
  steps : List BranchStep := []
  beforeEveryBranch : List Hook := []
  afterEveryBranch : List Hook := []
  beforeEveryStep : List Hook := []
  afterEveryStep : List Hook := []
  frequency : Option Frequency := none
  groups : List Text := []
  nonParallelId : Option Text := none
  isDebug : Bool := false
  status : Status := {}
  passedLastTime : Bool := false
  log : List Text := []
deriving DecidableEq, Repr

namespace Branch

def hasDebugStep (branch : Branch) : Bool := branch.steps.any (·.identifiers.isDebug)

def hasOnlyStep (branch : Branch) : Bool := branch.steps.any (·.identifiers.isOnly)

/-- The branch followed by the steps of another; the hooks of that one come last. -/
def append (branch next : Branch) : Branch :=
  { branch with
    steps := branch.steps ++ next.steps
    beforeEveryBranch := branch.beforeEveryBranch ++ next.beforeEveryBranch
    afterEveryBranch := branch.afterEveryBranch ++ next.afterEveryBranch
    beforeEveryStep := branch.beforeEveryStep ++ next.beforeEveryStep
    afterEveryStep := branch.afterEveryStep ++ next.afterEveryStep }

/-- The texts of the steps, by which branches of different runs are matched. -/
def stepTexts (branch : Branch) : List Text := branch.steps.map (·.text)

/-- The branch without any outcome. What is known of the previous run and of its hooks stays. -/
def reset (branch : Branch) : Branch :=
  { branch with status := {}, log := [], steps := branch.steps.map BranchStep.reset }

end Branch

/-- The branches in running order, the hooks around all of them, and the duration of the last run in
milliseconds, -1 if it is not known. -/
structure Suite where
  branches : List Branch := []
  beforeEverything : List Hook := []
  afterEverything : List Hook := []
  elapsed : Int := 0
deriving DecidableEq, Repr

/-- Whether the suite was reduced to the one branch to debug. -/
def Suite.isDebug (suite : Suite) : Bool := suite.branches.head?.any (·.isDebug)

end TestTree
