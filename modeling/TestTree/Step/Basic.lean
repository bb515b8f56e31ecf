import TestTree.Text.Blank

namespace TestTree

inductive HookKind
  | beforeEveryBranch
  | afterEveryBranch
  | beforeEveryStep
  | afterEveryStep
  | beforeEverything
  | afterEverything
deriving DecidableEq, Repr

namespace HookKind

def all : List HookKind :=
  [beforeEveryBranch, afterEveryBranch, beforeEveryStep, afterEveryStep, beforeEverything,
    afterEverything]

def name : HookKind → Text
  | beforeEveryBranch => "Before Every Branch"
  | afterEveryBranch => "After Every Branch"
  | beforeEveryStep => "Before Every Step"
  | afterEveryStep => "After Every Step"
  | beforeEverything => "Before Everything"
  | afterEverything => "After Everything"

/-- The kind whose name the text is, up to ASCII case and runs of white space. -/
def ofText? (text : Text) : Option HookKind :=
  all.find? fun kind => Text.equalIgnoringAsciiCase kind.name (Text.collapse text)

/-- Hooks that belong to the whole tree rather than to branches. -/
def isTreeLevel : HookKind → Bool
  | beforeEverything | afterEverything => true
  | _ => false

end HookKind

/-- One trailing identifier token. -/
inductive Identifier
  | toDo
  | manual
  | textual
  | debug
  | only
  | nonParallel
  | sequential
  | expectedFail (note : Option Text)
deriving DecidableEq, Repr

def Identifier.ofToken? : Text → Option Identifier
  | ['-', 'T'] => some .toDo
  | ['-', 'M'] => some .manual
  | ['-'] => some .textual
  | ['~'] => some .debug
  | ['$'] => some .only
  | ['+'] => some .nonParallel
  | ['.', '.'] => some .sequential
  | ['#'] => some (.expectedFail none)
  | '#' :: note => some (.expectedFail (some note))
  | _ => none

/-- What the identifiers of a line, its leading star and its form make of it. -/
structure Identifiers where
  isDeclaration : Bool := false
  isCall : Bool := false
  isTextual : Bool := false
  isToDo : Bool := false
  isManual : Bool := false
  isDebug : Bool := false
  isOnly : Bool := false
  isNonParallel : Bool := false
  isSequential : Bool := false
  isExpectedFail : Bool := false
  expectedFailNote : Option Text := none
deriving DecidableEq, Repr

/-- To-do and manual steps are textual too; a later note replaces an earlier one. -/
def Identifiers.add (ids : Identifiers) : Identifier → Identifiers
  | .toDo => { ids with isToDo := true, isTextual := true }
  | .manual => { ids with isManual := true, isTextual := true }
  | .textual => { ids with isTextual := true }
  | .debug => { ids with isDebug := true }
  | .only => { ids with isOnly := true }
  | .nonParallel => { ids with isNonParallel := true }
  | .sequential => { ids with isSequential := true }
  | .expectedFail none => { ids with isExpectedFail := true }
  | .expectedFail (some note) =>
      { ids with isExpectedFail := true, expectedFailNote := some note }

/-- The right-hand side of an assignment: a string, or a call whose result is stored. -/
inductive VarValue
  | literal (value : Text)
  | call (text : Text)
deriving DecidableEq, Repr

def VarValue.isLiteral : VarValue → Bool
  | literal _ => true
  | call _ => false

structure Assignment where
  name : Text
  value : VarValue
  isLocal : Bool
deriving DecidableEq, Repr

/-- The contents of a bracketed element finder. -/
structure ElementFinder where
  ordinal : Option Nat := none
  text : Option Text := none
  variableName : Option Text := none
  nextTo : Option Text := none
deriving DecidableEq, Repr

/-- Everything a line says, wherever it stands and whatever its comment is. -/
structure StepContent where
  text : Text := []
  codeBlock : Option Text := none
  identifiers : Identifiers := {}
  hook : Option HookKind := none
  assignments : List Assignment := []
  finders : List ElementFinder := []
deriving DecidableEq, Repr

/-- The text that names the function: of `{x} = Some Function` the right-hand side. -/
def StepContent.callText (content : StepContent) : Text :=
  (content.assignments.findSome? fun assignment =>
    match assignment.value with
    | .call text => some text
    | .literal _ => none).getD content.text

/-- A step with its place in the source. -/
structure Step extends StepContent where
  filename : Option Text := none
  lineNumber : Nat := 0
  line : Text := []
  comment : Option Text := none
deriving DecidableEq, Repr

/-- A line that holds only `..`. -/
def Step.isMarker (step : Step) : Bool := step.text.isEmpty && step.identifiers.isSequential

/-- How often a branch is meant to run. -/
inductive Frequency
  | high
  | med
  | low
deriving DecidableEq, Repr

namespace Frequency

def name : Frequency → Text
  | high => "high"
  | med => "med"
  | low => "low"

def ofText? : Text → Option Frequency
  | ['h', 'i', 'g', 'h'] => some high
  | ['m', 'e', 'd'] => some med
  | ['l', 'o', 'w'] => some low
  | _ => none

def invalidMessage (text : Text) : Text :=
  "Invalid frequency '" ++ text ++ "'. Must be 'high', 'med', or 'low'."

/-- Larger means more often. -/
def rank : Frequency → Nat
  | high => 3
  | med => 2
  | low => 1

/-- The place in the running order: branches without a frequency come after the high ones. -/
def sortKey : Option Frequency → Nat
  | some high => 0
  | none => 1
  | some med => 2
  | some low => 3

end Frequency

end TestTree
