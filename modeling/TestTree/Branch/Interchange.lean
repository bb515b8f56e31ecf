import TestTree.Branch.Progress
import TestTree.Json.Parser
import TestTree.Json.Printer
import TestTree.Json.Record

/-!
Suites as JSON text, the form in which the results of one run reach the next. The nodes that branch
steps come from are left out; they mean nothing outside the tree.
-/
namespace TestTree

open Json

def Json.ofOption {α : Type} (write : α → Json) : Option α → Json
  | some value => write value
  | none => null

def Json.ofList {α : Type} (write : α → Json) (values : List α) : Json := array (values.map write)

/-- An object whose member names need no escape. -/
def Json.ofFields (fields : List (String × Json)) : Json :=
  object (fields.map fun (name, value) => (name.toList, value))

def Json.names (names : List String) : List Text := names.map String.toList

def HookKind.key : HookKind → Text
  | beforeEveryBranch => "beforeEveryBranch"
  | afterEveryBranch => "afterEveryBranch"
  | beforeEveryStep => "beforeEveryStep"
  | afterEveryStep => "afterEveryStep"
  | beforeEverything => "beforeEverything"
  | afterEverything => "afterEverything"

def HookKind.ofJson? : Json → Option HookKind := choice? (HookKind.all.map fun kind => (kind.key, kind))

def Frequency.ofJson? : Json → Option Frequency :=
  choice? ([Frequency.high, .med, .low].map fun frequency => (frequency.name, frequency))

namespace Identifiers

def toJson (ids : Identifiers) : Json :=
  ofFields [
    ("isFunctionDeclaration", bool ids.isDeclaration),
    ("isFunctionCall", bool ids.isCall),
    ("isTextualStep", bool ids.isTextual),
    ("isToDo", bool ids.isToDo),
    ("isManual", bool ids.isManual),
    ("isDebug", bool ids.isDebug),
    ("isOnly", bool ids.isOnly),
    ("isNonParallel", bool ids.isNonParallel),
    ("isSequential", bool ids.isSequential),
    ("isExpectedFail", bool ids.isExpectedFail),
    ("expectedFailNote", ofOption ofText ids.expectedFailNote)]

def fieldNames : List Text :=
  names ["isFunctionDeclaration", "isFunctionCall", "isTextualStep", "isToDo", "isManual", "isDebug",
    "isOnly", "isNonParallel", "isSequential", "isExpectedFail", "expectedFailNote"]

def ofJson? (value : Json) : Option Identifiers := do
  let record ← record? fieldNames value
  let flag (name : Text) := record.withDefault name bool? false
  return {
    isDeclaration := ← flag "isFunctionDeclaration"
    isCall := ← flag "isFunctionCall"
    isTextual := ← flag "isTextualStep"
    isToDo := ← flag "isToDo"
    isManual := ← flag "isManual"
    isDebug := ← flag "isDebug"
    isOnly := ← flag "isOnly"
    isNonParallel := ← flag "isNonParallel"
    isSequential := ← flag "isSequential"
    isExpectedFail := ← flag "isExpectedFail"
    expectedFailNote := ← record.withDefault "expectedFailNote" (orNull text?) none }

end Identifiers

namespace VarValue

def toJson : VarValue → Json
  | literal value => ofFields [("kind", ofText "literal"), ("value", ofText value)]
  | call text => ofFields [("kind", ofText "call"), ("value", ofText text)]

def ofJson? (value : Json) : Option VarValue := do
  let record ← record? (names ["kind", "value"]) value
  let make ← record.required "kind" (choice? [("literal".toList, literal), ("call".toList, call)])
  return make (← record.required "value" text?)

end VarValue

namespace Assignment

def toJson (assignment : Assignment) : Json :=
  ofFields [
    ("name", ofText assignment.name),
    ("value", assignment.value.toJson),
    ("isLocal", bool assignment.isLocal)]

def ofJson? (value : Json) : Option Assignment := do
  let record ← record? (names ["name", "value", "isLocal"]) value
  return {
    name := ← record.required "name" text?
    value := ← record.required "value" VarValue.ofJson?
    isLocal := ← record.required "isLocal" bool? }

end Assignment

namespace ParamBinding

def toJson (binding : ParamBinding) : Json :=
  ofFields [("name", ofText binding.name), ("input", ofText binding.input)]

def ofJson? (value : Json) : Option ParamBinding := do
  let record ← record? (names ["name", "input"]) value
  return { name := ← record.required "name" text?, input := ← record.required "input" text? }

end ParamBinding

namespace StepError

def toJson (error : StepError) : Json :=
  ofFields [
    ("message", ofText error.message),
    ("filename", ofOption ofText error.filename),
    ("lineNumber", ofOption ofNat error.lineNumber)]

def ofJson? (value : Json) : Option StepError := do
  let record ← record? (names ["message", "filename", "lineNumber"]) value
  return {
    message := ← record.required "message" text?
    filename := ← record.optional "filename" text?
    lineNumber := ← record.optional "lineNumber" nat? }

end StepError

namespace Hook

def toJson (hook : Hook) : Json :=
  ofFields [
    ("kind", ofText hook.kind.key),
    ("text", ofText hook.text),
    ("codeBlock", ofText hook.codeBlock),
    ("filename", ofOption ofText hook.filename),
    ("lineNumber", ofNat hook.lineNumber),
    ("isBuiltIn", bool hook.isBuiltIn),
    ("error", ofOption StepError.toJson hook.error)]

def fieldNames : List Text :=
  names ["kind", "text", "codeBlock", "filename", "lineNumber", "isBuiltIn", "error"]

def ofJson? (value : Json) : Option Hook := do
  let record ← record? fieldNames value
  return {
    kind := ← record.required "kind" HookKind.ofJson?
    text := ← record.required "text" text?
    codeBlock := ← record.required "codeBlock" text?
    filename := ← record.optional "filename" text?
    lineNumber := ← record.required "lineNumber" nat?
    isBuiltIn := ← record.withDefault "isBuiltIn" bool? false
    error := ← record.withDefault "error" (orNull StepError.ofJson?) none }

end Hook

namespace BranchStep

def toJson (step : BranchStep) : Json :=
  ofFields [
    ("text", ofText step.text),
    ("filename", ofOption ofText step.filename),
    ("lineNumber", ofNat step.lineNumber),
    ("identifiers", step.identifiers.toJson),
    ("codeBlock", ofOption ofText step.codeBlock),
    ("varAssignments", Json.ofList Assignment.toJson step.assignments),
    ("paramBindings", Json.ofList ParamBinding.toJson step.bindings),
    ("branchIndents", ofNat step.branchIndents),
    ("isRunning", bool step.status.isRunning),
    ("isPassed", bool step.status.isPassed),
    ("isFailed", bool step.status.isFailed),
    ("isSkipped", bool step.status.isSkipped),
    ("asExpected", ofOption bool step.asExpected),
    ("error", ofOption StepError.toJson step.error)]

def fieldNames : List Text :=
  names ["text", "filename", "lineNumber", "identifiers", "codeBlock", "varAssignments",
    "paramBindings", "branchIndents", "isRunning", "isPassed", "isFailed", "isSkipped", "asExpected",
    "error"]

def ofJson? (value : Json) : Option BranchStep := do
  let record ← record? fieldNames value
  let flag (name : Text) := record.withDefault name bool? false
  return {
    text := ← record.required "text" text?
    filename := ← record.optional "filename" text?
    lineNumber := ← record.required "lineNumber" nat?
    identifiers := ← record.withDefault "identifiers" Identifiers.ofJson? {}
    codeBlock := ← record.optional "codeBlock" text?
    assignments := ← record.withDefault "varAssignments" (list? Assignment.ofJson?) []
    bindings := ← record.withDefault "paramBindings" (list? ParamBinding.ofJson?) []
    branchIndents := ← record.withDefault "branchIndents" nat? 0
    status := {
      isRunning := ← flag "isRunning"
      isPassed := ← flag "isPassed"
      isFailed := ← flag "isFailed"
      isSkipped := ← flag "isSkipped" }
    asExpected := ← record.withDefault "asExpected" (orNull bool?) none
    error := ← record.withDefault "error" (orNull StepError.ofJson?) none }

end BranchStep

namespace Branch

def toJson (branch : Branch) : Json :=
  ofFields [
    ("steps", Json.ofList BranchStep.toJson branch.steps),
    ("beforeEveryBranch", Json.ofList Hook.toJson branch.beforeEveryBranch),
    ("afterEveryBranch", Json.ofList Hook.toJson branch.afterEveryBranch),
    ("beforeEveryStep", Json.ofList Hook.toJson branch.beforeEveryStep),
    ("afterEveryStep", Json.ofList Hook.toJson branch.afterEveryStep),
    ("frequency", ofOption (fun frequency => ofText frequency.name) branch.frequency),
    ("groups", Json.ofList ofText branch.groups),
    ("nonParallelId", ofOption ofText branch.nonParallelId),
    ("isDebug", bool branch.isDebug),
    ("isRunning", bool branch.status.isRunning),
    ("isPassed", bool branch.status.isPassed),
    ("isFailed", bool branch.status.isFailed),
    ("isSkipped", bool branch.status.isSkipped),
    ("passedLastTime", bool branch.passedLastTime),
    ("log", Json.ofList ofText branch.log)]

def fieldNames : List Text :=
  names ["steps", "beforeEveryBranch", "afterEveryBranch", "beforeEveryStep", "afterEveryStep",
    "frequency", "groups", "nonParallelId", "isDebug", "isRunning", "isPassed", "isFailed",
    "isSkipped", "passedLastTime", "log"]

def ofJson? (value : Json) : Option Branch := do
  let record ← record? fieldNames value
  let flag (name : Text) := record.withDefault name bool? false
  let hooks (name : Text) := record.withDefault name (list? Hook.ofJson?) []
  return {
    steps := ← record.withDefault "steps" (list? BranchStep.ofJson?) []
    beforeEveryBranch := ← hooks "beforeEveryBranch"
    afterEveryBranch := ← hooks "afterEveryBranch"
    beforeEveryStep := ← hooks "beforeEveryStep"
    afterEveryStep := ← hooks "afterEveryStep"
    frequency := ← record.withDefault "frequency" (orNull Frequency.ofJson?) none
    groups := ← record.withDefault "groups" (list? text?) []
    nonParallelId := ← record.withDefault "nonParallelId" (orNull text?) none
    isDebug := ← flag "isDebug"
    status := {
      isRunning := ← flag "isRunning"
      isPassed := ← flag "isPassed"
      isFailed := ← flag "isFailed"
      isSkipped := ← flag "isSkipped" }
    passedLastTime := ← flag "passedLastTime"
    log := ← record.withDefault "log" (list? text?) [] }

end Branch

namespace Suite

def toJson (suite : Suite) : Json :=
  ofFields [
    ("branches", Json.ofList Branch.toJson suite.branches),
    ("beforeEverything", Json.ofList Hook.toJson suite.beforeEverything),
    ("afterEverything", Json.ofList Hook.toJson suite.afterEverything),
    ("elapsed", ofInt suite.elapsed)]

def fieldNames : List Text := names ["branches", "beforeEverything", "afterEverything", "elapsed"]

def ofJson? (value : Json) : Option Suite := do
  let record ← record? fieldNames value
  return {
    branches := ← record.withDefault "branches" (list? Branch.ofJson?) []
    beforeEverything := ← record.withDefault "beforeEverything" (list? Hook.ofJson?) []
    afterEverything := ← record.withDefault "afterEverything" (list? Hook.ofJson?) []
    elapsed := ← record.withDefault "elapsed" int64? 0 }

def serialize (suite : Suite) : Text := suite.toJson.render

/-- Reads a text that `serialize` wrote, or any other that gives the same fields. -/
def deserialize (text : Text) : Option Suite := (Json.parse? text).bind ofJson?

/-- Marks what passed in the previous run, given as text. -/
def merge (suite : Suite) (text : Text) : Option Suite :=
  (deserialize text).map suite.markPassed

end Suite

end TestTree
