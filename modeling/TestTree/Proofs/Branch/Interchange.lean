import TestTree.Proofs.Json.Carrying

namespace TestTree

open Json

/-! What a suite may hold: line numbers and depths of 64 bits, and a duration of 64 bits with a sign. -/

def StepError.InRange (error : StepError) : Prop := ∀ number ∈ error.lineNumber, number < 2 ^ 64

structure Hook.InRange (hook : Hook) : Prop where
  lineNumber : hook.lineNumber < 2 ^ 64
  error : ∀ error ∈ hook.error, error.InRange

structure BranchStep.InRange (step : BranchStep) : Prop where
  lineNumber : step.lineNumber < 2 ^ 64
  branchIndents : step.branchIndents < 2 ^ 64
  error : ∀ error ∈ step.error, error.InRange

structure Branch.InRange (branch : Branch) : Prop where
  steps : ∀ step ∈ branch.steps, step.InRange
  beforeEveryBranch : ∀ hook ∈ branch.beforeEveryBranch, hook.InRange
  afterEveryBranch : ∀ hook ∈ branch.afterEveryBranch, hook.InRange
  beforeEveryStep : ∀ hook ∈ branch.beforeEveryStep, hook.InRange
  afterEveryStep : ∀ hook ∈ branch.afterEveryStep, hook.InRange

structure Suite.InRange (suite : Suite) : Prop where
  branches : ∀ branch ∈ suite.branches, branch.InRange
  beforeEverything : ∀ hook ∈ suite.beforeEverything, hook.InRange
  afterEverything : ∀ hook ∈ suite.afterEverything, hook.InRange
  elapsed : -2 ^ 63 ≤ suite.elapsed ∧ suite.elapsed < 2 ^ 63

instance (error : StepError) : Decidable error.InRange :=
  inferInstanceAs (Decidable (∀ number ∈ error.lineNumber, number < 2 ^ 64))

instance (hook : Hook) : Decidable hook.InRange :=
  decidable_of_iff (hook.lineNumber < 2 ^ 64 ∧ ∀ error ∈ hook.error, error.InRange)
    ⟨fun ⟨lineNumber, error⟩ => ⟨lineNumber, error⟩,
      fun ⟨lineNumber, error⟩ => ⟨lineNumber, error⟩⟩

instance (step : BranchStep) : Decidable step.InRange :=
  decidable_of_iff (step.lineNumber < 2 ^ 64 ∧ step.branchIndents < 2 ^ 64 ∧
      ∀ error ∈ step.error, error.InRange)
    ⟨fun ⟨lineNumber, indents, error⟩ => ⟨lineNumber, indents, error⟩,
      fun ⟨lineNumber, indents, error⟩ => ⟨lineNumber, indents, error⟩⟩

instance (branch : Branch) : Decidable branch.InRange :=
  decidable_of_iff ((∀ step ∈ branch.steps, step.InRange) ∧
      (∀ hook ∈ branch.beforeEveryBranch, hook.InRange) ∧
      (∀ hook ∈ branch.afterEveryBranch, hook.InRange) ∧
      (∀ hook ∈ branch.beforeEveryStep, hook.InRange) ∧
      ∀ hook ∈ branch.afterEveryStep, hook.InRange)
    ⟨fun ⟨steps, beforeBranch, afterBranch, beforeStep, afterStep⟩ =>
        ⟨steps, beforeBranch, afterBranch, beforeStep, afterStep⟩,
      fun ⟨steps, beforeBranch, afterBranch, beforeStep, afterStep⟩ =>
        ⟨steps, beforeBranch, afterBranch, beforeStep, afterStep⟩⟩

instance (suite : Suite) : Decidable suite.InRange :=
  decidable_of_iff ((∀ branch ∈ suite.branches, branch.InRange) ∧
      (∀ hook ∈ suite.beforeEverything, hook.InRange) ∧
      (∀ hook ∈ suite.afterEverything, hook.InRange) ∧
      (-2 ^ 63 ≤ suite.elapsed ∧ suite.elapsed < 2 ^ 63))
    ⟨fun ⟨branches, before, after, elapsed⟩ => ⟨branches, before, after, elapsed⟩,
      fun ⟨branches, before, after, elapsed⟩ => ⟨branches, before, after, elapsed⟩⟩

def BranchStep.withoutOrigins (step : BranchStep) : BranchStep :=
  { step with origin := none, declaration := none }

def Branch.withoutOrigins (branch : Branch) : Branch :=
  { branch with steps := branch.steps.map BranchStep.withoutOrigins }

/-- The suite as it is known outside its tree. -/
def Suite.withoutOrigins (suite : Suite) : Suite :=
  { suite with branches := suite.branches.map Branch.withoutOrigins }

namespace Carrying

theorem hookKind (kind : HookKind) :
    HookKind.ofJson? (ofText kind.key) = some kind := by
  cases kind <;> rfl

theorem frequency (frequency : Frequency) :
    Carries (fun frequency => ofText frequency.name) Frequency.ofJson? frequency frequency :=
  ⟨.text _, by cases frequency <;> rfl⟩

theorem identifiers (ids : Identifiers) :
    Carries Identifiers.toJson Identifiers.ofJson? ids ids := by
  have plain : Plain Identifiers.fieldNames := by decide
  have note : Carries (ofOption ofText) (orNull text?) ids.expectedFailNote ids.expectedFailNote :=
    carries_option rfl fun text _ => carries_text text
  constructor
  · exact written_ofFields plain rfl (by simp [Written.bool, note.written])
  · obtain ⟨record, isRecord, gives⟩ :=
      exists_record plain (show ids.toJson = ofFields _ from rfl) rfl
    simp only [List.forall_mem_cons] at gives
    obtain ⟨givesDeclaration, givesCall, givesTextual, givesToDo, givesManual, givesDebug, givesOnly,
      givesNonParallel, givesSequential, givesExpectedFail, givesNote, -⟩ := gives
    refine bind_of_eq_some isRecord ?_
    refine withDefault_bind givesDeclaration rfl ?_
    refine withDefault_bind givesCall rfl ?_
    refine withDefault_bind givesTextual rfl ?_
    refine withDefault_bind givesToDo rfl ?_
    refine withDefault_bind givesManual rfl ?_
    refine withDefault_bind givesDebug rfl ?_
    refine withDefault_bind givesOnly rfl ?_
    refine withDefault_bind givesNonParallel rfl ?_
    refine withDefault_bind givesSequential rfl ?_
    refine withDefault_bind givesExpectedFail rfl ?_
    exact withDefault_bind givesNote note.reads rfl

theorem varValue (value : VarValue) : Carries VarValue.toJson VarValue.ofJson? value value := by
  have plain : Plain (names ["kind", "value"]) := by decide
  obtain ⟨word, make, text, shape, chooses, same⟩ : ∃ (word : Text) (make : Text → VarValue) (text : Text),
      value.toJson = ofFields [("kind", ofText word), ("value", ofText text)] ∧
        choice? [("literal".toList, .literal), ("call".toList, .call)] (ofText word) = some make ∧
        make text = value := by
    cases value with
    | literal text => exact ⟨"literal".toList, .literal, text, rfl, rfl, rfl⟩
    | call text => exact ⟨"call".toList, .call, text, rfl, rfl, rfl⟩
  constructor
  · rw [shape]
    exact written_ofFields plain rfl (by simp [Written.text])
  · obtain ⟨record, isRecord, gives⟩ := exists_record plain shape rfl
    simp only [List.forall_mem_cons] at gives
    obtain ⟨givesKind, givesValue, -⟩ := gives
    refine bind_of_eq_some isRecord ?_
    refine required_bind givesKind chooses ?_
    exact required_bind givesValue (carries_text text).reads (congrArg some same)

theorem assignment (assignment : Assignment) :
    Carries Assignment.toJson Assignment.ofJson? assignment assignment := by
  have plain : Plain (names ["name", "value", "isLocal"]) := by decide
  have name := carries_text assignment.name
  have value := varValue assignment.value
  constructor
  · exact written_ofFields plain rfl (by simp [name.written, value.written, Written.bool])
  · obtain ⟨record, isRecord, gives⟩ :=
      exists_record plain (show assignment.toJson = ofFields _ from rfl) rfl
    simp only [List.forall_mem_cons] at gives
    obtain ⟨givesName, givesValue, givesLocal, -⟩ := gives
    refine bind_of_eq_some isRecord ?_
    refine required_bind givesName name.reads ?_
    refine required_bind givesValue value.reads ?_
    exact required_bind givesLocal rfl rfl

theorem binding (binding : ParamBinding) :
    Carries ParamBinding.toJson ParamBinding.ofJson? binding binding := by
  have plain : Plain (names ["name", "input"]) := by decide
  have name := carries_text binding.name
  have input := carries_text binding.input
  constructor
  · exact written_ofFields plain rfl (by simp [name.written, input.written])
  · obtain ⟨record, isRecord, gives⟩ :=
      exists_record plain (show binding.toJson = ofFields _ from rfl) rfl
    simp only [List.forall_mem_cons] at gives
    obtain ⟨givesName, givesInput, -⟩ := gives
    refine bind_of_eq_some isRecord ?_
    refine required_bind givesName name.reads ?_
    exact required_bind givesInput input.reads rfl

theorem error {error : StepError} (ranged : error.InRange) :
    Carries StepError.toJson StepError.ofJson? error error := by
  have plain : Plain (names ["message", "filename", "lineNumber"]) := by decide
  have message := carries_text error.message
  have filename : Carries (ofOption ofText) (orNull text?) error.filename error.filename :=
    carries_option rfl fun text _ => carries_text text
  have lineNumber : Carries (ofOption ofNat) (orNull nat?) error.lineNumber error.lineNumber :=
    carries_option rfl fun number given => carries_nat (ranged number given)
  constructor
  · exact written_ofFields plain rfl
      (by simp [message.written, filename.written, lineNumber.written])
  · obtain ⟨record, isRecord, gives⟩ :=
      exists_record plain (show error.toJson = ofFields _ from rfl) rfl
    simp only [List.forall_mem_cons] at gives
    obtain ⟨givesMessage, givesFilename, givesLineNumber, -⟩ := gives
    refine bind_of_eq_some isRecord ?_
    refine required_bind givesMessage message.reads ?_
    refine optional_bind givesFilename filename.reads ?_
    exact optional_bind givesLineNumber lineNumber.reads rfl

theorem errors {error? : Option StepError} (ranged : ∀ error ∈ error?, error.InRange) :
    Carries (ofOption StepError.toJson) (orNull StepError.ofJson?) error? error? :=
  carries_option rfl fun inner given => error (ranged inner given)

theorem hook {hook : Hook} (ranged : hook.InRange) : Carries Hook.toJson Hook.ofJson? hook hook := by
  have plain : Plain Hook.fieldNames := by decide
  have text := carries_text hook.text
  have codeBlock := carries_text hook.codeBlock
  have filename : Carries (ofOption ofText) (orNull text?) hook.filename hook.filename :=
    carries_option rfl fun text _ => carries_text text
  have lineNumber := carries_nat ranged.lineNumber
  have error := errors ranged.error
  constructor
  · exact written_ofFields plain rfl (by
      simp [Written.text, filename.written, lineNumber.written, Written.bool, error.written])
  · obtain ⟨record, isRecord, gives⟩ :=
      exists_record plain (show hook.toJson = ofFields _ from rfl) rfl
    simp only [List.forall_mem_cons] at gives
    obtain ⟨givesKind, givesText, givesCodeBlock, givesFilename, givesLineNumber, givesBuiltIn,
      givesError, -⟩ := gives
    refine bind_of_eq_some isRecord ?_
    refine required_bind givesKind (hookKind hook.kind) ?_
    refine required_bind givesText text.reads ?_
    refine required_bind givesCodeBlock codeBlock.reads ?_
    refine optional_bind givesFilename filename.reads ?_
    refine required_bind givesLineNumber lineNumber.reads ?_
    refine withDefault_bind givesBuiltIn rfl ?_
    exact withDefault_bind givesError error.reads rfl

theorem hooks {hooks : List Hook} (ranged : ∀ hook ∈ hooks, hook.InRange) :
    Carries (ofList Hook.toJson) (list? Hook.ofJson?) hooks hooks :=
  carries_list_same fun inner listed => hook (ranged inner listed)

theorem texts (texts : List Text) : Carries (ofList ofText) (list? text?) texts texts :=
  carries_list_same fun text _ => carries_text text

theorem step {step : BranchStep} (ranged : step.InRange) :
    Carries BranchStep.toJson BranchStep.ofJson? step step.withoutOrigins := by
  have plain : Plain BranchStep.fieldNames := by decide
  have text := carries_text step.text
  have filename : Carries (ofOption ofText) (orNull text?) step.filename step.filename :=
    carries_option rfl fun text _ => carries_text text
  have lineNumber := carries_nat ranged.lineNumber
  have ids := identifiers step.identifiers
  have codeBlock : Carries (ofOption ofText) (orNull text?) step.codeBlock step.codeBlock :=
    carries_option rfl fun text _ => carries_text text
  have assignments : Carries (ofList Assignment.toJson) (list? Assignment.ofJson?) step.assignments
      step.assignments := carries_list_same fun inner _ => assignment inner
  have bindings : Carries (ofList ParamBinding.toJson) (list? ParamBinding.ofJson?) step.bindings
      step.bindings := carries_list_same fun inner _ => binding inner
  have branchIndents := carries_nat ranged.branchIndents
  have asExpected : Carries (ofOption Json.bool) (orNull bool?) step.asExpected step.asExpected :=
    carries_option rfl fun value _ => carries_bool value
  have error := errors ranged.error
  constructor
  · exact written_ofFields plain rfl (by
      simp [Written.text, filename.written, lineNumber.written, ids.written, codeBlock.written,
        assignments.written, bindings.written, branchIndents.written, Written.bool,
        asExpected.written, error.written])
  · obtain ⟨record, isRecord, gives⟩ :=
      exists_record plain (show step.toJson = ofFields _ from rfl) rfl
    simp only [List.forall_mem_cons] at gives
    obtain ⟨givesText, givesFilename, givesLineNumber, givesIds, givesCodeBlock, givesAssignments,
      givesBindings, givesIndents, givesRunning, givesPassed, givesFailed, givesSkipped, givesExpected,
      givesError, -⟩ := gives
    refine bind_of_eq_some isRecord ?_
    refine required_bind givesText text.reads ?_
    refine optional_bind givesFilename filename.reads ?_
    refine required_bind givesLineNumber lineNumber.reads ?_
    refine withDefault_bind givesIds ids.reads ?_
    refine optional_bind givesCodeBlock codeBlock.reads ?_
    refine withDefault_bind givesAssignments assignments.reads ?_
    refine withDefault_bind givesBindings bindings.reads ?_
    refine withDefault_bind givesIndents branchIndents.reads ?_
    refine withDefault_bind givesRunning rfl ?_
    refine withDefault_bind givesPassed rfl ?_
    refine withDefault_bind givesFailed rfl ?_
    refine withDefault_bind givesSkipped rfl ?_
    refine withDefault_bind givesExpected asExpected.reads ?_
    exact withDefault_bind givesError error.reads rfl

theorem branch {branch : Branch} (ranged : branch.InRange) :
    Carries Branch.toJson Branch.ofJson? branch branch.withoutOrigins := by
  have plain : Plain Branch.fieldNames := by decide
  have steps : Carries (ofList BranchStep.toJson) (list? BranchStep.ofJson?) branch.steps
      (branch.steps.map BranchStep.withoutOrigins) :=
    carries_list fun inner listed => step (ranged.steps inner listed)
  have beforeBranch := hooks ranged.beforeEveryBranch
  have afterBranch := hooks ranged.afterEveryBranch
  have beforeStep := hooks ranged.beforeEveryStep
  have afterStep := hooks ranged.afterEveryStep
  have often : Carries (ofOption fun frequency : Frequency => ofText frequency.name)
      (orNull Frequency.ofJson?) branch.frequency branch.frequency :=
    carries_option rfl fun inner _ => frequency inner
  have groups := texts branch.groups
  have nonParallelId : Carries (ofOption ofText) (orNull text?) branch.nonParallelId
      branch.nonParallelId := carries_option rfl fun text _ => carries_text text
  have log := texts branch.log
  constructor
  · exact written_ofFields plain rfl (by
      simp [steps.written, beforeBranch.written, afterBranch.written, beforeStep.written,
        afterStep.written, often.written, groups.written, nonParallelId.written, Written.bool,
        log.written])
  · obtain ⟨record, isRecord, gives⟩ :=
      exists_record plain (show branch.toJson = ofFields _ from rfl) rfl
    simp only [List.forall_mem_cons] at gives
    obtain ⟨givesSteps, givesBeforeBranch, givesAfterBranch, givesBeforeStep, givesAfterStep, givesOften,
      givesGroups, givesNonParallelId, givesDebug, givesRunning, givesPassed, givesFailed, givesSkipped,
      givesPassedLastTime, givesLog, -⟩ := gives
    refine bind_of_eq_some isRecord ?_
    refine withDefault_bind givesSteps steps.reads ?_
    refine withDefault_bind givesBeforeBranch beforeBranch.reads ?_
    refine withDefault_bind givesAfterBranch afterBranch.reads ?_
    refine withDefault_bind givesBeforeStep beforeStep.reads ?_
    refine withDefault_bind givesAfterStep afterStep.reads ?_
    refine withDefault_bind givesOften often.reads ?_
    refine withDefault_bind givesGroups groups.reads ?_
    refine withDefault_bind givesNonParallelId nonParallelId.reads ?_
    refine withDefault_bind givesDebug rfl ?_
    refine withDefault_bind givesRunning rfl ?_
    refine withDefault_bind givesPassed rfl ?_
    refine withDefault_bind givesFailed rfl ?_
    refine withDefault_bind givesSkipped rfl ?_
    refine withDefault_bind givesPassedLastTime rfl ?_
    exact withDefault_bind givesLog log.reads rfl

theorem suite {suite : Suite} (ranged : suite.InRange) :
    Carries Suite.toJson Suite.ofJson? suite suite.withoutOrigins := by
  have plain : Plain Suite.fieldNames := by decide
  have branches : Carries (ofList Branch.toJson) (list? Branch.ofJson?) suite.branches
      (suite.branches.map Branch.withoutOrigins) :=
    carries_list fun inner listed => branch (ranged.branches inner listed)
  have before := hooks ranged.beforeEverything
  have after := hooks ranged.afterEverything
  have elapsed := carries_int64 ranged.elapsed
  constructor
  · exact written_ofFields plain rfl (by
      simp [branches.written, before.written, after.written, elapsed.written])
  · obtain ⟨record, isRecord, gives⟩ :=
      exists_record plain (show suite.toJson = ofFields _ from rfl) rfl
    simp only [List.forall_mem_cons] at gives
    obtain ⟨givesBranches, givesBefore, givesAfter, givesElapsed, -⟩ := gives
    refine bind_of_eq_some isRecord ?_
    refine withDefault_bind givesBranches branches.reads ?_
    refine withDefault_bind givesBefore before.reads ?_
    refine withDefault_bind givesAfter after.reads ?_
    exact withDefault_bind givesElapsed elapsed.reads rfl

end Carrying

/-- The text of a suite gives back the suite, but for the nodes that its steps come from. -/
theorem Suite.deserialize_serialize (suite : Suite) (ranged : suite.InRange) :
    deserialize suite.serialize = some suite.withoutOrigins :=
  (Carrying.suite ranged).parses

/-- A step that failed, with quotes, a backslash and control characters in its texts. -/
def complaint : BranchStep :=
  { text := "say \"hi\" \\o/".toList
    filename := some "a.tests".toList
    lineNumber := 3
    codeBlock := none
    assignments := [⟨"x".toList, .literal "\t".toList, true⟩]
    origin := some 5
    status := { isFailed := true }
    error := some { message := ['\x07', '\n'], lineNumber := some 3 } }

theorem Suite.deserialize_serialize_complaint :
    ({ branches := [{ steps := [complaint] }], elapsed := -1 } : Suite).InRange ∧
      deserialize (serialize { branches := [{ steps := [complaint] }], elapsed := -1 }) =
        some { branches := [{ steps := [{ complaint with origin := none }] }], elapsed := -1 } := by
  have ranged : ({ branches := [{ steps := [complaint] }], elapsed := -1 } : Suite).InRange := by
    decide
  exact ⟨ranged, Suite.deserialize_serialize _ ranged⟩

end TestTree
