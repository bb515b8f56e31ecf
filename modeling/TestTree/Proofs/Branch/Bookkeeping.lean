import TestTree.Branch.Progress

namespace TestTree

theorem setAt_eq_modify {α : Type} (change : α → α) (index : Nat) (list : List α) :
    setAt change index list = list.modify index change := by
  induction list generalizing index with
  | nil => simp [setAt]
  | cons first rest ih =>
      cases index with
      | zero => rfl
      | succ index => simp [setAt, ih]

@[simp] theorem length_setAt {α : Type} (change : α → α) (index : Nat) (list : List α) :
    (setAt change index list).length = list.length := by
  simp [setAt_eq_modify]

theorem getElem?_setAt {α : Type} (change : α → α) (index other : Nat) (list : List α) :
    (setAt change index list)[other]? =
      if index = other then list[other]?.map change else list[other]? := by
  rw [setAt_eq_modify, List.getElem?_modify]
  split <;> cases list[other]? <;> simp_all

theorem map_setAt {α β : Type} {view : α → β} {change : α → α}
    (keeps : ∀ element, view (change element) = view element) (index : Nat) (list : List α) :
    (setAt change index list).map view = list.map view := by
  apply List.ext_getElem?
  intro other
  rw [List.getElem?_map, List.getElem?_map, getElem?_setAt]
  split
  · cases list[other]? with
    | none => rfl
    | some element => exact congrArg some (keeps element)
  · rfl

/-- A hook without what was recorded of its last run. -/
def Hook.plan (hook : Hook) : Hook := { hook with error := none }

namespace Branch

/-- What there is to do along a branch, without anything that was done. -/
def plan (branch : Branch) : Branch :=
  { branch.reset with
    beforeEveryBranch := branch.beforeEveryBranch.map Hook.plan
    afterEveryBranch := branch.afterEveryBranch.map Hook.plan
    passedLastTime := false }

theorem nonParallelId_of_plan {branch other : Branch} (same : other.plan = branch.plan) :
    other.nonParallelId = branch.nonParallelId :=
  congrArg (·.nonParallelId) same

theorem hasDebugStep_plan (branch : Branch) : branch.plan.hasDebugStep = branch.hasDebugStep := by
  simp only [plan, reset, hasDebugStep, List.any_map]
  rfl

theorem hasDebugStep_of_plan {branch other : Branch} (same : other.plan = branch.plan) :
    other.hasDebugStep = branch.hasDebugStep := by
  rw [← hasDebugStep_plan, same, hasDebugStep_plan]

theorem plan_reset (branch : Branch) : branch.reset.plan = branch.plan := by
  simp only [plan, reset, List.map_map]
  congr 1

theorem steps_plan (branch : Branch) (index : Nat) :
    branch.plan.steps[index]? = branch.steps[index]?.map BranchStep.reset := by
  rw [plan, reset, List.getElem?_map]

theorem origin_plan (branch : Branch) (index : Nat) :
    branch.plan.steps[index]?.map (·.origin) = branch.steps[index]?.map (·.origin) := by
  rw [steps_plan, Option.map_map]
  rfl

/-- What a branch becomes when its next step is asked for. -/
inductive Advances (branch : Branch) : Option Nat → Branch → Prop
  | ended (completed : branch.status.isCompleted = true) : Advances branch none branch
  | exhausted (unfinished : branch.status.isCompleted = false)
      (behind : branch.steps[branch.nextIndex]? = none) : Advances branch none branch.finish
  | blocked {step : BranchStep} (unfinished : branch.status.isCompleted = false)
      (found : branch.steps[branch.nextIndex]? = some step)
      (byHand : (step.identifiers.isToDo || step.identifiers.isManual) = true) :
      Advances branch none branch.finish
  | advanced {step : BranchStep} (unfinished : branch.status.isCompleted = false)
      (found : branch.steps[branch.nextIndex]? = some step)
      (automatic : (step.identifiers.isToDo || step.identifiers.isManual) = false) :
      Advances branch (some branch.nextIndex) (branch.advanceTo branch.nextIndex)

/-- The branch with the outcome of one step. -/
def recordAt (step : Nat) (outcome : Outcome) (branch : Branch) : Branch :=
  { branch with steps := setAt (BranchStep.record outcome) step branch.steps }

/-- The branch with the outcome of one step, at its end if that was the last step or it is to stop. -/
def markAt (step : Nat) (outcome : Outcome) (stopBranch : Bool) (branch : Branch) : Branch :=
  if step + 1 ≥ branch.steps.length || stopBranch then (branch.recordAt step outcome).finish
  else branch.recordAt step outcome

/-- Steps that only change what was done leave the plan of a branch as it is. -/
theorem plan_withSteps {branch : Branch} {steps : List BranchStep} (status : Status) (log : List Text)
    (same : steps.map BranchStep.reset = branch.steps.map BranchStep.reset) :
    ({ branch with steps, status, log } : Branch).plan = branch.plan := by
  simp only [plan, reset, same]

theorem plan_finish (branch : Branch) : branch.finish.plan = branch.plan := by
  refine plan_withSteps _ branch.log ?_
  rw [List.map_map]
  rfl

theorem plan_advanceTo (index : Nat) (branch : Branch) :
    (branch.advanceTo index).plan = branch.plan := by
  refine plan_withSteps _ branch.log ((map_setAt (by intro _; rfl) _ _).trans ?_)
  rw [List.map_map]
  rfl

theorem plan_recordAt (step : Nat) (outcome : Outcome) (branch : Branch) :
    (branch.recordAt step outcome).plan = branch.plan :=
  plan_withSteps branch.status branch.log (map_setAt (by intro _; rfl) _ _)

theorem plan_markAt (step : Nat) (outcome : Outcome) (stopBranch : Bool) (branch : Branch) :
    (branch.markAt step outcome stopBranch).plan = branch.plan := by
  unfold markAt
  split
  · rw [plan_finish, plan_recordAt]
  · exact plan_recordAt step outcome branch

theorem completed_of_finish (branch : Branch) : branch.finish.status.isCompleted = true := by
  cases found : branch.firstFailure <;> simp [finish, Status.isCompleted, found]

/-- Steps up to which two branches agree come from the same nodes. -/
theorem origin_of_agreesUpTo {branch other : Branch} {count index : Nat}
    (agrees : branch.agreesUpTo count other = true) (before : index < count) :
    branch.steps[index]?.map (·.origin) = other.steps[index]?.map (·.origin) := by
  simp only [agreesUpTo, Bool.and_eq_true, decide_eq_true_eq, List.all_eq_true] at agrees
  obtain ⟨⟨inside, within⟩, agrees⟩ := agrees
  have here : index < branch.steps.length := Nat.lt_of_lt_of_le before inside
  have there : index < other.steps.length := Nat.lt_of_lt_of_le before within
  have paired : (branch.steps[index], other.steps[index]) ∈
      (branch.steps.take count).zip (other.steps.take count) := by
    refine List.mem_of_getElem? (i := index) ?_
    rw [List.getElem?_zip_eq_some, List.getElem?_take_of_lt before, List.getElem?_take_of_lt before]
    exact ⟨List.getElem?_eq_getElem here, List.getElem?_eq_getElem there⟩
  have same := (agrees _ paired).2
  rw [List.getElem?_eq_getElem here, List.getElem?_eq_getElem there, Option.map_some, Option.map_some,
    eq_of_beq same]

end Branch

namespace Suite

/-- The hooks around all branches. -/
def around (suite : Suite) : List Hook × List Hook := (suite.beforeEverything, suite.afterEverything)

def plans (suite : Suite) : List Branch := suite.branches.map Branch.plan

def Undebugged (suite : Suite) : Prop :=
  ∀ index branch, suite.branch? index = some branch → branch.hasDebugStep = false

theorem plan_of_plans {suite other : Suite} (same : other.plans = suite.plans) {index : Nat}
    {branch : Branch} (found : other.branch? index = some branch) :
    ∃ planned, suite.branch? index = some planned ∧ branch.plan = planned.plan := by
  have here : other.plans[index]? = some branch.plan := by
    rw [plans, List.getElem?_map, ← branch?, found, Option.map_some]
  rw [same, plans, List.getElem?_map, Option.map_eq_some_iff] at here
  obtain ⟨planned, there, plan⟩ := here
  exact ⟨planned, there, plan.symm⟩

theorem Undebugged.of_plans {suite other : Suite} (undebugged : suite.Undebugged)
    (same : other.plans = suite.plans) : other.Undebugged := by
  intro index branch found
  obtain ⟨planned, there, plan⟩ := plan_of_plans same found
  rw [Branch.hasDebugStep_of_plan plan]
  exact undebugged index planned there

@[simp] theorem length_modify (suite : Suite) (index : Nat) (change : Branch → Branch) :
    (suite.modify index change).branches.length = suite.branches.length := by
  simp [modify]

theorem branch?_modify (suite : Suite) (index other : Nat) (change : Branch → Branch) :
    (suite.modify index change).branch? other =
      if index = other then (suite.branch? other).map change else suite.branch? other := by
  simp only [modify, branch?, getElem?_setAt]

theorem branch?_modify_self {suite : Suite} {index : Nat} {branch : Branch}
    (found : suite.branch? index = some branch) (change : Branch → Branch) :
    (suite.modify index change).branch? index = some (change branch) := by
  simp [branch?_modify, found]

theorem branch?_modify_of_ne {index other : Nat} (different : other ≠ index) (suite : Suite)
    (change : Branch → Branch) :
    (suite.modify index change).branch? other = suite.branch? other := by
  simp [branch?_modify, different.symm]

theorem branch?_foldl_modify (change : Branch → Branch) (chosen : List Nat) (nodup : chosen.Nodup)
    (suite : Suite) (other : Nat) :
    (chosen.foldl (fun suite index => suite.modify index change) suite).branch? other =
      if other ∈ chosen then (suite.branch? other).map change else suite.branch? other := by
  induction chosen generalizing suite with
  | nil => simp
  | cons first rest ih =>
      obtain ⟨fresh, nodup⟩ := List.nodup_cons.mp nodup
      rw [List.foldl_cons, ih nodup, branch?_modify]
      by_cases same : first = other
      · subst same
        simp [fresh]
      · simp [same, List.mem_cons, Ne.symm same]

theorem length_foldl_modify (change : Branch → Branch) (chosen : List Nat) (suite : Suite) :
    (chosen.foldl (fun suite index => suite.modify index change) suite).branches.length =
      suite.branches.length := by
  induction chosen generalizing suite with
  | nil => rfl
  | cons first rest ih => rw [List.foldl_cons, ih, length_modify]

theorem around_foldl_modify (change : Branch → Branch) (chosen : List Nat) (suite : Suite) :
    (chosen.foldl (fun suite index => suite.modify index change) suite).around = suite.around := by
  induction chosen generalizing suite with
  | nil => rfl
  | cons first rest ih =>
      rw [List.foldl_cons, ih]
      rfl

theorem mem_idleIndices {suite : Suite} {index : Nat} :
    index ∈ suite.idleIndices ↔ ∃ branch, suite.branch? index = some branch ∧ branch.isIdle = true := by
  simp only [idleIndices, List.mem_filter, List.mem_range, Option.any_eq_true]
  constructor
  · rintro ⟨_, branch, found, idle⟩
    exact ⟨branch, found, idle⟩
  · rintro ⟨branch, found, idle⟩
    exact ⟨(List.getElem?_eq_some_iff.mp found).1, branch, found, idle⟩

theorem nodup_similar (suite : Suite) (index count : Nat) :
    (suite.similar index count suite.idleIndices).Nodup := by
  unfold similar
  split
  · exact .nil
  · exact (List.nodup_range.filter _).filter _

/-- The line that a skipped repeat of a branch is given. -/
def repeatLine (suite : Suite) (index count : Nat) (reason : RepeatReason) : Text :=
  reason.message ++ ": '" ++
    (((suite.branch? index).bind fun branch => branch.steps[count - 1]?).map (·.text)).getD [] ++ "'"

theorem branch?_skipRepeats (suite : Suite) (index count : Nat) (reason : RepeatReason)
    (other : Nat) :
    (suite.skipRepeats index count reason).branch? other =
      if other ∈ suite.similar index count suite.idleIndices then
        (suite.branch? other).map (skip (suite.repeatLine index count reason))
      else suite.branch? other :=
  branch?_foldl_modify _ _ (suite.nodup_similar index count) suite other

/-- Nothing happens to any branch but one, except that idle branches may be skipped. -/
structure KeepsOthers (index : Nat) (before after : Suite) : Prop where
  around : after.around = before.around
  length : after.branches.length = before.branches.length
  others : ∀ other, other ≠ index → after.branch? other = before.branch? other ∨
    ∃ branch line, before.branch? other = some branch ∧ branch.isIdle = true ∧
      after.branch? other = some (skip line branch)

theorem KeepsOthers.refl (index : Nat) (suite : Suite) : KeepsOthers index suite suite :=
  ⟨rfl, rfl, fun _ _ => .inl rfl⟩

theorem keepsOthers_modify (index : Nat) (suite : Suite) (change : Branch → Branch) :
    KeepsOthers index suite (suite.modify index change) :=
  ⟨rfl, suite.length_modify index change, fun _ different => .inl (branch?_modify_of_ne different _ _)⟩

/-- Skipping the repeats of a branch leaves that branch alone, and what was done to it before. -/
theorem KeepsOthers.skipRepeats {index : Nat} {before after : Suite}
    (keeps : KeepsOthers index before after)
    (same : ∀ other, other ≠ index → after.branch? other = before.branch? other)
    (count : Nat) (reason : RepeatReason) :
    KeepsOthers index before (after.skipRepeats index count reason) where
  around := (around_foldl_modify _ _ _).trans keeps.around
  length := (length_foldl_modify _ _ _).trans keeps.length
  others other different := by
    rw [branch?_skipRepeats]
    split
    · next repeated =>
      right
      have idle : other ∈ after.idleIndices := by
        unfold similar at repeated
        split at repeated
        · simp at repeated
        · exact (List.mem_filter.mp repeated).1
      obtain ⟨branch, found, idle⟩ := mem_idleIndices.mp idle
      exact ⟨branch, _, (same other different).symm.trans found, idle, by rw [found]; rfl⟩
    · exact .inl (same other different)

theorem branch?_skipRepeats_self (suite : Suite) (index count : Nat) (reason : RepeatReason) :
    (suite.skipRepeats index count reason).branch? index = suite.branch? index := by
  rw [branch?_skipRepeats, if_neg]
  unfold similar
  split <;> simp

/-- Asking for the next step of a branch advances that branch and keeps the others. -/
theorem nextStep_advances {suite : Suite} {index : Nat} {branch : Branch}
    (found : suite.branch? index = some branch) (skipRepeat : Bool) :
    ∃ after, branch.Advances (suite.nextStep index true skipRepeat).1 after ∧
      (suite.nextStep index true skipRepeat).2.branch? index = some after ∧
      KeepsOthers index suite (suite.nextStep index true skipRepeat).2 := by
  simp only [nextStep, found]
  split
  · next completed => exact ⟨branch, .ended completed, found, .refl _ _⟩
  · next unfinished =>
    have unfinished : branch.status.isCompleted = false := by simpa using unfinished
    split
    · next behind =>
      exact ⟨_, .exhausted unfinished behind, branch?_modify_self found _, keepsOthers_modify _ _ _⟩
    · next step at_ =>
      split
      · next byHand =>
        refine ⟨_, .blocked unfinished at_ byHand, ?_, ?_⟩
        · split
          · rw [branch?_skipRepeats_self]
            exact branch?_modify_self found _
          · exact branch?_modify_self found _
        · split
          · exact (keepsOthers_modify _ _ _).skipRepeats
              (fun _ different => branch?_modify_of_ne different _ _) _ _
          · exact keepsOthers_modify _ _ _
      · next automatic =>
        exact ⟨_, .advanced unfinished at_ (by simpa using automatic), branch?_modify_self found _,
          keepsOthers_modify _ _ _⟩

/-- Recording the outcome of a step marks its branch and keeps the others. -/
theorem markStep_marks {suite : Suite} {index : Nat} {branch : Branch}
    (found : suite.branch? index = some branch) (step : Nat) (outcome : Outcome)
    (stopBranch skipRepeat : Bool) :
    (suite.markStep index step outcome stopBranch skipRepeat).branch? index =
        some (branch.markAt step outcome stopBranch) ∧
      KeepsOthers index suite (suite.markStep index step outcome stopBranch skipRepeat) := by
  have recorded : (suite.modify index (Branch.recordAt step outcome)).branch? index =
      some (branch.recordAt step outcome) := branch?_modify_self found _
  have finished : ((suite.modify index (Branch.recordAt step outcome)).modify index
      Branch.finish).branch? index = some (branch.recordAt step outcome).finish :=
    branch?_modify_self recorded _
  have others : ∀ other, other ≠ index → ((suite.modify index (Branch.recordAt step outcome)).modify
      index Branch.finish).branch? other = suite.branch? other := by
    intro other different
    rw [branch?_modify_of_ne different, branch?_modify_of_ne different]
  have keeps : KeepsOthers index suite
      ((suite.modify index (Branch.recordAt step outcome)).modify index Branch.finish) :=
    ⟨rfl, by simp, fun other different => .inl (others other different)⟩
  simp only [markStep, found, Branch.markAt]
  change (if _ then (suite.modify index (Branch.recordAt step outcome)).finishBranch index skipRepeat
    else suite.modify index (Branch.recordAt step outcome)).branch? index = _ ∧
    KeepsOthers index suite (if _ then
      (suite.modify index (Branch.recordAt step outcome)).finishBranch index skipRepeat
      else suite.modify index (Branch.recordAt step outcome))
  split
  · simp only [finishBranch, recorded]
    split
    · split
      · exact ⟨(branch?_skipRepeats_self _ _ _ _).trans finished, keeps.skipRepeats others _ _⟩
      · exact ⟨finished, keeps⟩
    · exact ⟨finished, keeps⟩
  · exact ⟨recorded, keepsOthers_modify _ _ _⟩

/-- Unless repeats are skipped, only the branch that is asked for its next step changes. -/
theorem branch?_nextStep_of_ne {index other : Nat} (different : other ≠ index) (suite : Suite)
    (advance : Bool) : (suite.nextStep index advance false).2.branch? other = suite.branch? other := by
  have modified (change : Branch → Branch) :
      (suite.modify index change).branch? other = suite.branch? other :=
    branch?_modify_of_ne different suite change
  unfold nextStep
  split
  · rfl
  · split
    · rfl
    · dsimp only
      split
      · cases advance with
        | true => exact modified _
        | false => rfl
      · split
        · exact modified _
        · cases advance with
          | true => exact modified _
          | false => rfl

/-- Unless repeats are skipped, only the branch changes of which an outcome is recorded. -/
theorem branch?_markStep_of_ne {index other : Nat} (different : other ≠ index) (suite : Suite)
    (step : Nat) (outcome : Outcome) (stopBranch : Bool) :
    (suite.markStep index step outcome stopBranch false).branch? other = suite.branch? other := by
  have modified (suite : Suite) (change : Branch → Branch) :
      (suite.modify index change).branch? other = suite.branch? other :=
    branch?_modify_of_ne different suite change
  have finished (suite : Suite) :
      (suite.finishBranch index false).branch? other = suite.branch? other := by
    unfold finishBranch
    split
    · rfl
    · dsimp only
      split
      · exact modified _ _
      · exact modified _ _
  unfold markStep
  split
  · rfl
  · dsimp only
    split
    · exact (finished _).trans (modified _ _)
    · exact modified _ _

theorem agrees_of_markStep {suite : Suite} {index other step : Nat} {branch fellow later : Branch}
    {outcome : Outcome} {stopBranch skipRepeat : Bool}
    (found : suite.branch? index = some branch) (different : other ≠ index)
    (present : suite.branch? other = some fellow)
    (marked : (suite.markStep index step outcome stopBranch skipRepeat).branch? other = some later)
    (changed : later ≠ fellow) : ∃ failure,
      (branch.recordAt step outcome).firstFailure = some failure ∧
        (branch.recordAt step outcome).finish.agreesUpTo (failure + 1) fellow = true := by
  have recorded : (suite.modify index (Branch.recordAt step outcome)).branch? index =
      some (branch.recordAt step outcome) := branch?_modify_self found _
  have finished : ((suite.modify index (Branch.recordAt step outcome)).modify index
      Branch.finish).branch? index = some (branch.recordAt step outcome).finish :=
    branch?_modify_self recorded _
  have kept : (suite.modify index (Branch.recordAt step outcome)).branch? other = some fellow :=
    (branch?_modify_of_ne different _ _).trans present
  have others : ((suite.modify index (Branch.recordAt step outcome)).modify index
      Branch.finish).branch? other = some fellow :=
    (branch?_modify_of_ne different _ _).trans kept
  have unchanged {after : Suite} (same : after.branch? other = some fellow) :
      after.branch? other ≠ some later := fun there =>
    changed (Option.some.inj (there.symm.trans same))
  simp only [markStep, found] at marked
  change (if _ then (suite.modify index (Branch.recordAt step outcome)).finishBranch index skipRepeat
    else suite.modify index (Branch.recordAt step outcome)).branch? other = _ at marked
  split at marked
  · simp only [finishBranch, recorded] at marked
    split at marked
    · next failure first =>
        refine ⟨failure, first, ?_⟩
        split at marked
        · rw [branch?_skipRepeats] at marked
          split at marked
          · next repeated =>
              simp only [similar, finished, List.mem_filter, others, Option.any_some,
                Bool.and_eq_true] at repeated
              exact repeated.2.2
          · exact absurd marked (unchanged others)
        · exact absurd marked (unchanged others)
    · exact absurd marked (unchanged others)
  · exact absurd marked (unchanged kept)

theorem nextBranch_eq_some {suite : Suite} {index : Nat} (next : suite.nextBranch = some index) :
    ∃ branch, suite.branch? index = some branch ∧ branch.isWaiting = true ∧
      (∀ id, branch.nonParallelId = some id → id ∉ suite.busyIds) ∧
      ∀ earlier other, earlier < index → suite.branch? earlier = some other →
        suite.mayStart other = false := by
  obtain ⟨bound, starts, first⟩ := List.findIdx?_eq_some_iff_getElem.mp next
  simp only [mayStart, Bool.and_eq_true] at starts
  refine ⟨suite.branches[index], List.getElem?_eq_getElem bound, starts.1, ?_, ?_⟩
  · intro id same busy
    simpa [same, busy] using starts.2
  · intro earlier other before found
    obtain ⟨inside, rfl⟩ := List.getElem?_eq_some_iff.mp found
    simpa using first earlier before

/-- A branch that waits and may not start has an id that is busy. -/
theorem busy_of_nextBranch {suite : Suite} {branch : Branch} (unclaimed : suite.nextBranch = none)
    (listed : branch ∈ suite.branches) (waiting : branch.isWaiting = true) :
    ∃ id, branch.nonParallelId = some id ∧ id ∈ suite.busyIds := by
  have refused := List.findIdx?_eq_none_iff.mp unclaimed branch listed
  rw [mayStart, waiting, Bool.true_and] at refused
  cases own : branch.nonParallelId with
  | none =>
      rw [own] at refused
      cases refused
  | some id => exact ⟨id, rfl, by simpa [own] using refused⟩

theorem mem_busyIds {suite : Suite} {id : Text} :
    id ∈ suite.busyIds ↔ ∃ index branch, suite.branch? index = some branch ∧
      branch.isActive = true ∧ branch.nonParallelId = some id := by
  simp only [busyIds, List.mem_filterMap]
  constructor
  · rintro ⟨branch, member, same⟩
    obtain ⟨index, found⟩ := List.getElem?_of_mem member
    split at same
    · next active => exact ⟨index, branch, found, active, same⟩
    · simp at same
  · rintro ⟨index, branch, found, active, same⟩
    exact ⟨branch, List.mem_of_getElem? found, by simp [active, same]⟩

end Suite

end TestTree
