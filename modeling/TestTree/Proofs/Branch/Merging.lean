import TestTree.Proofs.Branch.Bookkeeping
import TestTree.Proofs.Branch.Expands
import TestTree.Proofs.Branch.Interchange

namespace TestTree

theorem Branch.stepTexts_plan (branch : Branch) : branch.plan.stepTexts = branch.stepTexts := by
  rw [plan, reset, stepTexts, stepTexts, List.map_map]
  rfl

theorem Branch.stepTexts_withoutOrigins (branch : Branch) :
    branch.withoutOrigins.stepTexts = branch.stepTexts := by
  rw [withoutOrigins, stepTexts, stepTexts, List.map_map]
  rfl

/-- The suite of a single file that is taken is that of the tree of its text. -/
theorem Tree.generate_lone {text : Text} {options : BranchOptions} {suite : Suite}
    (accepted : (empty.parseIn text none false).2 = none)
    (generated : (empty.parseIn text none false).1.generate options = .ok suite) :
    (ofFiles [{ text }] >>= (·.generate options)) = .ok suite := by
  have tree : ofFiles [{ text }] = .ok (empty.parseIn text none false).1 := by
    rw [ofFiles, List.foldlM_cons]
    cases parsed : empty.parseIn text none false with
    | mk tree error =>
        rw [parsed] at accepted
        obtain rfl : error = none := accepted
        rfl
  rw [tree]
  exact generated

namespace Suite

variable {fresh ran : Suite}

/-- Whether a branch passed, or another branch that reads the same. -/
def passedAlike (suite : Suite) (index : Nat) : Bool :=
  (suite.branch? index).any fun branch =>
    suite.branches.any fun other => other.status.isPassed && other.stepTexts == branch.stepTexts

theorem merge_of_serialize (fresh : Suite) (ranged : ran.InRange) :
    fresh.merge ran.serialize = some (fresh.markPassed ran) := by
  have passed : ran.withoutOrigins.branches.filter (·.status.isPassed) =
      (ran.branches.filter (·.status.isPassed)).map Branch.withoutOrigins := List.filter_map
  have read : deserialize ran.serialize = some ran.withoutOrigins := (Carrying.suite ranged).parses
  have texts : Branch.stepTexts ∘ Branch.withoutOrigins = Branch.stepTexts :=
    funext Branch.stepTexts_withoutOrigins
  rw [merge, read, Option.map_some, markPassed, markPassed, passed, List.map_map, texts]

theorem branch?_markPassed (fresh ran : Suite) (index : Nat) :
    (fresh.markPassed ran).branch? index = (fresh.branch? index).map fun branch =>
      { branch with passedLastTime := ran.branches.any fun other =>
          other.status.isPassed && other.stepTexts == branch.stepTexts } := by
  have known (texts : List Text) :
      ((ran.branches.filter (·.status.isPassed)).map Branch.stepTexts).contains texts =
        ran.branches.any fun other => other.status.isPassed && other.stepTexts == texts := by
    rw [← List.any_beq', List.any_map, List.any_filter]
    rfl
  simp only [markPassed, branch?, List.getElem?_map, known]

theorem stepTexts_of_plans (same : ran.branches.map Branch.plan = fresh.branches.map Branch.plan)
    (index : Nat) :
    (ran.branch? index).map Branch.stepTexts = (fresh.branch? index).map Branch.stepTexts := by
  have plans := congrArg (fun plans => plans[index]?.map Branch.stepTexts) same
  have texts : Branch.stepTexts ∘ Branch.plan = Branch.stepTexts := funext Branch.stepTexts_plan
  simpa only [branch?, List.getElem?_map, Option.map_map, texts] using plans

theorem branch?_markPassed_of_plans
    (same : ran.branches.map Branch.plan = fresh.branches.map Branch.plan) (index : Nat) :
    (fresh.markPassed ran).branch? index =
      (fresh.branch? index).map ({ · with passedLastTime := ran.passedAlike index }) := by
  have texts := stepTexts_of_plans same index
  rw [branch?_markPassed]
  cases found : fresh.branch? index with
  | none => rfl
  | some branch =>
      rw [found] at texts
      obtain ⟨last, known, reads⟩ := Option.map_eq_some_iff.mp texts
      simp [passedAlike, known, reads]

theorem passedLastTimeCount_markPassed
    (same : ran.branches.map Branch.plan = fresh.branches.map Branch.plan) :
    (fresh.markPassed ran).passedLastTimeCount =
      (List.range ran.branches.length).countP ran.passedAlike := by
  have length : fresh.branches.length = ran.branches.length := by
    simpa using (congrArg List.length same).symm
  have marks : (fresh.markPassed ran).branches.map (·.passedLastTime) =
      (List.range ran.branches.length).map ran.passedAlike := by
    apply List.ext_getElem?
    intro index
    have marked := branch?_markPassed_of_plans same index
    rw [branch?] at marked
    rw [List.getElem?_map, marked, List.getElem?_map, Option.map_map]
    by_cases inside : index < ran.branches.length
    · rw [List.getElem?_range inside, branch?, List.getElem?_eq_getElem (length ▸ inside)]
      rfl
    · have outside : fresh.branches.length ≤ index := length ▸ Nat.le_of_not_lt inside
      rw [branch?, List.getElem?_eq_none outside, List.getElem?_eq_none (by simpa using inside)]
      rfl
  have counts := congrArg (List.countP id) marks
  rwa [List.countP_map, List.countP_map] at counts

/-- The outcomes of one suite, merged into another one of the same files and options: a branch is marked if it
passed, or another branch that reads the same, and nothing else is changed. -/
theorem merge_serialize {files : List Tree.SourceFile} {options : BranchOptions} {second : Suite}
    (generated : (Tree.ofFiles files >>= (·.generate options)) = .ok fresh)
    (again : (Tree.ofFiles files >>= (·.generate options)) = .ok second)
    (same : ran.branches.map Branch.plan = fresh.branches.map Branch.plan) (ranged : ran.InRange) :
    ∃ merged, second.merge ran.serialize = some merged ∧
      (∀ index, merged.branch? index =
        (second.branch? index).map ({ · with passedLastTime := ran.passedAlike index })) ∧
      merged.passedLastTimeCount = (List.range ran.branches.length).countP ran.passedAlike ∧
      merged = { second with branches := merged.branches } := by
  obtain rfl := Except.ok.inj (generated.symm.trans again)
  exact ⟨_, merge_of_serialize fresh ranged, branch?_markPassed_of_plans same,
    passedLastTimeCount_markPassed same, rfl⟩

/-- A file with a line that stands in it twice. -/
def chorus : Tree.SourceFile := { text := "A -\n\nB -\n\nA -".toList }

/-- The branches of `chorus`. -/
def verses : Suite := (Tree.grown "A -\n\nB -\n\nA -").suite

/-- What they are after a run in which only the first one passed. -/
def chanted : Suite :=
  verses.modify 0 fun branch => { branch with status := { branch.status with isPassed := true } }

theorem generate_chorus : (Tree.ofFiles [chorus] >>= (·.generate {})) = .ok verses :=
  Tree.generate_lone (by decide +kernel)
    (Tree.generate_eq_suite (by decide +kernel) (by decide +kernel))

theorem merge_serialize_chorus : ∃ merged,
    verses.merge chanted.serialize = some merged ∧
      (∀ index, merged.branch? index =
        (verses.branch? index).map ({ · with passedLastTime := chanted.passedAlike index })) ∧
      merged.passedLastTimeCount = 2 ∧
      (List.range 3).map chanted.passedAlike = [true, false, true] := by
  have plans : chanted.branches.map Branch.plan = verses.branches.map Branch.plan := by
    decide +kernel
  obtain ⟨merged, read, marks, count, -⟩ :=
    merge_serialize generate_chorus generate_chorus plans (by decide +kernel)
  have two : (List.range chanted.branches.length).countP chanted.passedAlike = 2 := by
    decide +kernel
  exact ⟨merged, read, marks, count.trans two, by decide +kernel⟩

/-- The third branch did not pass, but it reads like the first one, which did. -/
theorem merge_marks_unpassed : ∃ merged,
    (Tree.ofFiles [chorus] >>= (·.generate {})) = .ok verses ∧
      chanted.branches.map Branch.plan = verses.branches.map Branch.plan ∧ chanted.InRange ∧
      verses.merge chanted.serialize = some merged ∧
      chanted.branches.map (·.status.isPassed) = [true, false, false] ∧
      merged.branches.map (·.passedLastTime) = [true, false, true] ∧
      merged.passedLastTimeCount = 2 := by
  have ranged : chanted.InRange := by decide +kernel
  exact ⟨_, generate_chorus, by decide +kernel, ranged, merge_of_serialize verses ranged,
    by decide +kernel, by decide +kernel, by decide +kernel⟩

end Suite

end TestTree
