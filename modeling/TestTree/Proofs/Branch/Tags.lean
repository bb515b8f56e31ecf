import Mathlib.Data.List.Basic
import TestTree.Branch.Selection

namespace TestTree

open Text

section Setting

variable {value : Text} {frequency : Frequency}

theorem Frequency.name_of_ofText? (read : Frequency.ofText? value = some frequency) : frequency.name = value := by
  rw [ofText?.eq_def] at read
  split at read <;> cases read <;> rfl

/-- Only the name of a frequency may be set as one. -/
theorem Assignment.frequency_of_checkSpecial {isLocal : Bool}
    (checked : checkSpecial ⟨frequencyName, .literal value, isLocal⟩ = .ok ()) :
    ∃ frequency, Frequency.ofText? value = some frequency ∧ frequency.name = value := by
  have lowered : lower frequencyName = frequencyName := by decide +kernel
  rw [checkSpecial] at checked
  simp only [lowered, ne_eq, not_true_eq_false, false_and, if_false, true_and] at checked
  split at checked
  · cases checked
  · split at checked
    · cases checked
    · next known =>
        rw [Option.isNone_iff_eq_none] at known
        obtain ⟨frequency, read⟩ := Option.ne_none_iff_exists'.mp known
        exact ⟨frequency, read, Frequency.name_of_ofText? read⟩

end Setting

namespace Branch

variable {entries : List (Text × Text)} {name : Text}

/-- The strings that the steps of the branch set a global variable to, in order. -/
def settings (name : Text) (branch : Branch) : List Text :=
  (branch.steps.flatMap (·.assignments)).filterMap fun
    | ⟨own, .literal value, false⟩ => if own = name then some value else none
    | _ => none

/-- What the pairs of a name and a value say of one name. -/
def valuesOf (name : Text) (entries : List (Text × Text)) : List Text :=
  entries.filterMap fun entry => if entry.1 = name then some entry.2 else none

theorem settings_eq (name : Text) (branch : Branch) : branch.settings name = valuesOf name branch.globalLiterals := by
  rw [settings, valuesOf, globalLiterals, List.filterMap_filterMap]
  congr 1
  funext assignment
  obtain ⟨own, value | call, isLocal⟩ := assignment
  · cases isLocal <;> rfl
  · rfl

theorem valuesOf_cons_self (name value : Text) (entries : List (Text × Text)) :
    valuesOf name ((name, value) :: entries) = value :: valuesOf name entries := by
  simp [valuesOf]

theorem valuesOf_cons_of_ne {own : Text} (different : own ≠ name) (value : Text) (entries : List (Text × Text)) :
    valuesOf name ((own, value) :: entries) = valuesOf name entries := by
  simp [valuesOf, different]

/-- The last value of the frequency is found, if every value is one. -/
theorem foldl_frequency (valid : ∀ value ∈ valuesOf Assignment.frequencyName entries,
      ∃ frequency, Frequency.ofText? value = some frequency ∧ frequency.name = value) (found : Option Frequency) :
    (entries.foldl (fun found entry =>
        if entry.1 = Assignment.frequencyName then (Frequency.ofText? entry.2).or found else found) found).map
      Frequency.name = (valuesOf Assignment.frequencyName entries).getLast?.or (found.map Frequency.name) := by
  induction entries generalizing found with
  | nil => rfl
  | cons entry rest ih =>
      obtain ⟨own, value⟩ := entry
      rw [List.foldl_cons]
      dsimp only
      by_cases same : own = Assignment.frequencyName
      · obtain rfl := same
        rw [valuesOf_cons_self] at valid ⊢
        obtain ⟨frequency, read, named⟩ := valid value (.head _)
        rw [if_pos rfl, read, Option.some_or, ih (fun value listed => valid value (.tail _ listed)), Option.map_some,
          named, List.getLast?_cons, Option.or_some, Option.some_or]
      · rw [valuesOf_cons_of_ne same] at valid ⊢
        rw [if_neg same, ih valid]

/-- The values of the groups are collected, each where it first occurs. -/
theorem foldl_groups (entries : List (Text × Text)) (found : List Text) :
    entries.foldl (fun found entry =>
        if entry.1 = Assignment.groupName ∧ entry.2 ∉ found then found ++ [entry.2] else found) found =
      found ++ ((valuesOf Assignment.groupName entries).filter (· ∉ found)).eraseDups := by
  induction entries generalizing found with
  | nil => simp [valuesOf]
  | cons entry rest ih =>
      obtain ⟨own, value⟩ := entry
      rw [List.foldl_cons, ih]
      dsimp only
      by_cases same : own = Assignment.groupName
      · obtain rfl := same
        rw [valuesOf_cons_self]
        by_cases old : value ∈ found
        · rw [if_neg fun fresh => fresh.2 old, List.filter_cons_of_neg (by simpa using old)]
        · rw [if_pos ⟨rfl, old⟩, List.filter_cons_of_pos (by simpa using old), List.eraseDups_cons,
            List.filter_filter, List.append_assoc, List.singleton_append]
          congr 4
          funext other
          simp [Bool.and_comm, beq_eq_decide]
      · rw [if_neg fun both => same both.1, valuesOf_cons_of_ne same]

/-- The tags of a branch are those that its steps set. -/
structure Tagged (branch : Branch) : Prop where
  frequency : branch.frequency.map Frequency.name = (branch.settings Assignment.frequencyName).getLast?
  groups : branch.groups = (branch.settings Assignment.groupName).eraseDups

theorem valid_of_checkSpecial {branch : Branch}
    (checked : ∀ step ∈ branch.steps, ∀ assignment ∈ step.assignments, assignment.checkSpecial = .ok ()) :
    ∀ value ∈ branch.settings Assignment.frequencyName,
      ∃ frequency, Frequency.ofText? value = some frequency ∧ frequency.name = value := by
  intro value listed
  obtain ⟨assignment, among, picked⟩ := List.mem_filterMap.mp listed
  obtain ⟨step, passed, inside⟩ := List.mem_flatMap.mp among
  have special := checked step passed assignment inside
  split at picked
  · next own literal =>
      split at picked
      · next same =>
          cases picked
          obtain rfl := same
          exact Assignment.frequency_of_checkSpecial special
      · cases picked
  · cases picked

theorem tagged_tag {branch : Branch}
    (checked : ∀ step ∈ branch.steps, ∀ assignment ∈ step.assignments, assignment.checkSpecial = .ok ()) :
    branch.tag.Tagged where
  frequency := by
    have valid := valid_of_checkSpecial checked
    rw [settings_eq] at valid
    have found := foldl_frequency valid none
    rw [Option.map_none, Option.or_none] at found
    exact found.trans (congrArg List.getLast? (settings_eq Assignment.frequencyName branch).symm)
  groups := by
    have found := foldl_groups branch.globalLiterals []
    have all : (valuesOf Assignment.groupName branch.globalLiterals).filter (· ∉ ([] : List Text)) =
        branch.settings Assignment.groupName := by
      rw [settings_eq]
      exact List.filter_eq_self.mpr fun value _ => by simp
    rw [all, List.nil_append] at found
    exact found

end Branch

end TestTree
