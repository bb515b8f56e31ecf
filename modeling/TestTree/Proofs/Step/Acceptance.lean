import Mathlib.Data.List.Forall2
import TestTree.Step.Line

namespace TestTree.Step

open Text

section Runs

variable {α β ε : Type}

theorem exists_of_bind {first : Except ε α} {next : α → Except ε β} {result : β}
    (ran : first >>= next = .ok result) : ∃ value, first = .ok value ∧ next value = .ok result := by
  cases first with
  | error fault => cases ran
  | ok value => exact ⟨value, rfl, ran⟩

theorem forall_mem_of_forM {check : α → Except ε Unit} {list : List α} (checked : list.forM check = .ok ()) :
    ∀ value ∈ list, check value = .ok () := by
  induction list with
  | nil => exact fun value absent => by cases absent
  | cons first rest ih =>
      obtain ⟨_, here, later⟩ :=
        exists_of_bind (show (check first >>= fun _ => rest.forM check) = .ok () from checked)
      exact List.forall_mem_cons.mpr ⟨here, ih later⟩

theorem forall₂_of_mapM {f : α → Except ε β} {xs : List α} {ys : List β}
    (ran : xs.mapM f = .ok ys) : List.Forall₂ (fun x y => f x = .ok y) xs ys := by
  induction xs generalizing ys with
  | nil =>
      cases ran
      exact .nil
  | cons x xs ih =>
      rw [List.mapM_cons] at ran
      obtain ⟨y, first, ran⟩ := exists_of_bind ran
      obtain ⟨others, rest, ran⟩ := exists_of_bind ran
      cases ran
      exact .cons first (ih rest)

end Runs

/-- Whether a line begins with a star, and what follows the star, or else all of it. -/
def starred (head : Text) : Bool × Text :=
  match head with
  | '*' :: rest => (true, trimStart rest)
  | body => (false, body)

theorem starred_of_unstarred {head : Text} (undeclared : head.head? ≠ some '*') : starred head = (false, head) := by
  rw [starred.eq_def]
  split
  · exact absurd rfl undeclared
  · rfl

/-- The identifiers behind a line, before it is known whether the line is a call. -/
def marks (head : Text) : Identifiers :=
  (trailingIdentifiers (starred head).2).foldl Identifiers.add { isDeclaration := (starred head).1 }

def onlyLiterals (assignments : List Assignment) : Bool :=
  !assignments.isEmpty && assignments.all (·.value.isLiteral)

/-- The step that a line says, and the checks it has passed. -/
structure Accepted (split : CodeSplit) (content : StepContent) : Prop where
  text : content.text = trim (stripIdentifiers (starred split.head).2)
  filled : content.text.isEmpty = false
  worded : isNumberLike content.text = false
  codeBlock : content.codeBlock = split.codeBlock
  hook : if (starred split.head).1 then declaredHook content.text (marks split.head) split.codeBlock = .ok content.hook
    else HookKind.ofText? content.text = none ∧ content.hook = none
  assignments : checkedAssignments content.text (marks split.head) = .ok content.assignments
  identifiers : content.identifiers = { marks split.head with
    isCall := !(starred split.head).1 && !(marks split.head).isTextual && split.codeBlock.isNone &&
      !onlyLiterals content.assignments }
  finders : (if onlyLiterals content.assignments then .ok [] else ElementFinder.parseAll content.callText) =
    .ok content.finders

theorem accepted_of_parseStep {split : CodeSplit} {content : StepContent}
    (read : parseStep split = .ok content) : Accepted split content := by
  rw [parseStep] at read
  split at read
  next declared body same =>
  have star : starred split.head = (declared, body) := same
  extract_lets ids text finish declare number at read
  have marked : marks split.head = ids := by rw [marks, star]
  have finished (filled : text.isEmpty = false) (worded : isNumberLike text = false) (hook : Option HookKind)
      (declares : if declared then declaredHook text ids split.codeBlock = .ok hook
        else HookKind.ofText? text = none ∧ hook = none)
      (read : finish hook = .ok content) : Accepted split content := by
    obtain ⟨assignments, assigned, read⟩ := exists_of_bind read
    extract_lets literal isCall unread done at read
    have last (finders : List ElementFinder) (found : (if onlyLiterals assignments then .ok []
        else ElementFinder.parseAll unread.callText) = .ok finders) (read : done finders = .ok content) :
        Accepted split content := by
      cases read
      exact ⟨by rw [star], filled, worded, rfl, by rw [star, marked]; exact declares,
        by rw [marked]; exact assigned, by rw [star, marked]; rfl, found⟩
    split at read
    · next literals => exact last [] (if_pos literals) read
    · next calls =>
        obtain ⟨finders, found, read⟩ := exists_of_bind read
        exact last finders ((if_neg calls).trans found) read
  split at read
  · cases read
  · next filled =>
      have filled := Bool.eq_false_iff.mpr filled
      simp only [number] at read
      split at read
      · cases read
      · next worded =>
          have worded := Bool.eq_false_iff.mpr worded
          simp only [declare] at read
          split at read
          · next starts =>
              obtain ⟨hook, declares, read⟩ := exists_of_bind read
              exact finished filled worded hook (by rw [if_pos starts]; exact declares) read
          · next plain =>
              split at read
              · cases read
              · next unreserved =>
                  exact finished filled worded none (by rw [if_neg plain]; exact ⟨unreserved, rfl⟩) read

/-- What a line says depends on its star, its text, its identifiers and its code. -/
theorem parseStep_congr {split other : CodeSplit}
    (star : (starred split.head).1 = (starred other.head).1)
    (text : trim (stripIdentifiers (starred split.head).2) = trim (stripIdentifiers (starred other.head).2))
    (ids : marks split.head = marks other.head) (code : split.codeBlock = other.codeBlock) :
    parseStep split = parseStep other := by
  rw [marks, marks] at ids
  generalize read : parseStep other = result
  rw [parseStep] at read ⊢
  split at read
  next declared body same =>
  have there : starred other.head = (declared, body) := same
  split
  next declared' body' same' =>
  have here : starred split.head = (declared', body') := same'
  rw [here, there] at star text ids
  obtain rfl : declared' = declared := star
  dsimp only at text ids
  rw [text, ids, code]
  exact read

/-- A line is a lone marker, or its step has been accepted. -/
theorem accepted_of_parseContent {body : Text} {content : StepContent} {opens : Bool}
    (read : parseContent body = .ok (content, opens)) :
    (splitCode body).head = ['.', '.'] ∧ (splitCode body).codeBlock = none ∧
        content = { identifiers := { isSequential := true } } ∧ opens = false ∨
      (splitCode body).head ≠ ['.', '.'] ∧ Accepted (splitCode body) content ∧
        opens = (splitCode body).opensCode := by
  rw [parseContent] at read
  split at read
  · next dots =>
      split at read
      · cases read
      · next codeless =>
          cases read
          exact .inl ⟨dots, Option.not_isSome_iff_eq_none.mp codeless, rfl, rfl⟩
  · next spoken =>
      obtain ⟨step, parsed, same⟩ := exists_of_bind read
      cases same
      exact .inr ⟨spoken, accepted_of_parseStep parsed, rfl⟩

/-- What a line says is what is said in front of its comment. -/
theorem parseContent_of_parseLine {line : Text} {filename : Option Text} {number : Nat} {parsed : ParsedLine}
    (read : parseLine line filename number = .ok parsed) :
    parseContent (splitComment (trim line)).1 = .ok (parsed.step.toStepContent, parsed.opensCode) := by
  rw [parseLine] at read
  dsimp only at read
  split at read
  · cases read
  · next content opens ok =>
      cases read
      exact ok

/-- No special variable is set in a way that is not allowed. -/
theorem checkSpecial_of_checkedAssignments {text : Text} {ids : Identifiers} {assignments : List Assignment}
    (checked : checkedAssignments text ids = .ok assignments) :
    ∀ assignment ∈ assignments, assignment.checkSpecial = .ok () := by
  rw [checkedAssignments] at checked
  split at checked
  · cases checked
    exact fun assignment absent => by cases absent
  · obtain ⟨parsed, -, checked⟩ := exists_of_bind checked
    split at checked
    · cases checked
    · obtain ⟨_, specials, checked⟩ := exists_of_bind checked
      cases checked
      exact forall_mem_of_forM specials

theorem checkSpecial_of_parseLine {line : Text} {filename : Option Text} {number : Nat} {parsed : ParsedLine}
    (read : parseLine line filename number = .ok parsed) :
    ∀ assignment ∈ parsed.step.assignments, assignment.checkSpecial = .ok () := by
  obtain ⟨-, -, marker, -⟩ | ⟨-, accepted, -⟩ := accepted_of_parseContent (parseContent_of_parseLine read)
  · rw [marker]
    exact fun assignment absent => by cases absent
  · exact checkSpecial_of_checkedAssignments accepted.assignments

end TestTree.Step
