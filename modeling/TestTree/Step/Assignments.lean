import TestTree.Error
import TestTree.Text.Quoted
import TestTree.Text.LowerCase
import TestTree.Step.Reference

/-!
Assignments at the start of a line: `{a} = 'x', {{b}} = "y"` or `{a} = Some Function`. Several
assignments on one line are all strings. The variables `frequency` and `group` are special: they are
written in lower case, are not local, and are set to strings.
-/
namespace TestTree.Assignment

open Text Reference

/-- The left-hand side of an assignment; the two flags tell how it is opened and closed. -/
structure Head where
  name : Text
  opensLocal : Bool
  closesLocal : Bool
deriving DecidableEq, Repr

def takeBrace (brace : Char) : Text → Bool × Text
  | [] => (false, [])
  | c :: rest => if c = brace then (true, rest) else (false, c :: rest)

/-- Reads `{name} =` or `{{name}} =` and the white space behind it. The numbers of opening and
closing braces may differ. -/
def takeHead : Text → Option (Head × Text)
  | [] => none
  | c :: rest =>
      if c ≠ '{' then none
      else
        let (opensLocal, inner) := takeBrace '{' rest
        let name := inner.takeWhile fun c => !isBrace c
        match inner.dropWhile fun c => !isBrace c with
        | [] => none
        | d :: behind =>
            if name.isEmpty || d ≠ '}' then none
            else
              let (closesLocal, tail) := takeBrace '}' behind
              match trimStart tail with
              | '=' :: value => some (⟨name, opensLocal, closesLocal⟩, trimStart value)
              | _ => none

/-- Whether an assignment starts anywhere in the text. -/
def hasHead : Text → Bool
  | [] => false
  | c :: rest => (takeHead (c :: rest)).isSome || hasHead rest

theorem length_dropWhile_le (p : Char → Bool) (text : Text) :
    (text.dropWhile p).length ≤ text.length :=
  (List.dropWhile_suffix p).length_le

theorem length_takeBrace_le (brace : Char) (text : Text) :
    (takeBrace brace text).2.length ≤ text.length := by
  cases text with
  | nil => simp [takeBrace]
  | cons c rest => simp only [takeBrace]; split <;> simp

theorem length_of_takeHead {text rest : Text} {head : Head}
    (taken : takeHead text = some (head, rest)) : rest.length < text.length := by
  cases text with
  | nil => simp [takeHead] at taken
  | cons c tail =>
      simp only [takeHead] at taken
      split at taken
      · simp at taken
      · have opened := length_takeBrace_le '{' tail
        have named := length_dropWhile_le (fun c => !isBrace c) (takeBrace '{' tail).2
        split at taken
        · simp at taken
        · next behind found =>
          split at taken
          · simp at taken
          · have closed := length_takeBrace_le '}' behind
            have blank := length_dropWhile_le isBlank (takeBrace '}' behind).2
            split at taken
            · next value equals =>
              simp only [Option.some.injEq, Prod.mk.injEq] at taken
              have last := length_dropWhile_le isBlank value
              rw [← taken.2]
              simp only [trimStart] at equals last ⊢
              rw [found] at named
              rw [equals] at blank
              simp only [List.length_cons] at named blank ⊢
              omega
            · simp at taken

/-- Reads assignments after the ones in `done`. -/
def parseFrom (done : List Assignment) (text : Text) : Except Fault (List Assignment) :=
  match _head : takeHead text with
  | none => if !done.isEmpty && !text.isEmpty then throw .strayAssignmentText else pure done
  | some (⟨name, opensLocal, closesLocal⟩, value) =>
      if opensLocal ≠ closesLocal then throw .mismatchedBraces
      else
        match _quoted : takeQuoted value with
        | some (literal, behind) =>
            let done := done ++ [⟨trim name, .literal literal, opensLocal⟩]
            match _next : trimStart behind with
            | [] => pure done
            | c :: rest =>
                if c = ',' then parseFrom done (trimStart rest) else throw .textAfterLiteral
        | none =>
            let call := trim value
            if !done.isEmpty || hasHead call then throw .severalWithCall
            else if call.isEmpty then throw .missingValue
            else pure [⟨trim name, .call call, opensLocal⟩]
termination_by text.length
decreasing_by
  have first := length_of_takeHead _head
  have second := length_of_takeQuoted _quoted
  have third := length_dropWhile_le isBlank behind
  have fourth := length_dropWhile_le isBlank rest
  simp only [trimStart] at _next
  rw [_next] at third
  simp only [trimStart, List.length_cons] at third ⊢
  omega

/-- The assignments at the start of a text; none if it does not start with one. -/
def parse (text : Text) : Except Fault (List Assignment) := parseFrom [] (trim text)

def frequencyName : Text := "frequency"

def groupName : Text := "group"

/-- Checks one assignment against the rules for the special variables. -/
def checkSpecial (assignment : Assignment) : Except Fault Unit :=
  let name := lower assignment.name
  if name ≠ frequencyName ∧ name ≠ groupName then pure ()
  else if assignment.name ≠ name then throw (.specialNotLowercase name)
  else if assignment.isLocal then throw (.specialLocal name)
  else
    match assignment.value with
    | .call _ => throw (.specialCall name)
    | .literal value =>
        if name = frequencyName ∧ (Frequency.ofText? value).isNone then throw (.badFrequency value)
        else pure ()

end TestTree.Assignment
