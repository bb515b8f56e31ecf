import TestTree.Text.Blank

namespace TestTree

/-- A reference as written; the name keeps its white space. -/
structure Reference where
  name : Text
  isLocal : Bool
deriving DecidableEq, Repr

namespace Reference

def isBrace (c : Char) : Bool := c == '{' || c == '}'

/-- The characters up to the next brace, and the rest. -/
def spanName (text : Text) : Text × Text :=
  (text.takeWhile fun c => !isBrace c, text.dropWhile fun c => !isBrace c)

/-- Reads a reference, possibly with an empty name. Two opening braces need two closing ones. -/
def takeBraced : Text → Option (Reference × Text)
  | '{' :: '{' :: rest =>
      match spanName rest with
      | (name, '}' :: '}' :: behind) => some (⟨name, true⟩, behind)
      | _ => none
  | '{' :: rest =>
      match spanName rest with
      | (name, '}' :: behind) => some (⟨name, false⟩, behind)
      | _ => none
  | _ => none

theorem length_spanName (text : Text) : (spanName text).2.length ≤ text.length :=
  (List.dropWhile_suffix fun c => !isBrace c).length_le

theorem length_of_takeBraced {text rest : Text} {reference : Reference}
    (taken : takeBraced text = some (reference, rest)) : rest.length < text.length := by
  unfold takeBraced at taken
  split at taken
  · next inner =>
    have size := length_spanName inner
    split at taken
    · next name behind found =>
      simp only [Option.some.injEq, Prod.mk.injEq] at taken
      rw [found] at size
      rw [← taken.2]
      simp only [List.length_cons] at size ⊢
      omega
    · simp at taken
  · next inner _ =>
    have size := length_spanName inner
    split at taken
    · next name behind found =>
      simp only [Option.some.injEq, Prod.mk.injEq] at taken
      rw [found] at size
      rw [← taken.2]
      simp only [List.length_cons] at size ⊢
      omega
    · simp at taken
  · simp at taken

def take? (text : Text) : Option (Reference × Text) :=
  match takeBraced text with
  | some (reference, behind) => if reference.name.isEmpty then none else some (reference, behind)
  | none => none

def render (reference : Reference) : Text :=
  if reference.isLocal then '{' :: '{' :: (reference.name ++ ['}', '}'])
  else '{' :: (reference.name ++ ['}'])

/-- A stretch of text: one plain character or one reference. -/
inductive Piece
  | plain (c : Char)
  | reference (reference : Reference)
deriving DecidableEq, Repr

/-- Cuts a text into pieces, the leftmost reference first. Braces around nothing count as a reference
only if `allowEmpty` is set. -/
def pieces (allowEmpty : Bool) (text : Text) : List Piece :=
  match text with
  | [] => []
  | c :: rest =>
      match _taken : takeBraced (c :: rest) with
      | some (reference, behind) =>
          if allowEmpty || !reference.name.isEmpty then
            .reference reference :: pieces allowEmpty behind
          else .plain c :: pieces allowEmpty rest
      | none => .plain c :: pieces allowEmpty rest
termination_by text.length
decreasing_by
  · have := length_of_takeBraced _taken
    simpa using this
  · simp
  · simp

end Reference

end TestTree
