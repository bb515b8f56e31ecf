import TestTree.Text.LowerCase
import TestTree.Text.Quoted

/-!
Names of functions. A name is made of words and inputs: quoted strings, `{x}`, `{{x}}` and `[…]` in
a call, parameters in a declaration. Two names are the same if their canonical forms are: all
inputs look alike there, and neither case nor spacing matters.
-/
namespace TestTree

namespace CallName

open Text

/-- A stretch of a name: an input as written, or one plain character. -/
inductive Piece
  | input (token : Text)
  | plain (c : Char)
deriving DecidableEq, Repr

/-- Splits just behind the first occurrence of `closer`. -/
def splitBehind (closer : Text) : Text → Option (Text × Text)
  | [] => none
  | c :: rest =>
      match after? closer (c :: rest) with
      | some behind => some (closer, behind)
      | none => (splitBehind closer rest).map fun (token, behind) => (c :: token, behind)

/-- Reads an input at the start of a name. -/
def takeInput (text : Text) : Option (Text × Text) :=
  match text with
  | [] => none
  | c :: rest =>
      if isQuote c then
        (takeQuoted text).map fun (_, behind) => (text.take (text.length - behind.length), behind)
      else if c = '{' then
        if rest.head? = some '{' then splitBehind ['}', '}'] text else splitBehind ['}'] text
      else if c = '[' then splitBehind [']'] text
      else none

theorem length_of_splitBehind {closer text token behind : Text} (nonempty : closer ≠ [])
    (split : splitBehind closer text = some (token, behind)) : behind.length < text.length := by
  induction text generalizing token with
  | nil => simp [splitBehind] at split
  | cons c rest ih =>
      simp only [splitBehind] at split
      split at split
      · next found =>
        simp only [Option.some.injEq, Prod.mk.injEq] at split
        have whole := congrArg List.length (after?_eq_some found)
        have positive := List.length_pos_iff.2 nonempty
        rw [← split.2]
        simp only [List.length_append] at whole
        omega
      · simp only [Option.map_eq_some_iff] at split
        obtain ⟨⟨inner, tail⟩, found, same⟩ := split
        simp only [Prod.mk.injEq] at same
        have := ih (same.2 ▸ found)
        simp only [List.length_cons]
        omega

theorem length_of_takeInput {text token behind : Text}
    (taken : takeInput text = some (token, behind)) : behind.length < text.length := by
  unfold takeInput at taken
  split at taken
  · simp at taken
  · next c rest =>
    split at taken
    · simp only [Option.map_eq_some_iff] at taken
      obtain ⟨⟨value, tail⟩, found, same⟩ := taken
      simp only [Prod.mk.injEq] at same
      exact same.2 ▸ length_of_takeQuoted found
    · split at taken
      · split at taken
        · exact length_of_splitBehind (by simp) taken
        · exact length_of_splitBehind (by simp) taken
      · split at taken
        · exact length_of_splitBehind (by simp) taken
        · simp at taken

/-- Cuts a name into inputs and plain characters. -/
def pieces (text : Text) : List Piece :=
  match text with
  | [] => []
  | c :: rest =>
      match _taken : takeInput (c :: rest) with
      | some (token, behind) => .input token :: pieces behind
      | none => .plain c :: pieces rest
termination_by text.length
decreasing_by
  · exact length_of_takeInput _taken
  · simp

def Piece.canonical : Piece → Text
  | .input _ => [' ', '{', '}', ' ']
  | .plain c => lowerChar c

/-- The form in which names are compared. -/
def canonical (text : Text) : Text := collapse ((pieces text).flatMap Piece.canonical)

/-- The inputs of a call, or the parameters of a declaration, as written. -/
def inputs (text : Text) : List Text :=
  (pieces text).filterMap fun
    | .input token => some token
    | .plain _ => none

def parameterName (token : Text) : Text :=
  trim ((token.dropWhile (· = '{')).reverse.dropWhile (· = '}')).reverse

end CallName

/-- A parameter of a declaration with the input that a call gives for it. -/
structure ParamBinding where
  name : Text
  input : Text
deriving DecidableEq, Repr

/-- Pairs the parameters of a declaration with the inputs of a call, in order. -/
def bindParams (call declaration : Text) : List ParamBinding :=
  List.zipWith (fun parameter input => ⟨CallName.parameterName parameter, input⟩)
    (CallName.inputs declaration) (CallName.inputs call)

end TestTree
