import TestTree.Call.Name
import TestTree.Step.Reference
import TestTree.Text.Order

namespace TestTree

/-- Named values; each name occurs once. -/
abbrev Bindings := List (Text × Text)

namespace Bindings

def get? (bindings : Bindings) (name : Text) : Option Text :=
  (bindings.find? fun binding => binding.1 == name).map (·.2)

/-- Sets one name, in the place where it stood or else at the end. -/
def set (bindings : Bindings) (name value : Text) : Bindings :=
  match bindings with
  | [] => [(name, value)]
  | binding :: rest =>
      if binding.1 = name then (name, value) :: rest else binding :: set rest name value

/-- All bindings of both; those of `inner` prevail. -/
def override (outer inner : Bindings) : Bindings :=
  inner.foldl (fun bindings binding => set bindings binding.1 binding.2) outer

def sorted (bindings : Bindings) : Bindings := bindings.mergeSort fun a b => Text.le a.1 b.1

end Bindings

structure UnknownVariable where
  name : Text
  isLocal : Bool
deriving DecidableEq, Repr

def UnknownVariable.message (unknown : UnknownVariable) : Text :=
  "The variable " ++ Reference.render ⟨unknown.name, unknown.isLocal⟩ ++
    " is never set, but is needed for this step"

/-- The values of the variables; the frames begin with that of the outermost level. -/
structure Variables where
  globals : Bindings := []
  frames : List Bindings := []
deriving DecidableEq, Repr

namespace Variables

/-- The frames of the levels up to `depth`, with empty frames for the levels that have none. -/
def padded (frames : List Bindings) (depth : Nat) : List Bindings :=
  frames ++ List.replicate (depth + 1 - frames.length) []

/-- Comes to level `depth`: deeper frames are dropped. -/
def enter (scope : Variables) (depth : Nat) : Variables :=
  { scope with frames := padded (scope.frames.take (depth + 1)) depth }

def get? (scope : Variables) (name : Text) (isLocal : Bool) : Option Text :=
  let name := Text.trim name
  if isLocal then scope.frames.reverse.findSome? (Bindings.get? · name)
  else scope.globals.get? name

def setLast (name value : Text) : List Bindings → List Bindings
  | [] => [[(name, value)]]
  | [frame] => [frame.set name value]
  | frame :: next :: rest => frame :: setLast name value (next :: rest)

/-- Sets a global variable, or a local one in the innermost frame. -/
def set (scope : Variables) (name value : Text) (isLocal : Bool) : Variables :=
  let name := Text.trim name
  if isLocal then { scope with frames := setLast name value scope.frames }
  else { scope with globals := scope.globals.set name value }

/-- Sets a local variable in the frame of level `depth`. -/
def setLocalAt (scope : Variables) (depth : Nat) (name value : Text) : Variables :=
  { scope with
    frames := (padded scope.frames depth).modify depth fun frame =>
      frame.set (Text.trim name) value }

def lookup (scope : Variables) (reference : Reference) : Except UnknownVariable Text :=
  match scope.get? reference.name reference.isLocal with
  | some value => pure value
  | none => throw ⟨Text.trim reference.name, reference.isLocal⟩

/-- Replaces every reference; the first one without a value is an error. -/
def substitutePieces (scope : Variables) : List Reference.Piece → Except UnknownVariable Text
  | [] => pure []
  | .plain c :: rest => do return c :: (← scope.substitutePieces rest)
  | .reference reference :: rest => do
      let value ← scope.lookup reference
      return value ++ (← scope.substitutePieces rest)

def substitute (scope : Variables) (text : Text) : Except UnknownVariable Text :=
  scope.substitutePieces (Reference.pieces false text)

/-- Replaces the references that have a value, and leaves the others as written. -/
def substituteKnown (scope : Variables) (text : Text) : Text :=
  (Reference.pieces false text).flatMap fun
    | .plain c => [c]
    | .reference reference =>
        (scope.get? reference.name reference.isLocal).getD reference.render

/-- The value of an input: a string has its references replaced, a variable has its value, and
anything else stands for itself. -/
def resolveInput (scope : Variables) (token : Text) : Except UnknownVariable Text :=
  match Text.unquote token with
  | some literal => scope.substitute literal
  | none =>
      match Reference.take? token with
      | some (reference, []) => scope.lookup reference
      | _ => pure token

def resolveBindings (scope : Variables) :
    List ParamBinding → Except UnknownVariable Bindings
  | [] => pure []
  | binding :: rest => do
      let value ← scope.resolveInput binding.input
      return (binding.name, value) :: (← scope.resolveBindings rest)

/-- Opens the frame of a call at level `depth`. Its inputs are resolved outside that frame. -/
def bindParams (scope : Variables) (depth : Nat) (bindings : List ParamBinding) :
    Except UnknownVariable Variables := do
  let resolved ← scope.resolveBindings bindings
  let entered := scope.enter depth
  return { entered with frames := entered.frames ++ [Bindings.override [] resolved] }

/-- Every variable that can be read, by name. Local variables hide global ones. -/
def visible (scope : Variables) : Bindings :=
  (scope.frames.foldl Bindings.override scope.globals).sorted

end Variables

end TestTree
