import TestTree.Json.Basic

/-!
Records in JSON. A record is an object whose members have known names, or a list of the values of
its fields in order. A field that is absent may have a default; in an object, an optional field may
be left out as well.
-/
namespace TestTree.Json

def text? : Json → Option Text
  | string written => JsonString.decode written
  | _ => none

def bool? : Json → Option Bool
  | bool value => some value
  | _ => none

def digitsValue (digits : Text) : Nat := digits.foldl (fun n c => 10 * n + (c.toNat - 48)) 0

/-- An integer written without point and exponent; minus zero is none. -/
def int? : Json → Option Int
  | number ('-' :: digits) =>
      if digits.all Char.isDigit && digitsValue digits ≠ 0 then some (-(digitsValue digits)) else none
  | number digits => if digits.all Char.isDigit then some (digitsValue digits) else none
  | _ => none

/-- A natural number of 64 bits. -/
def nat? (value : Json) : Option Nat :=
  value.int?.bind fun n => if 0 ≤ n ∧ n < 0x10000000000000000 then some n.toNat else none

/-- A signed number of 64 bits. -/
def int64? (value : Json) : Option Int :=
  value.int?.bind fun n => if -0x8000000000000000 ≤ n ∧ n < 0x8000000000000000 then some n else none

/-- Reads `null` as none. -/
def orNull {α : Type} (read : Json → Option α) : Json → Option (Option α)
  | null => some none
  | value => (read value).map some

def list? {α : Type} (read : Json → Option α) : Json → Option (List α)
  | array elements => elements.mapM read
  | _ => none

/-- A word out of a list of choices: a string, or an object that maps the word to `null`. -/
def choice? {α : Type} (choices : List (Text × α)) (value : Json) : Option α :=
  let word := match value with
    | string written => JsonString.decode written
    | object [(key, null)] => JsonString.decode key
    | _ => none
  word.bind fun word => (choices.find? fun choice => choice.1 == word).map (·.2)

/-- The fields that a record gives, and whether it is a list. -/
structure Record where
  fields : List (Text × Json)
  isList : Bool

/-- The members with a known name; a name given twice is an error. -/
def knownMembers (names : List Text) : List (Text × Json) → Option (List (Text × Json))
  | [] => some []
  | (key, value) :: rest => do
      let name ← JsonString.decode key
      let others ← knownMembers names rest
      if names.contains name then
        if others.any fun other => other.1 == name then none else return (name, value) :: others
      else return others

/-- Reads a record with these fields. -/
def record? (names : List Text) : Json → Option Record
  | object members => (knownMembers names members).map fun fields => ⟨fields, false⟩
  | array elements =>
      if elements.length ≤ names.length then some ⟨names.zip elements, true⟩ else none
  | _ => none

namespace Record

def get? (record : Record) (name : Text) : Option Json :=
  (record.fields.find? fun field => field.1 == name).map (·.2)

def required {α : Type} (record : Record) (name : Text) (read : Json → Option α) : Option α :=
  (record.get? name).bind read

/-- A field that is none if an object leaves it out. -/
def optional {α : Type} (record : Record) (name : Text) (read : Json → Option α) :
    Option (Option α) :=
  match record.get? name with
  | some value => orNull read value
  | none => if record.isList then none else some none

def withDefault {α : Type} (record : Record) (name : Text) (read : Json → Option α) (value : α) :
    Option α :=
  match record.get? name with
  | some given => read given
  | none => some value

end Record

end TestTree.Json
