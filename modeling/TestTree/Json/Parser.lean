import TestTree.Json.Basic

namespace TestTree.Json

def isSpace (c : Char) : Bool := c == ' ' || c == '\n' || c == '\t' || c == '\r'

def skipSpace (text : Text) : Text := text.dropWhile isSpace

def takeDigits (text : Text) : Option (Text × Text) :=
  let digits := text.takeWhile Char.isDigit
  if digits.isEmpty then none else some (digits, text.dropWhile Char.isDigit)

/-- The digits before the point; several digits do not start with zero. -/
def takeWhole (text : Text) : Option (Text × Text) :=
  match takeDigits text with
  | some ('0' :: _ :: _, _) => none
  | taken => taken

/-- The point and the digits behind it, if there is a point. -/
def takeFraction : Text → Option (Text × Text)
  | '.' :: rest => (takeDigits rest).map fun (digits, behind) => ('.' :: digits, behind)
  | text => some ([], text)

/-- The exponent, if there is one. -/
def takeExponent : Text → Option (Text × Text)
  | [] => some ([], [])
  | c :: rest =>
      if c = 'e' ∨ c = 'E' then
        match rest with
        | [] => none
        | sign :: digits =>
            if sign = '+' ∨ sign = '-' then
              (takeDigits digits).map fun (digits, behind) => (c :: sign :: digits, behind)
            else (takeDigits rest).map fun (digits, behind) => (c :: digits, behind)
      else some ([], c :: rest)

def takeNumber (text : Text) : Option (Text × Text) := do
  let (sign, unsigned) := match text with
    | '-' :: rest => (['-'], rest)
    | _ => ([], text)
  let (whole, afterWhole) ← takeWhole unsigned
  let (fraction, afterFraction) ← takeFraction afterWhole
  let (exponent, behind) ← takeExponent afterFraction
  return (sign ++ whole ++ fraction ++ exponent, behind)

/-- The values that are written as words. -/
def words : List (Text × Json) := [("null", null), ("true", bool true), ("false", bool false)]

def takeWord (text : Text) : Option (Json × Text) :=
  words.findSome? fun (word, value) => (Text.after? word text).map fun behind => (value, behind)

mutual

/-- Reads a value. The number bounds the values and elements to read; a text has fewer of these than characters. -/
def take : Nat → Text → Option (Json × Text)
  | 0, _ => none
  | bound + 1, text =>
      match skipSpace text with
      | '"' :: rest => (JsonString.take rest).map fun (written, behind) => (string written, behind)
      | '[' :: rest =>
          match skipSpace rest with
          | ']' :: behind => some (array [], behind)
          | _ => (takeElements bound rest).map fun (elements, behind) => (array elements, behind)
      | '{' :: rest =>
          match skipSpace rest with
          | '}' :: behind => some (object [], behind)
          | _ => (takeMembers bound rest).map fun (members, behind) => (object members, behind)
      | rest =>
          match takeWord rest with
          | some taken => some taken
          | none => (takeNumber rest).map fun (literal, behind) => (number literal, behind)

def takeElements : Nat → Text → Option (List Json × Text)
  | 0, _ => none
  | bound + 1, text => do
      let (element, rest) ← take bound text
      match skipSpace rest with
      | ']' :: behind => return ([element], behind)
      | ',' :: more =>
          let (elements, behind) ← takeElements bound more
          return (element :: elements, behind)
      | _ => none

def takeMembers : Nat → Text → Option (List (Text × Json) × Text)
  | 0, _ => none
  | bound + 1, text => do
      match skipSpace text with
      | '"' :: start =>
          let (key, afterKey) ← JsonString.take start
          match skipSpace afterKey with
          | ':' :: rest =>
              let (value, behind) ← take bound rest
              match skipSpace behind with
              | '}' :: last => return ([(key, value)], last)
              | ',' :: more =>
                  let (members, last) ← takeMembers bound more
                  return ((key, value) :: members, last)
              | _ => none
          | _ => none
      | _ => none

end

/-- Reads a text that holds one value and nothing else. -/
def parse? (text : Text) : Option Json :=
  match take (2 * text.length + 2) text with
  | some (value, rest) => if (skipSpace rest).isEmpty then some value else none
  | none => none

end TestTree.Json
