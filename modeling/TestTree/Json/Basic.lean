import TestTree.Text.Basic

/-!
JSON. Strings and numbers are kept as they are written, so that reading accepts a text before
anyone asks what it stands for. `JsonString.encode` and `JsonString.decode` go between strings as
written and what they stand for.
-/
namespace TestTree

inductive Json
  | null
  | bool (value : Bool)
  | number (literal : Text)
  | string (written : Text)
  | array (elements : List Json)
  | object (members : List (Text × Json))

namespace JsonString

def hexDigit (n : Nat) : Char :=
  if n < 10 then Char.ofNat (48 + n) else Char.ofNat (87 + n)

def hexValue (c : Char) : Option Nat :=
  if '0' ≤ c ∧ c ≤ '9' then some (c.toNat - 48)
  else if 'a' ≤ c ∧ c ≤ 'f' then some (c.toNat - 87)
  else if 'A' ≤ c ∧ c ≤ 'F' then some (c.toNat - 55)
  else none

/-- The number that four hexadecimal digits denote. -/
def hexCode (a b c d : Char) : Option Nat := do
  return ((← hexValue a) * 16 + (← hexValue b)) * 256 + (← hexValue c) * 16 + (← hexValue d)

/-- How one character is written: quotes, backslashes and control characters are escaped. -/
def encodeChar (c : Char) : Text :=
  match c.toNat with
  | 0x22 => ['\\', '"']
  | 0x5C => ['\\', '\\']
  | 0x08 => ['\\', 'b']
  | 0x09 => ['\\', 't']
  | 0x0A => ['\\', 'n']
  | 0x0C => ['\\', 'f']
  | 0x0D => ['\\', 'r']
  | code =>
      if code < 0x20 then ['\\', 'u', '0', '0', hexDigit (code / 16), hexDigit (code % 16)] else [c]

def encode (text : Text) : Text := text.flatMap encodeChar

/-- What a one-character escape stands for. -/
def unescape : Char → Option Char
  | '"' => some '"'
  | '\\' => some '\\'
  | '/' => some '/'
  | 'b' => some (Char.ofNat 0x08)
  | 'f' => some (Char.ofNat 0x0C)
  | 'n' => some '\n'
  | 'r' => some '\r'
  | 't' => some '\t'
  | _ => none

def isLowSurrogate (code : Nat) : Bool := 0xDC00 ≤ code && code ≤ 0xDFFF

def isHighSurrogate (code : Nat) : Bool := 0xD800 ≤ code && code ≤ 0xDBFF

/-- What a string as written stands for. A surrogate counts only as a half of a pair. -/
def decode : Text → Option Text
  | [] => some []
  | '\\' :: 'u' :: a :: b :: c :: d :: rest =>
      match hexCode a b c d with
      | none => none
      | some code =>
          if isLowSurrogate code then none
          else if isHighSurrogate code then
            match rest with
            | '\\' :: 'u' :: e :: f :: g :: h :: behind =>
                match hexCode e f g h with
                | some low =>
                    if isLowSurrogate low then
                      (decode behind).map
                        (Char.ofNat (0x10000 + (code - 0xD800) * 0x400 + (low - 0xDC00)) :: ·)
                    else none
                | none => none
            | _ => none
          else (decode rest).map (Char.ofNat code :: ·)
  | '\\' :: c :: rest =>
      match unescape c with
      | some value => (decode rest).map (value :: ·)
      | none => none
  | ['\\'] => none
  | c :: rest => (decode rest).map (c :: ·)

/-- Reads a string behind its opening quote: the string as written, and what follows the closing
quote. Escapes must be complete, and control characters must be escaped. -/
def take : Text → Option (Text × Text)
  | [] => none
  | '"' :: rest => some ([], rest)
  | '\\' :: 'u' :: a :: b :: c :: d :: rest =>
      if (hexCode a b c d).isSome then
        (take rest).map fun (written, behind) =>
          ('\\' :: 'u' :: a :: b :: c :: d :: written, behind)
      else none
  | '\\' :: c :: rest =>
      if (unescape c).isSome then
        (take rest).map fun (written, behind) => ('\\' :: c :: written, behind)
      else none
  | ['\\'] => none
  | c :: rest =>
      if c.toNat < 0x20 then none
      else (take rest).map fun (written, behind) => (c :: written, behind)

end JsonString

namespace Json

def ofText (text : Text) : Json := string (JsonString.encode text)

def ofNat (n : Nat) : Json := number (Text.ofNat n)

def ofInt (n : Int) : Json := number (toString n).toList

end Json

end TestTree
