import TestTree.Files.Basic

namespace TestTree.Shell

structure EscapeRules where
  /-- Whether a zero may stand in front of three octal digits. -/
  leadingZero : Bool := true
  /-- Whether bytes can be written in hexadecimal, and ESC as `e`. -/
  extended : Bool := true
  /-- Whether a double quote can be escaped. -/
  quote : Bool := false
  /-- Whether `c` ends the output. -/
  cut : Bool := true

def isOctalDigit (c : Char) : Bool := '0' ≤ c && c ≤ '7'

def hexDigit? (c : Char) : Option Nat :=
  if '0' ≤ c ∧ c ≤ '9' then some (c.toNat - '0'.toNat)
  else if 'a' ≤ c ∧ c ≤ 'f' then some (c.toNat - 'a'.toNat + 10)
  else if 'A' ≤ c ∧ c ≤ 'F' then some (c.toNat - 'A'.toNat + 10)
  else none

/-- The number that digits denote. -/
def ofDigits (base : Nat) (digits : Text) : Nat :=
  digits.foldl (fun n c => base * n + (hexDigit? c).getD 0) 0

/-- The byte that a single letter stands for. -/
def letterEscape? (rules : EscapeRules) : Char → Option UInt8
  | 'a' => some 7
  | 'b' => some 8
  | 't' => some 9
  | 'n' => some 10
  | 'v' => some 11
  | 'f' => some 12
  | 'r' => some 13
  | '\\' => some 92
  | 'e' => if rules.extended then some 27 else none
  | '"' => if rules.quote then some 34 else none
  | _ => none

/-- What the text behind a backslash stands for, and how many of its characters belong to the escape;
none if the output ends there. -/
def escape (rules : EscapeRules) : Text → Option (Bytes × Nat)
  | [] => some ([92], 0)
  | c :: rest =>
      let octal := ((if rules.leadingZero && c == '0' then rest else c :: rest).take 3).takeWhile isOctalDigit
      let hex := (rest.take 2).takeWhile fun digit => (hexDigit? digit).isSome
      if c = 'c' && rules.cut then none
      else if isOctalDigit c then
        some ([UInt8.ofNat (ofDigits 8 octal)],
          octal.length + if rules.leadingZero && c == '0' then 1 else 0)
      else if c = 'x' && rules.extended && !hex.isEmpty then
        some ([UInt8.ofNat (ofDigits 16 hex)], hex.length + 1)
      else
        match letterEscape? rules c with
        | some byte => some ([byte], 1)
        | none => some (92 :: Bytes.ofText [c], 1)

/-- The bytes that a text stands for, and whether the output ends there. -/
def unescape (rules : EscapeRules) : Text → Bytes × Bool
  | [] => ([], false)
  | '\\' :: rest =>
      match escape rules rest with
      | none => ([], true)
      | some (bytes, length) =>
          let (behind, ends) := unescape rules (rest.drop length)
          (bytes ++ behind, ends)
  | c :: rest =>
      let (behind, ends) := unescape rules rest
      (Bytes.ofText [c] ++ behind, ends)
termination_by text => text.length

end TestTree.Shell
