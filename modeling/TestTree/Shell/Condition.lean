import TestTree.Shell.Console
import TestTree.Shell.Escape
import TestTree.Text.Blank

namespace TestTree.Shell.Condition

/-- The number that a word denotes, with blanks around it. -/
def number? (word : Text) : Option Int :=
  match Text.trim word with
  | '-' :: digits => (natural? digits).map fun n => -(n : Int)
  | '+' :: digits => (natural? digits).map Int.ofNat
  | digits => (natural? digits).map Int.ofNat
where
  natural? (digits : Text) : Option Nat :=
    if !digits.isEmpty && digits.all Char.isDigit then some (ofDigits 10 digits) else none

/-- The relation on texts that an operator stands for. -/
def textRelation? (operator : Text) : Option (Text → Text → Bool) :=
  if operator = ['='] ∨ operator = ['=', '='] then some (· == ·)
  else if operator = ['!', '='] then some (· != ·)
  else none

/-- The relation on numbers that an operator stands for. -/
def numberRelation? (operator : Text) : Option (Int → Int → Bool) :=
  if operator = "-eq".toList then some (· == ·)
  else if operator = "-ne".toList then some (· != ·)
  else if operator = "-lt".toList then some (· < ·)
  else if operator = "-le".toList then some (· ≤ ·)
  else if operator = "-gt".toList then some (· > ·)
  else if operator = "-ge".toList then some (· ≥ ·)
  else none

/-- The property that an operator stands for. -/
def property? (files : Files) : Text → Option (Text → Bool)
  | ['-', letter] =>
      match letter with
      | 'n' => some (!·.isEmpty)
      | 'z' => some (·.isEmpty)
      | 'f' => some files.isFile
      | 'd' => some files.isDirectory
      | 'e' | 'r' | 'w' => some fun path => files.isFile path || files.isDirectory path
      | 'x' => some files.isDirectory
      | 's' => some fun path =>
          files.isDirectory path || (files.read path).toOption.any (!·.isEmpty)
      | 'h' | 'L' => some fun _ => false
      | _ => none
  | _ => none

def isRelation (operator : Text) : Bool :=
  (textRelation? operator).isSome || (numberRelation? operator).isSome

inductive Fault
  | missingOperand (last : Text)
  | noRelation (word : Text)
  | noProperty (word : Text)
  | noNumber (word : Text)
  | notClosed
  | closedBy (word : Text)
  | leftOver (word : Text)
deriving DecidableEq, Repr

namespace Fault

def quote (word : Text) : Text := ['\''] ++ word ++ ['\'']

def message : Fault → Text
  | missingOperand last => "missing argument after ".toList ++ quote last
  | noRelation word => quote word ++ ": binary operator expected".toList
  | noProperty word => quote word ++ ": unary operator expected".toList
  | noNumber word => "invalid integer ".toList ++ quote word
  | notClosed => "')' expected"
  | closedBy word => "')' expected, found ".toList ++ quote word
  | leftOver word => "extra argument ".toList ++ quote word

end Fault

def operandNumber (word : Text) : Except Fault Int :=
  match number? word with
  | some n => .ok n
  | none => .error (.noNumber word)

def holdsBetween (operator a b : Text) : Except Fault Bool :=
  match textRelation? operator, numberRelation? operator with
  | some relation, _ => .ok (relation a b)
  | none, some relation => do return relation (← operandNumber a) (← operandNumber b)
  | none, none => .error (.noRelation operator)

def bang : Text := ['!']
def opening : Text := ['(']
def closing : Text := [')']
def conjoining : Text := ['-', 'a']
def disjoining : Text := ['-', 'o']

/-- Whether a word has the form of an operator that stands for a property. -/
def looksLikeProperty : Text → Bool
  | ['-', _] => true
  | _ => false

/-- Whether an operand has the property that an operator stands for. -/
def hasProperty (files : Files) (operator operand : Text) : Except Fault Bool :=
  match property? files operator with
  | some property => .ok (property operand)
  | none => .error (.noProperty operator)

/-- Conditions in words; `last` is the last word of all. -/
structure Surroundings where
  files : Files
  last : Text

mutual

/-- Conditions of which one has to hold. -/
def alternatives (around : Surroundings) : Nat → List Text → Except Fault (Bool × List Text)
  | 0, _ => .error (.missingOperand around.last)
  | bound + 1, words => do
      let (first, rest) ← conjunction around bound words
      match rest with
      | ['-', 'o'] :: rest =>
          let (second, rest) ← alternatives around bound rest
          return (first || second, rest)
      | _ => return (first, rest)

/-- Conditions that all have to hold. -/
def conjunction (around : Surroundings) : Nat → List Text → Except Fault (Bool × List Text)
  | 0, _ => .error (.missingOperand around.last)
  | bound + 1, words => do
      let (first, rest) ← single around bound words
      match rest with
      | ['-', 'a'] :: rest =>
          let (second, rest) ← conjunction around bound rest
          return (first && second, rest)
      | _ => return (first, rest)

def single (around : Surroundings) : Nat → List Text → Except Fault (Bool × List Text)
  | 0, _ => .error (.missingOperand around.last)
  | _ + 1, [] => .error (.missingOperand around.last)
  | bound + 1, first :: rest =>
      if first = bang then do
        let (value, rest) ← single around bound rest
        return (!value, rest)
      else if first = opening then do
        match ← alternatives around bound rest with
        | (_, []) => throw .notClosed
        | (value, word :: rest) =>
            if word = closing then return (value, rest) else throw (.closedBy word)
      else
        match rest with
        | operator :: operand :: behind =>
            if isRelation operator then do return (← holdsBetween operator first operand, behind)
            else if looksLikeProperty first then do
              return (← hasProperty around.files first operator, operand :: behind)
            else return (!first.isEmpty, rest)
        | [operand] =>
            if looksLikeProperty first then do return (← hasProperty around.files first operand, [])
            else return (!first.isEmpty, [operand])
        | [] =>
            if looksLikeProperty first then .error (.missingOperand around.last)
            else return (!first.isEmpty, [])

end

/-- A condition of any length. -/
def whole (files : Files) (words : List Text) : Except Fault Bool := do
  match ← alternatives ⟨files, words.getLast?.getD []⟩ (4 * words.length + 4) words with
  | (value, []) => return value
  | (_, word :: _) => throw (.leftOver word)

/-- Whether the condition holds that words express. -/
def holds (files : Files) : List Text → Except Fault Bool
  | [] => .ok false
  | [a] => .ok (!a.isEmpty)
  | [a, b] =>
      if a = bang then .ok b.isEmpty
      else if looksLikeProperty a then hasProperty files a b
      else .error (.missingOperand b)
  | [a, b, c] =>
      if isRelation b then holdsBetween b a c
      else if a = bang then do return !(← holds files [b, c])
      else if a = opening && c = closing then .ok (!b.isEmpty)
      else if b = conjoining then .ok (!a.isEmpty && !c.isEmpty)
      else if b = disjoining then .ok (!a.isEmpty || !c.isEmpty)
      else .error (.noRelation b)
  | [a, b, c, d] =>
      if a = bang then do return !(← holds files [b, c, d])
      else if a = opening && d = closing then holds files [b, c]
      else whole files [a, b, c, d]
  | words => whole files words

/-- The end of a program that found out whether a condition holds. -/
def answer (name : Text) (value : Except Fault Bool) (console : Console) : Nat × Console :=
  match value with
  | .ok true => (0, console)
  | .ok false => (1, console)
  | .error fault => (2, console.complain (name ++ ": ".toList ++ fault.message))

def test : Program := fun words console => answer "test" (holds console.files words) console

/-- The same program under a name that asks for a closing bracket. -/
def bracket : Program := fun words console =>
  match words.getLast? with
  | some [']'] => answer ['['] (holds console.files words.dropLast) console
  | _ => (2, console.complain "[: missing ']'")

end TestTree.Shell.Condition
