import TestTree.Text.Basic

namespace TestTree.Shell

/-- What a reader of words is inside of. -/
inductive Reading
  | gap
  | comment
  | word
  | escape
  | single
  | double
  | doubleEscape
deriving DecidableEq, Repr

namespace Reading

def mayEnd : Reading → Bool
  | gap | comment | word => true
  | escape | single | double | doubleEscape => false

/-- What a quoting character leads into. -/
def opened? : Char → Option Reading
  | '"' => some double
  | '\'' => some single
  | '\\' => some escape
  | _ => none

end Reading

def isBreak (c : Char) : Bool := c == ' ' || c == '\t' || c == '\n'

/-- The characters that a backslash between double quotes can be dropped from. -/
def isDoubleSpecial (c : Char) : Bool := c == '$' || c == '\x60' || c == '"' || c == '\\'

/-- Reads on. `word` is what was read of the current word, in reverse. -/
def readWords : Reading → Text → Text → Option (List Text)
  | reading, word, [] =>
      if reading.mayEnd then some (if reading = .word then [word.reverse] else []) else none
  | .gap, word, c :: rest =>
      if isBreak c then readWords .gap word rest
      else if c = '#' then readWords .comment word rest
      else
        match Reading.opened? c with
        | some reading => readWords reading word rest
        | none => readWords .word (c :: word) rest
  | .comment, word, c :: rest => readWords (if c = '\n' then .gap else .comment) word rest
  | .word, word, c :: rest =>
      if isBreak c then (readWords .gap [] rest).map (word.reverse :: ·)
      else
        match Reading.opened? c with
        | some reading => readWords reading word rest
        | none => readWords .word (c :: word) rest
  | .escape, word, c :: rest => readWords .word (if c = '\n' then word else c :: word) rest
  | .single, word, c :: rest =>
      if c = '\'' then readWords .word word rest else readWords .single (c :: word) rest
  | .double, word, c :: rest =>
      if c = '"' then readWords .word word rest
      else if c = '\\' then readWords .doubleEscape word rest
      else readWords .double (c :: word) rest
  | .doubleEscape, word, c :: rest =>
      readWords .double
        (if c = '\n' then word else if isDoubleSpecial c then c :: word else c :: '\\' :: word) rest

/-- The words of a line; none if a quote stays open or nothing follows a backslash. -/
def words (line : Text) : Option (List Text) := readWords .gap [] line

end TestTree.Shell
