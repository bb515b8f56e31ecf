import TestTree.Error
import TestTree.Text.Quoted
import TestTree.Text.WordCharacter

/-!
Element finders, as in `[2nd 'Save' button next to 'Name']`: an ordinal, a quoted text, a variable
and a neighbour, each optional. `find` cuts a line into its brackets, `parse` reads one of them. The
variable is the shortest word run after which the rest is at most a neighbour.
-/
namespace TestTree.ElementFinder

open Text

/-- A quoted string in which no escaped character is a line feed. -/
def takePart : Text → Option (Text × Text)
  | [] => none
  | quote :: rest => if isQuote quote then body quote rest else none
where
  body (quote : Char) : Text → Option (Text × Text)
    | [] => none
    | ['\\'] => none
    | '\\' :: c :: rest =>
        if c = '\n' then none
        else (body quote rest).map fun (value, behind) => (c :: value, behind)
    | c :: rest =>
        if c = quote then some ([], rest)
        else (body quote rest).map fun (value, behind) => (c :: value, behind)

def ordinalSuffixes : List Text := [['s', 't'], ['n', 'd'], ['r', 'd'], ['t', 'h']]

/-- Digits, an ordinal suffix and white space, if the text starts so. -/
def takeOrdinal (text : Text) : Option (Text × Text) :=
  let digits := text.takeWhile isDecimalDigit
  if digits.isEmpty then none
  else
    (ordinalSuffixes.findSome? fun suffix => after? suffix (text.dropWhile isDecimalDigit)).map
      fun rest => (digits, trimStart rest)

def skipBlanks : Text → Option Text
  | [] => none
  | c :: rest => if isBlank c then some (trimStart rest) else none

/-- The end of a finder: nothing, or the quoted neighbour. -/
def parseNeighbour (text : Text) : Option (Option Text) :=
  match trimStart text with
  | [] => some none
  | rest => do
      let afterNext ← after? ['n', 'e', 'x', 't'] rest
      let afterBlank ← skipBlanks afterNext
      let afterTo ← after? ['t', 'o'] afterBlank
      let (neighbour, behind) ← takePart (← skipBlanks afterTo)
      if isAllBlank behind then some (some neighbour) else none

def startsVariable (c : Char) : Bool := c.isAlpha || c == '_'

def continuesVariable (c : Char) : Bool := isWordCharacter c || c == '-' || c == ' '

/-- The shortest continuation of a variable after which only a neighbour stands. -/
def parseVariableRest : Text → Option (Text × Option Text)
  | [] => some ([], none)
  | c :: rest =>
      match parseNeighbour (c :: rest) with
      | some neighbour => some ([], neighbour)
      | none =>
          if continuesVariable c then
            (parseVariableRest rest).map fun (name, neighbour) => (c :: name, neighbour)
          else none

/-- A variable with what follows it, or only a neighbour, or nothing. -/
def parseVariable (text : Text) : Option (Option Text × Option Text) :=
  let alone := (parseNeighbour text).map fun neighbour => (none, neighbour)
  match text with
  | [] => alone
  | c :: rest =>
      if startsVariable c then
        match parseVariableRest rest with
        | some (name, neighbour) => some (some (c :: name), neighbour)
        | none => alone
      else alone

/-- The number an ordinal's digits denote; only ASCII digits below 2^32 do. -/
def ordinalValue (digits : Text) : Option Nat :=
  if digits.all Char.isDigit then
    let value := digits.foldl (fun n c => 10 * n + (c.toNat - '0'.toNat)) 0
    if value < 0x100000000 then some value else none
  else none

/-- Reads the contents of one pair of brackets. -/
def parse (content : Text) : Except Fault ElementFinder := do
  let start := trimStart content
  let (ordinal, afterOrdinal) :=
    match takeOrdinal start with
    | some (digits, rest) => (some digits, rest)
    | none => (none, start)
  let (text, afterText) :=
    match takePart afterOrdinal with
    | some (text, rest) => (some text, rest)
    | none => (none, afterOrdinal)
  match parseVariable (trimStart afterText) with
  | none => throw (.badFinder content)
  | some (variableName, nextTo) =>
      let ordinal ←
        match ordinal with
        | none => pure none
        | some digits =>
            match ordinalValue digits with
            | some value => pure (some value)
            | none => throw (.badFinder content)
      if ordinal.isNone && text.isNone && variableName.isNone then
        throw (if nextTo.isNone then .badFinder content else .danglingNextTo content)
      return { ordinal, text, variableName, nextTo }

/-- The bracketed segments outside quoted strings: the byte offset of each with its contents. A
bracket ends at the next closing bracket, whatever stands between. -/
def segments (state : QuoteState) (offset : Nat) : Text → List (Nat × Text)
  | [] => []
  | c :: rest =>
      if state = .outside ∧ c = '[' then bracket offset (offset + 1) [] rest
      else segments (state.next c) (offset + c.utf8Size) rest
where
  bracket (start offset : Nat) (content : Text) : Text → List (Nat × Text)
    | [] => []
    | c :: rest =>
        if c = ']' then (start, content.reverse) :: segments .outside (offset + 1) rest
        else bracket start (offset + c.utf8Size) (c :: content) rest

/-- The byte spans of the bracketed segments, brackets included. -/
def spans (text : Text) : List (Nat × Nat) :=
  (segments .outside 0 text).map fun (start, content) => (start, start + content.utf8Size + 2)

def parseAll (text : Text) : Except Fault (List ElementFinder) :=
  (segments .outside 0 text).mapM fun (_, content) => parse content

end TestTree.ElementFinder
