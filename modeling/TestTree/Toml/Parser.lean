import TestTree.Toml.Basic

/-!
Reading TOML. Floating-point numbers, dates and arrays of tables are refused. The readers of values
recurse on a bound on nested values and elements; a text has fewer of these than characters.
-/
namespace TestTree.Toml

def isSpace (c : Char) : Bool := c == ' ' || c == '\t'

def skipSpace (text : Text) : Text := text.dropWhile isSpace

/-- Characters that a text or comment cannot hold as they are. -/
def isControl (c : Char) : Bool := (c.toNat < 0x20 && c != '\t') || c.toNat == 0x7F

/-- What follows a line break, if the text starts with one. -/
def afterBreak? : Text → Option Text
  | '\n' :: rest => some rest
  | '\r' :: '\n' :: rest => some rest
  | _ => none

/-- Skips the rest of a line: white space, and a comment up to the line break. -/
def skipComment (text : Text) : Text :=
  match skipSpace text with
  | '#' :: rest => rest.dropWhile fun c => !isControl c
  | rest => rest

def hexValue (c : Char) : Option Nat :=
  if '0' ≤ c ∧ c ≤ '9' then some (c.toNat - 48)
  else if 'a' ≤ c ∧ c ≤ 'f' then some (c.toNat - 87)
  else if 'A' ≤ c ∧ c ≤ 'F' then some (c.toNat - 55)
  else none

def ofDigits (base : Nat) (digits : Text) : Nat :=
  digits.foldl (fun n c => base * n + (hexValue c).getD 0) 0

/-- The character with the code that hexadecimal digits denote. -/
def ofCode (digits : Text) : Option Char :=
  let code := ofDigits 16 digits
  if digits.all (fun c => (hexValue c).isSome) && (code < 0xD800 || (0xDFFF < code && code < 0x110000)) then
    some (Char.ofNat code)
  else none

/-- What a one-letter escape stands for. -/
def unescape : Char → Option Char
  | 'b' => some (Char.ofNat 0x08)
  | 't' => some '\t'
  | 'n' => some '\n'
  | 'f' => some (Char.ofNat 0x0C)
  | 'r' => some '\r'
  | '"' => some '"'
  | '\\' => some '\\'
  | _ => none

/-- Puts characters in front of what was read. -/
def after (front : Text) (taken : Option (Text × Text)) : Option (Text × Text) :=
  taken.map fun (text, behind) => (front ++ text, behind)

/-- A text with escapes, behind its opening quote; and what follows it. -/
def takeBasic : Text → Option (Text × Text)
  | [] => none
  | '"' :: rest => some ([], rest)
  | '\\' :: 'u' :: a :: b :: c :: d :: rest => do after [← ofCode [a, b, c, d]] (takeBasic rest)
  | '\\' :: 'U' :: a :: b :: c :: d :: e :: f :: g :: h :: rest => do
      after [← ofCode [a, b, c, d, e, f, g, h]] (takeBasic rest)
  | '\\' :: c :: rest => do after [← unescape c] (takeBasic rest)
  | c :: rest => if isControl c then none else after [c] (takeBasic rest)

/-- A text without escapes, behind its opening quote; and what follows it. -/
def takeLiteral : Text → Option (Text × Text)
  | [] => none
  | '\'' :: rest => some ([], rest)
  | c :: rest => if isControl c then none else after [c] (takeLiteral rest)

def isBlankLine (text : Text) : Bool := (afterBreak? (skipSpace text)).isSome

/-- A text with escapes and line breaks. Up to two quotes may stand before the three that close it. A
backslash at the end of a line takes all white space behind it away; then `skips` is set. -/
def takeBasicLines (skips : Bool) : Text → Option (Text × Text)
  | [] => none
  | '"' :: '"' :: '"' :: '"' :: '"' :: rest => some (['"', '"'], rest)
  | '"' :: '"' :: '"' :: '"' :: rest => some (['"'], rest)
  | '"' :: '"' :: '"' :: rest => some ([], rest)
  | '\\' :: 'u' :: a :: b :: c :: d :: rest => do
      after [← ofCode [a, b, c, d]] (takeBasicLines false rest)
  | '\\' :: 'U' :: a :: b :: c :: d :: e :: f :: g :: h :: rest => do
      after [← ofCode [a, b, c, d, e, f, g, h]] (takeBasicLines false rest)
  | '\\' :: c :: rest =>
      if isBlankLine (c :: rest) then takeBasicLines true (c :: rest)
      else do after [← unescape c] (takeBasicLines false rest)
  | '\r' :: '\n' :: rest => after (if skips then [] else ['\r', '\n']) (takeBasicLines skips rest)
  | c :: rest =>
      if skips && (isSpace c || c == '\n') then takeBasicLines true rest
      else if isControl c && c != '\n' then none
      else after [c] (takeBasicLines false rest)

/-- A text without escapes, with line breaks. -/
def takeLiteralLines : Text → Option (Text × Text)
  | [] => none
  | '\'' :: '\'' :: '\'' :: '\'' :: '\'' :: rest => some (['\'', '\''], rest)
  | '\'' :: '\'' :: '\'' :: '\'' :: rest => some (['\''], rest)
  | '\'' :: '\'' :: '\'' :: rest => some ([], rest)
  | '\r' :: '\n' :: rest => after ['\r', '\n'] (takeLiteralLines rest)
  | c :: rest =>
      if isControl c && c != '\n' then none else after [c] (takeLiteralLines rest)

/-- A line break directly behind the opening quotes is no part of the text. -/
def skipBreak (text : Text) : Text := (afterBreak? text).getD text

/-- A text in any of its four forms. -/
def takeText : Text → Option (Text × Text)
  | '"' :: '"' :: '"' :: rest => takeBasicLines false (skipBreak rest)
  | '"' :: rest => takeBasic rest
  | '\'' :: '\'' :: '\'' :: rest => takeLiteralLines (skipBreak rest)
  | '\'' :: rest => takeLiteral rest
  | _ => none

def isBare (c : Char) : Bool := c.isAlphanum || c == '_' || c == '-'

def takeName : Text → Option (Text × Text)
  | '"' :: rest => takeBasic rest
  | '\'' :: rest => takeLiteral rest
  | text =>
      let name := text.takeWhile isBare
      if name.isEmpty then none else some (name, text.dropWhile isBare)

/-- A key: parts with dots between them. -/
def takeKey : Nat → Text → Option (KeyPath × Text)
  | 0, _ => none
  | bound + 1, text => do
      let (name, rest) ← takeName (skipSpace text)
      match skipSpace rest with
      | '.' :: rest =>
          let (others, rest) ← takeKey bound rest
          return (name :: others, rest)
      | rest => return ([name], rest)

/-- Digits with single underscores between them, without the underscores. -/
def plainDigits (isDigit : Char → Bool) (written : Text) : Option Text :=
  let groups := Text.pieces (· = '_') written
  if groups.all fun group => !group.isEmpty && group.all isDigit then some groups.flatten else none

def isDigitOf (base : Nat) (c : Char) : Bool := (hexValue c).any (· < base)

/-- A natural number in decimal notation; several digits do not start with zero. -/
def decimal? (written : Text) : Option Nat :=
  match plainDigits Char.isDigit written with
  | some ('0' :: _ :: _) => none
  | digits => digits.map (ofDigits 10)

def inBase? (base : Nat) (written : Text) : Option Int :=
  (plainDigits (isDigitOf base) written).map fun digits => (ofDigits base digits : Int)

/-- An integer as written. -/
def integer? : Text → Option Int
  | '0' :: 'x' :: digits => inBase? 16 digits
  | '0' :: 'o' :: digits => inBase? 8 digits
  | '0' :: 'b' :: digits => inBase? 2 digits
  | '-' :: digits => (decimal? digits).map fun n => -(n : Int)
  | '+' :: digits => (decimal? digits).map Int.ofNat
  | digits => (decimal? digits).map Int.ofNat

/-- A truth value or an integer as written. -/
def word? (written : Text) : Option Toml :=
  if written = "true".toList then some (.boolean true)
  else if written = "false".toList then some (.boolean false)
  else (integer? written).map .integer

def isWordChar (c : Char) : Bool := isBare c || c == '+' || c == '.' || c == ':'

/-- Skips white space, comments and line breaks. -/
def skipLines : Nat → Text → Text
  | 0, text => text
  | bound + 1, text =>
      match afterBreak? (skipComment text) with
      | some rest => skipLines bound rest
      | none => skipSpace text

mutual

def takeValue : Nat → Text → Option (Toml × Text)
  | 0, _ => none
  | bound + 1, text =>
      match text with
      | '[' :: rest => (takeElements bound rest).map (Prod.map .array id)
      | '{' :: rest => do
          match skipSpace rest with
          | '}' :: rest => return (.table [], rest)
          | rest =>
              let (statements, rest) ← takeEntries bound rest
              return (.table (← entries? statements), rest)
      | text =>
          match takeText text with
          | some (value, rest) => some (.string value, rest)
          | none =>
              (word? (text.takeWhile isWordChar)).map fun value => (value, text.dropWhile isWordChar)

def takeElements : Nat → Text → Option (List Toml × Text)
  | 0, _ => none
  | bound + 1, text =>
      match skipLines text.length text with
      | ']' :: rest => some ([], rest)
      | rest => do
          let (element, rest) ← takeValue bound rest
          match skipLines rest.length rest with
          | ']' :: rest => return ([element], rest)
          | ',' :: rest =>
              let (others, rest) ← takeElements bound rest
              return (element :: others, rest)
          | _ => none

/-- Reads the entries of a table that stands on one line, up to its closing brace. -/
def takeEntries : Nat → Text → Option (List Statement × Text)
  | 0, _ => none
  | bound + 1, text => do
      let (key, rest) ← takeKey text.length text
      match rest with
      | '=' :: rest =>
          let (value, rest) ← takeValue bound (skipSpace rest)
          match skipSpace rest with
          | '}' :: rest => return ([.entry [] key value], rest)
          | ',' :: rest =>
              let (others, rest) ← takeEntries bound rest
              return (.entry [] key value :: others, rest)
          | _ => none
      | _ => none

end

/-- What follows the end of a line, white space and a comment before it apart. -/
def endLine (text : Text) : Option Text :=
  match skipComment text with
  | [] => some []
  | rest => afterBreak? rest

/-- Reads the statements below the header of the table at `place`. -/
def takeStatements : Nat → KeyPath → Text → Option (List Statement)
  | 0, _, _ => none
  | bound + 1, place, text =>
      match skipLines text.length text with
      | [] => some []
      | '#' :: rest => if (endLine ('#' :: rest)) = some [] then some [] else none
      | '[' :: rest => do
          match ← takeKey rest.length rest with
          | (path, ']' :: rest) =>
              let rest ← endLine rest
              return .header path :: (← takeStatements bound path rest)
          | _ => none
      | rest => do
          match ← takeKey rest.length rest with
          | (key, '=' :: rest) =>
              let (value, rest) ← takeValue (2 * rest.length + 2) (skipSpace rest)
              let rest ← endLine rest
              return .entry place key value :: (← takeStatements bound place rest)
          | _ => none

/-- The entries of the outermost table of a document. A mark of its byte order may come first. -/
def parse? (text : Text) : Option Entries :=
  let text := if text.head? = some (Char.ofNat 0xFEFF) then text.tail else text
  (takeStatements (text.length + 1) [] text).bind entries?

end TestTree.Toml
