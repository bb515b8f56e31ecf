import TestTree.Shell.Console
import TestTree.Shell.Escape
import TestTree.Text.Blank

namespace TestTree.Shell.Awk

inductive Token
  | number (n : Nat)
  | quoted (text : Text)
  | name (name : Text)
  | mark (c : Char)
deriving DecidableEq, Repr

def isNameStart (c : Char) : Bool := c.isAlpha || c == '_'

def isNameChar (c : Char) : Bool := c.isAlphanum || c == '_'

/-- The string up to its closing quote, with its escapes as written, and how long it is. -/
def quotedPart : Text → Option Text
  | [] => none
  | '"' :: _ => some []
  | '\\' :: c :: rest => (quotedPart rest).map fun inside => '\\' :: c :: inside
  | c :: rest => (quotedPart rest).map (c :: ·)

/-- The escapes of a string. -/
def escapes : EscapeRules := { leadingZero := false, quote := true, cut := false }

/-- The tokens of a text. Line breaks are tokens, other blanks are not. -/
def tokens : Text → Option (List Token)
  | [] => some []
  | c :: rest =>
      if c = ' ' ∨ c = '\t' then tokens rest
      else if c.isDigit then
        let digits := (c :: rest).takeWhile Char.isDigit
        (tokens (rest.drop (digits.length - 1))).map (.number (ofDigits 10 digits) :: ·)
      else if isNameStart c then
        let name := (c :: rest).takeWhile isNameChar
        (tokens (rest.drop (name.length - 1))).map (.name name :: ·)
      else if c = '"' then do
        let inside ← quotedPart rest
        let text ← (unescape escapes inside).1.toText?
        return .quoted text :: (← tokens (rest.drop (inside.length + 1)))
      else (tokens rest).map (.mark c :: ·)
termination_by text => text.length

inductive Expression
  | number (n : Int)
  | text (text : Text)
  | variable (name : Text)
  | element (array : Text) (index : Expression)
  | negation (a : Expression)
  | arithmetic (operator : Char) (a b : Expression)
  | concatenation (a b : Expression)
deriving Repr

inductive Statement
  | print (items : List Expression)
  | assign (name : Text) (value : Expression)
  | exit (status : Option Expression)

def startsOperand : Token → Bool
  | .number _ | .quoted _ | .name _ | .mark '(' => true
  | .mark _ => false

mutual

/-- Operands side by side make one text. -/
def concatenations : Nat → List Token → Option (Expression × List Token)
  | 0, _ => none
  | fuel + 1, tokens => do
      let (first, rest) ← sums fuel tokens
      concatenateOn fuel first rest

def concatenateOn : Nat → Expression → List Token → Option (Expression × List Token)
  | 0, _, _ => none
  | fuel + 1, first, tokens =>
      if tokens.head?.any startsOperand then do
        let (second, rest) ← sums fuel tokens
        concatenateOn fuel (.concatenation first second) rest
      else some (first, tokens)

def sums : Nat → List Token → Option (Expression × List Token)
  | 0, _ => none
  | fuel + 1, tokens => do
      let (first, rest) ← products fuel tokens
      sumOn fuel first rest

def sumOn : Nat → Expression → List Token → Option (Expression × List Token)
  | 0, _, _ => none
  | fuel + 1, first, .mark c :: rest =>
      if c = '+' ∨ c = '-' then do
        let (second, rest) ← products fuel rest
        sumOn fuel (.arithmetic c first second) rest
      else some (first, .mark c :: rest)
  | _ + 1, first, rest => some (first, rest)

def products : Nat → List Token → Option (Expression × List Token)
  | 0, _ => none
  | fuel + 1, tokens => do
      let (first, rest) ← operand fuel tokens
      productOn fuel first rest

def productOn : Nat → Expression → List Token → Option (Expression × List Token)
  | 0, _, _ => none
  | fuel + 1, first, .mark c :: rest =>
      if c = '*' then do
        let (second, rest) ← operand fuel rest
        productOn fuel (.arithmetic c first second) rest
      else some (first, .mark c :: rest)
  | _ + 1, first, rest => some (first, rest)

def operand : Nat → List Token → Option (Expression × List Token)
  | 0, _ => none
  | fuel + 1, tokens =>
      match tokens with
      | .number n :: rest => some (.number n, rest)
      | .quoted text :: rest => some (.text text, rest)
      | .name name :: .mark '[' :: rest => do
          match ← concatenations fuel rest with
          | (index, .mark ']' :: rest) => return (.element name index, rest)
          | _ => none
      | .name name :: rest => some (.variable name, rest)
      | .mark '-' :: rest => do
          let (a, rest) ← operand fuel rest
          return (.negation a, rest)
      | .mark '(' :: rest => do
          match ← concatenations fuel rest with
          | (inside, .mark ')' :: rest) => return (inside, rest)
          | _ => none
      | _ => none

end

/-- Expressions between commas. -/
def expressions : Nat → List Token → Option (List Expression × List Token)
  | 0, _ => none
  | fuel + 1, tokens => do
      let (first, rest) ← concatenations (8 * tokens.length + 8) tokens
      match rest with
      | .mark ',' :: rest =>
          let (others, rest) ← expressions fuel rest
          return (first :: others, rest)
      | _ => return ([first], rest)

def isSeparator (token : Token) : Bool := token == .mark ';' || token == .mark '\n'

def endsStatement (tokens : List Token) : Bool :=
  tokens.head?.any fun token => isSeparator token || token == .mark '}'

def statement (tokens : List Token) : Option (Statement × List Token) :=
  match tokens with
  | .name name :: rest =>
      if name = "print".toList then
        if endsStatement rest then some (.print [], rest)
        else (expressions (rest.length + 1) rest).map fun (items, rest) => (.print items, rest)
      else if name = "exit".toList then
        if endsStatement rest then some (.exit none, rest)
        else (expressions (rest.length + 1) rest).bind fun (items, rest) =>
          (items.head?).map fun status => (.exit (some status), rest)
      else
        match rest with
        | .mark '=' :: rest => do
            let (value, rest) ← concatenations (8 * rest.length + 8) rest
            return (.assign name value, rest)
        | _ => none
  | _ => none

/-- The statements up to the end of the block, which ends the text. -/
def statements : Nat → List Token → Option (List Statement)
  | 0, _ => none
  | fuel + 1, tokens =>
      match tokens.dropWhile isSeparator with
      | .mark '}' :: rest => if rest.all isSeparator then some [] else none
      | tokens => do
          let (first, rest) ← statement tokens
          if endsStatement rest then return first :: (← statements fuel rest) else none

def parse (text : Text) : Option (List Statement) := do
  match (← tokens text).dropWhile isSeparator with
  | .name begin :: .mark '{' :: rest =>
      if begin = "BEGIN".toList then statements (rest.length + 1) rest else none
  | _ => none

/-- The number at the start of a text. -/
def leadingNumber (text : Text) : Int :=
  match Text.trimStart text with
  | '-' :: rest => -(ofDigits 10 (rest.takeWhile Char.isDigit) : Int)
  | '+' :: rest => ofDigits 10 (rest.takeWhile Char.isDigit)
  | rest => ofDigits 10 (rest.takeWhile Char.isDigit)

def showNumber (n : Int) : Text :=
  if n < 0 then '-' :: Text.ofNat n.natAbs else Text.ofNat n.natAbs

/-- The value of an expression, as text. -/
def Expression.value (environment assigned : Bindings) : Expression → Text
  | .number n => showNumber n
  | .text content => content
  | .variable name => (assigned.get? name).getD []
  | .element array index =>
      if array = "ENVIRON".toList then (environment.get? (index.value environment assigned)).getD []
      else []
  | .negation a => showNumber (-(leadingNumber (a.value environment assigned)))
  | .arithmetic operator a b =>
      let a := leadingNumber (a.value environment assigned)
      let b := leadingNumber (b.value environment assigned)
      showNumber (if operator = '+' then a + b else if operator = '-' then a - b else a * b)
  | .concatenation a b => a.value environment assigned ++ b.value environment assigned

def execute (assigned : Bindings) : List Statement → Console → Nat × Console
  | [], console => (0, console)
  | .print items :: rest, console =>
      let texts := items.map (·.value console.environment assigned)
      execute assigned rest (console.print (Bytes.ofText (Text.join [' '] texts ++ ['\n'])))
  | .assign name value :: rest, console =>
      execute (assigned.set name (value.value console.environment assigned)) rest console
  | .exit status :: _, console =>
      let value := status.map fun status => leadingNumber (status.value console.environment assigned)
      (((value.getD 0) % 256).toNat, console)

def run : Program := fun words console =>
  match words with
  | [] => (0, console.complain "usage: awk program")
  | text :: _ =>
      match parse text with
      | some statements => execute [] statements console
      | none => (2, console.complain "awk: syntax error")

end TestTree.Shell.Awk
