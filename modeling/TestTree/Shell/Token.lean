import TestTree.Shell.Command

namespace TestTree.Shell

inductive Operator
  | newline
  | semicolon
  | background
  | both
  | either
  | pipe
  | opening
  | closing
deriving DecidableEq, Repr

inductive Arrow
  | read
  | overwrite
  | append
  | sameAs
deriving DecidableEq, Repr

inductive Token
  | word (word : Word)
  | operator (operator : Operator)
  | arrow (stream : Option Nat) (arrow : Arrow)
deriving DecidableEq, Repr

namespace Token

def endsWord (c : Char) : Bool := " \t\n;&|<>()".toList.contains c

def isSpecialParameter (c : Char) : Bool := c.isDigit || "?#@*$!".toList.contains c

/-- What a character does to the reader of a script inside parentheses. -/
inductive Inside
  | plain
  | single
  | double
deriving DecidableEq

/-- The text up to the parenthesis that closes the one before it, and what follows. -/
def upToClosing : Nat → Inside → Text → Option (Text × Text)
  | _, _, [] => none
  | depth, .single, c :: rest =>
      (upToClosing depth (if c = '\'' then .plain else .single) rest).map (Prod.map (c :: ·) id)
  | depth, .double, '\\' :: c :: rest =>
      (upToClosing depth .double rest).map (Prod.map ('\\' :: c :: ·) id)
  | depth, .double, c :: rest =>
      (upToClosing depth (if c = '"' then .plain else .double) rest).map (Prod.map (c :: ·) id)
  | depth, .plain, '\\' :: c :: rest =>
      (upToClosing depth .plain rest).map (Prod.map ('\\' :: c :: ·) id)
  | depth, .plain, c :: rest =>
      if c = ')' ∧ depth = 0 then some ([], rest)
      else
        let depth := if c = '(' then depth + 1 else if c = ')' then depth - 1 else depth
        let inside := if c = '\'' then .single else if c = '"' then .double else .plain
        (upToClosing depth inside rest).map (Prod.map (c :: ·) id)

/-- The text up to a closing backquote, and what follows. -/
def upToBackquote : Text → Option (Text × Text)
  | [] => none
  | '\\' :: c :: rest =>
      (upToBackquote rest).map
        (Prod.map ((if c = '\x60' ∨ c = '\\' ∨ c = '$' then [c] else ['\\', c]) ++ ·) id)
  | c :: rest =>
      if c = '\x60' then some ([], rest) else (upToBackquote rest).map (Prod.map (c :: ·) id)

/-- The piece behind a dollar sign, and what follows it. -/
def takeDollar (isQuoted : Bool) : Text → Option (Piece × Text)
  | '(' :: rest => (upToClosing 0 .plain rest).map (Prod.map (.printed · isQuoted) id)
  | '{' :: rest =>
      match Text.splitAtChar '}' rest with
      | some ([c], rest) =>
          if isNameStart c || isSpecialParameter c then some (.parameter [c] isQuoted, rest) else none
      | some (name, rest) =>
          if isName name || (!name.isEmpty && name.all Char.isDigit) then
            some (.parameter name isQuoted, rest)
          else none
      | none => none
  | c :: rest =>
      if isNameStart c then
        some (.parameter ((c :: rest).takeWhile isNameChar) isQuoted, rest.dropWhile isNameChar)
      else if isSpecialParameter c then some (.parameter [c] isQuoted, rest)
      else some (.literal ['$'] true, c :: rest)
  | [] => some (.literal ['$'] true, [])

/-- The characters that a backslash between double quotes can be dropped from. -/
def isQuotedSpecial (c : Char) : Bool := c == '$' || c == '\x60' || c == '"' || c == '\\'

/-- The pieces of a word up to its end, or up to the closing quote; and what follows. -/
def takeWord : Nat → Bool → Text → Option (Word × Text)
  | 0, _, _ => none
  | _ + 1, isQuoted, [] => if isQuoted then none else some ([], [])
  | fuel + 1, isQuoted, c :: rest =>
      let further (piece : Piece) (rest : Text) :=
        (takeWord fuel isQuoted rest).map (Prod.map (Word.cons piece) id)
      if c = '\\' then
        match rest with
        | [] => further (.literal ['\\'] true) []
        | next :: rest =>
            if next = '\n' then takeWord fuel isQuoted rest
            else if isQuoted && !isQuotedSpecial next then further (.literal ['\\', next] true) rest
            else further (.literal [next] true) rest
      else if c = '$' then do
        let (piece, rest) ← takeDollar isQuoted rest
        further piece rest
      else if c = '\x60' then do
        let (script, rest) ← upToBackquote rest
        further (.printed script isQuoted) rest
      else if c = '"' then
        if isQuoted then some ([], rest)
        else do
          let (inside, rest) ← takeWord fuel true rest
          let (behind, rest) ← takeWord fuel false rest
          return (inside.foldr Word.cons (Word.cons (.literal [] true) behind), rest)
      else if isQuoted then further (.literal [c] true) rest
      else if c = '\'' then do
        let (inside, rest) ← Text.splitAtChar '\'' rest
        further (.literal inside true) rest
      else if endsWord c then some ([], c :: rest)
      else further (.literal [c] false) rest

/-- The operator or redirection that a text starts with, and how long it is. -/
def takeMark (stream : Option Nat) : Text → Option (Token × Nat)
  | '>' :: '>' :: _ => some (.arrow stream .append, 2)
  | '>' :: '&' :: _ => some (.arrow stream .sameAs, 2)
  | '<' :: '&' :: _ => some (.arrow (some (stream.getD 0)) .sameAs, 2)
  | '>' :: '|' :: _ => some (.arrow stream .overwrite, 2)
  | '>' :: _ => some (.arrow stream .overwrite, 1)
  | '<' :: '<' :: _ => none
  | '<' :: _ => some (.arrow stream .read, 1)
  | '&' :: '&' :: _ => some (.operator .both, 2)
  | '|' :: '|' :: _ => some (.operator .either, 2)
  | ';' :: ';' :: _ => none
  | '&' :: _ => some (.operator .background, 1)
  | '|' :: _ => some (.operator .pipe, 1)
  | ';' :: _ => some (.operator .semicolon, 1)
  | '\n' :: _ => some (.operator .newline, 1)
  | '(' :: _ => some (.operator .opening, 1)
  | ')' :: _ => some (.operator .closing, 1)
  | _ => none

/-- The number in front of a redirection, and the redirection. -/
def takeNumbered (text : Text) : Option (Nat × Text) :=
  let digits := text.takeWhile Char.isDigit
  match text.dropWhile Char.isDigit with
  | c :: rest =>
      if digits.length == 1 && (c == '<' || c == '>') then
        digits.head?.map fun digit => (digit.toNat - '0'.toNat, c :: rest)
      else none
  | [] => none

def scan : Nat → Text → Option (List Token)
  | 0, _ => none
  | _ + 1, [] => some []
  | fuel + 1, c :: rest =>
      if c = ' ' ∨ c = '\t' then scan fuel rest
      else if c = '#' then scan fuel (rest.dropWhile (· ≠ '\n'))
      else if c = '\\' ∧ rest.head? = some '\n' then scan fuel rest.tail
      else
        match takeNumbered (c :: rest) with
        | some (stream, mark) => do
            let (token, length) ← takeMark (some stream) mark
            return token :: (← scan fuel (mark.drop length))
        | none =>
            if endsWord c then do
              let (token, length) ← takeMark none (c :: rest)
              return token :: (← scan fuel (rest.drop (length - 1)))
            else do
              let (pieces, rest) ← takeWord (2 * rest.length + 4) false (c :: rest)
              return .word pieces :: (← scan fuel rest)

def ofText (text : Text) : Option (List Token) := scan (text.length + 1) text

end Token

end TestTree.Shell
