import TestTree.Shell.Token

namespace TestTree.Shell.Parser

/-- The words that end a list of commands. -/
def closers : List Text :=
  ["then".toList, "elif".toList, "else".toList, "fi".toList, "do".toList, "done".toList, ['}']]

def isWord (text : Text) : Token → Bool
  | .word word => word.bare? == some text
  | _ => false

def expect (text : Text) : List Token → Option (List Token)
  | token :: rest => if isWord text token then some rest else none
  | [] => none

def isBreak (token : Token) : Bool :=
  token == .operator .newline || token == .operator .semicolon

def skipLines (tokens : List Token) : List Token := tokens.dropWhile (· == .operator .newline)

/-- Whether a list of commands cannot go on with these tokens. -/
def isAtEnd : List Token → Bool
  | [] => true
  | .operator .closing :: _ => true
  | .word word :: _ => (word.bare?).any closers.contains
  | _ => false

def redirection (stream : Option Nat) (arrow : Arrow) (word : Word) : Redirection :=
  match arrow with
  | .read => ⟨stream.getD 0, .read word⟩
  | .overwrite => ⟨stream.getD 1, .overwrite word⟩
  | .append => ⟨stream.getD 1, .append word⟩
  | .sameAs => ⟨stream.getD 1, .sameAs word⟩

/-- The redirections that tokens start with. -/
def redirections : List Token → List Redirection × List Token
  | .arrow stream arrow :: .word word :: rest =>
      let (others, rest) := redirections rest
      (redirection stream arrow word :: others, rest)
  | tokens => ([], tokens)

/-- The name and the value of a word that assigns. -/
def assignment? : Word → Option (Text × Word)
  | .literal text false :: rest =>
      match Text.splitAtChar '=' text with
      | some (name, value) =>
          if isName name then
            some (name, if value.isEmpty then rest else .literal value false :: rest)
          else none
      | none => none
  | _ => none

/-- A simple command: assignments, words and redirections. -/
def simple (assignments : List (Text × Word)) (words : List Word) (targets : List Redirection) :
    List Token → Option (Command × List Token)
  | .arrow stream arrow :: .word word :: rest =>
      simple assignments words (targets ++ [redirection stream arrow word]) rest
  | .arrow _ _ :: _ => none
  | .word word :: rest =>
      match if words.isEmpty then assignment? word else none with
      | some assignment => simple (assignments ++ [assignment]) words targets rest
      | none => simple assignments (words ++ [word]) targets rest
  | tokens =>
      if assignments.isEmpty && words.isEmpty && targets.isEmpty then none
      else some (.simple assignments words targets, tokens)

/-- The words up to the end of a line. -/
def wordsOf : List Token → List Word × List Token
  | .word word :: rest =>
      let (words, rest) := wordsOf rest
      (word :: words, rest)
  | tokens => ([], tokens)

mutual

/-- Commands one after the other. -/
def sequence : Nat → List Token → Option (Command × List Token)
  | 0, _ => none
  | fuel + 1, tokens =>
      let tokens := skipLines tokens
      if isAtEnd tokens then some (.nothing, tokens)
      else do
        let (first, rest) ← chain fuel tokens
        match rest with
        | .operator operator :: rest =>
            if operator = .newline ∨ operator = .semicolon ∨ operator = .background then
              let (second, rest) ← sequence fuel rest
              return (.sequence first second, rest)
            else return (first, .operator operator :: rest)
        | _ => return (first, rest)

/-- Pipelines that depend on the success of those before. -/
def chain : Nat → List Token → Option (Command × List Token)
  | 0, _ => none
  | fuel + 1, tokens => do
      let (first, rest) ← pipeline fuel tokens
      chainOn fuel first rest

def chainOn : Nat → Command → List Token → Option (Command × List Token)
  | 0, _, _ => none
  | fuel + 1, first, tokens =>
      match tokens with
      | .operator .both :: rest => do
          let (second, rest) ← pipeline fuel (skipLines rest)
          chainOn fuel (.both first second) rest
      | .operator .either :: rest => do
          let (second, rest) ← pipeline fuel (skipLines rest)
          chainOn fuel (.either first second) rest
      | tokens => some (first, tokens)

/-- Commands that hand their output on. -/
def pipeline : Nat → List Token → Option (Command × List Token)
  | 0, _ => none
  | fuel + 1, tokens =>
      match expect ['!'] tokens with
      | some rest => (pipeline fuel rest).map (Prod.map .negation id)
      | none => do
          let (first, rest) ← command fuel tokens
          pipelineOn fuel first rest

def pipelineOn : Nat → Command → List Token → Option (Command × List Token)
  | 0, _, _ => none
  | fuel + 1, first, tokens =>
      match tokens with
      | .operator .pipe :: rest => do
          let (second, rest) ← command fuel (skipLines rest)
          pipelineOn fuel (.pipe first second) rest
      | tokens => some (first, tokens)

def command : Nat → List Token → Option (Command × List Token)
  | 0, _ => none
  | fuel + 1, tokens =>
      match tokens with
      | .operator .opening :: rest => do
          let (body, rest) ← sequence fuel rest
          match rest with
          | .operator .closing :: rest =>
              let (targets, rest) := redirections rest
              return (.group body true targets, rest)
          | _ => none
      | tokens =>
          match expect ['{'] tokens, expect "if".toList tokens, expect "for".toList tokens with
          | some rest, _, _ => do
              let (body, rest) ← sequence fuel rest
              let rest ← expect ['}'] rest
              let (targets, rest) := redirections rest
              return (.group body false targets, rest)
          | none, some rest, _ => do
              let (body, rest) ← choice fuel rest
              let (targets, rest) := redirections rest
              return (.group body false targets, rest)
          | none, none, some rest => each fuel rest
          | none, none, none => if isAtEnd tokens then none else simple [] [] [] tokens

/-- A choice, behind its first word. -/
def choice : Nat → List Token → Option (Command × List Token)
  | 0, _ => none
  | fuel + 1, tokens => do
      let (condition, rest) ← sequence fuel tokens
      let (yes, rest) ← sequence fuel (← expect "then".toList rest)
      match expect "elif".toList rest, expect "else".toList rest with
      | some rest, _ =>
          let (no, rest) ← choice fuel rest
          return (.choice condition yes no, rest)
      | none, some rest =>
          let (no, rest) ← sequence fuel rest
          return (.choice condition yes no, ← expect "fi".toList rest)
      | none, none => return (.choice condition yes .nothing, ← expect "fi".toList rest)

/-- A loop over words, behind its first word. -/
def each : Nat → List Token → Option (Command × List Token)
  | 0, _ => none
  | fuel + 1, tokens =>
      match tokens with
      | .word name :: rest => do
          let name ← name.bare?
          let (words, rest) := wordsOf (← expect "in".toList (skipLines rest))
          let (body, rest) ← sequence fuel (← expect "do".toList (rest.dropWhile isBreak))
          let rest ← expect "done".toList rest
          let (targets, rest) := redirections rest
          return (.group (.each name words body) false targets, rest)
      | _ => none

end

/-- The command that a script is. -/
def script? (text : Text) : Option Command := do
  let tokens ← Token.ofText text
  match ← sequence (8 * tokens.length + 8) tokens with
  | (command, []) => return command
  | _ => none

end TestTree.Shell.Parser
