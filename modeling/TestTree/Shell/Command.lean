import TestTree.Text.Basic

namespace TestTree.Shell

inductive Piece
  | literal (text : Text) (isQuoted : Bool)
  /-- The value of a parameter. -/
  | parameter (name : Text) (isQuoted : Bool)
  /-- What a script prints. -/
  | printed (script : Text) (isQuoted : Bool)
deriving DecidableEq, Repr

abbrev Word := List Piece

namespace Word

/-- Puts a piece in front. Literals of one kind that meet become one. -/
def cons : Piece → Word → Word
  | .literal a quoted, .literal b quoted' :: rest =>
      if quoted = quoted' then .literal (a ++ b) quoted :: rest
      else .literal a quoted :: .literal b quoted' :: rest
  | piece, rest => piece :: rest

/-- The text of a word without quotes and parameters. -/
def bare? : Word → Option Text
  | [.literal text false] => some text
  | _ => none

end Word

def isNameStart (c : Char) : Bool := c.isAlpha || c == '_'

def isNameChar (c : Char) : Bool := c.isAlphanum || c == '_'

def isName : Text → Bool
  | [] => false
  | c :: rest => isNameStart c && rest.all isNameChar

/-- Where a stream of a command leads to, or comes from. -/
inductive Target
  | read (file : Word)
  | overwrite (file : Word)
  | append (file : Word)
  | sameAs (stream : Word)
deriving DecidableEq, Repr

structure Redirection where
  stream : Nat
  target : Target
deriving DecidableEq, Repr

inductive Command
  | nothing
  | simple (assignments : List (Text × Word)) (words : List Word) (redirections : List Redirection)
  | group (body : Command) (isApart : Bool) (redirections : List Redirection)
  | sequence (first second : Command)
  | both (first second : Command)
  | either (first second : Command)
  | negation (body : Command)
  | pipe (left right : Command)
  | choice (condition yes no : Command)
  | each (name : Text) (words : List Word) (body : Command)
deriving Repr

end TestTree.Shell
