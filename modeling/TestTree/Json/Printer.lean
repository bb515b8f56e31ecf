import TestTree.Json.Basic

namespace TestTree.Json

def newline (depth : Nat) : Text := '\n' :: List.replicate (2 * depth) ' '

def quoted (written : Text) : Text := '"' :: (written ++ ['"'])

mutual

/-- A value whose first line is already indented by `depth` levels. -/
def renderAt (depth : Nat) : Json → Text
  | null => "null"
  | bool true => "true"
  | bool false => "false"
  | number literal => literal
  | string written => quoted written
  | array [] => "[]"
  | array (element :: rest) =>
      '[' :: (newline (depth + 1) ++ renderAt (depth + 1) element ++ renderElements depth rest)
  | object [] => ['{', '}']
  | object ((key, value) :: rest) =>
      '{' :: (newline (depth + 1) ++ quoted key ++ ": " ++ renderAt (depth + 1) value ++
        renderMembers depth rest)

/-- The elements behind the first one, and the closing bracket. -/
def renderElements (depth : Nat) : List Json → Text
  | [] => newline depth ++ [']']
  | element :: rest =>
      ',' :: (newline (depth + 1) ++ renderAt (depth + 1) element ++ renderElements depth rest)

/-- The members behind the first one, and the closing brace. -/
def renderMembers (depth : Nat) : List (Text × Json) → Text
  | [] => newline depth ++ ['}']
  | (key, value) :: rest =>
      ',' :: (newline (depth + 1) ++ quoted key ++ ": " ++ renderAt (depth + 1) value ++
        renderMembers depth rest)

end

def render (value : Json) : Text := renderAt 0 value

end TestTree.Json
