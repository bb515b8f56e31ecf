import TestTree.Step.Assignments
import TestTree.Step.ElementFinder

/-!
Reading one line. From the right, a line ends in a comment, then in a code block, then in identifier
tokens; what is left is the step text, which may start with a star (a declaration) or with
assignments. `parseContent` reads all but the comment, and does not know where the line stands.
-/
namespace TestTree.Step

open Text

/-- Cuts a line at the first `//` outside quoted strings: what precedes it and the comment. -/
def splitComment (text : Text) : Text × Option Text :=
  match splitOutside ['/', '/'] .outside text with
  | some (before, comment) => (trimEnd before, some (trim (comment.drop 2)))
  | none => (text, none)

/-- The trailing identifiers, rightmost first. The first word of a line is never one. -/
def trailingIdentifiers (text : Text) : List Identifier :=
  takeAll (words text).tail.reverse
where
  takeAll : List Text → List Identifier
    | [] => []
    | word :: rest =>
        match Identifier.ofToken? word with
        | some identifier => identifier :: takeAll rest
        | none => []

/-- The text without its last `count` words and without the white space at its end. -/
def dropWords : Nat → Text → Text
  | 0, text => trimEnd text
  | count + 1, text => dropWords count (dropLastWord text)

/-- The text before the trailing identifiers. -/
def stripIdentifiers (text : Text) : Text := dropWords (trailingIdentifiers text).length text

/-- The text between an opening brace just read and its partner, and what follows the partner. -/
def takeBraceBody (depth : Nat) : Text → Option (Text × Text)
  | [] => none
  | c :: rest =>
      if c = '}' ∧ depth = 0 then some ([], rest)
      else
        let depth := if c = '}' then depth - 1 else if c = '{' then depth + 1 else depth
        (takeBraceBody depth rest).map fun (body, behind) => (c :: body, behind)

/-- Splits before the first single brace outside quotes whose partner ends the text: what precedes
it and what stands between the two. A quote ends at the next quote of its kind. -/
def splitFinalBraces (previous quote : Option Char) : Text → Option (Text × Text)
  | [] => none
  | c :: rest =>
      let onward (quote : Option Char) :=
        (splitFinalBraces (some c) quote rest).map fun (before, body) => (c :: before, body)
      match quote with
      | some q => onward (if c = q then none else some q)
      | none =>
          if isQuote c then onward (some c)
          else if c = '{' ∧ previous ≠ some '{' ∧ rest.head? ≠ some '{' then
            match takeBraceBody 0 rest with
            | some (body, []) => some ([], body)
            | _ => onward none
          else onward none

/-- Whether the contents of braces read like a variable name rather than like code. -/
def isBareName (text : Text) : Bool :=
  match trimStart text with
  | [] => false
  | c :: rest =>
      (c.isAlpha || c == '_') && isAllBlank (rest.dropWhile fun d => isWordCharacter d || d == ' ')

/-- The one-line body at the end of a declaration, with what precedes it. -/
def splitOneLineBody (body : Text) : Option (Text × Text) :=
  match splitFinalBraces none none body with
  | none => none
  | some (before, code) =>
      let head := trimEnd before
      let name := stripIdentifiers (head.dropWhile (· = '*'))
      if (HookKind.ofText? name).isSome || !isBareName code then some (head, code) else none

/-- A line without its comment, cut at its code block. -/
structure CodeSplit where
  head : Text
  codeBlock : Option Text := none
  opensCode : Bool := false
deriving DecidableEq, Repr

/-- A final brace opens a code block on the lines below; a declaration may hold one on its line. -/
def splitCode (body : Text) : CodeSplit :=
  if body.getLast? = some '{' then ⟨trimEnd body.dropLast, some [], true⟩
  else if body.head? = some '*' then
    match splitOneLineBody body with
    | some (head, code) => ⟨head, some (trim code), false⟩
    | none => ⟨body, none, false⟩
  else ⟨body, none, false⟩

/-- Whether a text refers to a variable by single braces. -/
def hasGlobalReference (text : Text) : Bool :=
  (Reference.pieces true text).any fun
    | .reference reference => !reference.isLocal
    | .plain _ => false

def isNumberLike (text : Text) : Bool :=
  text.all fun c => c.isDigit || c == '.' || c == ',' || isBlank c

/-- The hook that a declaration declares, if its name is reserved. -/
def declaredHook (text : Text) (ids : Identifiers) (codeBlock : Option Text) :
    Except Fault (Option HookKind) :=
  if ids.isTextual then throw .textualDeclaration
  else if hasQuote text then throw .literalInDeclaration
  else if hasGlobalReference text then throw .globalInDeclaration
  else
    match HookKind.ofText? text with
    | none => pure none
    | some kind =>
        if codeBlock.isNone then throw (.hookWithoutCode text)
        else if ids.isOnly || ids.isDebug then throw .restrictedHook
        else pure (some kind)

def checkedAssignments (text : Text) (ids : Identifiers) : Except Fault (List Assignment) :=
  if ids.isDeclaration || text.head? ≠ some '{' then pure []
  else do
    let assignments ← Assignment.parse text
    if !assignments.isEmpty && ids.isTextual then throw .textualAssignment
    assignments.forM Assignment.checkSpecial
    pure assignments

/-- Reads the text and the identifiers of a line that is no lone marker. -/
def parseStep (split : CodeSplit) : Except Fault StepContent := do
  let (isDeclaration, body) :=
    match split.head with
    | '*' :: rest => (true, trimStart rest)
    | body => (false, body)
  let ids := (trailingIdentifiers body).foldl Identifiers.add { isDeclaration }
  let text := trim (stripIdentifiers body)
  if text.isEmpty then throw .emptyStep
  if isNumberLike text then throw (.numberStep text)
  let hook ←
    if isDeclaration then declaredHook text ids split.codeBlock
    else
      match HookKind.ofText? text with
      | some kind => throw (.undeclaredHook kind)
      | none => pure none
  let assignments ← checkedAssignments text ids
  let onlyLiterals := !assignments.isEmpty && assignments.all (·.value.isLiteral)
  let isCall := !isDeclaration && !ids.isTextual && split.codeBlock.isNone && !onlyLiterals
  let content : StepContent :=
    { text, codeBlock := split.codeBlock, identifiers := { ids with isCall }, hook, assignments }
  let finders ← if onlyLiterals then pure [] else ElementFinder.parseAll content.callText
  return { content with finders }

/-- Reads a line without its comment; also tells whether a code block starts below it. -/
def parseContent (body : Text) : Except Fault (StepContent × Bool) :=
  let split := splitCode body
  if split.head = ['.', '.'] then
    if split.codeBlock.isSome then throw .codeUnderMarker
    else pure ({ identifiers := { isSequential := true } }, false)
  else do
    let content ← parseStep split
    pure (content, split.opensCode)

structure ParsedLine where
  step : Step
  opensCode : Bool
deriving DecidableEq, Repr

/-- Reads one line of source that is neither blank nor a mere comment. -/
def parseLine (line : Text) (filename : Option Text) (lineNumber : Nat) :
    Except TreeError ParsedLine :=
  let (body, comment) := splitComment (trim line)
  match parseContent body with
  | .error fault => throw (TreeError.ofFault fault filename lineNumber)
  | .ok (content, opensCode) =>
      pure ⟨{ content with filename, lineNumber, line, comment }, opensCode⟩

end TestTree.Step
