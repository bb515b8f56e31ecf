import TestTree.Step.Line

/-!
Source files as lines. `scan` reads the lines of a file and gathers multi-line code blocks; `group`
puts neighbouring lines of one indent into units; `checkUnits` tests each unit against the one that
follows it.
-/
namespace TestTree.Source

open Text

def spacesPerIndent : Nat := 4

def maxIndents : Nat := 2147483647

/-- The depth of a line. Blank lines and comments have depth 0. -/
def numIndents (line : Text) : Except Fault Nat :=
  let trimmed := trimStart line
  if trimmed.isEmpty || (after? ['/', '/'] trimmed).isSome then pure 0
  else
    let leading := line.takeWhile isBlank
    if leading.contains '\t' then throw .tabIndent
    else if leading.length % spacesPerIndent ≠ 0 then throw (.unevenIndent leading.length)
    else if leading.length / spacesPerIndent > maxIndents then throw .excessiveIndent
    else pure (leading.length / spacesPerIndent)

/-- A line that holds a step, with its depth. -/
structure Line where
  step : Step
  indents : Nat
deriving DecidableEq, Repr

/-- What a line contributes; `closesCode` tells that it ends with a multi-line code block. -/
inductive Entry
  | blank
  | line (line : Line) (closesCode : Bool)
deriving DecidableEq, Repr

/-- What a line inside a code block is to that block. -/
inductive CodeLine
  | body
  | closer
  | misplaced
deriving DecidableEq, Repr

/-- A brace alone on a line closes the block if it has the depth of the line that opened it. It is
misplaced further to the left, and part of the code anywhere else. -/
def codeLine (indents : Nat) (line : Text) : CodeLine :=
  if trim line ≠ ['}'] then .body
  else
    let spaces := utf8Size (line.takeWhile isBlank)
    let depth := min (spaces / spacesPerIndent) maxIndents
    if spaces % spacesPerIndent = 0 ∧ depth = indents then .closer
    else if depth < indents then .misplaced
    else .body

/-- The line that opened a code block, and the code read so far. -/
structure OpenCode where
  opener : Line
  code : List Text := []
deriving DecidableEq, Repr

def OpenCode.close (code : OpenCode) : Line :=
  { code.opener with
    step := { code.opener.step with codeBlock := some (join ['\n'] code.code) } }

/-- Reads one line outside code blocks: what it contributes, or the code block that it opens. -/
def readLine (filename : Option Text) (number : Nat) (line : Text) :
    Except TreeError (Line × Bool) := do
  let indents ← (numIndents line).mapError fun fault => TreeError.ofFault fault filename number
  let parsed ← Step.parseLine line filename number
  return (⟨parsed.step, indents⟩, parsed.opensCode)

/-- Reads lines from line `number` on, inside the code block `code` if there is one. -/
def scanFrom (filename : Option Text) (number : Nat) (code : Option OpenCode) :
    List Text → Except TreeError (List Entry)
  | [] =>
      match code with
      | none => pure []
      | some code => throw (TreeError.ofFault .unclosedCode filename code.opener.step.lineNumber)
  | line :: rest =>
      match code with
      | some code =>
          match codeLine code.opener.indents line with
          | .closer => do
              return .line code.close true :: (← scanFrom filename (number + 1) none rest)
          | .misplaced => throw (TreeError.ofFault .misplacedClosingBrace filename number)
          | .body =>
              scanFrom filename (number + 1) (some { code with code := code.code ++ [line] }) rest
      | none =>
          let trimmed := trim line
          if trimmed.isEmpty then do
            return .blank :: (← scanFrom filename (number + 1) none rest)
          else if (after? ['/', '/'] trimmed).isSome then
            scanFrom filename (number + 1) none rest
          else do
            let (read, opensCode) ← readLine filename number line
            if opensCode then scanFrom filename (number + 1) (some { opener := read }) rest
            else return .line read false :: (← scanFrom filename (number + 1) none rest)

def scan (filename : Option Text) (text : Text) : Except TreeError (List Entry) :=
  scanFrom filename 1 none (lines text)

/-- Neighbouring lines of one depth. -/
structure Block where
  first : Line
  others : List Line := []
  blankAfter : Bool := false
  closed : Bool := false
deriving DecidableEq, Repr

namespace Block

def lines (block : Block) : List Line := block.first :: block.others

def indents (block : Block) : Nat := block.first.indents

def lineNumber (block : Block) : Nat := block.first.step.lineNumber

def isMarker (block : Block) : Bool := block.others.isEmpty && block.first.step.isMarker

/-- Whether the next line belongs to the block: it has the same depth, and neither closes it off. -/
def admits (block : Block) (line : Line) : Bool :=
  block.indents == line.indents && !block.closed && !block.isMarker &&
    block.first.step.hook.isNone && line.step.hook.isNone && !line.step.isMarker

end Block

/-- Puts entries into blocks, the first lines going to the block `current`. -/
def groupFrom (current : Option Block) : List Entry → List Block
  | [] => current.toList
  | .blank :: rest =>
      match current with
      | some block => { block with blankAfter := true } :: groupFrom none rest
      | none => groupFrom none rest
  | .line line closesCode :: rest =>
      match current with
      | some block =>
          if block.admits line then
            groupFrom (some { block with others := block.others ++ [line], closed := closesCode }) rest
          else block :: groupFrom (some { first := line, closed := closesCode }) rest
      | none => groupFrom (some { first := line, closed := closesCode }) rest

def group (entries : List Entry) : List Block := groupFrom none entries

/-- The fault of a block of several lines, with the line to blame. -/
def checkSeveral (block : Block) (next : Option Block) : Except (Fault × Nat) Unit :=
  if block.others.isEmpty then pure ()
  else
    match block.lines.find? fun line =>
      line.step.identifiers.isDeclaration || line.step.codeBlock.isSome with
    | some line => throw (.codeInBlock, line.step.lineNumber)
    | none =>
        if next.any (fun next => next.indents > block.indents) && !block.blankAfter then
          throw (.blockJoinsChildren, block.lineNumber)
        else pure ()

/-- The fault of a lone marker; it must stand right above a block of several lines. -/
def checkMarker (block : Block) (next : Option Block) : Except (Fault × Nat) Unit :=
  if !block.isMarker then pure ()
  else
    match next with
    | none => throw (.markerAtEnd, block.lineNumber)
    | some next =>
        if next.indents > block.indents then throw (.markerWithChildren, block.lineNumber)
        else if next.isMarker then throw (.repeatedMarker, block.lineNumber)
        else if block.blankAfter || next.indents ≠ block.indents || next.others.isEmpty then
          throw (.markerWithoutBlock, block.lineNumber)
        else pure ()

def checkBlocks : List Block → Except (Fault × Nat) Unit
  | [] => pure ()
  | block :: rest => do
      checkSeveral block rest.head?
      checkMarker block rest.head?
      checkBlocks rest

/-- The blocks of a file. -/
def blocks (filename : Option Text) (text : Text) : Except TreeError (List Block) := do
  let entries ← scan filename text
  let blocks := group entries
  match checkBlocks blocks with
  | .ok () => return blocks
  | .error (fault, lineNumber) => throw (TreeError.ofFault fault filename lineNumber)

end TestTree.Source
