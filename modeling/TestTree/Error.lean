import TestTree.Step.Basic

namespace TestTree

/-- Where something went wrong, as far as it is known. -/
structure Location where
  filename : Option Text := none
  line : Option Nat := none
deriving DecidableEq, Repr

/-- Line 0 is that of a step that stands in no file. -/
def Location.ofLine (filename : Option Text) (lineNumber : Nat) : Location :=
  ⟨filename, if lineNumber > 0 then some lineNumber else none⟩

def Location.describe : Location → Text
  | ⟨some file, some line⟩ => " [" ++ file ++ ":" ++ Text.ofNat line ++ "]"
  | ⟨none, some line⟩ => " [line " ++ Text.ofNat line ++ "]"
  | ⟨some file, none⟩ => " [" ++ file ++ "]"
  | ⟨none, none⟩ => []

inductive ErrorKind
  | line
  | indentation
  | shape
  | resolution
  | configuration
  | recursion
deriving DecidableEq, Repr

inductive Fault
  | codeUnderMarker
  | emptyStep
  | numberStep (text : Text)
  | textualDeclaration
  | literalInDeclaration
  | globalInDeclaration
  | hookWithoutCode (text : Text)
  | restrictedHook
  | undeclaredHook (kind : HookKind)
  | textualAssignment
  | mismatchedBraces
  | textAfterLiteral
  | severalWithCall
  | missingValue
  | strayAssignmentText
  | specialNotLowercase (name : Text)
  | specialLocal (name : Text)
  | specialCall (name : Text)
  | badFrequency (value : Text)
  | badFinder (content : Text)
  | danglingNextTo (content : Text)
  | tabIndent
  | unevenIndent (spaces : Nat)
  | excessiveIndent
  | unclosedCode
  | misplacedClosingBrace
  | codeInBlock
  | blockJoinsChildren
  | markerAtEnd
  | markerWithChildren
  | repeatedMarker
  | markerWithoutBlock
  | indentedFirstStep
  | indentedTooFar
  | indentedTreeHook (text : Text)
  | unknownFunction (call : Text)
  | hookWithChildren (text : Text)
  | recursiveCall (call : Text)
  | debuggingDisabled
  | excludedDebugStep
  | notInjectable
deriving DecidableEq, Repr

namespace Fault

def kind : Fault → ErrorKind
  | tabIndent | unevenIndent _ | excessiveIndent => .indentation
  | unclosedCode | misplacedClosingBrace | codeInBlock | blockJoinsChildren | markerAtEnd
  | markerWithChildren | repeatedMarker | markerWithoutBlock | indentedFirstStep | indentedTooFar
  | indentedTreeHook _ | hookWithChildren _ => .shape
  | unknownFunction _ => .resolution
  | recursiveCall _ => .recursion
  | debuggingDisabled | excludedDebugStep => .configuration
  | _ => .line

/-- A name in the braces of a reference. -/
def braced (name : Text) : Text := '{' :: (name ++ ['}'])

def message : Fault → Text
  | codeUnderMarker => "A '..' line cannot have a code block"
  | emptyStep => "A step must have text"
  | numberStep text =>
      "Invalid step name '" ++ text ++
        "'. A step cannot consist only of digits, periods and commas"
  | textualDeclaration => "A function declaration cannot be a textual step (-)"
  | literalInDeclaration => "A function declaration cannot contain string literals"
  | globalInDeclaration =>
      "A function declaration can only use " ++ braced (braced "local") ++ " variables in its name"
  | hookWithoutCode text => "The hook '" ++ text ++ "' must have a code block"
  | restrictedHook => "A hook cannot be marked with $ or ~"
  | undeclaredHook kind => "The hook '" ++ kind.name ++ "' must be declared with a leading '*'"
  | textualAssignment => "A step setting variables cannot be a textual step (-)"
  | mismatchedBraces => "Mismatched braces in variable name"
  | textAfterLiteral => "Unexpected text after a string literal in a variable assignment"
  | severalWithCall =>
      "When multiple variables are set on one line, they must all be set to string literals"
  | missingValue => "A variable must be set to a string literal or a function call"
  | strayAssignmentText => "Invalid variable assignment"
  | specialNotLowercase name => "The " ++ braced name ++ " variable must be lowercase"
  | specialLocal name =>
      "The " ++ braced name ++ " variable cannot be local. Use " ++ braced name ++
        " instead of " ++ braced (braced name)
  | specialCall name => "The " ++ braced name ++ " variable must be set to a string literal"
  | badFrequency value => Frequency.invalidMessage value
  | badFinder content => "Invalid element finder [" ++ content ++ "]"
  | danglingNextTo content =>
      "Invalid element finder [" ++ content ++
        "]: 'next to' must follow an ordinal, text or variable"
  | tabIndent => "Tabs are not allowed in indentation. Use spaces"
  | unevenIndent spaces =>
      "The number of spaces at the beginning of a line must be a multiple of 4. You have " ++
        Text.ofNat spaces
  | excessiveIndent => "The line is indented too deeply"
  | unclosedCode => "An opened code block was never closed"
  | misplacedClosingBrace => "The closing brace of a code block is at the wrong indent"
  | codeInBlock => "A step block cannot contain a function declaration or a code block"
  | blockJoinsChildren => "A step block with children must be followed by a blank line"
  | markerAtEnd => "A '..' line must be followed by a step block"
  | markerWithChildren => "A '..' line cannot have children"
  | repeatedMarker => "Two '..' lines cannot appear in a row"
  | markerWithoutBlock => "A '..' line must be immediately followed by a step block"
  | indentedFirstStep => "The first step must have 0 indents"
  | indentedTooFar => "This step is indented too far relative to the one above it"
  | indentedTreeHook text => "The '" ++ text ++ "' hook must be at 0 indents"
  | unknownFunction call =>
      "The function '" ++ call ++ "' cannot be found. Is there a typo, or did you mean to make " ++
        "this a textual step (with a - at the end)?"
  | hookWithChildren text => "The hook '" ++ text ++ "' cannot have children"
  | recursiveCall call =>
      "The function '" ++ call ++ "' calls itself, directly or through other functions"
  | debuggingDisabled => "A $ or ~ was found, but debugging is disabled"
  | excludedDebugStep =>
      "A ~ step was excluded by $, frequency or group filtering. Remove the ~ or change the filters"
  | notInjectable => "Only a step can be injected, not a declaration or a code block"

end Fault

structure TreeError where
  fault : Fault
  location : Location
deriving DecidableEq, Repr

namespace TreeError

def ofFault (fault : Fault) (filename : Option Text) (lineNumber : Nat) : TreeError :=
  ⟨fault, Location.ofLine filename lineNumber⟩

def kind (error : TreeError) : ErrorKind := error.fault.kind

def describe (error : TreeError) : Text := error.fault.message ++ error.location.describe

end TreeError

end TestTree
