import TestTree.Run.Executor
import TestTree.Shell.Programs
import TestTree.Shell.Words

namespace TestTree.Shell

open Text

inductive Failure
  | unreadable (line : Text)
  | notStarted (line : Text) (reason : Text)
  | unsuccessful (line : Text)
  | notText (line : Text)
deriving DecidableEq, Repr

namespace Failure

def message : Failure → Text
  | unreadable line => "Command could not be parsed: ".toList ++ line
  | notStarted line reason =>
      "Command '".toList ++ line ++ "' could not be executed: ".toList ++ reason
  | unsuccessful line =>
      "Command '".toList ++ line ++ "' exited with a non-zero error code.".toList
  | notText line =>
      "Command '".toList ++ line ++ "' produced output that was not valid UTF-8".toList

end Failure

/-- The name under which a program finds a variable. -/
def environmentName (name : Text) : Text :=
  "RAMIFY_".toList ++ name.map fun c => if c.isAlphanum then c.toUpper else '_'

/-- What the variables add to the environment. Of two variables with one name there, the one whose own
name comes later counts. -/
def environmentOf (scope : Variables) : Bindings :=
  scope.visible.foldl (fun bindings (name, value) => bindings.set (environmentName name) value) []

/-- Why there is no program of a name: no such file, or one that is no program. -/
def missingReason (files : Files) (name : Text) : Text :=
  if name.contains '/' then
    match files.locate name with
    | .ok place =>
        if files.isFileAt place || files.isDirectoryAt place then FileError.message .notPermitted
        else FileError.message .notFound
    | .error error => error.message
  else FileError.message .notFound

/-- Whether programs can be handed these texts: they cannot hold the character that ends a text. -/
def canHandDown (words : List Text) (environment : Bindings) : Bool :=
  words.all (!·.contains '\x00') && environment.all fun binding => !binding.2.contains '\x00'

/-- Runs a command line and gives what it wrote. A line without words writes nothing. -/
def runLine (line : Text) (environment : Bindings) (console : Console) :
    Except Failure Text × Console :=
  match words line with
  | none => (.error (.unreadable line), console)
  | some [] => (.ok [], console)
  | some (name :: arguments) =>
      if !canHandDown (name :: arguments) environment then
        (.error (.notStarted line "nul byte found in provided data"), console)
      else
        match Programs.find? name with
        | none => (.error (.notStarted line (missingReason console.files name)), console)
        | some program =>
            let (status, after) := program arguments
              { console with
                environment := console.environment.override environment
                input := []
                output := [] }
            let console :=
              { console with
                files := { after.files with here := console.files.here }
                errors := after.errors }
            if status = 0 then
              match Bytes.toText? after.output with
              | some text => (.ok text, console)
              | none => (.error (.notText line), console)
            else (.error (.unsuccessful line), console)

/-- The lines of a body that are run. -/
def commandLines (code : Text) : List Text :=
  ((lines code).map trim).filter fun line => !line.isEmpty && line.head? != some '#'

/-- Runs lines until one fails. The value is what the last one wrote, or `value` if there is none. -/
def runLines (environment : Bindings) (value : Option Text) :
    List Text → Console → Except Failure (Option Text) × Console
  | [], console => (.ok value, console)
  | line :: rest, console =>
      match runLine line environment console with
      | (.error failure, console) => (.error failure, console)
      | (.ok text, console) => runLines environment (some (trim text)) rest console

def runCode (code : Text) (scope : Variables) (console : Console) :
    Except Failure (Option Text) × Console :=
  runLines (environmentOf scope) none (commandLines (scope.substituteKnown code)) console

structure Call where
  body : Run.Body
  scope : Variables

/-- The executor of command lines. A body takes one turn and does not change the variables. -/
def commandLineExecutor : Run.Executor Call Console where
  start body scope := { body, scope }
  advance call world :=
    let (result, console) := runCode call.body.code call.scope world.env
    (.done (result.mapError Failure.message) call.scope, { world with env := console })

end TestTree.Shell
