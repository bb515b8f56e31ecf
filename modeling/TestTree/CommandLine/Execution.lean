import TestTree.Branch.Interchange
import TestTree.CommandLine.Dialogue
import TestTree.Tree.Parse

/-!
The command: its arguments and configuration are read, the suite is built from the test files, and it
is either listed or run. A run that is paused is talked about with the user; afterwards the results
are summed up and written.
-/
namespace TestTree.CommandLine

open Run

structure Request where
  words : List Text
  files : Files
  /-- Where the user keeps a configuration. -/
  userFile : Option Text := none
  environment : Bindings := []
  colors : Bool := false

structure Report where
  exitCode : Nat
  printed : Text := []
  errors : Bytes := []
  files : Files

structure Session where
  config : Config
  dialogue : Dialogue

def usage : Text :=
  line "Usage: ramify [OPTIONS] <FILES>..." ++
    "Options: --max-parallel N, --groups GROUPS, --min-frequency FREQUENCY, --no-debug,\n".toList ++
    "  --skip-passed PREV_JSON, --output PATH, --config PATH, --list\n".toList

/-- The command could not be carried out. -/
def failed (colors : Bool) (printed : Text) (errors : Bytes) (files : Files) (problem : Problem) :
    Report :=
  { exitCode := 1
    printed
    errors := errors ++
      Bytes.ofText (line (line [] ++ paint colors .boldRed "Error" ++ ": ".toList ++ problem.message))
    files }

def addFile (files : Files) (isBuiltIn : Bool) (tree : Tree) (path : Text) : Except Problem Tree := do
  match files.readText path with
  | .error reason => throw (.unreadableTest path reason)
  | .ok text =>
      match tree.parseIn text (some path) isBuiltIn with
      | (tree, none) => return tree
      | (_, some error) => throw (.malformedTest path error)

/-- The tree of the built-in files and then the others, and its branches. -/
def build (files : Files) (config : Config) (paths : List Text) : Except Problem (Tree × Suite) := do
  let tree ← config.builtIn.foldlM (addFile files true) Tree.empty
  let tree ← paths.foldlM (addFile files false) tree
  match tree.generate config.branchOptions with
  | .ok suite => return (tree, suite)
  | .error error => throw (.noBranches error)

/-- The file of the previous results, if the run is to skip what passed. -/
def previousResults (arguments : Arguments) (config : Config) : Option Text :=
  arguments.skipPassed.or (if config.skipPassed then config.output else none)

/-- Marks the branches that passed last time, and says how many. Without a file there are none. -/
def mergeResults (colors : Bool) (files : Files) (suite : Suite) (path : Text) :
    Except Problem (Suite × Text) := do
  if !files.isFile path then return (suite, [])
  match files.readText path with
  | .error reason => throw (.unreadableResults path reason)
  | .ok text =>
      match suite.merge text with
      | none => throw (.malformedResults path)
      | some merged =>
          return (merged, line (paint colors .dimmed (Text.ofNat merged.passedLastTimeCount ++
            " branches passed last time and will be skipped".toList)))

namespace Session

def initial (request : Request) (config : Config) (skipsPassed : Bool) (tree : Tree) (suite : Suite)
    (printed : Text) : Session :=
  let setting : Setting :=
    { executor := Shell.commandLineExecutor
      tree
      maxParallel := config.maxParallel
      skipPassed := skipsPassed }
  let console : Shell.Console := { files := request.files, environment := request.environment }
  { config
    dialogue :=
      { colors := request.colors
        setting
        runner := (Runner.initial suite console).init setting true
        printed } }

def console (session : Session) : Shell.Console := session.dialogue.runner.shared.world.env

def failed (session : Session) (problem : Problem) : Report :=
  CommandLine.failed session.dialogue.colors session.dialogue.printed session.console.errors
    session.console.files problem

/-- A step of the dialogue, which may end the command. -/
def withDialogue (session : Session) :
    Except (Dialogue × Problem) Dialogue → Except Report Session
  | .ok dialogue => .ok { session with dialogue }
  | .error (dialogue, problem) => .error ({ session with dialogue }.failed problem)

def start (session : Session) : Except Report Session :=
  session.withDialogue do (← session.dialogue.resume).proceed

def writeResults (files : Files) (suite : Suite) (path : Text) : Except Problem Files := do
  let files ←
    match (Path.parent path).filter (!·.isEmpty) with
    | some directory => (files.makeDirectories directory).mapError (.noDirectory directory)
    | none => pure files
  (files.write path (Bytes.ofText suite.serialize)).mapError (.unwritable path)

/-- Sums up the run and writes the results where the configuration says. -/
def conclude (session : Session) : Report :=
  let dialogue := session.dialogue
  let suite := dialogue.runner.suite
  let summed : Session :=
    { session with dialogue := dialogue.print (summary dialogue.colors suite) }
  let report : Report :=
    { exitCode := if suite.branches.any (·.status.isFailed) then 1 else 0
      printed := summed.dialogue.printed
      errors := session.console.errors
      files := session.console.files }
  match session.config.output with
  | none => report
  | some path =>
      match writeResults report.files suite path with
      | .error problem => summed.failed problem
      | .ok files =>
          { report with
            files
            printed := report.printed ++
              line (dialogue.paint .dimmed "Results written to" ++ [' '] ++ path) }

end Session

/-- Carries a command out up to the first question to the user. -/
def begin (request : Request) : Except Report Session := do
  let failed (problem : Problem) : Report :=
    CommandLine.failed request.colors [] [] request.files problem
  let arguments ← (Arguments.parse request.words).mapError fun _ =>
    { exitCode := 2, errors := Bytes.ofText usage, files := request.files }
  let config ← (Config.resolve request.files request.userFile arguments.config
    arguments.overrides).mapError fun error => failed (.config error)
  let (tree, suite) ← (build request.files config arguments.files).mapError failed
  if arguments.list then
    throw { exitCode := 0, printed := listing request.colors suite, files := request.files }
  let previous := previousResults arguments config
  let (suite, printed) ← match previous with
    | some path => (mergeResults request.colors request.files suite path).mapError failed
    | none => pure (suite, [])
  (Session.initial request config previous.isSome tree suite printed).start

/-- Carries a command out, with the lines that the user enters. -/
def execute (request : Request) (input : List Text) : Report :=
  let report : Except Report Report := do
    let session ← begin request
    return (← session.withDialogue (session.dialogue.hold input)).conclude
  match report with
  | .ok report => report
  | .error report => report

end TestTree.CommandLine
