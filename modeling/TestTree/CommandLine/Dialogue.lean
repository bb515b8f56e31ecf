import TestTree.CommandLine.Problem
import TestTree.CommandLine.Summary
import TestTree.Run.Clock
import TestTree.Shell.Executor

namespace TestTree.CommandLine

open Run

abbrev Setting := Run.Setting Shell.Call Shell.Console

abbrev Runner := Run.Runner Shell.Console

/-- A run, with what it has printed. -/
structure Dialogue where
  colors : Bool
  setting : Setting
  runner : Runner
  printed : Text := []

inductive DebugCommand
  | resume
  | step
  | skip
  | inject (text : Text)
  | exit
  | unknown
deriving DecidableEq, Repr

/-- The command that a line expresses: a letter, and what follows the first space behind it. -/
def DebugCommand.parse (text : Text) : DebugCommand :=
  let text := Text.trim text
  let (letter, rest) := (Text.splitAtChar ' ' text).getD (text, [])
  match letter, Text.trim rest with
  | ['r'], _ => resume
  | ['s'], _ => step
  | ['k'], _ => skip
  | ['i'], c :: rest => inject (c :: rest)
  | ['x'], _ => exit
  | _, _ => unknown

/-- More turns than any operation takes. -/
def turnLimit : Nat := 1000000000

namespace Dialogue

def paint (dialogue : Dialogue) (style : Style) (text : Text) : Text :=
  CommandLine.paint dialogue.colors style text

def print (dialogue : Dialogue) (text : Text) : Dialogue :=
  { dialogue with printed := dialogue.printed ++ text }

def phase (dialogue : Dialogue) : Phase := (dialogue.runner.snapshot dialogue.setting).phase

def perform (dialogue : Dialogue) (operation : Runner → Process Shell.Call Shell.Console) :
    Dialogue × Answer :=
  match (operation dialogue.runner).complete dialogue.setting turnLimit with
  | some (runner, answer) => ({ dialogue with runner }, answer)
  | none => (dialogue, .nothing)

/-- Starts the run or goes on with it. -/
def resume (dialogue : Dialogue) : Except (Dialogue × Problem) Dialogue :=
  match dialogue.perform Runner.run with
  | (dialogue, .refused error) => .error (dialogue, .run error)
  | (dialogue, _) => .ok dialogue

/-- Goes on while branches are left that wait for none. -/
def settle : Nat → Dialogue → Except (Dialogue × Problem) Dialogue
  | 0, dialogue => .ok dialogue
  | bound + 1, dialogue =>
      if dialogue.phase = .running then do settle bound (← dialogue.resume) else .ok dialogue

def isPaused (dialogue : Dialogue) : Bool := dialogue.phase = .paused

/-- A line for each place where the run is paused. -/
def positions (dialogue : Dialogue) : Text :=
  (dialogue.runner.snapshot dialogue.setting).pausedAt.flatMap fun (branch, step) =>
    let steps := (dialogue.runner.suite.branch? branch).elim [] (·.steps)
    match step.bind (steps[·]?) with
    | some step =>
        let place := ['['] ++ step.filename.getD "<unnamed>" ++ [':'] ++ Text.ofNat step.lineNumber ++ [']']
        line (dialogue.paint .boldMagenta "Paused before" ++ [' '] ++ dialogue.paint .cyan step.text ++
          [' '] ++ dialogue.paint .dimmed place)
    | none =>
        line (dialogue.paint .magenta
          ("Paused at the end of branch ".toList ++ Text.ofNat (branch + 1)))

/-- Shows where the run is paused, and asks for a command. -/
def ask (dialogue : Dialogue) : Dialogue :=
  dialogue.print (dialogue.positions ++
    dialogue.paint .cyan "(r)esume, (s)tep, s(k)ip, (i)nject <step>, e(x)it >" ++ [' '])

/-- Tells what came of a command, if there is something to tell. -/
def tell (dialogue : Dialogue) : Answer → Dialogue
  | .nothing => dialogue
  | .flag _ => dialogue
  | .step step =>
      match step.error with
      | some error =>
          dialogue.print
            (line (dialogue.paint .red "Injected step failed:" ++ [' '] ++ error.describe))
      | none => dialogue.print (line (dialogue.paint .green "Injected step passed"))
  | .refused (.tree error) =>
      dialogue.print (line (dialogue.paint .red "Cannot inject:" ++ [' '] ++ error.describe))
  | .refused error => dialogue.print (line (dialogue.paint .yellow error.message))

def stop (dialogue : Dialogue) : Dialogue := (dialogue.perform Runner.stop).1

def reply (dialogue : Dialogue) (text : Text) : Dialogue :=
  let told : Dialogue × Answer → Dialogue := fun (dialogue, answer) => dialogue.tell answer
  match DebugCommand.parse text with
  | .resume => told (dialogue.perform Runner.run)
  | .step => told (dialogue.perform Runner.runOneStep)
  | .skip => told (dialogue.perform Runner.skipOneStep)
  | .inject step => told (dialogue.perform (Runner.inject dialogue.setting step))
  | .exit => dialogue.stop
  | .unknown => dialogue.print (line (dialogue.paint .yellow "Unknown command"))

/-- Goes on until the run is paused or over, and asks if it is paused. -/
def proceed (dialogue : Dialogue) : Except (Dialogue × Problem) Dialogue := do
  let settled ← settle (dialogue.runner.suite.branches.length + 1) dialogue
  return if settled.isPaused then settled.ask else settled

/-- Holds the dialogue with the lines of a user, who leaves when they are used up. -/
def hold : List Text → Dialogue → Except (Dialogue × Problem) Dialogue
  | [], dialogue => .ok (if dialogue.isPaused then dialogue.stop else dialogue)
  | text :: rest, dialogue =>
      if dialogue.isPaused then do hold rest (← (dialogue.reply text).proceed) else .ok dialogue

end Dialogue

end TestTree.CommandLine
