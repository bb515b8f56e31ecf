import TestTree.Run.Executor

namespace TestTree.Run.Script

open Text

/-- A script in progress: its remaining lines, the value set last, and what to note on waking. -/
structure Call where
  body : Body
  scope : Variables
  lines : List Text
  value : Option Text := none
  waking : Option Text := none

abbrev Notes := List Text

/-- The lines of a script without the blank ones. -/
def commands (code : Text) : List Text :=
  ((lines code).map trim).filter fun line => !line.isEmpty

/-- The part before the first space and the part behind it. -/
def splitSpace (text : Text) : Text × Text := (splitAtChar ' ' text).getD (text, [])

def start (body : Body) (scope : Variables) : Call :=
  { body, scope, lines := commands body.code }

def note (line : Text) (world : World Notes) : World Notes := { world with env := world.env ++ [line] }

/-- The milliseconds that a text denotes; 0 if it is no number. -/
def milliseconds (text : Text) : Nat :=
  let digits := match text with
    | '+' :: rest => rest
    | _ => text
  if !digits.isEmpty && digits.all Char.isDigit then
    digits.foldl (fun n c => 10 * n + (c.toNat - 48)) 0
  else 0

def renderVisible (scope : Variables) : Text :=
  join [';'] (scope.visible.map fun (name, value) => name ++ ['='] ++ value)

def place (body : Body) : Text :=
  body.text ++ ['|'] ++ body.filename.getD ['-'] ++ ['|'] ++ ofNat body.lineNumber

inductive Effect
  | next (call : Call) (world : World Notes)
  | sleep (milliseconds : Nat) (message : Text)
  | fail (message : Text)

/-- Runs a command whose references are replaced. -/
def command (line : Text) (call : Call) (world : World Notes) : Effect :=
  let (name, argument) := splitSpace line
  let (key, rest) := splitSpace argument
  if name = "fail".toList then .fail argument
  else if name = "return".toList then .next { call with value := some argument } world
  else if name = "recall".toList then .next { call with value := world.persistent.get? argument } world
  else if name = "stop".toList then .next call { world with isStopped := true }
  else if name = "stopped".toList then
    .next call (note (if world.isStopped then "true".toList else "false".toList) world)
  else if name = "set".toList then
    .next { call with scope := call.scope.set key rest false } world
  else if name = "local".toList then
    .next { call with scope := call.scope.set key rest true } world
  else if name = "persist".toList then
    .next call { world with persistent := world.persistent.set key rest }
  else if name = "vars".toList then .next call (note (renderVisible call.scope) world)
  else if name = "where".toList then .next call (note (place call.body) world)
  else if name = "sleep".toList then .sleep (milliseconds key) ("woke ".toList ++ rest)
  else .next call world

/-- Runs lines up to the next sleep. -/
def runLines (call : Call) (world : World Notes) : List Text → Reply Call × World Notes
  | [] => (.done (.ok call.value) call.scope, world)
  | line :: rest =>
      match after? "known ".toList line with
      | some text => runLines call (note (call.scope.substituteKnown text) world) rest
      | none =>
          match call.scope.substitute line with
          | .error unknown => (.done (.error unknown.message) call.scope, world)
          | .ok text =>
              match command text call (note text world) with
              | .next call world => runLines call world rest
              | .fail message => (.done (.error message) call.scope, note text world)
              | .sleep time message =>
                  (.waiting time { call with lines := rest, waking := some message }, note text world)

def advance (call : Call) (world : World Notes) : Reply Call × World Notes :=
  let world := match call.waking with
    | some message => note message world
    | none => world
  runLines { call with waking := none } world call.lines

end TestTree.Run.Script

namespace TestTree.Run

/-- The executor of scripts. -/
def scripts : Executor Script.Call Script.Notes := { start := Script.start, advance := Script.advance }

end TestTree.Run
