import TestTree.CommandLine.Execution

/-!
The program. It gathers the files that a command names, carries the command out on them, asks the user
while the run is paused, and writes back what has changed. Programs in test bodies see the files that
the command line, the configuration and the bodies name.
-/
namespace TestTree.Program

open CommandLine

/-- Where a path leads from a directory, whatever is there. -/
def placeOf (here : Place) (path : Text) : Place :=
  (Path.names path).foldl
    (fun place name =>
      if Path.isIdle name then place
      else if name = ['.', '.'] then place.dropLast
      else place ++ [name])
    (if Path.isAbsolute path then [] else here)

def pathOf (place : Place) : String := String.ofList ('/' :: Text.join ['/'] place)

def load (files : Files) (path : Text) : IO Files := do
  let place := placeOf files.here path
  if files.isFileAt place then return files
  try
    let content ← IO.FS.readBinFile (pathOf place)
    return files.put place content.toList
  catch _ => return files

def loadAll (files : Files) (paths : List Text) : IO Files := paths.foldlM load files

/-- Whether a character stands between the words of a body. -/
def isBetweenWords (c : Char) : Bool := Text.isBlank c || "'\"<>|&;()=".toList.contains c

/-- The words of the bodies of a suite, each of which may name a file. -/
def bodyWords (suite : Suite) : List Text :=
  let hooks := suite.beforeEverything ++ suite.afterEverything ++ suite.branches.flatMap fun branch =>
    branch.beforeEveryBranch ++ branch.afterEveryBranch ++ branch.beforeEveryStep ++ branch.afterEveryStep
  let steps := suite.branches.flatMap fun branch => branch.steps.filterMap (·.codeBlock)
  ((hooks.map (·.codeBlock) ++ steps).flatMap (Text.pieces isBetweenWords)).filter (!·.isEmpty)

/-- Where the user keeps a configuration. -/
def userFile : IO (Option Text) := do
  let named := (← IO.getEnv "XDG_CONFIG_HOME").map String.toList
  let home := (← IO.getEnv "HOME").map fun home : String => Path.join home.toList ".config"
  return ((named.filter Path.isAbsolute).or home).map (Path.join · "ramify/ramify.toml")

/-- The command with the files that it names. -/
def gather (words : List Text) (colors : Bool) : IO Request := do
  let here := placeOf [] (((← IO.getEnv "PWD").getD "/").toList)
  let userFile ← userFile
  let empty : Files := { here }
  match Arguments.parse words with
  | .error _ => return { words, files := empty, userFile, colors }
  | .ok arguments =>
      let files ← loadAll empty (arguments.files ++ arguments.config.toList ++
        arguments.skipPassed.toList ++ userFile.toList ++ [Config.fileName])
      match Config.resolve files userFile arguments.config arguments.overrides with
      | .error _ => return { words, files, userFile, colors }
      | .ok config =>
          let files ← loadAll files (config.builtIn ++ config.output.toList)
          match build files config arguments.files with
          | .error _ => return { words, files, userFile, colors }
          | .ok (_, suite) =>
              return { words, files := ← loadAll files (bodyWords suite), userFile, colors }

def store (before after : Files) : IO Unit := do
  for (place, content) in after.contents do
    if before.get? place ≠ some content then
      IO.FS.createDirAll (pathOf place.dropLast)
      IO.FS.writeBinFile (pathOf place) ⟨content.toArray⟩
  for (place, _) in before.contents do
    if !after.isFileAt place then IO.FS.removeFile (pathOf place)

/-- Ends a command that has printed `shown` characters. -/
def finish (before : Files) (shown : Nat) (report : Report) : IO UInt32 := do
  IO.print (String.ofList (report.printed.drop shown))
  IO.eprint (String.ofList ((Bytes.toText? report.errors).getD []))
  store before report.files
  return UInt32.ofNat report.exitCode

/-- Holds the dialogue with the user. -/
partial def converse (before : Files) (shown : Nat) (session : Session) : IO UInt32 := do
  let dialogue := session.dialogue
  IO.print (String.ofList (dialogue.printed.drop shown))
  let shown := dialogue.printed.length
  let next ←
    if dialogue.isPaused then do
      (← IO.getStdout).flush
      let entered ← (← IO.getStdin).getLine
      if entered.isEmpty then pure (.ok { session with dialogue := dialogue.stop })
      else pure (session.withDialogue (dialogue.reply entered.toList).proceed)
    else return ← finish before shown session.conclude
  match next with
  | .ok session => converse before shown session
  | .error report => finish before shown report

end TestTree.Program

open TestTree CommandLine in
def main (arguments : List String) : IO UInt32 := do
  let isPlain := (← IO.getEnv "NO_COLOR").isSome || !(← (← IO.getStdout).isTty)
  let request ← Program.gather (arguments.map String.toList) !isPlain
  match begin request with
  | .error report => Program.finish request.files 0 report
  | .ok session => Program.converse request.files 0 session
