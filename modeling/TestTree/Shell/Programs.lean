import TestTree.Shell.Awk
import TestTree.Shell.Session

namespace TestTree.Shell

namespace Programs

/-- Whether a word sets options of `echo`. -/
def isEchoOption : Text → Bool
  | '-' :: c :: rest => (c :: rest).all "neE".toList.contains
  | _ => false

/-- Writes its arguments; options turn the line break off and escapes on. -/
def echo : Program := fun words console =>
  let options := words.takeWhile isEchoOption
  let letters := options.flatten
  let text := Text.join [' '] (words.dropWhile isEchoOption)
  let readsEscapes := (letters.filter fun c => c == 'e' || c == 'E').getLast? == some 'e'
  let (bytes, ends) := if readsEscapes then unescape {} text else (Bytes.ofText text, false)
  (0, console.print (bytes ++ if ends || letters.contains 'n' then [] else [10]))

def dialect : Printf.Dialect :=
  { format := { leadingZero := false, quote := true }
    argument := { quote := true } }

/-- The part of an error's message that programs show. -/
def reason : FileError → Text
  | .notFound => "No such file or directory"
  | .notPermitted => "Permission denied"
  | .alreadyExists => "File exists"
  | .notDirectory => "Not a directory"
  | .isDirectory => "Is a directory"
  | .notText => "Illegal byte sequence"

def complainAbout (name path : Text) (error : FileError) (console : Console) : Console :=
  console.complain (name ++ ": ".toList ++ path ++ ": ".toList ++ reason error)

/-- Writes the files that its arguments name, or its input. -/
def cat : Program := fun words console =>
  let paths := words.filter fun word => word != ['-', 'u'] && word != ['-', '-']
  (if paths.isEmpty then [['-']] else paths).foldl
    (fun (status, console) path =>
      if path = ['-'] then (status, { console.print console.input with input := [] })
      else
        match console.files.read path with
        | .ok bytes => (status, console.print bytes)
        | .error error => (1, complainAbout "cat" path error console))
    (0, console)

def printenv : Program := fun names console =>
  if names.isEmpty then
    (0, console.print (Bytes.ofText (console.environment.flatMap fun (name, value) =>
      name ++ ['='] ++ value ++ ['\n'])))
  else
    names.foldl
      (fun (status, console) name =>
        match console.environment.get? name with
        | some value => (status, console.print (Bytes.ofText (value ++ ['\n'])))
        | none => (1, console))
      (0, console)

def isOption (word : Text) : Bool := word.head? == some '-' && word.length > 1

/-- Changes files by the paths among its arguments. -/
def changing (name : Text) (change : List Text → Files → Text → Except FileError Files) : Program :=
  fun words console =>
    let options := words.filter isOption
    (words.filter (!isOption ·)).foldl
      (fun (status, console) path =>
        match change options console.files path with
        | .ok files => (status, { console with files })
        | .error error => (1, complainAbout name path error console))
      (0, console)

def touch : Program := changing "touch" fun _ files path =>
  if files.isDirectory path then .ok files else files.append path []

def mkdir : Program := changing "mkdir" fun options files path =>
  if options.contains ['-', 'p'] then files.makeDirectories path
  else do
    let place ← files.locate path
    if files.isFileAt place || files.isDirectoryAt place then throw .alreadyExists
    files.makeDirectories path

def rm : Program := changing "rm" fun options files path =>
  match files.remove path with
  | .error .notFound => if options.contains ['-', 'f'] then .ok files else .error .notFound
  | result => result

def pwd : Program := fun _ console => (0, console.print (Bytes.ofText (console.files.herePath ++ ['\n'])))

/-- The programs that start no others. -/
def basic? (name : Text) : Option Program :=
  if name = "echo".toList then some echo
  else if name = "printf".toList then some (Printf.run dialect)
  else if name = "true".toList ∨ name = "sleep".toList then some fun _ console => (0, console)
  else if name = "false".toList then some fun _ console => (1, console)
  else if name = "cat".toList then some cat
  else if name = "test".toList then some Condition.test
  else if name = ['['] then some Condition.bracket
  else if name = "printenv".toList then some printenv
  else if name = "awk".toList then some Awk.run
  else if name = "pwd".toList then some pwd
  else if name = "touch".toList then some touch
  else if name = "mkdir".toList then some mkdir
  else if name = "rm".toList then some rm
  else none

/-- Runs a script in a session. -/
def runScript (host : Host) (script : Text) (session : Session) : Session :=
  match Parser.script? script with
  | some command => command.run host session
  | none => session.fail 2 "Syntax error"

/-- A shell: its script is an argument, a file, or its input. -/
def sh (host : Host) : Program := fun words console =>
  let finish (session : Session) : Nat × Console := (session.status, session.console)
  match words with
  | [] =>
      finish (runScript host ((Bytes.toText? console.input).getD [])
        { console := { console with input := [] } })
  | ['-', 'c'] :: [] => (2, console.complain "sh: 0: -c requires an argument")
  | ['-', 'c'] :: script :: name :: arguments =>
      finish (runScript host script { console, name, arguments })
  | ['-', 'c'] :: script :: [] => finish (runScript host script { console })
  | path :: arguments =>
      match console.files.readText path with
      | .ok script => finish (runScript host script { console, name := path, arguments })
      | .error _ =>
          (2, console.complain ("sh: 0: cannot open ".toList ++ path ++ ": No such file".toList))

/-- The name of a program without the directory that programs are kept in. -/
def baseName (path : Text) : Text :=
  ((Text.after? "/usr/bin/" path).or (Text.after? "/bin/" path)).getD path

/-- A host whose shells can start others to the given depth. -/
def host : Nat → Host
  | 0 => { program? := fun name => basic? (baseName name), script := fun _ session => session.fail 2 "too deep" }
  | depth + 1 =>
      { program? := fun name =>
          if baseName name = "sh".toList then some (sh (host depth)) else basic? (baseName name)
        script := runScript (host depth) }

/-- How deeply shells can start shells. -/
def depthLimit : Nat := 100

/-- The program of a name. -/
def find? (name : Text) : Option Program := (host depthLimit).program? name

end Programs

end TestTree.Shell
