import TestTree.Shell.Condition
import TestTree.Shell.Parser
import TestTree.Shell.Printf

/-!
Sessions: commands run one after the other on what they share. A command that runs apart, as in
parentheses or in a pipe, leaves only its files and its streams behind.
-/
namespace TestTree.Shell

inductive Sink
  | output
  | errors
  | file (path : Text)
  | nowhere
deriving DecidableEq, Repr

def Sink.accept (sink : Sink) (bytes : Bytes) (console : Console) : Console :=
  match sink with
  | .output => console.print bytes
  | .errors => { console with errors := console.errors ++ bytes }
  | .file path =>
      match console.files.append path bytes with
      | .ok files => { console with files }
      | .error _ => console
  | .nowhere => console

structure Session where
  console : Console
  name : Text := "sh"
  arguments : List Text := []
  /-- The variables that are not handed down. -/
  locals : Bindings := []
  status : Nat := 0
  hasExited : Bool := false
  outputTo : Sink := .output
  errorsTo : Sink := .errors

/-- What sessions call on: the programs, and the running of a script in a session. -/
structure Host where
  program? : Text → Option Program
  script : Text → Session → Session

namespace Session

def complain (session : Session) (message : Text) : Session :=
  { session with
    console :=
      session.errorsTo.accept (Bytes.ofText (session.name ++ ": 1: ".toList ++ message ++ ['\n']))
        session.console }

def fail (session : Session) (status : Nat) (message : Text) : Session :=
  { session.complain message with status }

/-- Goes on after a session that ran apart. -/
def adopt (session apart : Session) : Session :=
  { session with
    console :=
      { apart.console with
        environment := session.console.environment
        files := { apart.console.files with here := session.console.files.here } }
    status := apart.status }

/-- Runs a program; what it writes goes where the streams lead. -/
def launch (session : Session) (program : Program) (arguments : List Text) : Session :=
  let before := session.console
  let (status, after) := program arguments { before with output := [], errors := [] }
  let console :=
    { before with files := { after.files with here := before.files.here }, input := after.input }
  { session with
    status
    console := session.errorsTo.accept after.errors (session.outputTo.accept after.output console) }

def valueOf (session : Session) (name : Text) : Text :=
  ((session.locals.get? name).or (session.console.environment.get? name)).getD []

/-- Sets a variable; one that is handed down stays so. -/
def assign (session : Session) (name value : Text) : Session :=
  if (session.console.environment.get? name).isSome then
    { session with
      console :=
        { session.console with environment := session.console.environment.set name value } }
  else { session with locals := session.locals.set name value }

/-- Sets a variable and hands it down from now on. -/
def handDown (session : Session) (name value : Text) : Session :=
  { session with
    locals := session.locals.filter fun binding => binding.1 != name
    console := { session.console with environment := session.console.environment.set name value } }

def parameter (session : Session) (name : Text) : Text :=
  if name = ['?'] then Text.ofNat session.status
  else if name = ['#'] then Text.ofNat session.arguments.length
  else if name = ['@'] ∨ name = ['*'] then Text.join [' '] session.arguments
  else if name = ['$'] then ['1']
  else if name = ['0'] then session.name
  else if name.all Char.isDigit then (session.arguments[ofDigits 10 name - 1]?).getD []
  else session.valueOf name

end Session

/-- The words that come of expanding others: those that are complete, and the one under way. -/
structure Fields where
  complete : List Text := []
  current : Option Text := none

namespace Fields

def add (fields : Fields) (text : Text) : Fields :=
  { fields with current := some (fields.current.getD [] ++ text) }

def close (fields : Fields) : Fields := { complete := fields.complete ++ fields.current.toList }

/-- Adds a text; its blanks end words. -/
def split (fields : Fields) (text : Text) : Fields :=
  text.foldl
    (fun fields c => if c = ' ' ∨ c = '\t' ∨ c = '\n' then fields.close else fields.add [c]) fields

/-- Adds texts that are words of their own. -/
def addEach (fields : Fields) : List Text → Fields
  | [] => fields
  | [text] => fields.add text
  | text :: next :: rest => (fields.add text).close.addEach (next :: rest)

end Fields

namespace Word

/-- What a script prints, without the line breaks at its end. -/
def printed (host : Host) (script : Text) (session : Session) : Text × Session :=
  let before := session.console.output
  let apart := host.script script
    { session with console := { session.console with output := [] }, outputTo := .output }
  let text := (Bytes.toText? apart.console.output).getD []
  let after := session.adopt { apart with console := { apart.console with output := before } }
  ((text.reverse.dropWhile (· = '\n')).reverse, after)

def expandOn (host : Host) (fields : Fields) (session : Session) : Word → Fields × Session
  | [] => (fields, session)
  | .literal text _ :: rest => expandOn host (fields.add text) session rest
  | .parameter name isQuoted :: rest =>
      let fields :=
        if isQuoted then
          if name = ['@'] then fields.addEach session.arguments else fields.add (session.parameter name)
        else fields.split (session.parameter name)
      expandOn host fields session rest
  | .printed script isQuoted :: rest =>
      let (text, session) := printed host script session
      expandOn host (if isQuoted then fields.add text else fields.split text) session rest

/-- The words that words expand to. -/
def expandAll (host : Host) (session : Session) : List Word → List Text × Session
  | [] => ([], session)
  | word :: rest =>
      let (fields, session) := expandOn host {} session word
      let (others, session) := expandAll host session rest
      (fields.close.complete ++ others, session)

/-- The text that a word expands to where it is not split. -/
def expandText (host : Host) (session : Session) (word : Word) : Text × Session :=
  let (fields, session) := expandOn host {} session word
  (Text.join [' '] fields.close.complete, session)

end Word

namespace Session

/-- The path of the file that takes whatever is written to it. -/
def nullPath : Text := "/dev/null"

/-- Leads one stream elsewhere. -/
def redirect (host : Host) (session : Session) (redirection : Redirection) :
    Except Session Session := do
  let lead (session : Session) (sink : Sink) : Session :=
    if redirection.stream = 1 then { session with outputTo := sink }
    else if redirection.stream = 2 then { session with errorsTo := sink }
    else session
  match redirection.target with
  | .read word =>
      let (path, session) := Word.expandText host session word
      if path = nullPath then return { session with console := { session.console with input := [] } }
      match session.console.files.read path with
      | .ok input => return { session with console := { session.console with input } }
      | .error _ => throw (session.fail 2 ("cannot open ".toList ++ path ++ ": No such file".toList))
  | .overwrite word =>
      let (path, session) := Word.expandText host session word
      openFile session lead path fun files => files.write path []
  | .append word =>
      let (path, session) := Word.expandText host session word
      openFile session lead path fun files => files.append path []
  | .sameAs word =>
      let (stream, session) := Word.expandText host session word
      if stream = ['1'] then return lead session session.outputTo
      if stream = ['2'] then return lead session session.errorsTo
      if stream = ['-'] then return lead session .nowhere
      throw (session.fail 2 (stream ++ ": Bad file descriptor".toList))
where
  openFile (session : Session) (lead : Session → Sink → Session) (path : Text)
      (prepare : Files → Except FileError Files) : Except Session Session :=
    if path = nullPath then .ok (lead session .nowhere)
    else
      match prepare session.console.files with
      | .ok files =>
          .ok (lead { session with console := { session.console with files } }
            (.file (Path.join files.herePath path)))
      | .error _ =>
          .error (session.fail 2 ("cannot create ".toList ++ path ++ ": Directory nonexistent".toList))

/-- Leads streams elsewhere, runs, and leads them back. -/
def redirected (host : Host) (session : Session) (redirections : List Redirection)
    (run : Session → Session) : Session :=
  match redirections.foldlM (redirect host) session with
  | .error failed =>
      { failed with outputTo := session.outputTo, errorsTo := session.errorsTo }
  | .ok inner =>
      let after := run inner
      let readsElsewhere := redirections.any (·.stream == 0)
      { after with
        outputTo := session.outputTo
        errorsTo := session.errorsTo
        console :=
          if readsElsewhere then { after.console with input := session.console.input }
          else after.console }

/-- What a shell does itself. The only process that it can end is its own. -/
def builtIn? (name : Text) : Option (List Text → Session → Session) :=
  if name = "exit".toList then
    some fun arguments session =>
      { session with
        status := ((arguments.head?).map fun digits => ofDigits 10 digits % 256).getD session.status
        hasExited := true }
  else if name = "cd".toList then
    some fun arguments session =>
      let path := (arguments.head?).getD ['/']
      match session.console.files.enter path with
      | .ok files => { session with console := { session.console with files }, status := 0 }
      | .error _ => session.fail 2 ("cd: can't cd to ".toList ++ path)
  else if name = "export".toList then
    some fun arguments session =>
      { arguments.foldl (fun session argument =>
          match Text.splitAtChar '=' argument with
          | some (name, value) => session.handDown name value
          | none => session.handDown argument (session.valueOf argument)) session with
        status := 0 }
  else if name = "unset".toList then
    some fun arguments session =>
      let keep (bindings : Bindings) : Bindings :=
        bindings.filter fun binding => !arguments.contains binding.1
      { session with
        locals := keep session.locals
        console :=
          { session.console with environment := keep session.console.environment }
        status := 0 }
  else if name = "kill".toList then
    some fun arguments session =>
      if arguments.getLast? = some (session.parameter ['$']) then
        { session with status := 137, hasExited := true }
      else session.fail 1 "kill: No such process"
  else if name = "shift".toList then
    some fun _ session => { session with arguments := session.arguments.tail, status := 0 }
  else none

/-- The escapes of the shell's own `echo` and `printf`. -/
def dialect : Printf.Dialect :=
  { format := { leadingZero := false, extended := false, cut := false }
    argument := { extended := false }
    warns := false }

/-- The shell's own `echo`, which knows escapes always. -/
def echo : Program := fun words console =>
  let (words, ending) : List Text × Bytes := match words with
    | ['-', 'n'] :: rest => (rest, [])
    | words => (words, [10])
  let (bytes, ends) := unescape dialect.argument (Text.join [' '] words)
  (0, console.print (bytes ++ if ends then [] else ending))

/-- Programs that the shell has itself. -/
def ownProgram? (name : Text) : Option Program :=
  if name = "echo".toList then some echo
  else if name = "printf".toList then some (Printf.run dialect)
  else if name = "test".toList then some Condition.test
  else if name = ['['] then some Condition.bracket
  else if name = [':'] ∨ name = "true".toList then some fun _ console => (0, console)
  else if name = "false".toList then some fun _ console => (1, console)
  else none

/-- Runs what words name. -/
def call (host : Host) (name : Text) (arguments : List Text) (session : Session) : Session :=
  match builtIn? name, (ownProgram? name).or (host.program? name) with
  | some run, _ => run arguments session
  | none, some program => session.launch program arguments
  | none, none => session.fail 127 (name ++ ": not found".toList)

/-- Assigns the values of words. -/
def assignEach (host : Host) (set : Session → Text → Text → Session) (session : Session) :
    List (Text × Word) → Session
  | [] => session
  | (name, word) :: rest =>
      let (value, session) := Word.expandText host session word
      assignEach host set (set session name value) rest

/-- Runs a simple command. Without words it only assigns. -/
def simple (host : Host) (session : Session) (assignments : List (Text × Word)) (words : List Word)
    (redirections : List Redirection) : Session :=
  let (fields, session) := Word.expandAll host session words
  redirected host session redirections fun inner =>
    match fields with
    | [] => assignEach host assign { inner with status := 0 } assignments
    | name :: arguments =>
        if assignments.isEmpty then call host name arguments inner
        else
          let after := call host name arguments (assignEach host handDown inner assignments)
          { after with
            locals := inner.locals
            console := { after.console with environment := inner.console.environment } }

end Session

namespace Command

def run (host : Host) : Command → Session → Session
  | .nothing, session => session
  | .simple assignments words redirections, session =>
      session.simple host assignments words redirections
  | .group body isApart redirections, session =>
      session.redirected host redirections fun inner =>
        let after := body.run host inner
        if isApart then inner.adopt after else after
  | .sequence first second, session =>
      let after := first.run host session
      if after.hasExited then after else second.run host after
  | .both first second, session =>
      let after := first.run host session
      if after.hasExited || after.status != 0 then after else second.run host after
  | .either first second, session =>
      let after := first.run host session
      if after.hasExited || after.status == 0 then after else second.run host after
  | .negation body, session =>
      let after := body.run host session
      if after.hasExited then after else { after with status := if after.status = 0 then 1 else 0 }
  | .pipe left right, session =>
      let before := session.console.output
      let first := left.run host
        { session with console := { session.console with output := [] }, outputTo := .output }
      let between := session.adopt first
      let second := right.run host
        { between with
          console := { between.console with output := before, input := first.console.output } }
      between.adopt
        { second with console := { second.console with input := first.console.input } }
  | .choice condition yes no, session =>
      let after := condition.run host session
      if after.hasExited then after
      else if after.status = 0 then yes.run host after
      else no.run host { after with status := 0 }
  | .each name words body, session =>
      let (fields, session) := Word.expandAll host session words
      fields.foldl
        (fun session field =>
          if session.hasExited then session else body.run host (session.assign name field))
        { session with status := 0 }

end Command

end TestTree.Shell
