import TestTree.Config.Loading

namespace TestTree.CommandLine

structure Arguments where
  files : List Text := []
  maxParallel : Option Nat := none
  groups : Option (List Text) := none
  minFrequency : Option Frequency := none
  noDebug : Bool := false
  skipPassed : Option Text := none
  output : Option Text := none
  config : Option Text := none
  list : Bool := false
deriving DecidableEq, Repr

inductive UsageError
  | noFiles
  | unknownOption
  | noValue
  | badValue
  | repeated
  | unwantedValue
deriving DecidableEq, Repr

inductive Switch
  | noDebug
  | list
deriving DecidableEq, Repr

inductive Parameter
  | maxParallel
  | groups
  | minFrequency
  | skipPassed
  | output
  | config
deriving DecidableEq, Repr

def Switch.ofName? (name : Text) : Option Switch :=
  if name = "no-debug".toList then some .noDebug
  else if name = "list".toList then some .list
  else none

def Parameter.ofName? (name : Text) : Option Parameter :=
  if name = "max-parallel".toList then some .maxParallel
  else if name = "groups".toList then some .groups
  else if name = "min-frequency".toList then some .minFrequency
  else if name = "skip-passed".toList then some .skipPassed
  else if name = "output".toList then some .output
  else if name = "config".toList then some .config
  else none

/-- A natural number that a setting can hold, perhaps with a plus sign. -/
def number? (text : Text) : Option Nat :=
  let digits := match text with
    | '+' :: rest => rest
    | _ => text
  let n := digits.foldl (fun n c => 10 * n + (c.toNat - '0'.toNat)) 0
  if !digits.isEmpty && digits.all Char.isDigit && n < Config.numberBound then some n else none

namespace Arguments

/-- Sets what may be set only once. -/
def once {α : Type} (old : Option α) (new : Except UsageError α) : Except UsageError (Option α) :=
  if old.isSome then .error .repeated else new.map some

def asValue {α : Type} (value : Option α) : Except UsageError α :=
  match value with
  | some value => .ok value
  | none => .error .badValue

def asPath (text : Text) : Except UsageError Text :=
  if text.isEmpty then .error .noValue else .ok text

def switch (arguments : Arguments) : Switch → Except UsageError Arguments
  | .noDebug => if arguments.noDebug then .error .repeated else .ok { arguments with noDebug := true }
  | .list => if arguments.list then .error .repeated else .ok { arguments with list := true }

/-- Gives an option its value. Groups add up. -/
def give (arguments : Arguments) (parameter : Parameter) (text : Text) :
    Except UsageError Arguments := do
  match parameter with
  | .maxParallel =>
      return { arguments with maxParallel := ← once arguments.maxParallel (asValue (number? text)) }
  | .groups =>
      let groups := Text.pieces (· = ',') text
      return { arguments with groups := some (arguments.groups.getD [] ++ groups) }
  | .minFrequency =>
      return { arguments with
        minFrequency := ← once arguments.minFrequency (asValue (Frequency.ofText? text)) }
  | .skipPassed => return { arguments with skipPassed := ← once arguments.skipPassed (asPath text) }
  | .output => return { arguments with output := ← once arguments.output (asPath text) }
  | .config => return { arguments with config := ← once arguments.config (asPath text) }

end Arguments

/-- What was read but not looked at: an option that waits for its value, one with a value, or files. -/
inductive Pending
  | waiting (parameter : Parameter)
  | given (parameter : Parameter) (value : Text)
  | files (paths : List Text)

namespace Arguments

/-- Looks at what was read. -/
def settle (arguments : Arguments) : Pending → Except UsageError Arguments
  | .waiting _ => .error .noValue
  | .given parameter value => arguments.give parameter value
  | .files paths =>
      if paths.any (·.isEmpty) then .error .noValue
      else .ok { arguments with files := arguments.files ++ paths }

/-- The name of an option and the value joined to it. -/
def splitOption (text : Text) : Text × Option Text :=
  match Text.splitAtChar '=' text with
  | some (name, value) => (name, some value)
  | none => (text, none)

def file (arguments : Arguments) (pending : Pending) (path : Text) :
    Except UsageError (Arguments × Pending) :=
  match pending with
  | .files paths => .ok (arguments, .files (paths ++ [path]))
  | pending => do return (← arguments.settle pending, .files [path])

def option (arguments : Arguments) (pending : Pending) (text : Text) :
    Except UsageError (Arguments × Pending) := do
  let (name, value) := splitOption text
  match Switch.ofName? name, Parameter.ofName? name, value with
  | some _, _, some _ => throw .unwantedValue
  | some switch, _, none => return (← (← arguments.settle pending).switch switch, .files [])
  | none, some parameter, some value =>
      return (← (← arguments.settle pending).give parameter value, .files [])
  | none, some parameter, none => return (← arguments.settle pending, .waiting parameter)
  | none, none, _ => throw .unknownOption

/-- Reads words; behind the word `--` all words are files. -/
def read (onlyFiles : Bool) (arguments : Arguments) (pending : Pending) :
    List Text → Except UsageError Arguments
  | [] => arguments.settle pending
  | word :: rest => do
      if onlyFiles then
        let (arguments, pending) ← arguments.file pending word
        arguments.read true pending rest
      else
        match word with
        | ['-', '-'] => arguments.read true pending rest
        | '-' :: '-' :: text =>
            let (arguments, pending) ← arguments.option pending text
            arguments.read false pending rest
        | '-' :: _ :: _ => throw .unknownOption
        | _ =>
            match pending with
            | .waiting parameter => arguments.read false (.given parameter word) rest
            | pending =>
                let (arguments, pending) ← arguments.file pending word
                arguments.read false pending rest

/-- The arguments that words express. There must be a file. -/
def parse (words : List Text) : Except UsageError Arguments := do
  let arguments ← read false {} (.files []) words
  if arguments.files.isEmpty then throw .noFiles
  return arguments

def overrides (arguments : Arguments) : Config.Layer :=
  { maxParallel := arguments.maxParallel
    groups := arguments.groups
    minFrequency := arguments.minFrequency
    noDebug := if arguments.noDebug then some true else none
    skipPassed := if arguments.skipPassed.isSome then some true else none
    output := arguments.output }

end Arguments

end TestTree.CommandLine
