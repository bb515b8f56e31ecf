import TestTree.Config.Basic
import TestTree.Files.Basic
import TestTree.Toml.Parser

namespace TestTree.Config

/-- Numbers that a setting can hold are below this. -/
def numberBound : Nat := 0x10000000000000000

namespace Layer

def number? : Toml → Option Nat
  | .integer (.ofNat n) => if n < numberBound then some n else none
  | _ => none

def text? : Toml → Option Text
  | .string text => some text
  | _ => none

def texts? : Toml → Option (List Text)
  | .array elements => elements.mapM text?
  | _ => none

def truth? : Toml → Option Bool
  | .boolean value => some value
  | _ => none

/-- A frequency: its name, or the name as the only key of a table, with nothing at it. -/
def frequency? : Toml → Option Frequency
  | .string name => Frequency.ofText? name
  | .table [(name, .table [])] => Frequency.ofText? name
  | .table [(name, .array [])] => Frequency.ofText? name
  | _ => none

def set (layer : Layer) (name : Text) (value : Toml) : Option Layer :=
  if name = "max_parallel".toList then
    (number? value).map fun n => { layer with maxParallel := some n }
  else if name = "groups".toList then
    (texts? value).map fun groups => { layer with groups := some groups }
  else if name = "min_frequency".toList then
    (frequency? value).map fun frequency => { layer with minFrequency := some frequency }
  else if name = "no_debug".toList then
    (truth? value).map fun noDebug => { layer with noDebug := some noDebug }
  else if name = "skip_passed".toList then
    (truth? value).map fun skipPassed => { layer with skipPassed := some skipPassed }
  else if name = "built_in".toList then
    (texts? value).map fun builtIn => { layer with builtIn := some builtIn }
  else if name = "output".toList then
    (text? value).map fun output => { layer with output := some output }
  else none

/-- The layer that a file holds. It may hold nothing but settings. -/
def parse? (content : Text) : Option Layer := do
  (← Toml.parse? content).foldlM (fun layer entry => layer.set entry.1 entry.2) {}

end Layer

/-- Puts the layer of a file on top. Its relative paths start from the directory of the file. -/
def applyFile (config : Config) (files : Files) (path : Text) : Except ConfigError Config :=
  match files.readText path with
  | .error _ => .error (.unreadable path)
  | .ok content =>
      match Layer.parse? content with
      | none => .error (.malformed path)
      | some layer => .ok (config.apply ((Path.parent path).getD []) layer)

def fileName : Text := "ramify.toml"

/-- The configuration of a run. Without a file named for it, the project's file is the one in the
directory of the run, if there is one. -/
def resolve (files : Files) (userFile : Option Text) (named : Option Text) (overrides : Layer) :
    Except ConfigError Config := do
  let config ← match userFile.filter files.isFile with
    | some path => applyFile {} files path
    | none => pure {}
  let config ← match named with
    | some path => if files.isFile path then config.applyFile files path else throw (.missing path)
    | none =>
        let path := Path.join files.herePath fileName
        if files.isFile path then config.applyFile files path else pure config
  (config.apply files.herePath overrides).validate

end TestTree.Config
