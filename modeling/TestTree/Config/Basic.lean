import TestTree.Branch.Selection
import TestTree.Files.Path
import TestTree.Text.Blank

/-!
Configurations. A configuration is built up in layers: a layer says some of its settings, and those
that it leaves out keep the value of the layers below.
-/
namespace TestTree

/-- Some settings. Paths are as written. -/
structure Config.Layer where
  maxParallel : Option Nat := none
  groups : Option (List Text) := none
  minFrequency : Option Frequency := none
  noDebug : Option Bool := none
  skipPassed : Option Bool := none
  builtIn : Option (List Text) := none
  output : Option Text := none
deriving DecidableEq, Repr

/-- All settings. A configuration without groups is one for all groups. -/
structure Config where
  maxParallel : Nat := 5
  groups : List Text := []
  minFrequency : Option Frequency := none
  noDebug : Bool := false
  skipPassed : Bool := false
  builtIn : List Text := []
  output : Option Text := none
deriving DecidableEq, Repr

inductive ConfigError
  | missing (path : Text)
  | unreadable (path : Text)
  | malformed (path : Text)
  | noParallel
  | emptyGroup
deriving DecidableEq, Repr

def ConfigError.message : ConfigError → Text
  | missing path => "Config file '".toList ++ path ++ "' does not exist".toList
  | unreadable path => "Failed to read config file '".toList ++ path ++ ['\'']
  | malformed path => "Failed to parse config file '".toList ++ path ++ ['\'']
  | noParallel =>
      "Invalid configuration after merging all layers: 'max_parallel' must be at least 1"
  | emptyGroup =>
      "Invalid configuration after merging all layers: 'groups' cannot contain an empty name"

namespace Config

/-- Puts a layer on top. Its relative paths start from `directory`. -/
def apply (config : Config) (directory : Text) (layer : Layer) : Config :=
  { maxParallel := layer.maxParallel.getD config.maxParallel
    groups := layer.groups.getD config.groups
    minFrequency := layer.minFrequency.or config.minFrequency
    noDebug := layer.noDebug.getD config.noDebug
    skipPassed := layer.skipPassed.getD config.skipPassed
    builtIn := (layer.builtIn.map (·.map (Path.join directory))).getD config.builtIn
    output := (layer.output.map (Path.join directory)).or config.output }

@[simp] theorem apply_empty (config : Config) (directory : Text) :
    config.apply directory {} = config := by
  simp [apply]

/-- Rejects settings that no run can follow. -/
def validate (config : Config) : Except ConfigError Config :=
  if config.maxParallel = 0 then .error .noParallel
  else if config.groups.any Text.isAllBlank then .error .emptyGroup
  else .ok config

/-- The selection of branches that the settings ask for. -/
def branchOptions (config : Config) : BranchOptions :=
  { groups := if config.groups.isEmpty then none else some config.groups
    minFrequency := config.minFrequency
    noDebug := config.noDebug }

end Config

end TestTree
