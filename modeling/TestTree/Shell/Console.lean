import TestTree.Files.Basic
import TestTree.Variables

namespace TestTree.Shell

structure Console where
  files : Files
  environment : Bindings := []
  input : Bytes := []
  output : Bytes := []
  errors : Bytes := []
deriving DecidableEq, Repr

namespace Console

def print (console : Console) (bytes : Bytes) : Console :=
  { console with output := console.output ++ bytes }

def complain (console : Console) (message : Text) : Console :=
  { console with errors := console.errors ++ Bytes.ofText (message ++ ['\n']) }

end Console

abbrev Program := List Text → Console → Nat × Console

end TestTree.Shell
