import TestTree.CommandLine.Arguments
import TestTree.Run.Runner

namespace TestTree.CommandLine

inductive Problem
  | config (error : ConfigError)
  | unreadableTest (path : Text) (reason : FileError)
  | malformedTest (path : Text) (error : TreeError)
  | noBranches (error : TreeError)
  | unreadableResults (path : Text) (reason : FileError)
  | malformedResults (path : Text)
  | noDirectory (path : Text) (reason : FileError)
  | unwritable (path : Text) (reason : FileError)
  | run (error : Run.RunError)

/-- What happened to the file at a path. -/
def about (lead : String) (path : Text) : Text := lead.toList ++ " '".toList ++ path ++ ['\'']

def because (what reason : Text) : Text := what ++ ": ".toList ++ reason

def Problem.message : Problem → Text
  | config error => error.message
  | unreadableTest path reason => because (about "Failed to read test file" path) reason.message
  | malformedTest path error => because (about "Failed to parse" path) error.describe
  | noBranches error => because "Failed to generate branches" error.describe
  | unreadableResults path reason =>
      because (about "Failed to read previous results" path) reason.message
  | malformedResults path => about "Failed to load previous results" path
  | noDirectory path reason => because (about "Failed to create directory" path) reason.message
  | unwritable path reason => because (about "Failed to write results to" path) reason.message
  | run error => error.message

end TestTree.CommandLine
