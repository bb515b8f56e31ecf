import TestTree.Text.Basic

/-!
Paths. A path is kept as it was written: joining and taking the parent never change the part that
stays, so a path can be shown as its author knows it.
-/
namespace TestTree.Path

open Text

def isAbsolute (path : Text) : Bool := path.head? == some '/'

/-- The path as seen from outside `directory`. -/
def join (directory path : Text) : Text :=
  if isAbsolute path || directory.isEmpty then path
  else if directory.getLast? = some '/' then directory ++ path
  else directory ++ '/' :: path

/-- The names between the separators, with an empty name in front for an absolute path. -/
def names (path : Text) : List Text := pieces (· = '/') path

/-- Names that lead nowhere: nothing between two separators, and the directory itself. -/
def isIdle (name : Text) : Bool := name.isEmpty || name == ['.']

/-- Names without the idle ones at the end; the first name stays. -/
def dropIdleEnd : List Text → List Text
  | [] => []
  | first :: rest => first :: (rest.reverse.dropWhile isIdle).reverse

def ofNames : List Text → Text
  | [[]] => ['/']
  | names => Text.join ['/'] names

/-- The directory that a path lies in; it is empty for a single name. The root lies nowhere. -/
def parent (path : Text) : Option Text :=
  match dropIdleEnd (names path) with
  | [] | [[]] => none
  | [_] => some []
  | names => some (ofNames (dropIdleEnd names.dropLast))

theorem join_of_isAbsolute {path : Text} (absolute : isAbsolute path = true) (directory : Text) :
    join directory path = path := by
  simp [join, absolute]

end TestTree.Path
