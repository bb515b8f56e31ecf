import TestTree.Files.Path

namespace TestTree

abbrev Bytes := List UInt8

namespace Bytes

def ofText (text : Text) : Bytes := (String.ofList text).toUTF8.toList

/-- The text that the bytes are the UTF-8 form of. -/
def toText? (bytes : Bytes) : Option Text :=
  (String.fromUTF8? ⟨bytes.toArray⟩).map String.toList

end Bytes

inductive FileError
  | notFound
  | notPermitted
  | alreadyExists
  | notDirectory
  | isDirectory
  | notText
deriving DecidableEq, Repr

namespace FileError

def message : FileError → Text
  | notFound => "No such file or directory (os error 2)"
  | notPermitted => "Permission denied (os error 13)"
  | alreadyExists => "File exists (os error 17)"
  | notDirectory => "Not a directory (os error 20)"
  | isDirectory => "Is a directory (os error 21)"
  | notText => "stream did not contain valid UTF-8"

end FileError

/-- The names that lead from the root to a file or directory. -/
abbrev Place := List Text

structure Files where
  /-- The content of every file. -/
  contents : List (Place × Bytes) := []
  /-- Directories that exist even if they are empty. -/
  directories : List Place := []
  /-- The directory that relative paths start from. -/
  here : Place := []
deriving DecidableEq, Repr

namespace Files

def get? (files : Files) (place : Place) : Option Bytes :=
  (files.contents.find? fun file => file.1 == place).map (·.2)

def isFileAt (files : Files) (place : Place) : Bool := (files.get? place).isSome

def isDirectoryAt (files : Files) (place : Place) : Bool :=
  place.isEmpty || (files.here :: files.directories).any (place.isPrefixOf ·) ||
    files.contents.any fun file => place != file.1 && place.isPrefixOf file.1

/-- Follows names. Each step starts from a directory; only the last name may be new. -/
def follow (files : Files) (place : Place) : List Text → Except FileError Place
  | [] => .ok place
  | name :: rest =>
      if files.isDirectoryAt place then
        if Path.isIdle name then files.follow place rest
        else if name = ['.', '.'] then files.follow place.dropLast rest
        else files.follow (place ++ [name]) rest
      else .error (if files.isFileAt place then .notDirectory else .notFound)

def start (files : Files) (path : Text) : Place := if Path.isAbsolute path then [] else files.here

def locate (files : Files) (path : Text) : Except FileError Place :=
  if path.isEmpty then .error .notFound else files.follow (files.start path) (Path.names path)

def isFile (files : Files) (path : Text) : Bool := (files.locate path).toOption.any files.isFileAt

def isDirectory (files : Files) (path : Text) : Bool :=
  (files.locate path).toOption.any files.isDirectoryAt

def read (files : Files) (path : Text) : Except FileError Bytes := do
  let place ← files.locate path
  if files.isDirectoryAt place then throw .isDirectory
  match files.get? place with
  | some content => return content
  | none => throw .notFound

def readText (files : Files) (path : Text) : Except FileError Text := do
  match (← files.read path).toText? with
  | some text => return text
  | none => throw .notText

/-- Gives the file at a place its content. -/
def put (files : Files) (place : Place) (content : Bytes) : Files :=
  if files.isFileAt place then
    { files with contents := files.contents.map fun file => if file.1 = place then (place, content) else file }
  else { files with contents := files.contents ++ [(place, content)] }

def write (files : Files) (path : Text) (content : Bytes) : Except FileError Files := do
  let place ← files.locate path
  if files.isDirectoryAt place then throw .isDirectory
  return files.put place content

/-- Adds to the end of a file, which need not exist. -/
def append (files : Files) (path : Text) (content : Bytes) : Except FileError Files := do
  let place ← files.locate path
  if files.isDirectoryAt place then throw .isDirectory
  return files.put place ((files.get? place).getD [] ++ content)

def remove (files : Files) (path : Text) : Except FileError Files := do
  let place ← files.locate path
  if files.isDirectoryAt place then throw .isDirectory
  if !files.isFileAt place then throw .notFound
  return { files with contents := files.contents.filter fun file => file.1 != place }

/-- Makes every directory on the way that names lead. -/
def makeAlong (files : Files) (place : Place) : List Text → Except FileError Files
  | [] => .ok files
  | name :: rest =>
      if Path.isIdle name then files.makeAlong place rest
      else if name = ['.', '.'] then files.makeAlong place.dropLast rest
      else
        let next := place ++ [name]
        if files.isFileAt next then
          .error (if rest.all Path.isIdle then .alreadyExists else .notDirectory)
        else if files.isDirectoryAt next then files.makeAlong next rest
        else makeAlong { files with directories := next :: files.directories } next rest

/-- Makes a directory and those it lies in. -/
def makeDirectories (files : Files) (path : Text) : Except FileError Files :=
  if path.isEmpty then .ok files else files.makeAlong (files.start path) (Path.names path)

/-- Looks from another directory. -/
def enter (files : Files) (path : Text) : Except FileError Files := do
  let place ← files.locate path
  if files.isDirectoryAt place then return { files with here := place }
  throw (if files.isFileAt place then .notDirectory else .notFound)

/-- The absolute path of the directory looked from. -/
def herePath (files : Files) : Text := '/' :: Text.join ['/'] files.here

end Files

end TestTree
