import HtmlTemplate.Value.Fields
import HtmlTemplate.Workspace.Path
/-!
Files and directories: reading a file, listing a directory, and writing a file together with the
directories on the way to it.  What a file holds is bytes, and it is read as the text that they
spell.
-/

namespace HtmlTemplate

/-- The places of files with the bytes that they hold, the places of directories, and the places of
directories of which a listing breaks off, with what the system reports then. -/
structure Files where
  contents : List (Place × List UInt8)
  directories : List Place
  faults : List (Place × String)

/-- What a directory holds under a name: a file, or a directory. -/
structure Entry where
  name : FileName
  isFile : Bool
  deriving DecidableEq

/-- What is listed of a directory, in some order, and what the system reports if the listing breaks
off there. -/
structure Listing where
  entries : List Entry
  fault? : Option String
  deriving DecidableEq

/-- Why a file is not read. -/
inductive ReadError where
  | missing
  | notDirectory
  | isDirectory
  | invalidUtf8
  deriving DecidableEq

def ReadError.message : ReadError → String
  | .missing => "No such file or directory (os error 2)"
  | .notDirectory => "Not a directory (os error 20)"
  | .isDirectory => "Is a directory (os error 21)"
  | .invalidUtf8 => "stream did not contain valid UTF-8"

namespace Files

def empty : Files := ⟨[], [], []⟩

def isDirectory (files : Files) (place : Place) : Bool :=
  Path.isOutward place || files.directories.contains place

def isFile (files : Files) (place : Place) : Bool :=
  files.contents.any fun file => file.1 = place

def addDirectory (files : Files) (path : Text) : Files :=
  { files with directories := Path.passed [] (Path.names path) ++ files.directories }

def addBytes (files : Files) (path : Text) (content : List UInt8) : Files :=
  { files with
    contents := (Path.place path, content) :: files.contents.filter (·.1 ≠ Path.place path)
    directories := Path.onTheWay path ++ files.directories }

def addFile (files : Files) (path content : Text) : Files := files.addBytes path content.utf8

/-- Whether everything that a path passes is a directory. -/
def isOpen (files : Files) (path : Text) : Bool := (Path.onTheWay path).all files.isDirectory

/-- Why nothing is read at a place that is no directory, or not by a path to a directory. -/
def absence (files : Files) (place : Place) : ReadError :=
  if files.isFile place then .notDirectory else .missing

/-- Reads a file as a text. -/
def read (files : Files) (path : Text) : Except ReadError Text :=
  let place := Path.place path
  match (Path.onTheWay path).find? fun passed => !files.isDirectory passed with
  | some passed => .error (files.absence passed)
  | none =>
      if path.isEmpty then .error .missing
      else if Path.namesDirectory path then
        .error (if files.isDirectory place then .isDirectory else files.absence place)
      else
        match files.contents.find? fun file => file.1 = place with
        | some file =>
            match Text.ofUtf8? file.2 with
            | some content => .ok content
            | none => .error .invalidUtf8
        | none => .error (if files.isDirectory place then .isDirectory else .missing)

def read? (files : Files) (path : Text) : Option Text := (files.read path).toOption

/-- The last name of a place that a directory holds itself. -/
def nameIn? (directory place : Place) : Option FileName :=
  place.getLast?.filter fun name => directory ++ [name] = place

def listing? (files : Files) (path : Text) : Option Listing :=
  let directory := Path.place path
  if !path.isEmpty && files.isOpen path && files.isDirectory directory then
    let inner := files.contents.filterMap fun file => nameIn? directory file.1
    let outer := (files.directories.filterMap (nameIn? directory)).eraseDups
    let fault := files.faults.find? fun fault => fault.1 = directory
    some ⟨inner.map (Entry.mk · true) ++ outer.map (Entry.mk · false), fault.map Prod.snd⟩
  else none

/-- Whether a path leads to a file or through one. -/
def isBlocked (files : Files) (path : Text) : Bool :=
  (Path.passed [] (Path.names path)).any files.isFile

/-- Makes the directories that a path passes, and the one that it leads to, up to where a file is in
the way. -/
def makeDirectory (files : Files) (path : Text) : Files :=
  let free := (Path.passed [] (Path.names path)).takeWhile fun place => !files.isFile place
  { files with directories := free ++ files.directories }

/-- Puts a file at a path, instead of a file that is there. -/
def put? (files : Files) (path content : Text) : Option Files :=
  if Path.namesDirectory path || !files.isOpen path || files.isDirectory (Path.place path) then none
  else some (files.addFile path content)

end Files

end HtmlTemplate
