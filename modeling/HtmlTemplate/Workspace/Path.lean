import HtmlTemplate.Text.Bytes
/-!
Paths of files, the places to which they lead, and the parts of a file's name.  A path is a text,
and the names in it are the bytes of texts; a file may have other bytes for a name.
-/

namespace HtmlTemplate

/-- The name of a file or directory as a directory holds it: bytes, which need not spell a text. -/
abbrev FileName := List UInt8

/-- Where a file or directory is: the names that lead to it from the working directory.  A place
that begins with a slash is below the root, and one that begins with two dots is outside of the
working directory. -/
abbrev Place := List FileName

namespace Path

/-- The names in a path.  Empty names and single dots lead nowhere. -/
def names (path : Text) : List FileName :=
  let named := (Text.splitWhere (· = '/') path).filter fun name => name ≠ [] && name ≠ ['.']
  (if path.head? = some '/' then ['/'] :: named else named).map Text.utf8

/-- The name by which a directory has the one that holds it. -/
def parentName : FileName := Text.utf8 ['.', '.']

/-- Whether a place is the working directory or one of those that hold it. -/
def isOutward (place : Place) : Bool := place.all (· = parentName)

def step (here : Place) (name : FileName) : Place :=
  if name = parentName && !isOutward here then here.dropLast else here ++ [name]

def passed (here : Place) : List FileName → List Place
  | [] => []
  | name :: rest => step here name :: passed (step here name) rest

def place (path : Text) : Place := (names path).foldl step []

/-- The places that a path passes before it comes to its end. -/
def onTheWay (path : Text) : List Place := (passed [] (names path)).dropLast

/-- Whether a path can only lead to a directory. -/
def namesDirectory (path : Text) : Bool :=
  match (Text.splitWhere (· = '/') path).getLast? with
  | some last => last = [] || last = ['.'] || last = ['.', '.']
  | none => true

def join (directory name : Text) : Text :=
  if directory.isEmpty || directory.getLast? = some '/' then directory ++ name
  else directory ++ '/' :: name

/-- What stands before the last occurrence of `a`, and what stands after it. -/
def breakAtLast {α : Type} [DecidableEq α] (a : α) (s : List α) : Option (List α × List α) :=
  let back := s.reverse
  if back.contains a then
    some (((back.dropWhile (· ≠ a)).drop 1).reverse, (back.takeWhile (· ≠ a)).reverse)
  else none

/-- The byte of the dot before an extension. -/
def dot : UInt8 := '.'.toUInt8

/-- A file name without its extension, and the extension.  A dot at the beginning of the name does
not begin an extension. -/
def stemAndExtension (name : FileName) : FileName × Option FileName :=
  if name = parentName then (name, none)
  else
    match breakAtLast dot name with
    | none => (name, none)
    | some (stem, extension) => if stem.isEmpty then (name, none) else (stem, some extension)

/-- The reverse of a path without the slashes and single dots that the path ends in. -/
def dropEnd : Text → Text
  | '/' :: back => dropEnd back
  | '.' :: '/' :: back => dropEnd back
  | back => back

/-- A path without slashes and single dots at its end. -/
def trimmed (path : Text) : Text := (dropEnd path.reverse).reverse

/-- The path of the directory that holds what a path leads to; empty for the working directory. -/
def parent (path : Text) : Text :=
  match breakAtLast '/' (trimmed path) with
  | none => []
  | some (before, _) => trimmed before

end Path

end HtmlTemplate
