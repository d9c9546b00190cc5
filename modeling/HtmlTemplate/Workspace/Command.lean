import HtmlTemplate.Template.App
import HtmlTemplate.Value.Json
import HtmlTemplate.Workspace.Files
/-!
Commands over a set of files: rendering a template with data from a file and components from a
directory, and evaluating an expression.
-/

namespace HtmlTemplate

/-- Why a command failed: what it reports, and the error of rendering below it, if there is one. -/
structure CommandError where
  message : String
  cause : Option RenderError

namespace Workspace

def failure (words : String) (path : Text) : CommandError :=
  ⟨words ++ String.ofList path, none⟩

def readFile (files : Files) (path : Text) : Except CommandError Text :=
  (files.read path).mapError fun _ => failure "failed to read " path

def loadData (files : Files) : Option Text → Except CommandError Bindings
  | none => .ok []
  | some path => do
      let source ← readFile files path
      match Json.read? source with
      | none => .error (failure "invalid JSON in " path)
      | some (.map entries) => .ok entries
      | some other =>
          .error ⟨String.ofList path ++ " must hold a JSON object, found " ++ other.kind, none⟩

def componentExtensions : List Text := ["vue".toList, "html".toList]

/-- The component that an entry of a directory holds, with the path of its file.  It is named by a
text: a file whose name before the extension is none holds no component. -/
def componentOf? (directory : Text) (entry : Entry) : Option (Text × Text) := do
  let parts := Path.stemAndExtension entry.name
  let extension ← parts.2.bind Text.ofUtf8?
  if entry.isFile && componentExtensions.contains extension then
    let stem ← Text.ofUtf8? parts.1
    return (stem, Path.join directory (stem ++ '.' :: extension))
  else none

/-- The order of component files: by name, and files of one name by path. -/
def comesBefore (a b : Text × Text) : Bool :=
  a.1 < b.1 || (a.1 = b.1 && (a.2 < b.2 || a.2 = b.2))

def sortedComponents (directory : Text) (entries : List Entry) : List (Text × Text) :=
  (entries.filterMap (componentOf? directory)).mergeSort comesBefore

def componentFiles (files : Files) (directory : Text) : Except CommandError (List (Text × Text)) :=
  match files.listing? directory with
  | none => .error (failure "failed to read " directory)
  | some ⟨_, some report⟩ => .error ⟨report, none⟩
  | some ⟨entries, none⟩ => .ok (sortedComponents directory entries)

/-- A template that is read from a file each time that it is asked for. -/
def fileTemplate (files : Files) (path : Text) : Template :=
  .supplied fun _ => (files.read path).mapError fun error =>
    "failed to read ".toList ++ path ++ ": ".toList ++ error.message.toList

/-- An app whose root is the template in a file, with the components of a directory. -/
def buildApp (files : Files) (template : Text) (components : Option Text) (limit : Nat) :
    Except CommandError App := do
  let source ← readFile files template
  let found ←
    match components with
    | none => .ok []
    | some directory => componentFiles files directory
  let app : App := { App.ofMethods .empty with limit := limit }
  let app := found.foldl (fun app file => app.register file.1 (fileTemplate files file.2) none) app
  .ok (app.register rootName (.markup source) none)

def render (files : Files) (template : Text) (data components : Option Text) (limit : Nat) :
    Except CommandError Text := do
  let app ← buildApp files template components limit
  let bindings ← loadData files data
  ((app.render rootName bindings).run .empty).1.mapError fun cause =>
    ⟨"failed to render " ++ String.ofList template, some cause⟩

def evaluate (files : Files) (source : Text) (data : Option Text) : Except CommandError Text := do
  let bindings ← loadData files data
  match (App.ofMethods .empty).evaluate source bindings with
  | .ok value => .ok value.compact
  | .error cause =>
      .error ⟨"failed to evaluate `" ++ String.ofList source.trim ++ "`", some cause⟩

/-- Writes a file, after making the directories on the way to it, which stay if the write fails. -/
def write (files : Files) (path output : Text) : Except CommandError Unit × Files :=
  let parent := Path.parent path
  let made := files.makeDirectory parent
  if files.isBlocked parent then (.error (failure "failed to create " parent), made)
  else
    match made.put? path output with
    | some written => (.ok (), written)
    | none => (.error (failure "failed to write " path), made)

end Workspace

end HtmlTemplate
