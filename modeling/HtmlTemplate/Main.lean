import HtmlTemplate.Workspace.Arguments
import HtmlTemplate.Workspace.Command
/-!
The command line: rendering a template file, or evaluating an expression.
-/

namespace HtmlTemplate

namespace Terminal

def contentOf? (path : Text) : IO (Option (List UInt8)) := do
  try
    let content ← IO.FS.readBinFile (String.ofList path)
    return some content.toList
  catch _ => return none

def addFile (files : Files) (path : Text) : IO Files := do
  match ← contentOf? path with
  | some content => return files.addBytes path content
  | none => return files

def addDirectory (files : Files) (path : Text) : IO Files := do
  try
    let entries ← (← IO.FS.realPath (String.ofList path)).readDir
    entries.foldlM (fun files entry => do
      let inner := Path.join path entry.fileName.toList
      if ← entry.path.isDir then return files.addDirectory inner
      else addFile files inner) (files.addDirectory path)
  catch _ => return files

def filesFor : Invocation → IO Files
  | .render template data components _ _ => do
      let files ← (template :: data.toList).foldlM addFile .empty
      match components with
      | some directory => addDirectory files directory
      | none => return files
  | .evaluate _ data => data.toList.foldlM addFile .empty

def writeFile (path output : Text) : IO (Except CommandError Unit) := do
  let parent := Path.parent path
  try
    unless parent.isEmpty do IO.FS.createDirAll (String.ofList parent)
  catch _ => return .error (Workspace.failure "failed to create " parent)
  try
    IO.FS.writeFile (String.ofList path) (String.ofList output)
    return .ok ()
  catch _ => return .error (Workspace.failure "failed to write " path)

def emit (out : Option Text) : Except CommandError Text → IO (Except CommandError Unit)
  | .error error => return .error error
  | .ok output =>
      match out with
      | some path => writeFile path output
      | none => do
          IO.println (String.ofList output)
          return .ok ()

/-- Lists the component files of an invocation among the messages. -/
def announce (files : Files) : Invocation → IO Unit
  | .render _ _ (some directory) _ _ =>
      match Workspace.componentFiles files directory with
      | .error _ => return
      | .ok found => found.forM fun file =>
          IO.eprintln ("found component " ++ String.ofList file.1 ++ " in " ++ String.ofList file.2)
  | _ => return

def perform (invocation : Invocation) (files : Files) : IO (Except CommandError Unit) :=
  match invocation with
  | .render template data components limit out =>
      emit out (Workspace.render files template data components limit)
  | .evaluate source data => emit none (Workspace.evaluate files source data)

/-- Runs a command line; the result is the exit code. -/
def run (words : List Text) : IO UInt32 := do
  match Arguments.ofWords words with
  | .error error => refuse error
  | .ok arguments =>
      match Invocation.ofArguments arguments with
      | .error error => refuse error
      | .ok invocation =>
          let files ← filesFor invocation
          if arguments.verbose then announce files invocation
          match ← perform invocation files with
          | .ok () => return 0
          | .error error => do
              IO.eprintln ("Error: " ++ error.message)
              if let some cause := error.cause then
                IO.eprintln ("\nCaused by:\n    " ++ cause.message)
              return 1
where
  refuse (error : UsageError) : IO UInt32 := do
    IO.eprintln ("error: " ++ error.message)
    return 2

end Terminal

end HtmlTemplate

def main (words : List String) : IO UInt32 := HtmlTemplate.Terminal.run (words.map String.toList)
