import JavaObjC.CommandLine.Commands

/-!
# The program

Runs one invocation. The files and folders that the command line names are
looked up first, the invocation is executed on them as a value, and the files
it changed are written back. What a named folder holds is not looked up.
-/

namespace JavaObjC.Program

/-- A text as a string; a text that is none is empty. -/
def stringOf (t : Text) : String := (Text.toString? t).getD ""

/-- The bytes of a text. -/
def bytesOf (t : Text) : ByteArray := ⟨t.toArray⟩

/-- The settings that the environment can give. -/
def settingNames : List String := ["outputdir", "jobs", "verbose", "typemap"]

/-- The variables of the environment that give settings. -/
def environment : IO (List (Text × Text)) := do
  let found ← settingNames.mapM fun name => do
    let key := Settings.variableOf name
    let value ← IO.getEnv (stringOf key)
    return value.map fun v => (key, Text.ofString v)
  return found.filterMap id

/-- The paths that a command line may be about: its arguments, the values in
them, and the usual configuration file. -/
def pathsOf (arguments : List Text) : List Text :=
  let values := arguments.filterMap fun t => (Text.cut? (Text.byte '=') t).map Prod.snd
  (Settings.usualFile :: arguments ++ values).filter (!·.isEmpty)

/-- The directory with what is at a path. -/
def look (d : Directory) (path : Text) : IO Directory := do
  try
    let content ← IO.FS.readBinFile (stringOf path)
    return d.place path (.file content.toList)
  catch
    | .inappropriateType _ 21 _ => return d.place path .folder
    | _ => return d

/-- Writes a changed file, or removes one that is gone. -/
def apply (path : Text) (content : Option Text) : IO Unit := do
  let full := Path.separator :: path
  match content with
  | some text =>
    if let some folder := Path.parent? full then IO.FS.createDirAll (stringOf folder)
    IO.FS.writeBinFile (stringOf full) (bytesOf text)
  | none => IO.FS.removeFile (stringOf full)

/-- Runs one invocation and returns its exit status. -/
def run (arguments : List Text) : IO Nat := do
  let here := Text.ofString ((← IO.getEnv "PWD").getD "/")
  let root : Directory := {}
  let start := { root.place here .folder with home := root.locationOf here }
  let directory ← (pathsOf arguments).foldlM look start
  let result := Invocation.execute { arguments, environment := ← environment, directory }
  for (path, content) in directory.changes result.directory do apply path content
  (← IO.getStdout).write (bytesOf result.output)
  (← IO.getStderr).write (bytesOf result.complaint)
  return result.status

end JavaObjC.Program

/-- The entry point. -/
def main (arguments : List String) : IO UInt32 := do
  return (← JavaObjC.Program.run (arguments.map JavaObjC.Text.ofString)).toUInt32
