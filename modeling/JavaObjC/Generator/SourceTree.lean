import JavaObjC.Generator.Batch

/-!
# Watched source trees

A source tree is everything below a root: its Java files, in folders that are
not hidden. It is generated as one batch by a fresh generator each time, so
that removed files no longer count. Of the changes in a tree, those of Java
files ask for another build, unless only the permissions changed.
-/

namespace JavaObjC

/-- How something below the root of a tree changed. -/
inductive ChangeKind where
  | create | write | remove | rename | chmod
  deriving DecidableEq, Repr

/-- A change below the root of a tree; it may be of several kinds at once. -/
structure Change where
  path : Text
  kinds : List ChangeKind

/-- Whether a change asks for another build. A new folder does not. -/
def Change.asksForBuild (c : Change) (d : Directory) : Bool :=
  if c.kinds.contains .create && d.isFolder c.path then false
  else if Path.extension c.path ≠ sourceExtension then false
  else !(c.kinds.contains .chmod && !c.kinds.contains .write)

namespace SourceTree

/-- Whether a name is that of a hidden file or folder. -/
def isHidden (name : Text) : Bool := Text.startsWith name "."

/-- Whether there is something at the root that can be watched. -/
def check (d : Directory) (root : Text) : Except Failure Unit :=
  match d.examine "lstat" root with
  | .ok _ => .ok ()
  | .error problem => .error (.fileSystem problem)

/-- The paths below a root, itself included, before the extension is looked at. -/
def candidates (d : Directory) (root : Text) : List Text :=
  match d.lookup root, d.locate root with
  | .ok .folder, .ok l =>
    ((d.filesBelow l).filter fun names => !names.dropLast.any isHidden).map
      fun names => Path.join (root :: names)
  | .ok (.file _), _ => [root]
  | _, _ => []

/-- The Java files of a tree in the order of their paths. -/
def sources (d : Directory) (root : Text) : List Text :=
  Text.sortBy id ((candidates d root).filter fun path => Path.extension path = sourceExtension)

/-- Generates all files of a tree. -/
def build (options : GeneratorOptions) (d : Directory) (root : Text) :
    Except Failure Report × Directory :=
  match sources d root with
  | [] => (.ok {}, d)
  | paths =>
    let (result, _, d) := (Generator.ofOptions options).run d paths false
    (result, d)

end SourceTree

end JavaObjC
