import JavaObjC.Failure
import JavaObjC.Files.Path
import JavaObjC.Keyed

/-!
# Directories

The files and folders below a root, as a value: what each location holds, and
where relative paths start. Reading, creating and removing files and making
folders work on paths and fail for the reasons a file system gives. Every step
of a path starts in a folder, so a path through a file or through something
that does not exist fails even if it later leads back.
-/

namespace JavaObjC

/-- What is at a location. -/
inductive Content where
  | file (text : Text)
  | folder
  deriving DecidableEq, Repr

/-- A location below the root: the names on the way to it. -/
abbrev Location := List Text

/-- The files and folders below a root. -/
structure Directory where
  entries : List (Location × Content) := []
  /-- Where relative paths start: the working directory. -/
  home : Location := []

namespace Directory

/-- What is at a location; the root itself is a folder. -/
def content? (d : Directory) (l : Location) : Option Content :=
  if l.isEmpty then some .folder else getKey? l d.entries

/-- The directory with something put at a location. -/
def put (d : Directory) (l : Location) (c : Content) : Directory :=
  { d with entries := setKey l c d.entries }

/-- The directory without what is at a location. -/
def erase (d : Directory) (l : Location) : Directory :=
  { d with entries := dropKey l d.entries }

/-- Where the elements of a path lead from a location. -/
def follow (d : Directory) (l : Location) : List Text → Except FileFault Location
  | [] => .ok l
  | element :: rest =>
    match d.content? l with
    | some .folder =>
      if element.isEmpty || element = Path.here then d.follow l rest
      else if element = Path.above then d.follow l.dropLast rest
      else d.follow (l ++ [element]) rest
    | some (.file _) => .error .notDirectory
    | none => .error .notFound

/-- Where a path starts. -/
def startOf (d : Directory) (path : Text) : Location := if Path.isRooted path then [] else d.home

/-- Where a path leads. There may be nothing there, but there is a folder to hold it. -/
def locate (d : Directory) (path : Text) : Except FileFault Location :=
  if path.isEmpty then .error .notFound
  else d.follow (d.startOf path) (Path.elements path)

/-- What a path leads to. -/
def lookup (d : Directory) (path : Text) : Except FileFault Content :=
  match d.locate path with
  | .ok l => match d.content? l with
    | some c => .ok c
    | none => .error .notFound
  | .error fault => .error fault

/-- What a path leads to, for an operation that needs it. -/
def examine (d : Directory) (operation : String) (path : Text) : Except FileProblem Content :=
  match d.lookup path with
  | .ok c => .ok c
  | .error fault => .error ⟨operation, path, fault⟩

/-- Whether a path leads to a folder. -/
def isFolder (d : Directory) (path : Text) : Bool :=
  match d.lookup path with
  | .ok .folder => true
  | _ => false

/-- The text of a file. -/
def read (d : Directory) (path : Text) : Except FileProblem Text :=
  match d.lookup path with
  | .ok (.file text) => .ok text
  | .ok .folder => .error ⟨"read", path, .isDirectory⟩
  | .error fault => .error ⟨"open", path, fault⟩

/-- Creates a file, or replaces the text of one. -/
def write (d : Directory) (path text : Text) : Except FileProblem Directory :=
  match d.locate path with
  | .ok l =>
    if d.content? l = some .folder then .error ⟨"open", path, .isDirectory⟩
    else .ok (d.put l (.file text))
  | .error fault => .error ⟨"open", path, fault⟩

/-- Removes a file; anything else is left alone. -/
def discard (d : Directory) (path : Text) : Directory :=
  match d.locate path with
  | .ok l => match d.content? l with
    | some (.file _) => d.erase l
    | _ => d
  | .error _ => d

/-- Makes one folder. -/
def makeFolder (d : Directory) (path : Text) : Except FileProblem Directory :=
  match d.locate (Path.withoutTrailing path) with
  | .ok l =>
    if (d.content? l).isSome then .error ⟨"mkdir", path, .alreadyExists⟩
    else .ok (d.put l .folder)
  | .error fault => .error ⟨"mkdir", path, fault⟩

/-- Makes a folder unless a path leads to one already. -/
def ensureFolder (d : Directory) (path : Text) : Except FileProblem Unit × Directory :=
  match d.makeFolder path with
  | .ok made => (.ok (), made)
  | .error problem => (if d.isFolder path then .ok () else .error problem, d)

/-- Makes a folder and the folders on the way to it. Folders that were made
before a later one fails stay. -/
def makeFolders (d : Directory) (path : Text) : Except FileProblem Unit × Directory :=
  match d.lookup path with
  | .ok .folder => (.ok (), d)
  | .ok (.file _) => (.error ⟨"mkdir", path, .notDirectory⟩, d)
  | .error _ =>
    match _h : Path.parent? path with
    | some up =>
      match d.makeFolders up with
      | (.ok (), made) => made.ensureFolder path
      | (.error problem, made) => (.error problem, made)
    | none => d.ensureFolder path
termination_by path.length
decreasing_by exact Path.length_parent?_lt _h

/-- The location a path names, whether or not anything is there. -/
def locationOf (d : Directory) (path : Text) : Location :=
  ((Path.elements path).foldl (Path.push true) (d.startOf path).reverse).reverse

/-- The directory with all of the folders above a location. -/
def withFolders (d : Directory) (done : Location) : List Text → Directory
  | [] => d
  | [_] => d
  | name :: rest =>
    let l := done ++ [name]
    let next := if (d.content? l).isSome then d else d.put l .folder
    next.withFolders l rest

/-- The directory with something put at a path, and the folders on the way to it. -/
def place (d : Directory) (path : Text) (c : Content) : Directory :=
  let l := d.locationOf path
  if l.isEmpty then d else (d.withFolders [] l).put l c

/-- The locations of the files below a location, as the names on the way from there. -/
def filesBelow (d : Directory) (l : Location) : List Location :=
  d.entries.filterMap fun (location, c) =>
    match c with
    | .file _ => if l.isPrefixOf location then some (location.drop l.length) else none
    | .folder => none

/-- The files that are new or have a new text, with their text, and the files
that are gone, by their paths from the root. -/
def changes (before after : Directory) : List (Text × Option Text) :=
  let written := after.entries.filterMap fun (l, c) =>
    match c with
    | .file text => if before.content? l = some c then none else some (Text.join "/" l, some text)
    | .folder => none
  let removed := before.entries.filterMap fun (l, c) =>
    match c, after.content? l with
    | .file _, some (.file _) => none
    | .file _, _ => some (Text.join "/" l, none)
    | .folder, _ => none
  written ++ removed

end Directory

end JavaObjC
