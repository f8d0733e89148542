import JavaObjC.Files.Directory
import JavaObjC.Generator.Unit

/-!
# Generating files

A generated class becomes two files in the output directory, the header
first; if the implementation cannot be written, both are removed again. A
batch checks all paths before it does any work. It then parses all files,
declares the classes of those that could be parsed, generates every file
against all of these declarations, and writes the results in the order of the
paths. After the check, a failure concerns its own file only.
-/

namespace JavaObjC

/-- The extension of Java sources. -/
def sourceExtension : Text := ".java"

/-- Refuses a path without the extension of Java sources. -/
def checkPath (path : Text) : Except Failure Unit :=
  if Path.extension path = sourceExtension then .ok () else .error (.notJava path)

/-- The text of a source file. -/
def readSource (d : Directory) (path : Text) : Except Failure Text :=
  match d.read path with
  | .ok text => .ok text
  | .error problem => .error (.within ("read " ++ path) (.fileSystem problem))

/-- The tree of a source file. -/
def parseFile (d : Directory) (path : Text) : Except Failure Node := do
  parseForGeneration path (← readSource d path)

/-- What happened to one file of a batch. -/
structure Outcome where
  path : Text
  /-- The name of the generated class; empty if the file failed. -/
  type : Text := []
  /-- The path of the header; empty if the file failed. -/
  header : Text := []
  /-- The path of the implementation; empty if the file failed. -/
  implementation : Text := []
  failure : Option Failure := none

/-- The outcomes of a batch in the order of its paths. -/
structure Report where
  outcomes : List Outcome := []

namespace Report

/-- The number of files that were generated. -/
def succeeded (r : Report) : Nat := r.outcomes.countP (·.failure.isNone)

/-- The failures in the order of the paths. -/
def failures (r : Report) : List Failure := r.outcomes.filterMap Outcome.failure

/-- The failure of the whole batch, if any file failed. -/
def failure? (r : Report) : Option Failure := Failure.ofAll? r.failures

end Report

namespace Generator

/-- Generates a file. Nothing is written. -/
def generateFile (g : Generator) (d : Directory) (path : Text) (isCancelled : Bool) :
    Except Failure GeneratedUnit × Generator :=
  match checkPath path with
  | .error f => (.error f, g)
  | .ok () =>
    if isCancelled then (.error .cancelled, g)
    else match parseFile d path with
      | .ok cu => g.generateParsed path cu
      | .error f => (.error f, g)

/-- The path of the header of a class. -/
def headerPath (g : Generator) (m : ClassModel) : Text := Path.join [g.outputDir, m.headerFile]

/-- The path of the implementation of a class. -/
def implementationPath (g : Generator) (m : ClassModel) : Text :=
  Path.join [g.outputDir, m.implementationFile]

/-- A refusal of the file system to create something. -/
def notCreated (path : Text) (problem : FileProblem) : Failure :=
  .within ("create " ++ path) (.fileSystem problem)

/-- Writes the header and then the implementation of a class into an output
directory that is there. -/
def writePair (g : Generator) (d : Directory) (m : ClassModel) : Except Failure Unit × Directory :=
  match d.write (g.headerPath m) m.header with
  | .error problem => (.error (notCreated (g.headerPath m) problem), d)
  | .ok withHeader =>
    match withHeader.write (g.implementationPath m) m.implementation with
    | .error problem =>
      (.error (notCreated (g.implementationPath m) problem),
        (withHeader.discard (g.headerPath m)).discard (g.implementationPath m))
    | .ok withBoth => (.ok (), withBoth)

/-- Writes the two files of a class, after making the output directory. -/
def write (g : Generator) (d : Directory) (m : ClassModel) : Except Failure Unit × Directory :=
  match d.makeFolders g.outputDir with
  | (.error problem, made) => (.error (notCreated g.outputDir problem), made)
  | (.ok (), made) => g.writePair made m

/-- Declares the classes of the files that could be parsed. -/
def declareAll (g : Generator) (parsed : List (Text × Except Failure Node)) : Generator :=
  parsed.foldl
    (fun g (_, cu) => match cu with
      | .ok cu => g.declareUnit cu
      | .error _ => g)
    g

/-- Generates the files that could be parsed, all against the same declarations. -/
def generateAll (g : Generator) (parsed : List (Text × Except Failure Node)) :
    List (Text × Except Failure GeneratedUnit) :=
  parsed.map fun (path, cu) => (path, cu.bind (g.generateUnit path))

/-- Records and writes a generated file. -/
def emit (g : Generator) (d : Directory) (path : Text) (result : Except Failure GeneratedUnit) :
    Outcome × Generator × Directory :=
  match result with
  | .error f => ({ path, failure := some (f.withPath path) }, g, d)
  | .ok unit =>
    let recorded := g.define unit.model
    match g.write d unit.model with
    | (.error f, d) => ({ path, failure := some (f.withPath path) }, recorded, d)
    | (.ok (), d) =>
      ({ path
         type := unit.model.name
         header := g.headerPath unit.model
         implementation := g.implementationPath unit.model }, recorded, d)

/-- Records and writes generated files in order. -/
def emitAll (g : Generator) (d : Directory) :
    List (Text × Except Failure GeneratedUnit) → List Outcome × Generator × Directory
  | [] => ([], g, d)
  | (path, result) :: rest =>
    let (outcome, g, d) := g.emit d path result
    let (outcomes, g, d) := g.emitAll d rest
    (outcome :: outcomes, g, d)

/-- Generates and writes a batch of files. Without paths, with a path that is
no Java source, or when cancelled, nothing is done. -/
def run (g : Generator) (d : Directory) (paths : List Text) (isCancelled : Bool) :
    Except Failure Report × Generator × Directory :=
  if paths.isEmpty then (.error .noInput, g, d)
  else match paths.forM checkPath with
    | .error f => (.error f, g, d)
    | .ok () =>
      if isCancelled then (.error .cancelled, g, d)
      else
        let parsed := paths.map fun path => (path, parseFile d path)
        let declared := g.declareAll parsed
        let (outcomes, g, d) := declared.emitAll d (declared.generateAll parsed)
        (.ok { outcomes }, g, d)

end Generator

end JavaObjC
