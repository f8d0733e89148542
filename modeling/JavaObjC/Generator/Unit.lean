import JavaObjC.Lowering.Members
import JavaObjC.Target.Header
import JavaObjC.Target.Implementation

/-!
# The generator

A generator keeps the classes it has seen. Declaring a source makes its class
known to other units; generating a source declares its class first and records
the finished one. A source that fails after it was parsed stays declared.
-/

namespace JavaObjC

/-- What a generator is set up with. -/
structure GeneratorOptions where
  /-- Where generated files go; empty for the working directory. -/
  outputDir : Text := []
  /-- How many files may be worked on at once, or zero. -/
  jobs : Int := 0
  /-- Configured Java types and the types they stand for. -/
  typeMap : List (Text × Text) := []

/-- A generator and the classes it knows. -/
structure Generator where
  outputDir : Text := "."
  jobs : Nat := 4
  mapper : TypeMapper := {}
  registry : Registry := {}

/-- A generated unit. -/
structure GeneratedUnit where
  path : Text
  package : Text
  model : ClassModel
  /-- The names of referenced classes that nothing declares. -/
  pending : List Text

/-- The number of jobs when none is given. -/
def defaultJobs : Nat := 4

/-- A number of jobs; one that is not positive means the default. -/
def jobCount (jobs : Int) : Nat := if jobs ≤ 0 then defaultJobs else jobs.toNat

/-- A directory for output; the empty path means the working directory. -/
def outputDirectory (dir : Text) : Text := if dir.isEmpty then "." else dir

/-- Parses a compilation unit that is to be generated. -/
def parseForGeneration (path source : Text) : Except Failure Node :=
  match parseUnit path source with
  | .ok cu => .ok cu
  | .error e => .error (.rejected e)

namespace Generator

/-- A fresh generator. -/
def ofOptions (options : GeneratorOptions) : Generator :=
  { outputDir := outputDirectory options.outputDir
    jobs := jobCount options.jobs
    mapper := TypeMapper.ofEntries options.typeMap }

/-- What members are generated against. -/
def surroundings (g : Generator) : Surroundings := { registry := g.registry, mapper := g.mapper }

/-- The generator with the class of a unit declared. -/
def declareUnit (g : Generator) (cu : Node) : Generator :=
  { g with registry := g.registry.declareUnit cu }

/-- The generator with a class recorded as generated. -/
def define (g : Generator) (model : ClassModel) : Generator :=
  { g with registry := (g.registry.define model.toRef).1 }

/-- Generates a parsed unit. -/
def generateUnit (g : Generator) (path : Text) (cu : Node) : Except Failure GeneratedUnit := do
  let (result, draft) := UnitDraft.visit { file := path } g.surroundings cu
  result
  let (current, built) := draft.currentClass
  let model ← current
  return { path, package := built.package, model, pending := built.pending g.registry }

/-- Declares the class of a source. -/
def declareSource (g : Generator) (path source : Text) : Except Failure Unit × Generator :=
  match parseForGeneration path source with
  | .ok cu => (.ok (), g.declareUnit cu)
  | .error f => (.error f, g)

/-- Generates a parsed unit after declaring its class, and records it. -/
def generateParsed (g : Generator) (path : Text) (cu : Node) :
    Except Failure GeneratedUnit × Generator :=
  let declared := g.declareUnit cu
  match declared.generateUnit path cu with
  | .ok unit => (.ok unit, declared.define unit.model)
  | .error f => (.error f, declared)

/-- Generates a source. -/
def generateSource (g : Generator) (path source : Text) :
    Except Failure GeneratedUnit × Generator :=
  match parseForGeneration path source with
  | .ok cu => g.generateParsed path cu
  | .error f => (.error f, g)

/-- Declares several sources in order; the answers are in the same order. -/
def declareSources (g : Generator) : List (Text × Text) → List (Except Failure Unit) × Generator
  | [] => ([], g)
  | (path, source) :: rest =>
    let (answer, g) := g.declareSource path source
    let (answers, g) := g.declareSources rest
    (answer :: answers, g)

end Generator

end JavaObjC
