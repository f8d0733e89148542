import JavaObjC.CommandLine.Flags
import JavaObjC.Document.Outline
import JavaObjC.Generator.SourceTree
import JavaObjC.Settings.Basic

/-!
# Commands

What an invocation does: without a command, all files it names are generated
into the output directory. The commands print the model of one file, print the
syntax tree of one file, watch a source tree, or serve an editor. Options of
the invocation without a command must have their values in the same argument.
-/

namespace JavaObjC

/-- A command. -/
inductive Command where
  /-- Generates all files. -/
  | generate
  /-- Prints the model of a file. -/
  | model
  /-- Prints the syntax tree of a file. -/
  | parse
  /-- Generates the files of a source tree whenever one changes. -/
  | watch
  /-- Serves an editor. -/
  | lsp
  deriving DecidableEq, Repr

/-- What an invocation starts with. -/
structure Invocation where
  arguments : List Text
  environment : List (Text × Text) := []
  directory : Directory := {}

/-- What an invocation ends with. -/
structure InvocationResult where
  directory : Directory
  /-- What was printed. -/
  output : Text := []
  failure : Option Failure := none

namespace InvocationResult

/-- The exit status. -/
def status (r : InvocationResult) : Nat := if r.failure.isSome then 1 else 0

/-- What is said about a failure. -/
def complaint (r : InvocationResult) : Text :=
  match r.failure with
  | some f => "Error: " ++ f.message ++ "\n"
  | none => []

end InvocationResult

namespace Command

/-- The commands that are given by name. -/
def named : List (String × Command) :=
  [("model", .model), ("parse", .parse), ("watch", .watch), ("lsp", .lsp)]

/-- The flags of every command. -/
def commonFlags : List Flag :=
  [{ name := "config", kind := .text }, { name := "verbose", kind := .count, letter := some 'v' }]

/-- The flags of the commands that write files. -/
def writingFlags : List Flag :=
  [{ name := "outputdir", kind := .text }, { name := "jobs", kind := .integer }]

/-- The flag that chooses a format. -/
def formatFlag : Flag := { name := "format", kind := .text, letter := some 'f' }

/-- The flag that asks for help. -/
def helpFlag : Flag := { name := "help", kind := .toggle, letter := some 'h' }

/-- The flags of a command, asking for help apart. -/
def flags : Command → List Flag
  | .generate => writingFlags ++ commonFlags
  | .model => formatFlag :: commonFlags
  | .parse => formatFlag :: { name := "comments", kind := .toggle } :: commonFlags
  | .watch => writingFlags ++ commonFlags
  | .lsp => commonFlags

/-- The flags that can be given without a command, asking for help apart. -/
def plainFlags : FlagSet := { flags := flags .generate }

/-- The flags as a command reads them; only the invocation without a command
skips unknown ones. -/
def flagSet (c : Command) : FlagSet :=
  { flags := helpFlag :: c.flags, skipsUnknown := c = .generate }

/-- How many arguments a command takes. -/
def argumentCount : Command → ArgumentCount
  | .generate | .lsp => .atLeast 0
  | .model => .atLeast 1
  | .parse | .watch => .exactly 1

/-- The command of an invocation and the arguments for it. The first argument
that is no flag and no value of one may name the command. -/
def ofArguments (arguments : List Text) : Command × List Text :=
  match (plainFlags.words arguments).head? with
  | some word => match Text.find? named word with
    | some command => (command, plainFlags.without word arguments)
    | none => (.generate, arguments)
  | none => (.generate, arguments)

/-- The settings a command line asks for. -/
def settings (i : Invocation) (line : ParsedLine) : Except Failure Settings :=
  Settings.load i.directory
    { outputDirFlag := line.value? "outputdir"
      jobsFlag := line.integer? "jobs"
      configPath := (line.value? "config").getD []
      environment := i.environment }

/-- Generates all files that are named. -/
def generateFiles (i : Invocation) (line : ParsedLine) : Except Failure InvocationResult := do
  if line.arguments.isEmpty then .error .noInput
  let settings ← settings i line
  let (result, _, d) :=
    (Generator.ofOptions settings.generatorOptions).run i.directory line.arguments false
  let report ← result
  return { directory := d, failure := report.failure? }

/-- Declares the classes of files; those that cannot be parsed are skipped. -/
def declareFiles (g : Generator) (d : Directory) : List Text → Except Failure Generator
  | [] => .ok g
  | path :: rest => do
    let source ← readSource d path
    declareFiles (g.declareSource path source).2 d rest

/-- Prints the model of the first file; the others are only declared. -/
def printModel (i : Invocation) (line : ParsedLine) : Except Failure InvocationResult := do
  let format ← ModelFormat.ofName ((line.value? "format").getD "text")
  let settings ← settings i line
  let g ← declareFiles (Generator.ofOptions settings.generatorOptions) i.directory
    (line.arguments.drop 1)
  let unit ← (g.generateFile i.directory (line.arguments.headD []) false).1
  return { directory := i.directory, output := format.render unit.model }

/-- Whether a format for trees is the one with indentation instead of braces. -/
def treeFormat (name : Text) : Except Failure Bool :=
  if name = "json" then .ok false
  else if name = "yaml" then .ok true
  else .error (.unknownTreeFormat name)

/-- Prints the syntax tree of a file, also if the file has problems. -/
def printTree (i : Invocation) (line : ParsedLine) : Except Failure InvocationResult := do
  let path := line.arguments.headD []
  checkPath path
  let asYaml ← treeFormat ((line.value? "format").getD "json")
  let source ← readSource i.directory path
  let tree := (Parsed.ofSource .compilationUnit source).tree
  return {
    directory := i.directory
    output := tree.render asYaml
    failure := match parseUnit path source with
      | .ok _ => none
      | .error e => some (.faulty e) }

/-- Generates the files of a source tree for the first time. Failures of single
files do not end the watch. -/
def watchTree (i : Invocation) (line : ParsedLine) : Except Failure InvocationResult := do
  let settings ← settings i line
  let root := line.arguments.headD []
  SourceTree.check i.directory root
  return { directory := (SourceTree.build settings.generatorOptions i.directory root).2 }

/-- Prepares to serve an editor. -/
def serveEditor (i : Invocation) (line : ParsedLine) : Except Failure InvocationResult := do
  let _ ← settings i line
  return { directory := i.directory }

/-- Performs a command whose command line was read. -/
def perform (i : Invocation) (line : ParsedLine) : Command → Except Failure InvocationResult
  | .generate => generateFiles i line
  | .model => printModel i line
  | .parse => printTree i line
  | .watch => watchTree i line
  | .lsp => serveEditor i line

end Command

namespace Invocation

/-- What an invocation does, or why it does nothing. -/
def attempt (i : Invocation) : Except Failure InvocationResult := do
  let (command, arguments) := Command.ofArguments i.arguments
  if command = .generate then Command.plainFlags.checkOptions i.arguments
  let line ← command.flagSet.read arguments
  if line.isOn "help" then return { directory := i.directory }
  let given := line.arguments.length
  if !command.argumentCount.accepts given then
    .error (.argumentCount command.argumentCount given)
  command.perform i line

/-- What an invocation ends with. A failed one changes nothing unless it is a
batch, of which some files can succeed. -/
def execute (i : Invocation) : InvocationResult :=
  match i.attempt with
  | .ok r => r
  | .error f => { directory := i.directory, failure := some f }

end Invocation

end JavaObjC
