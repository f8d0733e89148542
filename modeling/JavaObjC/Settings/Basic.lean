import JavaObjC.Files.Directory
import JavaObjC.Generator.Unit
import JavaObjC.Settings.Mapping
import JavaObjC.Settings.Toml

/-!
# Settings

The settings of an invocation come from flags, the environment, a
configuration file and defaults; the first of these that gives a value counts.
The configuration file is the one named explicitly, which must be there, or
else the one with the usual name if there is one.
-/

namespace JavaObjC

/-- The settings of an invocation. -/
structure Settings where
  outputDir : Text
  jobs : Nat
  verbosity : Int
  typeMap : List (Text × Text)

/-- Where settings come from. -/
structure SettingSources where
  /-- The directory for output, if a flag gives one. -/
  outputDirFlag : Option Text := none
  /-- The number of jobs, if a flag gives one. -/
  jobsFlag : Option Int := none
  /-- The configuration file, or empty for the usual one. -/
  configPath : Text := []
  /-- The variables of the environment. -/
  environment : List (Text × Text) := []

namespace Settings

/-- The configuration file looked for in the working directory. -/
def usualFile : Text := ".java2objc.toml"

/-- The variable of the environment that gives a setting. -/
def variableOf (name : String) : Text :=
  Text.ofString ("JAVA2OBJC_" ++ name.map Char.toUpper)

/-- What the environment gives for a setting; an empty variable gives nothing. -/
def ofEnvironment? (environment : List (Text × Text)) (name : String) : Option TomlValue :=
  match getKey? (variableOf name) environment with
  | some (b :: rest) => some (.text (b :: rest))
  | _ => none

/-- The digits of an integer with its sign. -/
def integerText (n : Int) : Text :=
  if n < 0 then 45 :: Text.ofNat n.natAbs else Text.ofNat n.natAbs

/-- A value as a text; truth values count as numbers. -/
def asText : TomlValue → Except Failure Text
  | .text t => .ok t
  | .integer n => .ok (integerText n)
  | .truth b => .ok (if b then ("1" : Text) else "0")
  | .list _ | .other => .error .badConfig

/-- A value as a number; an empty text is zero. -/
def asInteger : TomlValue → Except Failure Int
  | .text [] => .ok 0
  | .text t => match Text.integer? t with
    | some n => .ok n
    | none => .error .badConfig
  | .integer n => .ok n
  | .truth b => .ok (if b then 1 else 0)
  | .list _ | .other => .error .badConfig

/-- A single value as the text of an entry. -/
def entryOf? : TomlValue → Option Text
  | .text t => some t
  | .integer n => some (integerText n)
  | .truth b => some (if b then ("true" : Text) else "false")
  | .list _ | .other => none

/-- A value as a list of entries: a list of single values, a text of several
words, or one single value. Any other value has no entries. -/
def asEntries : TomlValue → List Text
  | .list items => (items.mapM entryOf?).getD []
  | .text t => Text.words t
  | v => ((entryOf? v).map fun t => [t]).getD []

/-- The values of a configuration file. -/
def readFile (d : Directory) (path : Text) : Except Failure (List (Text × TomlValue)) :=
  match d.read path with
  | .error problem => .error (.within ("read config " ++ path) (.fileSystem problem))
  | .ok text => match Toml.parse? text with
    | some values => .ok values
    | none => .error .badConfig

/-- The values of the configuration file that counts. -/
def configuration (d : Directory) (path : Text) : Except Failure (List (Text × TomlValue)) :=
  let file := if path.isEmpty then usualFile else path
  match d.examine "stat" file with
  | .ok _ => readFile d file
  | .error problem => if path.isEmpty then .ok [] else .error (.noConfig path problem)

/-- The settings of an invocation. -/
def load (d : Directory) (sources : SettingSources) : Except Failure Settings := do
  let file ← configuration d sources.configPath
  let given? := fun (name : String) =>
    (ofEnvironment? sources.environment name).or (getKey? (Text.ofString name) file)
  let outputDir ← match sources.outputDirFlag with
    | some dir => .ok dir
    | none => ((given? "outputdir").map asText).getD (.ok Path.here)
  let jobs ← match sources.jobsFlag with
    | some n => .ok n
    | none => ((given? "jobs").map asInteger).getD (.ok defaultJobs)
  let verbosity ← ((given? "verbose").map asInteger).getD (.ok 0)
  let typeMap ← mappingsOf (((given? "typemap").map asEntries).getD [])
  return { outputDir := outputDirectory outputDir, jobs := jobCount jobs, verbosity, typeMap }

/-- What a generator is set up with. -/
def generatorOptions (s : Settings) : GeneratorOptions :=
  { outputDir := s.outputDir, jobs := s.jobs, typeMap := s.typeMap }

end Settings

end JavaObjC
