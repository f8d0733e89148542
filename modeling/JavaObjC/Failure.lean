import JavaObjC.Source.Parse
import JavaObjC.Text.Quoted

/-!
# Failures

Everything that can go wrong, by cause. Each failure belongs to one kind, has
one message, and may carry hints for the user and the list of the syntax
problems behind it. A failure can be put into the context of a file or step,
and a run over several files can fail for several causes at once.
-/

namespace JavaObjC

/-- Why the file system refuses an operation. -/
inductive FileFault where
  | notFound | isDirectory | notDirectory | alreadyExists
  deriving DecidableEq, Repr

namespace FileFault

/-- The wording of the operating system. -/
def message : FileFault → String
  | .notFound => "no such file or directory"
  | .isDirectory => "is a directory"
  | .notDirectory => "not a directory"
  | .alreadyExists => "file exists"

end FileFault

/-- An operation on a path that the file system refuses. -/
structure FileProblem where
  operation : String
  path : Text
  fault : FileFault

namespace FileProblem

/-- The operation, the path and the fault. -/
def message (p : FileProblem) : Text :=
  p.operation ++ " " ++ p.path ++ ": " ++ p.fault.message

end FileProblem

/-- What a command accepts as its number of arguments. -/
inductive ArgumentCount where
  | atLeast (n : Nat)
  | exactly (n : Nat)
  deriving DecidableEq, Repr

namespace ArgumentCount

/-- Whether a number of arguments is accepted. -/
def accepts : ArgumentCount → Nat → Bool
  | .atLeast n, given => n ≤ given
  | .exactly n, given => n == given

/-- The complaint about a number of arguments. -/
def message (c : ArgumentCount) (given : Nat) : Text :=
  match c with
  | .atLeast n =>
    "requires at least " ++ Text.ofNat n ++ " arg(s), only received " ++ Text.ofNat given
  | .exactly n => "accepts " ++ Text.ofNat n ++ " arg(s), received " ++ Text.ofNat given

end ArgumentCount

/-- What went wrong. -/
inductive Failure where
  /-- A path without the extension of Java sources. -/
  | notJava (path : Text)
  /-- A run without input files. -/
  | noInput
  /-- A unit that declares no class or interface. -/
  | noType (file : Text)
  /-- A tree that is no compilation unit. -/
  | notUnit (file : Text)
  /-- A document that is not open. -/
  | notOpen (path : Text)
  /-- An entry of a type map without two sides. -/
  | badMapping (entry : Text)
  /-- A long option without a value. -/
  | badOption (option : Text)
  /-- An explicit configuration file that cannot be found. -/
  | noConfig (path : Text) (problem : FileProblem)
  /-- A source that is rejected for its problems. -/
  | rejected (e : SyntaxError)
  /-- The problems of a source whose tree is reported nevertheless. -/
  | faulty (e : SyntaxError)
  /-- A construct without a counterpart. -/
  | unsupported (file construct : Text) (place : Position)
  /-- A tree that no accepted source has. -/
  | malformed
  /-- A second attempt to build a class. -/
  | builderUsed (name : Text)
  /-- An append to a closed writer. -/
  | writerClosed
  /-- A writer without a sink. -/
  | noSink
  /-- A step that was given no class. -/
  | noClass (step : String)
  /-- A step that the sink fails. -/
  | sinkFailed (step : String)
  /-- A name of no format for models. -/
  | unknownFormat (name : Text)
  /-- A name of no format for trees. -/
  | unknownTreeFormat (name : Text)
  /-- A refusal of the file system. -/
  | fileSystem (problem : FileProblem)
  /-- A command with a wrong number of arguments. -/
  | argumentCount (accepted : ArgumentCount) (given : Nat)
  /-- A command line that cannot be read. -/
  | badFlags
  /-- A configuration that cannot be read. -/
  | badConfig
  /-- A run that was cancelled. -/
  | cancelled
  /-- A failure in a context. -/
  | within (context : Text) (cause : Failure)
  /-- Several failures of one run. -/
  | several (causes : List Failure)

instance : Inhabited Failure := ⟨.malformed⟩

/-- The kinds of failures, the more specific first. -/
inductive FailureKind where
  | precondition | parse | unsupported | builderUsed | writerClosed | syntaxProblem | other
  deriving DecidableEq, Repr

namespace FailureKind

/-- The kinds in the order in which they count for a run with several failures. -/
def all : List FailureKind :=
  [.precondition, .parse, .unsupported, .builderUsed, .writerClosed, .syntaxProblem, .other]

/-- The first kind that occurs among several. -/
def first (kinds : List FailureKind) : FailureKind := (all.find? kinds.contains).getD .other

end FailureKind

namespace Failure

/-- The message of a violated precondition. -/
def precondition (claim : Text) : Text := claim ++ ": precondition failed"

mutual

/-- What the user is told. -/
def message : Failure → Text
  | .notJava path => precondition (path ++ ": not a .java file")
  | .noInput => precondition "no input files"
  | .noType file => precondition (file ++ ": no type declared")
  | .notUnit file => precondition (file ++ ": not a compilation unit")
  | .notOpen path => precondition (path ++ ": document is not open")
  | .badMapping entry => precondition ("typemap entry " ++ Text.quote entry)
  | .badOption option => precondition ("malformed option " ++ option)
  | .noConfig path problem => precondition ("config " ++ path ++ ": " ++ problem.message)
  | .rejected e => e.message
  | .faulty e => e.message
  | .unsupported file construct place =>
    place.describe file ++ ": unsupported " ++ construct
  | .malformed => "malformed tree"
  | .builderUsed name => "build " ++ name ++ ": type builder already built"
  | .writerClosed => "source code writer closed"
  | .noSink => "source code writer has no output"
  | .noClass step => step ++ ": nil type"
  | .sinkFailed step => step ++ " failed"
  | .unknownFormat name => "unknown format " ++ Text.quote name
  | .unknownTreeFormat name => "unknown format: " ++ name
  | .fileSystem problem => problem.message
  | .argumentCount accepted given => accepted.message given
  | .badFlags => "malformed flags"
  | .badConfig => "malformed configuration"
  | .cancelled => "context canceled"
  | .within context cause => context ++ ": " ++ message cause
  | .several causes => Text.join "; " (messages causes)

/-- The messages of several failures. -/
def messages : List Failure → List Text
  | [] => []
  | f :: rest => message f :: messages rest

end

mutual

/-- The kind of a failure. Of several failures, the kind that comes first. -/
def kind : Failure → FailureKind
  | .notJava _ | .noInput | .noType _ | .notUnit _ | .notOpen _ | .badMapping _ | .badOption _
  | .noConfig _ _ => .precondition
  | .rejected _ => .parse
  | .faulty _ => .syntaxProblem
  | .unsupported _ _ _ => .unsupported
  | .builderUsed _ => .builderUsed
  | .writerClosed => .writerClosed
  | .within _ cause => kind cause
  | .several causes => FailureKind.first (kinds causes)
  | _ => .other

/-- The kinds of several failures. -/
def kinds : List Failure → List FailureKind
  | [] => []
  | f :: rest => kind f :: kinds rest

end

/-- What the user can do about a failure. -/
def hints : Failure → List Text
  | .notJava _ => ["only Java compilation units can be translated"]
  | .badMapping _ => ["entries have the form \"JavaType=ObjCType\""]
  | .badOption _ => ["give options as --name=value"]
  | .within _ cause => hints cause
  | _ => []

mutual

/-- The syntax problems behind a failure; of several failures, those of the
first that has any. -/
def syntaxError? : Failure → Option SyntaxError
  | .rejected e => some e
  | .faulty e => some e
  | .within _ cause => syntaxError? cause
  | .several causes => firstSyntaxError? causes
  | _ => none

/-- The syntax problems of the first failure that has any. -/
def firstSyntaxError? : List Failure → Option SyntaxError
  | [] => none
  | f :: rest => (syntaxError? f).or (firstSyntaxError? rest)

end

/-- The failure with the path it belongs to, unless the message has it already. -/
def withPath (path : Text) (f : Failure) : Failure :=
  if Text.contains path f.message then f else .within path f

/-- The failure of a run, if any of its steps failed. -/
def ofAll? (failures : List Failure) : Option Failure :=
  match failures with
  | [] => none
  | [only] => some only
  | causes => some (.several causes)

end Failure

end JavaObjC
