import JavaObjC.Source.Grammar.Members
import JavaObjC.Source.Lexeme

/-!
# Parsing

Ties the productions of the grammar together and parses whole sources. Every
phrase inside a phrase begins after at least one more token, so as many levels
as there are tokens are enough.
-/

namespace JavaObjC

namespace Grammar

/-- The parser for every phrase, with phrases nested at most `fuel` deep. -/
def parse : Nat → Rules
  | 0, _ => Parser.problem "expected expression" [] []
  | fuel + 1, .expression => expression (parse fuel)
  | fuel + 1, .ternary => ternary (parse fuel)
  | fuel + 1, .unary => unary (parse fuel)
  | fuel + 1, .initializer => initializer (parse fuel)
  | fuel + 1, .type => type (parse fuel)
  | fuel + 1, .annotationValue => annotationValue (parse fuel)
  | fuel + 1, .statement => statement (parse fuel)
  | fuel + 1, .member => member (parse fuel)

end Grammar

/-- What a source can be parsed as. -/
inductive Entry where
  | compilationUnit | expression
  deriving DecidableEq, Repr

namespace Entry

/-- The parser for a whole source of `size` tokens. -/
def parser (size : Nat) : Entry → Parser Node
  | .compilationUnit => Grammar.compilationUnit (Grammar.parse size)
  | .expression => Grammar.expression (Grammar.parse size)

/-- Reads a whole source: its tree, and the cursor where the reading ended. -/
def read (entry : Entry) (source : Text) : Node × Cursor :=
  let cursor := Cursor.ofTokens (Lexeme.tokens source)
  (entry.parser cursor.rest.length).run cursor

end Entry

/-- A parsed source. -/
structure Parsed where
  tree : Node
  /-- Tokens that were wanted and not there, in source order. -/
  missing : List Problem
  /-- The comments of the source. -/
  comments : List Token

namespace Parsed

/-- Parses a source; the tree of a faulty one holds error nodes. -/
def ofSource (entry : Entry) (source : Text) : Parsed :=
  let (tree, final) := entry.read source
  { tree
    missing := final.missing.reverse
    comments := (Lexeme.tokens source).filter (·.kind.isComment) }

/-- Every problem of a source by place; of two at the same place the one in the
tree comes first. -/
def problems (p : Parsed) : List Problem :=
  (p.tree.problems ++ p.missing).mergeSort fun a b =>
    a.span.start.offset ≤ b.span.start.offset

end Parsed

/-- The problems of a source that does not parse. -/
structure SyntaxError where
  file : Text
  problems : List Problem

namespace SyntaxError

/-- One line per problem. -/
def details (e : SyntaxError) : List Text := e.problems.map (·.describe e.file)

/-- The first problem, and how many more there are. -/
def message (e : SyntaxError) : Text :=
  match e.problems with
  | [] => "syntax error"
  | [only] => only.describe e.file
  | first :: more => first.describe e.file ++ " (and " ++ Text.ofNat more.length ++ " more)"

end SyntaxError

/-- Parses a compilation unit that has no problems. -/
def parseUnit (file source : Text) : Except SyntaxError Node :=
  let parsed := Parsed.ofSource .compilationUnit source
  match parsed.problems with
  | [] => .ok parsed.tree
  | problems => .error ⟨file, problems⟩

end JavaObjC
