import JavaObjC.Failure

/-!
# Diagnostics

What an editor shows about a failure: one diagnostic for every problem of the
source text, one at the place of an unsupported construct, and one at the
start of the document for any other failure. Lines and columns count from zero.
-/

namespace JavaObjC

/-- A place in a document. -/
structure DocumentPlace where
  line : Nat
  character : Nat
  deriving DecidableEq, Repr

/-- The place of a position; lines and columns of positions count from one. -/
def DocumentPlace.ofPosition (p : Position) : DocumentPlace := ⟨p.line - 1, p.column - 1⟩

/-- A message about a part of a document. -/
structure Diagnostic where
  start : DocumentPlace
  stop : DocumentPlace
  message : Text

namespace Diagnostic

/-- Who reports diagnostics. -/
def reporter : String := "java2objc"

/-- The diagnostic for a problem of the source text. -/
def ofProblem (p : Problem) : Diagnostic :=
  ⟨.ofPosition p.span.start, .ofPosition p.span.stop, p.message⟩

/-- The diagnostics for a failure that is not due to problems of the source text. -/
def ofOther : Failure → List Diagnostic
  | .unsupported _ construct place =>
    [⟨.ofPosition place, .ofPosition place, "unsupported " ++ construct⟩]
  | f => [⟨⟨0, 0⟩, ⟨0, 0⟩, f.message⟩]

/-- The diagnostics for a failure. -/
def ofFailure (f : Failure) : List Diagnostic :=
  match f.syntaxError? with
  | some e => e.problems.map ofProblem
  | none => ofOther f

/-- The diagnostics for a result. -/
def ofResult {α : Type} : Except Failure α → List Diagnostic
  | .ok _ => []
  | .error f => ofFailure f

end Diagnostic

end JavaObjC
