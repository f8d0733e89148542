import JavaObjC.Generator.Unit

/-!
# Open documents

A workspace holds the documents that are open in an editor, in the order in
which they were opened. A document is generated with the classes of all other
open documents declared, whether or not those can be generated themselves.
-/

namespace JavaObjC

/-- The documents that are open in an editor. -/
structure Workspace where
  /-- The open documents with their texts. -/
  documents : List (Text × Text) := []
  /-- Configured Java types and the types they stand for. -/
  typeMap : List (Text × Text) := []

namespace Workspace

/-- The workspace with a document open that has a new text. -/
def update (w : Workspace) (path source : Text) : Workspace :=
  { w with documents := setKey path source w.documents }

/-- The workspace with a document closed. -/
def close (w : Workspace) (path : Text) : Workspace :=
  { w with documents := dropKey path w.documents }

/-- The text of an open document. -/
def source? (w : Workspace) (path : Text) : Option Text := getKey? path w.documents

/-- The documents other than one. -/
def others (w : Workspace) (path : Text) : List (Text × Text) := dropKey path w.documents

/-- Generates an open document. -/
def analyze (w : Workspace) (path : Text) : Except Failure GeneratedUnit :=
  match w.source? path with
  | none => .error (.notOpen path)
  | some source =>
    let g := ((Generator.ofOptions { typeMap := w.typeMap }).declareSources (w.others path)).2
    (g.generateSource path source).1

/-- The header of an open document, if it can be generated. -/
def header? (w : Workspace) (path : Text) : Option Text :=
  match w.analyze path with
  | .ok unit => some unit.model.header
  | .error _ => none

end Workspace

end JavaObjC
