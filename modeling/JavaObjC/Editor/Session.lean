import JavaObjC.Editor.Diagnostic
import JavaObjC.Editor.Uri
import JavaObjC.Editor.Workspace

/-!
# Editor sessions

What a language server does with the messages of an editor. A document that is
opened, changed as a whole, or saved with its text is generated again and its
diagnostics are published; closing a document clears them. Hovering shows the
header of a document. Messages about names that cannot be read are ignored.
-/

namespace JavaObjC

/-- A change of a document. -/
inductive DocumentChange where
  /-- The whole document with its new text. -/
  | whole (text : Text)
  /-- A change of a part. The server does not ask for these. -/
  | part (text : Text)

/-- A message of an editor. -/
inductive EditorMessage where
  /-- The editor asks what the server can do. -/
  | greeting
  /-- A message that needs no reaction. -/
  | note
  | opened (uri text : Text)
  | changed (uri : Text) (changes : List DocumentChange)
  | saved (uri : Text) (text : Option Text)
  | closed (uri : Text)
  | hover (uri : Text)

/-- What a server says about itself. -/
structure ServerProfile where
  name : String
  version : Text
  /-- Whether it wants to know which documents are open. -/
  tracksDocuments : Bool
  /-- How changes are sent: as number 1 for whole documents. -/
  changeKind : Nat
  /-- Whether a saved document is sent with its text. -/
  savesWithText : Bool
  /-- Whether it answers to hovering. -/
  showsHover : Bool

/-- The answer of a server. -/
inductive EditorReply where
  | nothing
  | profile (p : ServerProfile)
  /-- A text in Markdown. -/
  | markdown (text : Text)

/-- The diagnostics a server publishes for a document. -/
structure Publication where
  uri : Text
  diagnostics : List Diagnostic

/-- A server in the course of a session. -/
structure EditorSession where
  version : Text
  workspace : Workspace := {}

namespace EditorSession

/-- What the server says about itself. -/
def profile (s : EditorSession) : ServerProfile :=
  { name := Diagnostic.reporter
    version := s.version
    tracksDocuments := true
    changeKind := 1
    savesWithText := true
    showsHover := true }

/-- Takes the new text of a document and publishes its diagnostics. -/
def refresh (s : EditorSession) (uri text : Text) : List Publication × EditorSession :=
  match Uri.path? uri with
  | none => ([], s)
  | some path =>
    let w := s.workspace.update path text
    ([⟨uri, Diagnostic.ofResult (w.analyze path)⟩], { s with workspace := w })

/-- Closes a document and clears its diagnostics. -/
def close (s : EditorSession) (uri : Text) : List Publication × EditorSession :=
  match Uri.path? uri with
  | none => ([], s)
  | some path => ([⟨uri, []⟩], { s with workspace := s.workspace.close path })

/-- A header as a piece of code in Markdown. -/
def codeBlock (header : Text) : Text := "```objc\n" ++ header ++ "```"

/-- What hovering over a document shows. -/
def hover? (s : EditorSession) (uri : Text) : Option Text := do
  let header ← s.workspace.header? (← Uri.path? uri)
  return codeBlock header

/-- Takes the changes of a document; only the last of them counts. -/
def change (s : EditorSession) (uri : Text) (changes : List DocumentChange) :
    List Publication × EditorSession :=
  match changes.getLast? with
  | some (.whole text) => s.refresh uri text
  | _ => ([], s)

/-- Takes a message of the editor. -/
def receive (s : EditorSession) : EditorMessage → EditorReply × List Publication × EditorSession
  | .greeting => (.profile s.profile, [], s)
  | .note => (.nothing, [], s)
  | .opened uri text => (.nothing, s.refresh uri text)
  | .changed uri changes => (.nothing, s.change uri changes)
  | .saved uri (some text) => (.nothing, s.refresh uri text)
  | .saved _ none => (.nothing, [], s)
  | .closed uri => (.nothing, s.close uri)
  | .hover uri => match s.hover? uri with
    | some text => (.markdown text, [], s)
    | none => (.nothing, [], s)

end EditorSession

end JavaObjC
