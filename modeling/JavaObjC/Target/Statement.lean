import JavaObjC.Target.TypeRef

/-!
# Objective-C statements

Statements of generated method bodies; the expressions inside them are
rendered text. A statement's layout says how it looks on lines of its own,
inside braces, and after `else`, each at any indentation. Every body is
braced, and an `if` after `else` continues the line.
-/

namespace JavaObjC

mutual

/-- A statement. -/
inductive Stmt where
  /-- No statement at all. -/
  | nothing
  | block (body : List Stmt)
  | expression (value : Text)
  /-- Declares a local; the initializer may be empty. -/
  | declare (type name init : Text)
  /-- Returns a value, or nothing when the value is empty. -/
  | returning (value : Text)
  | ifElse (condition : Text) (yes no : Stmt)
  | forLoop (init condition update : Text) (body : Stmt)
  | forIn (type name collection : Text) (body : Stmt)
  | whileLoop (condition : Text) (body : Stmt)
  | doWhile (body : Stmt) (condition : Text)
  | switching (selector : Text) (groups : List SwitchGroup)
  | breaking
  | continuing
  /-- Throws a value, or the caught one again when the value is empty. -/
  | throwing (value : Text)
  | trying (body : List Stmt) (catches : List CatchClause) (last : Option (List Stmt))
  | synchronizing (lock : Text) (body : List Stmt)
  /-- A line as it is. -/
  | raw (line : Text)

/-- Labels and the statements they lead to; no labels mean the default. -/
inductive SwitchGroup where
  | mk (labels : List Text) (body : List Stmt)

/-- A caught type, the variable that holds it, and what to do. -/
inductive CatchClause where
  | mk (type name : Text) (body : List Stmt)

end

instance : Inhabited Stmt := ⟨.nothing⟩

/-- The blanks in front of a line. -/
def pad (k : Nat) : Text := List.replicate (4 * k) 32

/-- A line at an indentation. -/
def indented (k : Nat) (content : Text) : Text := pad k ++ content ++ "\n"

/-- How a statement looks, by indentation. -/
structure Layout where
  /-- On lines of its own. -/
  own : Nat → Text
  /-- As the content of a braced body. -/
  inside : Nat → Text
  /-- After the body of an `if`. -/
  afterElse : Nat → Text

namespace Layout

/-- Content in braces, closed at indentation `k`. -/
def braced (inside : Nat → Text) (k : Nat) : Text :=
  "\x7b\n" ++ inside (k + 1) ++ pad k ++ "\x7d"

/-- The layout of a statement that looks the same inside braces. -/
def ofOwn (own : Nat → Text) : Layout :=
  ⟨own, own, fun k => " else " ++ braced own k⟩

/-- The layout of a statement on a single line. -/
def ofLine (content : Text) : Layout := ofOwn fun k => indented k content

end Layout

namespace Stmt

/-- Whether a statement declares a local. -/
def isDeclaration : Stmt → Bool
  | .declare .. => true
  | _ => false

/-- The statements of a block, or the statement alone. -/
def parts : Stmt → List Stmt
  | .block body => body
  | s => [s]

/-- The text of a local declaration. -/
def declarationText (type name init : Text) : Text :=
  if init.isEmpty then joinDeclaration type name
  else joinDeclaration type name ++ " = " ++ init

/-- The lines of a switch group's labels. -/
def labelLines (k : Nat) (labels : List Text) : Text :=
  if labels.isEmpty then indented k "default:"
  else labels.flatMap fun label => indented k ("case " ++ label ++ ":")

/-- The body of a switch group; one that declares locals is braced. -/
def groupBody (declares : Bool) (inside : Nat → Text) (k : Nat) : Text :=
  if declares then pad k ++ Layout.braced inside k ++ "\n" else inside k

mutual

/-- The layout of a statement. -/
def layout : Stmt → Layout
  | .nothing => ⟨fun _ => [], fun _ => [], fun _ => []⟩
  | .block body =>
    ⟨fun k => pad k ++ Layout.braced (lines body) k ++ "\n", lines body,
      fun k => " else " ++ Layout.braced (lines body) k⟩
  | .expression value => .ofLine (value ++ ";")
  | .declare type name init => .ofLine (declarationText type name init ++ ";")
  | .returning value =>
    .ofLine (if value.isEmpty then "return;" else "return " ++ value ++ ";")
  | .ifElse condition yes no =>
    let content := fun k =>
      "if (" ++ condition ++ ") " ++ Layout.braced (layout yes).inside k
        ++ (layout no).afterElse k
    let own := fun k => indented k (content k)
    ⟨own, own, fun k => " else " ++ content k⟩
  | .forLoop init condition update body =>
    .ofOwn fun k => indented k
      ("for (" ++ init ++ "; " ++ condition ++ "; " ++ update ++ ") "
        ++ Layout.braced (layout body).inside k)
  | .forIn type name collection body =>
    .ofOwn fun k => indented k
      ("for (" ++ joinDeclaration type name ++ " in " ++ collection ++ ") "
        ++ Layout.braced (layout body).inside k)
  | .whileLoop condition body =>
    .ofOwn fun k => indented k
      ("while (" ++ condition ++ ") " ++ Layout.braced (layout body).inside k)
  | .doWhile body condition =>
    .ofOwn fun k => indented k
      ("do " ++ Layout.braced (layout body).inside k ++ " while (" ++ condition ++ ");")
  | .switching selector groups =>
    .ofOwn fun k =>
      indented k ("switch (" ++ selector ++ ") \x7b") ++ groupLines groups k
        ++ indented k "\x7d"
  | .breaking => .ofLine "break;"
  | .continuing => .ofLine "continue;"
  | .throwing value =>
    .ofLine (if value.isEmpty then "@throw;" else "@throw " ++ value ++ ";")
  | .trying body catches last =>
    .ofOwn fun k => indented k
      ("@try " ++ Layout.braced (lines body) k ++ catchText catches k
        ++ (match last with
          | some final => " @finally " ++ Layout.braced (lines final) k
          | none => []))
  | .synchronizing lock body =>
    .ofOwn fun k => indented k
      ("@synchronized (" ++ lock ++ ") " ++ Layout.braced (lines body) k)
  | .raw line => .ofLine line

/-- Statements on lines of their own, one after the other. -/
def lines : List Stmt → Nat → Text
  | [], _ => []
  | s :: rest, k => (layout s).own k ++ lines rest k

/-- The groups of a switch. -/
def groupLines : List SwitchGroup → Nat → Text
  | [], _ => []
  | ⟨labels, body⟩ :: rest, k =>
    labelLines k labels ++ groupBody (body.any isDeclaration) (lines body) (k + 1)
      ++ groupLines rest k

/-- The catch clauses of a try, each continuing the line. -/
def catchText : List CatchClause → Nat → Text
  | [], _ => []
  | ⟨type, name, body⟩ :: rest, k =>
    " @catch (" ++ joinDeclaration type name ++ ") " ++ Layout.braced (lines body) k
      ++ catchText rest k

end

end Stmt

end JavaObjC
