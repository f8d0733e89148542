import JavaObjC.Lowering.Operators

/-!
# Statements

Blocks, loops, switches and catch clauses open scopes for the locals they
declare. A loop over a collection is a fast enumeration; primitive elements are
enumerated boxed and read into the loop variable.
-/

namespace JavaObjC

namespace Lowering

/-- Statements one after the other. -/
def sequence (parts : Parts) : Lower (List Stmt) := do
  return (← parts.mapM Attributed.statements).flatten

/-- Statements in a scope of their own. -/
def blockBody (parts : Parts) : Lower (List Stmt) := Lower.withScope (sequence parts)

/-- The body of a compound statement. -/
def body (part : Attributed) : Lower Stmt := do
  if part.kind = .block then return .block (← blockBody part.parts)
  match ← Lower.withScope part.statements with
  | [only] => return only
  | several => return .block several

/-- A condition. -/
def condition (part : Attributed) : Lower Text := do return (← part.value).unboxed

/-- The written type of a local. -/
def localTypeText (t : JavaType) : Lower Text := do
  if t.isVar || t.isUnknown || t.name == "null" then return "__auto_type"
  return (← Lower.mapType t).render

/-- One declared local: its type, name and initial value as text. -/
structure LocalText where
  type : Text
  name : Text
  init : Text

/-- Declares one local with its initial value, if it has one. -/
def startedVariable (declared : JavaType) (name : Text) (start : Option Value) :
    Lower LocalText := do
  let type := match start with
    | some v => if declared.isVar then v.type else declared
    | none => declared
  let typeText ← localTypeText type
  Lower.declareLocal name type
  return ⟨typeText, name, (start.map Value.text).getD []⟩

/-- Declares one local. -/
def localVariable (declared : JavaType) (decl : Attributed) : Lower LocalText := do
  let start ← match decl.parts[1]? with
    | some part => some <$> initialValue part declared
    | none => pure none
  startedVariable declared decl.parts.name start

/-- Declares the locals of a declaration. -/
def localVariables (parts : Parts) : Lower (List LocalText) := do
  let declared := (← parts.child 1).type
  (parts.ofKind .varDeclarator).mapM (localVariable declared)

/-- A local with its initial value, without its type. -/
def LocalText.start (l : LocalText) (head : Text) : Text :=
  if l.init.isEmpty then head else head ++ " = " ++ l.init

/-- Locals as the first clause of a loop, all of the type of the first. -/
def loopVariables : List LocalText → Text
  | [] => []
  | first :: more =>
    first.start (joinDeclaration first.type first.name)
      ++ more.flatMap fun l => l.start (", " ++ l.name)

/-- An expression or a declaration in the first clause of a loop. -/
def loopStart (part : Attributed) : Lower Text := do
  if part.kind = .localVarDecl then return loopVariables (← localVariables part.parts)
  return (← part.value).text

/-- The three clauses of a loop. -/
structure LoopClauses where
  init : Text := []
  condition : Text := []
  update : Text := []

/-- The clauses with one more part of the loop's head. -/
def loopClause (clauses : LoopClauses) (part : Attributed) : Lower LoopClauses := do
  match part.kind with
  | .forInit => return { clauses with init := Text.join ", " (← part.parts.mapM loopStart) }
  | .forUpdate =>
    let values ← part.parts.mapM Attributed.value
    return { clauses with update := Text.join ", " (values.map Value.text) }
  | _ => return { clauses with condition := ← condition part }

/-- A loop with clauses. -/
def forLoop (parts : Parts) : Lower Stmt := Lower.withScope do
  let clauses ← parts.dropLast.foldlM loopClause {}
  let inner ← body (← parts.lastChild)
  return .forLoop clauses.init clauses.condition clauses.update inner

/-- The type of the elements of a collection. -/
def elementOf (t : JavaType) : JavaType :=
  if t.isArray then t.element else t.arguments.head?.getD .object

/-- The written type of a loop variable. -/
def loopType (parts : Parts) : JavaType :=
  ((parts.find? fun p => p.kind = .type || p.kind = .arrayType).map Attributed.type).getD .void

/-- A loop over the elements of a collection; a map is enumerated by its keys. -/
def forEach (parts : Parts) : Lower Stmt := do
  let name := parts.name
  let collection ← (← Lower.require parts.dropLast.getLast?).value
  let written := loopType parts
  let element := if written.isVar then elementOf collection.type else written
  let source : Text :=
    if CollectionKind.of? collection.type = some .map then message collection.text "allKeys"
    else collection.text
  Lower.withScope do
    Lower.declareLocal name element
    let inner ← body (← parts.lastChild)
    if element.isPrimitive then
      let boxed := name ++ "Boxed"
      let type ← Lower.mapType element
      Lower.refer .nsNumber
      let unbox := Stmt.declare type.render name (message boxed (unboxSelector element.name))
      return .forIn "NSNumber *" boxed source (.block (unbox :: inner.parts))
    else return .forIn (← Lower.mapType element).render name source inner

/-- A label of a switch; strings cannot be compared there. -/
def switchLabel (part : Attributed) : Lower Text := do
  let v ← part.value
  if v.isLiteral || isStringType v.type then part.refuse "switch on strings"
  else return v.text

/-- The labels and statements of a switch group with one more part. -/
def switchPart (group : List Text × List Stmt) (part : Attributed) :
    Lower (List Text × List Stmt) := do
  if part.kind = .switchLabel then
    return (group.1 ++ (← part.parts.mapM switchLabel), group.2)
  return (group.1, group.2 ++ (← part.statements))

/-- A group of a switch. -/
def switchGroup (part : Attributed) : Lower SwitchGroup := do
  let (labels, inner) ← part.parts.foldlM switchPart ([], [])
  return ⟨labels, inner⟩

/-- A switch; its groups share one scope. -/
def switching (parts : Parts) : Lower Stmt := do
  let subject ← parts.child 0
  let v ← subject.value
  if isStringType v.type then subject.refuse "switch on strings"
  else Lower.withScope do
    return .switching v.unboxed (← (parts.ofKind .switchCase).mapM switchGroup)

/-- A return. A constructor returns the object it initializes. -/
def returning (parts : Parts) : Lower Stmt := do
  let around ← read
  match parts with
  | [] => return .returning (if around.isConstructor then "self" else [] : Text)
  | part :: _ => return .returning ((← part.value).coerce around.result)

/-- The type that several caught types are caught as: their common one, or any exception. -/
def caughtType (first : JavaType) (others : List JavaType) : Lower (JavaType × TypeRef) := do
  let around ← read
  let start := (first, ← Lower.mapType first)
  others.foldlM (fun caught t => do
    let ref ← Lower.mapType t
    return if around.isSameType ref caught.2 then caught
      else (.named "Throwable", .object .nsException)) start

/-- A catch clause. -/
def catchClause (part : Attributed) : Lower CatchClause := do
  let group ← Lower.require (part.parts.first? .type)
  let (type, ref) ← match (group.parts.ofKind .type).map Attributed.type with
    | [] => caughtType group.type []
    | first :: others => caughtType first others
  let name := part.parts.name
  Lower.withScope do
    Lower.declareLocal name type
    let inner ← blockBody (← Lower.require (part.parts.first? .block)).parts
    return ⟨ref.render, name, inner⟩

/-- The parts of a try statement read so far. -/
structure TryParts where
  tried : Option (List Stmt) := none
  catches : List CatchClause := []
  last : Option (List Stmt) := none

/-- The parts of a try statement with one more. -/
def tryPart (s : TryParts) (part : Attributed) : Lower TryParts := do
  match part.kind with
  | .block => return { s with tried := some (← blockBody part.parts) }
  | .catchClause => return { s with catches := s.catches ++ [← catchClause part] }
  | .finallyClause =>
    let inner ← Lower.require (part.parts.first? .block)
    return { s with last := some (← blockBody inner.parts) }
  | _ => return s

/-- A try statement without resources. -/
def trying (parts : Parts) : Lower Stmt := do
  match parts.first? .localVarDecl with
  | some resource => resource.refuse "try-with-resources"
  | none =>
    let s ← parts.foldlM tryPart {}
    return .trying (← Lower.require s.tried) s.catches s.last

/-- A conditional. -/
def conditional (parts : Parts) : Lower Stmt := do
  let test ← condition (← parts.child 0)
  let yes ← body (← parts.child 1)
  match parts[2]? with
  | some part => return .ifElse test yes (← body part)
  | none => return .ifElse test yes .nothing

/-- A jump out of or to the next round of the nearest loop. -/
def jump (n : Node) (parts : Parts) (construct : Text) (s : Stmt) : Lower Stmt :=
  if parts.isEmpty then pure s else Lower.refuse construct n

/-- A node as one statement. -/
def statement (n : Node) (parts : Parts) : Lower Stmt :=
  match n.kind with
  | .block => Stmt.block <$> blockBody parts
  | .exprStmt => do return .expression (← parts.valueAt 0).text
  | .ifStmt => conditional parts
  | .forStmt => forLoop parts
  | .enhancedForStmt => forEach parts
  | .whileStmt => do
    let test ← condition (← parts.child 0)
    return .whileLoop test (← body (← parts.child 1))
  | .doStmt => do
    let inner ← body (← parts.child 0)
    return .doWhile inner (← condition (← parts.child 1))
  | .switchStmt => switching parts
  | .returnStmt => returning parts
  | .breakStmt => jump n parts "labeled break" .breaking
  | .continueStmt => jump n parts "labeled continue" .continuing
  | .throwStmt => do return .throwing (← parts.valueAt 0).text
  | .tryStmt => trying parts
  | .synchronizedStmt => do
    let lock ← parts.valueAt 0
    return .synchronizing lock.text (← blockBody (← parts.child 1).parts)
  | .assertStmt => Lower.refuse "assert" n
  | .labeledStmt => Lower.refuse "labeled statement" n
  | .localClassDecl => Lower.refuse "local class" n
  | _ => Lower.refuseKind n

/-- A node as statements: a declaration is one for each variable, and an empty
statement none. -/
def statements (n : Node) (parts : Parts) : Lower (List Stmt) :=
  match n.kind with
  | .emptyStmt => pure []
  | .localVarDecl => do
    return (← localVariables parts).map fun l => .declare l.type l.name l.init
  | _ => do return [← statement n parts]

/-- What a node with attributed parts means. -/
def meaning (n : Node) (parts : Parts) : Meaning where
  value := expression n parts
  operands := leftOperands n parts
  array := arrayLiteral parts
  statements := statements n parts

/-- A tree with the meaning of each of its nodes. -/
def attributed (n : Node) : Attributed := Attributed.ofNode meaning n

end Lowering

end JavaObjC
