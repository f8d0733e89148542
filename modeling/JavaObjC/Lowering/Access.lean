import JavaObjC.Lowering.Attributed
import JavaObjC.Lowering.LibraryCalls

/-!
# Literals, names and fields

A name is a local, a field of the unit's own class or a supertype, or a class,
in this order. A static field is a global variable named for the class that
declares it.
-/

namespace JavaObjC

namespace Lowering

/-- An integer literal without separators; a long one is marked for C. -/
def integerLiteral (digits : Text) : Value :=
  let digits := Text.replaceByte (Text.byte '_') [] digits
  if Text.endsWith digits "l" || Text.endsWith digits "L" then
    .typed (digits.dropLast ++ "LL") .long
  else .typed digits .int

/-- A floating-point literal without separators and without the mark of `double`. -/
def floatLiteral (digits : Text) : Lower Value := do
  let digits := Text.replaceByte (Text.byte '_') [] digits
  let last ← Lower.require digits.getLast?
  if last = Text.byte 'f' ∨ last = Text.byte 'F' then return .typed digits .float
  else if last = Text.byte 'd' ∨ last = Text.byte 'D' then return .typed digits.dropLast .double
  else return .typed digits .double

/-- A literal. -/
def literal (n : Node) : Lower Value :=
  match n.token with
  | none => Lower.refuseKind n
  | some t =>
    match t.kind with
    | .stringLiteral =>
      if t.literal.length < 2 then Lower.refuseKind n
      else pure
        { text := "@" ++ t.literal, type := .string
          content := some (t.literal.drop 1).dropLast }
    | .charLiteral => pure (.typed t.literal .char)
    | .keyword .trueKw => pure (.typed "YES" .boolean)
    | .keyword .falseKw => pure (.typed "NO" .boolean)
    | .keyword .nullKw => pure (.typed "nil" .null)
    | .intLiteral => pure (integerLiteral t.literal)
    | .floatLiteral => floatLiteral t.literal
    | .textBlock => Lower.refuse "text block" n
    | _ => Lower.refuseKind n

/-- The variable behind a static field. -/
def staticField (f : FieldSignature) (owner : ClassSignature) : Value :=
  .typed (owner.name ++ "_" ++ f.name) f.type

/-- A name that stands alone. -/
def identifier (name : Text) : Lower Value := do
  match ← Lower.localType? name with
  | some t => return .typed name t
  | none =>
    let around ← read
    match around.field? name with
    | some (f, owner) => return if f.isStatic then staticField f owner else .typed name f.type
    | none =>
      return { text := name, className := if around.isClassName name then some name else none }

/-- A field named through `this` or `super`. -/
def ownField (name : Text) : Lower Value := do
  match (← read).field? name with
  | some (f, owner) =>
    return if f.isStatic then staticField f owner else .typed ("self->" ++ name) f.type
  | none => return { text := "self->" ++ name }

/-- A static field named through its class. -/
def fieldOfClass (className name : Text) : Lower Value := do
  match LibraryCall.constant? className name with
  | some v => return v
  | none =>
    let around ← read
    if ((around.members? className).map ClassSignature.name) != some around.ownName then
      let _ ← Lower.classNamed className
    return .typed (simpleName className ++ "_" ++ name) (around.declaredFieldType className name)

/-- A field of a value; the length of an array counts its elements. -/
def fieldOfValue (receiver : Value) (name : Text) : Lower Value := do
  if receiver.type.isArray && name == "length" then return LibraryCall.size receiver.text
  return .typed (receiver.text ++ "->" ++ name)
    ((← read).declaredFieldType receiver.type.name name)

/-- Whether a name is that of a standard output stream. -/
def isStreamName (name : Text) : Bool := name == "out" || name == "err"

/-- A field of a value or a class. -/
def fieldOf (receiver : Value) (name : Text) : Lower Value :=
  match receiver.className with
  | some className =>
    if className = "System" ∧ isStreamName name then
      pure { text := "System." ++ name, isStream := true }
    else fieldOfClass className name
  | none => fieldOfValue receiver name

/-- Access to a field. -/
def fieldAccess (n : Node) (parts : Parts) : Lower Value := do
  let selected ← parts.lastChild
  if selected.kind = .thisRef then Lower.refuse "qualified this" n
  else if selected.kind = .superRef then Lower.refuse "qualified super" n
  else
    let target ← parts.child 0
    if target.kind = .thisRef ∨ target.kind = .superRef then ownField selected.literal
    else fieldOf (← target.value) selected.literal

end Lowering

end JavaObjC
