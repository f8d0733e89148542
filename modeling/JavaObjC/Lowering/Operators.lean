import JavaObjC.Lowering.Calls

/-!
# Operators, arrays and casts

Operands of arithmetic are primitives, so boxed ones are read first. Arrays are
mutable arrays of objects: primitive elements are boxed when they are stored
and read back when they are used. A sum with a string in it is a formatted
string of all its operands; the operands in front of the first string are added
up first.
-/

namespace JavaObjC

namespace Lowering

/-- A sum: its operands, and whether they make a string. -/
def sumOperands (parts : Parts) : Lower (List Value × Bool) := do
  let (left, isString) ← (← parts.child 0).meaning.operands
  let right ← parts.valueAt 2
  if isString || isStringType right.type then return (left ++ [right], true)
  match left with
  | [] => throw .malformed
  | first :: _ =>
    return ([.typed (first.unboxed ++ " + " ++ right.unboxed) (promote first.type right.type)],
      false)

/-- A sum as one value. -/
def sum (parts : Parts) : Lower Value := do
  match ← sumOperands parts with
  | ([only], _) => return only
  | (operands, _) => return concatenation operands

/-- Two operands with an operator between them. -/
def infixText (left op right : Text) : Text := left ++ " " ++ op ++ " " ++ right

/-- An operator other than `+` applied to two values. -/
def applyOperator (op : Text) (l r : Value) : Value :=
  let text := infixText l.unboxed op r.unboxed
  match LibraryCall.word op with
  | ">>>" => .typed (unsignedShift l r) (numericType l.type)
  | "==" | "!=" =>
    if l.type.isPrimitive || r.type.isPrimitive then .typed text .boolean
    else .typed (infixText l.text op r.text) .boolean
  | "<" | ">" | "<=" | ">=" | "&&" | "||" => .typed text .boolean
  | "&" | "|" | "^" =>
    .typed text
      (if (numericType l.type).name = "boolean" then .boolean else promote l.type r.type)
  | "<<" | ">>" => .typed text (numericType l.type)
  | _ => .typed text (promote l.type r.type)

/-- An operator between two operands. -/
def binary (parts : Parts) : Lower Value := do
  let op := (← parts.child 1).literal
  if op = "+" then sum parts
  else
    let l ← parts.valueAt 0
    let r ← parts.valueAt 2
    return applyOperator op l r

/-- The element of an array at an index, as it is stored. -/
def slot (array index : Value) : Text := array.text ++ "[" ++ index.unboxed ++ "]"

/-- A stored element read as a primitive. -/
def readSlot (stored : Text) (element : JavaType) : Text :=
  message stored (unboxSelector element.name)

/-- An element of an array. -/
def arrayAccess (parts : Parts) : Lower Value := do
  let array ← parts.valueAt 0
  let index ← parts.valueAt 1
  let element := array.type.element
  let stored := slot array index
  return .typed (if element.isPrimitive then readSlot stored element else stored) element

/-- An increment or decrement. Elements of arrays and boxed variables are
stored again with the new value. -/
def step (target : Attributed) (op : Text) (isBefore : Bool) : Lower Value := do
  let sign ← Lower.require op.head?
  let delta : Text := [sign] ++ " 1"
  if target.kind = .arrayAccess then
    let array ← target.parts.valueAt 0
    let index ← target.parts.valueAt 1
    let element := array.type.element
    if !element.isPrimitive then target.refuse (op ++ " on object array element")
    else
      let stored := slot array index
      return .typed (stored ++ " = @(" ++ readSlot stored element ++ " " ++ delta ++ ")") element
  else
    let operand ← target.value
    if isBoxed operand.type then
      return .typed (operand.text ++ " = @(" ++ operand.unboxed ++ " " ++ delta ++ ")") operand.type
    return .typed (if isBefore then op ++ operand.text else operand.text ++ op) operand.type

/-- An operator in front of its operand. -/
def unary (parts : Parts) : Lower Value := do
  let op := (← parts.child 0).literal
  let target ← parts.child 1
  if op = "++" ∨ op = "--" then step target op true
  else
    let operand ← target.value
    if op = "!" then return .typed ("!" ++ operand.unboxed) .boolean
    return .typed (op ++ operand.unboxed) (numericType operand.type)

/-- An operator after its operand. -/
def postfixOperator (parts : Parts) : Lower Value := do
  let target ← parts.child 0
  let op := (← parts.child 1).literal
  step target op false

/-- A choice between two values. -/
def ternary (parts : Parts) : Lower Value := do
  let condition ← parts.valueAt 0
  let yes ← parts.valueAt 1
  let no ← parts.valueAt 2
  let type := if yes.type.name = "null" ∨ yes.type.isUnknown then no.type else yes.type
  return .typed (condition.unboxed ++ " ? " ++ yes.text ++ " : " ++ no.text) type

/-- An assignment to an element of an array. -/
def assignElement (left : Attributed) (op : Text) (right : Attributed) : Lower Value := do
  let array ← left.parts.valueAt 0
  let index ← left.parts.valueAt 1
  let v ← right.value
  let element := array.type.element
  let stored := slot array index
  if op = "=" then return .typed (stored ++ " = " ++ v.coerce .object) element
  if !element.isPrimitive then left.refuse "compound assignment to object array element"
  else
    let current := readSlot stored element
    let operator := Text.dropTail op "="
    let result :=
      if operator = ">>>" then unsignedShift (.typed current element) v
      else infixText current operator v.unboxed
    return .typed (stored ++ " = @(" ++ result ++ ")") element

/-- An assignment to a variable. -/
def assignVariable (left : Attributed) (op : Text) (right : Attributed) : Lower Value := do
  let target ← left.value
  if op = "+=" ∧ isStringType target.type then
    let (operands, _) ← right.meaning.operands
    return .typed (target.text ++ " = " ++ (concatenation (target :: operands)).text) target.type
  let v ← right.value
  if op = "=" then return .typed (target.text ++ " = " ++ v.coerce target.type) target.type
  if op = ">>>=" then
    return .typed (target.text ++ " = " ++ unsignedShift target v) target.type
  return .typed (infixText target.text op v.unboxed) target.type

/-- An assignment. -/
def assign (parts : Parts) : Lower Value := do
  let left ← parts.child 0
  let right ← parts.child 2
  let op := (← parts.child 1).literal
  if left.kind = .arrayAccess then assignElement left op right else assignVariable left op right

/-- An element of an array initializer. -/
def arrayElement (type : JavaType) (part : Attributed) : Lower Text := do
  if part.kind = .arrayInit then return (← part.meaning.array type).text
  return (← part.value).coerce .object

/-- The elements in braces as a mutable array. -/
def arrayLiteral (parts : Parts) (type : JavaType) : Lower Value := do
  let type := if type.isArray then type else { type with depth := 1 }
  Lower.refer .nsMutableArray
  if parts.isEmpty then return .typed "[NSMutableArray array]" type
  let elements ← parts.mapM (arrayElement type.element)
  return .typed ("[NSMutableArray arrayWithArray:@[" ++ Text.join ", " elements ++ "]]") type

/-- The value a declaration of a type starts with. -/
def initialValue (part : Attributed) (type : JavaType) : Lower Value := do
  if part.kind = .arrayInit then part.meaning.array type
  else
    let v ← part.value
    return { v with text := v.coerce type }

/-- The number of dimensions an array creation is marked with, at least one. -/
def dimensions (mark : Text) : Nat :=
  let isDigit := fun b => Text.byte '0' ≤ b && b ≤ Text.byte '9'
  if mark.all isDigit then
    max 1 (mark.foldl (fun total b => total * 10 + (b - Text.byte '0').toNat) 0)
  else 1

/-- A new array with its elements. -/
def newArray (n : Node) (parts : Parts) : Lower Value := do
  match parts.first? .arrayInit with
  | none => Lower.refuse "array creation without initializer" n
  | some init =>
    let element ← parts.child 0
    init.meaning.array (element.type.addDepth (dimensions n.literal))

/-- A cast. Numbers are read for a primitive type and primitives boxed for a boxed one. -/
def cast (parts : Parts) : Lower Value := do
  let target := (← parts.child 0).type
  let v ← parts.valueAt 1
  if target.isPrimitive && !v.type.isPrimitive && !v.type.isUnknown then
    return .typed (message v.text (unboxSelector target.name)) target
  if !target.isPrimitive && isBoxedName target.name && v.type.isPrimitive then
    return .typed v.box target
  let ref ← Lower.mapType target
  return .typed ("(" ++ ref.render ++ ")" ++ v.text) target

/-- A test of the class of a value. -/
def instanceTest (parts : Parts) : Lower Value := do
  match parts[2]? with
  | some pattern => pattern.refuse "instanceof pattern"
  | none =>
    let v ← parts.valueAt 0
    let typeNode ← parts.child 1
    let target := typeNode.type
    let unsupported : Lower Value := typeNode.refuse ("instanceof " ++ target.describe)
    match ← Lower.mapType target with
    | .scalar _ => unsupported
    | .object c =>
      if c.isId then unsupported
      else if c.isProtocol then
        return .typed (message v.text ("conformsToProtocol:@protocol(" ++ c.name ++ ")")) .boolean
      else return .typed (message v.text ("isKindOfClass:" ++ message c.name "class")) .boolean

/-- The type a class literal names. -/
def classLiteralType (part : Attributed) : Lower JavaType :=
  match part.kind with
  | .type | .arrayType => pure part.type
  | .identifier => pure (.named part.literal)
  | kind => part.refuse ("class literal of " ++ kind.name)

/-- A class as a value. -/
def classLiteral (n : Node) (parts : Parts) : Lower Value := do
  let target ← classLiteralType (← parts.child 0)
  match ← Lower.mapType target with
  | .scalar _ => Lower.refuse "primitive class literal" n
  | .object c =>
    if c.isProtocol then return .typed ("@protocol(" ++ c.name ++ ")") (.named "Protocol")
    return .typed (message c.name "class") (.named "Class")

/-- An expression in parentheses. -/
def parenthesized (parts : Parts) : Lower Value := do
  let inner ← parts.valueAt 0
  return { text := "(" ++ inner.text ++ ")", type := inner.type, className := inner.className }

/-- A node as an expression. -/
def expression (n : Node) (parts : Parts) : Lower Value :=
  match n.kind with
  | .literal => literal n
  | .identifier => identifier n.literal
  | .thisRef => do return .typed "self" (.named (← read).ownName)
  | .superRef => do return .typed "super" (.named (← read).baseName)
  | .parenExpr => parenthesized parts
  | .fieldAccess => fieldAccess n parts
  | .callExpr => call n parts
  | .newExpr => newObject n parts
  | .newArrayExpr => newArray n parts
  | .arrayInit => arrayLiteral parts { name := "Object", depth := 1 }
  | .arrayAccess => arrayAccess parts
  | .assignExpr => assign parts
  | .ternaryExpr => ternary parts
  | .binaryExpr => binary parts
  | .unaryExpr => unary parts
  | .postfixExpr => postfixOperator parts
  | .castExpr => cast parts
  | .instanceofExpr => instanceTest parts
  | .classLiteral => classLiteral n parts
  | .lambdaExpr => Lower.refuse "lambda" n
  | .methodRef => Lower.refuse "method reference" n
  | _ => Lower.refuseKind n

/-- A node as the left end of a sum. -/
def leftOperands (n : Node) (parts : Parts) : Lower (List Value × Bool) := do
  let isSum ←
    if n.kind = .binaryExpr then do pure ((← parts.child 1).literal == "+") else pure false
  if isSum then sumOperands parts
  else
    let v ← expression n parts
    return ([v], isStringType v.type)

end Lowering

end JavaObjC
