import JavaObjC.Lowering.Access

/-!
# Calls and new objects

A call is a message. The keywords of its selector are those of the method it
calls when its declaration is known, and the arguments are converted to the
declared types; otherwise the method's name is the only keyword. Arguments are
generated before the receiver.
-/

namespace JavaObjC

namespace Lowering

/-- A message expression with a keyword for every argument. -/
def send (receiver : Text) (keywords arguments : List Text) : Lower Text :=
  Lower.require (send? receiver keywords arguments)

/-- A message for a method that may be known. -/
def sendMethod (receiver name : Text) (method : Option MethodSignature)
    (arguments : List Value) : Lower Value := do
  match method with
  | some m =>
    let text ← send receiver (selectorKeywords name false m.parameterNames)
      (coerceAll arguments m.parameterTypes)
    return .typed text m.result
  | none =>
    let text ← send receiver (genericKeywords name false arguments.length)
      (arguments.map Value.text)
    return { text }

/-- A call without a receiver. A method that is not known belongs to the class
exactly if the caller does. -/
def unqualifiedCall (name : Text) (arguments : List Value) : Lower Value := do
  let around ← read
  let method := around.method? around.ownName name arguments.length
  let isStatic := (method.map MethodSignature.isStatic).getD around.isStatic
  let receiver : Text := if isStatic then around.ownName else "self"
  let v ← sendMethod receiver name method arguments
  return { v with type := around.resultType v.type }

/-- A call of a method of the superclass. -/
def superCall (name : Text) (arguments : List Value) : Lower Value := do
  let around ← read
  sendMethod "super" name (around.method? around.baseName name arguments.length) arguments

/-- The classes that wrap primitive values and have static helpers. -/
def boxedClassNames : List String :=
  ["Integer", "Long", "Double", "Float", "Short", "Byte", "Boolean", "Character"]

/-- A static method of a library class. The mathematical and the system class
have no methods but those that are listed. -/
def staticLibraryCall (n : Node) (className name : Text) (arguments : List Value) :
    Lower (Option Value) :=
  let method := LibraryCall.word name
  let owner := LibraryCall.word (simpleName className)
  if owner = "Math" then
    match LibraryCall.onMath? method arguments with
    | some v => pure (some v)
    | none => Lower.refuse ("Math." ++ name) n
  else if owner = "System" then
    match LibraryCall.onSystem? method arguments with
    | some v => pure (some v)
    | none => Lower.refuse ("System." ++ name) n
  else if owner = "String" then pure (LibraryCall.onStringClass? method arguments)
  else if owner = "Thread" then pure (LibraryCall.onThread? method arguments)
  else if boxedClassNames.contains owner then
    pure (LibraryCall.onBoxedClass? className name arguments)
  else pure none

/-- A call of a static method. -/
def staticCall (n : Node) (className name : Text) (arguments : List Value) : Lower Value := do
  match ← staticLibraryCall n className name arguments with
  | some v => return v
  | none =>
    let around ← read
    let receiver ←
      if simpleName className = around.ownName then pure around.ownName
      else ClassRef.name <$> Lower.classNamed className
    sendMethod receiver name (around.method? className name arguments.length) arguments

/-- A method of a collection. -/
def collectionCall? (around : Surroundings) (receiver : Value) (kind : CollectionKind)
    (name : String) (arguments : List Value) : Option Value :=
  let r := receiver.text
  let typeArgument := fun i => around.resultType (LibraryCall.typeArgument receiver.type i)
  let special := match kind with
    | .list => LibraryCall.onList? r (typeArgument 0) name arguments
    | .map => LibraryCall.onMap? r (typeArgument 0) (typeArgument 1) name arguments
    | .set => LibraryCall.onSet? r name arguments
    | .builder => LibraryCall.onBuilder? receiver name arguments
    | .array => none
  special.or (LibraryCall.onCollection? r name arguments)

/-- A library method of a value, by the type of the value. -/
def libraryCall? (around : Surroundings) (receiver : Value) (name : Text)
    (arguments : List Value) : Option Value :=
  let method := LibraryCall.word name
  let t := receiver.type
  let onString :=
    if isStringType t then LibraryCall.onString? receiver method arguments else none
  let onCollection :=
    (CollectionKind.of? t).bind fun kind => collectionCall? around receiver kind method arguments
  let onBoxed :=
    if isBoxedName t.name then LibraryCall.onBoxed? receiver.text name arguments else none
  let isDeclared := (around.members? t.name).isSome
  onString.or <| onCollection.or <| onBoxed.or <|
    LibraryCall.onObject? receiver.text isDeclared method arguments

/-- A call of a method of a value. -/
def instanceCall (receiver : Value) (name : Text) (arguments : List Value) : Lower Value := do
  let around ← read
  match libraryCall? around receiver name arguments with
  | some v => return v
  | none =>
    sendMethod receiver.text name
      (around.method? receiver.type.name name arguments.length) arguments

/-- A log message with a format and arguments. -/
def logCall (format : Text) (arguments : List Text) : Value :=
  .typed (functionCall "NSLog" (format :: arguments)) .void

/-- Prints an argument. A sum is printed part by part. -/
def printCall (argument : Attributed) : Lower Value := do
  let (operands, _) ← argument.meaning.operands
  let (format, printed) := formatParts operands
  return logCall (stringConstant format) printed

/-- A method of a standard output stream. -/
def streamCall (n : Node) (name : Text) (list : Parts) (arguments : List Value) :
    Lower Value := do
  match LibraryCall.word name, arguments with
  | "println", [] | "print", [] => return logCall (stringConstant []) []
  | "println", _ :: _ | "print", _ :: _ => printCall (← list.child 0)
  | "printf", pattern :: rest | "format", pattern :: rest =>
    return logCall (formatPattern pattern) (rest.map fun v => (formatArgument v).2)
  | _, _ => Lower.refuse ("System stream method " ++ name) n

/-- A call with a receiver. -/
def qualifiedCall (n : Node) (parts target : Parts) (arguments : List Value) : Lower Value := do
  let name := (← target.lastChild).literal
  let receiver ← target.child 0
  if receiver.kind = .superRef then superCall name arguments
  else
    let v ← receiver.value
    if v.isStream then
      streamCall n name (((parts.first? .parameters).map Attributed.parts).getD []) arguments
    else match v.className with
      | some className => staticCall n className name arguments
      | none => instanceCall v name arguments

/-- A call. -/
def call (n : Node) (parts : Parts) : Lower Value := do
  let target ← parts.child 0
  let arguments ← parts.arguments
  if target.kind = .identifier then unqualifiedCall target.literal arguments
  else if target.kind = .fieldAccess then qualifiedCall n parts target.parts arguments
  else target.refuse ("call target " ++ target.kind.name)

/-- The initializer message of a class for arguments. -/
def sendInit (receiver : Text) (owner : Option ClassSignature) (arguments : List Value)
    (types : List JavaType) : Lower Text :=
  let keywords := match owner.bind fun c => c.constructor? arguments.length with
    | some m => selectorKeywords "init" true m.parameterNames
    | none => genericKeywords "init" true arguments.length
  send receiver keywords (coerceAll arguments types)

/-- A new object of a library class that the program does not declare itself. -/
def newLibraryObject? (around : Surroundings) (t : JavaType) (arguments : List Value) :
    Option Value :=
  if (around.members? t.simple).isSome then none
  else
    let collection := (CollectionKind.of? t).bind fun kind =>
      (LibraryCall.newCollection? kind arguments).map fun text => Value.typed text t
    collection.or (LibraryCall.newFoundation? (around.classOf t.name) t arguments)

/-- A new object. -/
def newObject (n : Node) (parts : Parts) : Lower Value := do
  let typeNode ← parts.child 0
  if typeNode.kind ≠ .type then Lower.refuse "qualified class instance creation" n
  else match parts.first? .block with
    | some body => body.refuse "anonymous class"
    | none =>
      let t := typeNode.type
      let arguments ← parts.arguments
      let around ← read
      match newLibraryObject? around t arguments with
      | some v => return v
      | none =>
        let target ← Lower.classNamed t.name
        let owner := around.members? t.simple
        let types :=
          ((owner.bind fun c => c.constructor? arguments.length).map
            MethodSignature.parameterTypes).getD []
        let text ← sendInit (message target.name "alloc") owner arguments types
        return .typed text t

end Lowering

end JavaObjC
