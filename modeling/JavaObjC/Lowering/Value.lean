import JavaObjC.Lowering.TypeMapper

/-!
# Generated expressions

A generated expression is its text together with what is known about it
statically. Primitive values become objects by boxing, numbers become
primitives again by a message; values are printed through format directives.
-/

namespace JavaObjC

/-- A generated expression. -/
structure Value where
  text : Text
  type : JavaType := .unknown
  /-- The content of a string literal. -/
  content : Option Text := none
  /-- The class an expression names, if it is not a value. -/
  className : Option Text := none
  /-- Whether the expression is a standard output stream. -/
  isStream : Bool := false
  /-- The receiver of a chain of appends. -/
  builder : Option Text := none

namespace Value

/-- A value with a type. -/
def typed (text : Text) (type : JavaType) : Value := { text, type }

/-- Whether the value is a string literal. -/
def isLiteral (v : Value) : Bool := v.content.isSome

end Value

/-- The primitive types that the boxed classes wrap. -/
def boxedPrimitives : List (String × String) :=
  [("Integer", "int"), ("Long", "long"), ("Short", "short"), ("Byte", "byte"),
   ("Float", "float"), ("Double", "double"), ("Number", "double"), ("Boolean", "boolean"),
   ("Character", "char")]

/-- The primitive type a boxed class wraps, whatever its package. -/
def primitiveOf? (name : Text) : Option Text :=
  (Text.find? boxedPrimitives (simpleName name)).map Text.ofString

/-- Whether a name is that of a boxed class, whatever its package. -/
def isBoxedName (name : Text) : Bool := (primitiveOf? name).isSome

/-- The number accessors by the type they read. -/
def unboxSelectors : List (String × String) :=
  [("int", "intValue"), ("short", "intValue"), ("byte", "intValue"), ("Integer", "intValue"),
   ("Short", "intValue"), ("Byte", "intValue"), ("long", "longLongValue"),
   ("Long", "longLongValue"), ("float", "floatValue"), ("Float", "floatValue"),
   ("double", "doubleValue"), ("Double", "doubleValue"), ("Number", "doubleValue"),
   ("boolean", "boolValue"), ("Boolean", "boolValue"), ("char", "unsignedShortValue"),
   ("Character", "unsignedShortValue")]

/-- The number accessor for a type as written; empty for any other type. -/
def unboxSelector (name : Text) : Text :=
  ((Text.find? unboxSelectors name).map Text.ofString).getD []

/-- Whether values of a type are strings. -/
def isStringType (t : JavaType) : Bool :=
  !t.isArray && (t.simple == "String" || t.simple == "CharSequence")

/-- Whether values of a type are boxed primitives. -/
def isBoxed (t : JavaType) : Bool := isBoxedName t.name && !t.isArray

/-- A message without arguments. -/
def message (receiver selector : Text) : Text := "[" ++ receiver ++ " " ++ selector ++ "]"

namespace Value

/-- The value as an object. -/
def box (v : Value) : Text := if v.type.isPrimitive then "@(" ++ v.text ++ ")" else v.text

/-- The value as a primitive operand. -/
def unboxed (v : Value) : Text :=
  if isBoxed v.type then message v.text (unboxSelector v.type.name) else v.text

/-- The value where one of type `target` is wanted: primitives are boxed for
objects, and numbers read for primitives. Nothing changes when a type is not known. -/
def coerce (v : Value) (target : JavaType) : Text :=
  if target.isUnknown || target.isVar || target.isVoid || v.type.isUnknown then v.text
  else if !target.isPrimitive && v.type.isPrimitive then v.box
  else if target.isPrimitive && isBoxed v.type then
    message v.text (unboxSelector target.name)
  else v.text

end Value

/-- The values' texts converted to the declared parameter types; surplus values
stay as they are. -/
def coerceAll : List Value → List JavaType → List Text
  | [], _ => []
  | v :: rest, [] => v.text :: coerceAll rest []
  | v :: rest, t :: types => v.coerce t :: coerceAll rest types

/-- The primitive type of a boxed type; any other type is its own. -/
def numericType (t : JavaType) : JavaType :=
  match primitiveOf? t.name with
  | some primitive => if t.isArray then t else .named primitive
  | none => t

/-- The type of an arithmetic operation on two types. -/
def promote (a b : JavaType) : JavaType :=
  let a := numericType a
  let b := numericType b
  let wide := ["double", "float", "long"].map Text.ofString
  match wide.find? fun n => a.name = n || b.name = n with
  | some name => .named name
  | none => if a.isPrimitive || b.isPrimitive then .int else .unknown

/-- The directive and the argument that print a value. -/
def formatArgument (v : Value) : Text × Text :=
  let t := numericType v.type
  if t.name = "boolean" ∧ !t.isArray then
    ("%@", "(" ++ v.unboxed ++ " ? @\"true\" : @\"false\")")
  else if t.isPrimitive then
    let directive := ((primitiveRef? t.name).map TypeRef.formatSpecifier).getD "%@"
    (directive, if t.name = "float" then "(double)" ++ v.unboxed else v.unboxed)
  else ("%@", v.text)

/-- The format and the arguments that print values one after the other. String
literals are part of the format. -/
def formatParts (parts : List Value) : Text × List Text :=
  (parts.flatMap fun v =>
      match v.content with
      | some content => Text.replaceByte (Text.byte '%') "%%" content
      | none => (formatArgument v).1,
   parts.filterMap fun v => if v.isLiteral then none else some (formatArgument v).2)

/-- Texts in parentheses after a function name. -/
def functionCall (name : Text) (arguments : List Text) : Text :=
  name ++ "(" ++ Text.join ", " arguments ++ ")"

/-- An Objective-C string constant. -/
def stringConstant (content : Text) : Text := "@\"" ++ content ++ "\""

/-- A string built from a format. -/
def formattedString (format : Text) (arguments : List Text) : Text :=
  "[NSString stringWithFormat:" ++ Text.join ", " (format :: arguments) ++ "]"

/-- Concatenated values as one string. -/
def concatenation (parts : List Value) : Value :=
  let (format, arguments) := formatParts parts
  let content := parts.flatMap fun v => v.content.getD []
  match parts, arguments with
  | [only], _ =>
    if isStringType only.type && !only.isLiteral then
      .typed (formattedString "@\"%@\"" [only.text]) .string
    else if arguments.isEmpty then
      { text := stringConstant content, type := .string, content := some content }
    else .typed (formattedString (stringConstant format) arguments) .string
  | _, [] => { text := stringConstant content, type := .string, content := some content }
  | _, _ => .typed (formattedString (stringConstant format) arguments) .string

/-- A format pattern with the conversions of Java replaced by those of Foundation. -/
def convertFormat : Text → Text
  | [] => []
  | [b] => [b]
  | b :: c :: rest =>
    if b = Text.byte '%' then
      if c = Text.byte 's' ∨ c = Text.byte 'S' then "%@" ++ convertFormat rest
      else if c = Text.byte 'n' then "\\n" ++ convertFormat rest
      else if c = Text.byte 'b' then "%d" ++ convertFormat rest
      else b :: convertFormat (c :: rest)
    else b :: convertFormat (c :: rest)

/-- A format pattern as an argument; a literal one is converted. -/
def formatPattern (v : Value) : Text :=
  match v.content with
  | some content => stringConstant (convertFormat content)
  | none => v.text

/-- A message expression; none when a keyword is missing. -/
def send? (receiver : Text) (keywords arguments : List Text) : Option Text :=
  match arguments with
  | [] => keywords.head?.map (message receiver)
  | _ =>
    if keywords.length < arguments.length then none
    else
      some (message receiver (Text.join " " ((keywords.zip arguments).map
        fun (keyword, argument) => keyword ++ ":" ++ argument)))

/-- The keywords for a callee whose parameter names are not known: the name
first and empty keywords after it. -/
def genericKeywords (name : Text) (isConstructor : Bool) (arity : Nat) : List Text :=
  let first : Text :=
    if isConstructor then (if arity = 0 then "init" else "initWith") else name
  first :: List.replicate (arity - 1) []

/-- A value shifted right without its sign. -/
def unsignedShift (left right : Value) : Text :=
  if (numericType left.type).name = "long" then
    "(long long)((unsigned long long)" ++ left.unboxed ++ " >> " ++ right.unboxed ++ ")"
  else "(int)((unsigned int)" ++ left.unboxed ++ " >> " ++ right.unboxed ++ ")"

end JavaObjC
