import JavaObjC.Lowering.Value

/-!
# Calls of the Java library

The Foundation expressions for the library methods that have one: methods of
strings, lists, maps, sets, string builders, boxed numbers and objects, and the
static methods and constants of the library classes. A method that is not
listed for its receiver and number of arguments is no library call.
-/

namespace JavaObjC

namespace LibraryCall

/-- The name of a method as a string; a name that is not UTF-8 is no library name. -/
def word (name : Text) : String := (Text.toString? name).getD ""

/-- A message as a value of a type. -/
def answer (receiver selector : Text) (type : JavaType) : Value :=
  .typed (message receiver selector) type

/-- A number narrowed to `int`. -/
def asInt (text : Text) : Value := .typed ("(int)" ++ text) .int

/-- A comparison. -/
def comparison (text : Text) : Value := .typed ("(" ++ text ++ ")") .boolean

/-- The number of elements of a collection. -/
def size (receiver : Text) : Value := asInt (message receiver "count")

/-- What a string is searched for; a character is searched for as a string. -/
def needle (v : Value) : Text :=
  if v.type.name = "char" then formattedString "@\"%C\"" [v.text] else v.text

/-- A method of a string. -/
def onString? (receiver : Value) (name : String) (arguments : List Value) : Option Value :=
  let r := receiver.text
  match name, arguments with
  | "length", [] => some (asInt (message r "length"))
  | "charAt", [i] => some (answer r ("characterAtIndex:" ++ i.unboxed) .char)
  | "isEmpty", [] => some (comparison (message r "length" ++ " == 0"))
  | "substring", [first] => some (answer r ("substringFromIndex:" ++ first.text) .string)
  | "substring", [first, stop] =>
    some (answer r ("substringWithRange:NSMakeRange(" ++ first.text ++ ", (" ++ stop.text
      ++ ") - (" ++ first.text ++ "))") .string)
  | "indexOf", [v] => some (asInt (message r ("rangeOfString:" ++ needle v) ++ ".location"))
  | "contains", [v] => some (answer r ("containsString:" ++ v.text) .boolean)
  | "startsWith", [v] => some (answer r ("hasPrefix:" ++ v.text) .boolean)
  | "endsWith", [v] => some (answer r ("hasSuffix:" ++ v.text) .boolean)
  | "equalsIgnoreCase", [v] =>
    some (comparison (message r ("caseInsensitiveCompare:" ++ v.text) ++ " == NSOrderedSame"))
  | "compareTo", [v] => some (asInt (message r ("compare:" ++ v.text)))
  | "toUpperCase", [] => some (answer r "uppercaseString" .string)
  | "toLowerCase", [] => some (answer r "lowercaseString" .string)
  | "trim", [] =>
    some (answer r "stringByTrimmingCharactersInSet:[NSCharacterSet whitespaceCharacterSet]"
      .string)
  | "concat", [v] => some (answer r ("stringByAppendingString:" ++ v.text) .string)
  | "replace", [old, new] =>
    if isStringType old.type then
      some (answer r ("stringByReplacingOccurrencesOfString:" ++ old.text ++ " withString:"
        ++ new.text) .string)
    else none
  | "toString", [] => some receiver
  | _, _ => none

/-- Whether an argument is an index rather than an element. -/
def isIndex (v : Value) : Bool := (numericType v.type).name == "int" && v.type.isPrimitive

/-- A method of a list of elements of a type. -/
def onList? (r : Text) (element : JavaType) (name : String) (arguments : List Value) :
    Option Value :=
  match name, arguments with
  | "size", [] => some (size r)
  | "get", [i] => some (answer r ("objectAtIndex:" ++ i.unboxed) element)
  | "add", [v] => some (answer r ("addObject:" ++ v.box) .void)
  | "add", [i, v] =>
    some (answer r ("insertObject:" ++ v.box ++ " atIndex:" ++ i.unboxed) .void)
  | "set", [i, v] =>
    some (answer r ("replaceObjectAtIndex:" ++ i.unboxed ++ " withObject:" ++ v.box) .void)
  | "remove", [v] =>
    if isIndex v then some (answer r ("removeObjectAtIndex:" ++ v.text) .void)
    else some (answer r ("removeObject:" ++ v.box) .void)
  | "contains", [v] => some (answer r ("containsObject:" ++ v.box) .boolean)
  | "indexOf", [v] => some (asInt (message r ("indexOfObject:" ++ v.box)))
  | "addAll", [v] => some (answer r ("addObjectsFromArray:" ++ v.text) .void)
  | _, _ => none

/-- The type of lists of a type. -/
def listOf (element : JavaType) : JavaType := { name := "List", arguments := [element] }

/-- A method of a map from keys to elements of given types. -/
def onMap? (r : Text) (key element : JavaType) (name : String) (arguments : List Value) :
    Option Value :=
  match name, arguments with
  | "size", [] => some (size r)
  | "put", [k, v] => some (answer r ("setObject:" ++ v.box ++ " forKey:" ++ k.box) .void)
  | "get", [k] => some (answer r ("objectForKey:" ++ k.box) element)
  | "containsKey", [k] => some (comparison (message r ("objectForKey:" ++ k.box) ++ " != nil"))
  | "getOrDefault", [k, v] =>
    some (.typed ("(" ++ message r ("objectForKey:" ++ k.box) ++ " ?: " ++ v.box ++ ")") element)
  | "remove", [k] => some (answer r ("removeObjectForKey:" ++ k.box) .void)
  | "keySet", [] => some (answer r "allKeys" (listOf key))
  | "values", [] => some (answer r "allValues" (listOf element))
  | _, _ => none

/-- A method of a set. -/
def onSet? (r : Text) (name : String) (arguments : List Value) : Option Value :=
  match name, arguments with
  | "size", [] => some (size r)
  | "add", [v] => some (answer r ("addObject:" ++ v.box) .void)
  | "contains", [v] => some (answer r ("containsObject:" ++ v.box) .boolean)
  | "remove", [v] => some (answer r ("removeObject:" ++ v.box) .void)
  | _, _ => none

/-- The message that appends a value to a string builder. -/
def appending (target : Text) (v : Value) : Text :=
  if v.isLiteral then message target ("appendString:" ++ v.text)
  else
    let (directive, argument) := formatArgument v
    message target ("appendFormat:" ++ stringConstant directive ++ ", " ++ argument)

/-- A method of a string builder. A chain of appends becomes a sequence of
messages to the builder it starts from. -/
def onBuilder? (receiver : Value) (name : String) (arguments : List Value) : Option Value :=
  let r := receiver.text
  let target := receiver.builder.getD r
  match name, arguments with
  | "append", [v] =>
    let step := appending target v
    let text : Text := if receiver.builder.isSome then r ++ ", " ++ step else step
    some { text, type := receiver.type, builder := some target }
  | "toString", [] =>
    if receiver.builder.isSome then
      some (.typed ("(" ++ r ++ ", " ++ message target "copy" ++ ")") .string)
    else some (answer r "copy" .string)
  | "length", [] => some (asInt (message target "length"))
  | _, _ => none

/-- A method that every collection has. -/
def onCollection? (r : Text) (name : String) (arguments : List Value) : Option Value :=
  match name, arguments with
  | "isEmpty", [] => some (comparison (message r "count" ++ " == 0"))
  | "clear", [] => some (answer r "removeAllObjects" .void)
  | _, _ => none

/-- An accessor of a boxed number, such as `intValue`. -/
def onBoxed? (r name : Text) (arguments : List Value) : Option Value :=
  if arguments.isEmpty && Text.endsWith name "Value" then
    let primitive := Text.dropTail name "Value"
    let selector := unboxSelector primitive
    if selector.isEmpty then none else some (answer r selector (.named primitive))
  else none

/-- A method that every object has. Objects of the program compare themselves. -/
def onObject? (r : Text) (isDeclared : Bool) (name : String) (arguments : List Value) :
    Option Value :=
  match name, arguments with
  | "equals", [v] => some (answer r ("isEqual:" ++ v.box) .boolean)
  | "hashCode", [] => some (asInt (message r "hash"))
  | "toString", [] => some (answer r "description" .string)
  | "getClass", [] => some (answer r "class" (.named "Class"))
  | "compareTo", [v] =>
    if isDeclared then none else some (asInt (message r ("compare:" ++ v.box)))
  | _, _ => none

/-- The functions of the C library that the mathematical methods call. -/
def mathFunctions : List String :=
  ["sqrt", "pow", "floor", "ceil", "sin", "cos", "tan", "atan", "atan2", "exp", "log", "log10",
   "hypot", "cbrt"]

/-- A call of a C function with primitive arguments. -/
def functionOf (name : Text) (arguments : List Value) (type : JavaType) : Value :=
  .typed (functionCall name (arguments.map Value.unboxed)) type

/-- A mathematical method. -/
def onMath? (name : String) (arguments : List Value) : Option Value :=
  match name, arguments with
  | "abs", [v] =>
    let t := numericType v.type
    if t.name = "int" ∨ t.name = "long" then some (functionOf "llabs" [v] t)
    else some (functionOf "fabs" [v] .double)
  | "max", [a, b] => some (functionOf "MAX" [a, b] (promote a.type b.type))
  | "min", [a, b] => some (functionOf "MIN" [a, b] (promote a.type b.type))
  | "round", [v] => some (functionOf "llround" [v] .long)
  | "random", [] => some (.typed "((double)arc4random() / UINT32_MAX)" .double)
  | _, _ => if mathFunctions.contains name then some (functionOf name arguments .double) else none

/-- A static method of the string class. -/
def onStringClass? (name : String) (arguments : List Value) : Option Value :=
  match name, arguments with
  | "valueOf", [v] => some (concatenation [v])
  | "format", pattern :: rest =>
    some (.typed (formattedString (formatPattern pattern)
      (rest.map fun v => (formatArgument v).2)) .string)
  | _, _ => none

/-- A static method of a boxed class: reading, boxing or printing a number. -/
def onBoxedClass? (className name : Text) (arguments : List Value) : Option Value :=
  let primitive := (primitiveOf? className).getD []
  match arguments with
  | [v] =>
    if Text.startsWith name "parse" then
      some (answer v.text (unboxSelector primitive) (.named primitive))
    else if name = "valueOf" then
      if isStringType v.type then
        some (.typed ("@(" ++ message v.text (unboxSelector primitive) ++ ")") (.named className))
      else some (.typed ("@(" ++ v.unboxed ++ ")") (.named className))
    else if name = "toString" then
      let (directive, argument) := formatArgument (.typed v.unboxed (.named primitive))
      some (.typed (formattedString (stringConstant directive) [argument]) .string)
    else none
  | _ => none

/-- The time since 1970 in units of which a second has the given number. -/
def timeSince1970 (perSecond : Text) : Value :=
  .typed ("(long long)([[NSDate date] timeIntervalSince1970] * " ++ perSecond ++ ")") .long

/-- A static method of the system class. -/
def onSystem? (name : String) (arguments : List Value) : Option Value :=
  match name with
  | "currentTimeMillis" => some (timeSince1970 "1000")
  | "nanoTime" => some (timeSince1970 "1000000000")
  | "exit" => some (functionOf "exit" arguments .void)
  | _ => none

/-- A static method of the thread class. -/
def onThread? (name : String) (arguments : List Value) : Option Value :=
  match name, arguments with
  | "sleep", [v] =>
    some (.typed ("[NSThread sleepForTimeInterval:" ++ v.unboxed ++ " / 1000.0]") .void)
  | _, _ => none

/-- The C counterparts of library constants. -/
def constants : List (String × String × JavaType) :=
  [("Integer.MAX_VALUE", "INT_MAX", .int), ("Integer.MIN_VALUE", "INT_MIN", .int),
   ("Long.MAX_VALUE", "LLONG_MAX", .long), ("Long.MIN_VALUE", "LLONG_MIN", .long),
   ("Double.MAX_VALUE", "DBL_MAX", .double), ("Double.MIN_VALUE", "DBL_MIN", .double),
   ("Float.MAX_VALUE", "FLT_MAX", .float), ("Float.MIN_VALUE", "FLT_MIN", .float),
   ("Character.MAX_VALUE", "USHRT_MAX", .char), ("Math.PI", "M_PI", .double),
   ("Math.E", "M_E", .double), ("Boolean.TRUE", "@YES", .named "Boolean"),
   ("Boolean.FALSE", "@NO", .named "Boolean")]

/-- A constant of a library class. -/
def constant? (className name : Text) : Option Value :=
  (Text.find? constants (className ++ "." ++ name)).map fun (text, type) => .typed text type

/-- The type a generic type was given as its argument at a place; any object if none was. -/
def typeArgument (t : JavaType) (i : Nat) : JavaType := t.arguments[i]?.getD .object

/-- A new collection of a library class: empty, with room for a number of
elements, or with the elements of another collection. -/
def newCollection? (kind : CollectionKind) (arguments : List Value) : Option Text :=
  match kind, arguments with
  | .list, [] => some "[NSMutableArray array]"
  | .map, [] => some "[NSMutableDictionary dictionary]"
  | .set, [] => some "[NSMutableSet set]"
  | .builder, [] => some "[NSMutableString string]"
  | .list, [v] =>
    some (message "NSMutableArray" (sized v "arrayWithCapacity:"
      (if isSet v then "arrayWithArray:[" ++ v.text ++ " allObjects]"
       else "arrayWithArray:" ++ v.text : Text)))
  | .map, [v] =>
    some (message "NSMutableDictionary" (sized v "dictionaryWithCapacity:"
      ("dictionaryWithDictionary:" ++ v.text)))
  | .set, [v] =>
    some (message "NSMutableSet" (sized v "setWithCapacity:"
      (if isSet v then "setWithSet:" ++ v.text else "setWithArray:" ++ v.text : Text)))
  | .builder, [v] =>
    some (message "NSMutableString" (sized v "stringWithCapacity:"
      ("stringWithString:" ++ v.text)))
  | _, _ => none
where
  /-- Whether a value is a set. -/
  isSet (v : Value) : Bool := CollectionKind.of? v.type == some .set
  /-- The message for a number of elements, or the one for a collection. -/
  sized (v : Value) (capacity collection : Text) : Text :=
    if (numericType v.type).name = "int" then capacity ++ v.unboxed else collection

/-- A new object of a Foundation class other than a collection, for the Java
type it is written as. -/
def newFoundation? (target : ClassRef) (type : JavaType) (arguments : List Value) :
    Option Value :=
  match arguments with
  | [] =>
    if target = .nsString then some (.typed "@\"\"" .string)
    else if target = .nsException then some (raised "nil") else none
  | [v] =>
    if target = .nsString then some (.typed ("[NSString stringWithString:" ++ v.text ++ "]") .string)
    else if target = .nsNumber then some (.typed ("@(" ++ v.unboxed ++ ")") type)
    else if target = .nsException then some (raised v.text) else none
  | _ => none
where
  /-- An exception with a reason. -/
  raised (reason : Text) : Value :=
    .typed ("[NSException exceptionWithName:" ++ stringConstant type.simple ++ " reason:"
      ++ reason ++ " userInfo:nil]") type

end LibraryCall

end JavaObjC
