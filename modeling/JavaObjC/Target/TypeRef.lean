import JavaObjC.Text.LetterCase

/-!
# Objective-C types

A class reference is what the rest of a program sees of an Objective-C class
or protocol: its name, whether it is a protocol, and where it comes from. A
type reference is the type of a value: a C scalar or a pointer to an object.
The predefined Foundation classes are the system classes with their names.
-/

namespace JavaObjC

/-- Where a class comes from. -/
inductive Origin where
  /-- The Objective-C runtime or Foundation. -/
  | system
  /-- A name whose definition is not known. -/
  | placeholder
  /-- A unit of the program. -/
  | generated
  deriving DecidableEq, Repr

/-- A class or protocol as others refer to it. -/
structure ClassRef where
  name : Text
  isProtocol : Bool := false
  origin : Origin := .system
  /-- The name of the superclass; the root class is its own. -/
  baseName : Text := "NSObject"
  deriving DecidableEq, Repr

namespace ClassRef

/-- The predefined Foundation classes. -/
def predefinedClasses : List String :=
  ["NSObject", "NSString", "NSMutableString", "NSNumber", "NSArray", "NSMutableArray",
   "NSDictionary", "NSMutableDictionary", "NSSet", "NSMutableSet", "NSException", "id"]

/-- The predefined Foundation protocols. -/
def predefinedProtocols : List String := ["NSCopying", "NSCoding"]

/-- The predefined class or protocol of a name. -/
def predefined? (name : Text) : Option ClassRef :=
  if (predefinedClasses.map Text.ofString).contains name then some { name }
  else if (predefinedProtocols.map Text.ofString).contains name then
    some { name, isProtocol := true }
  else none

/-- A system class or protocol; a predefined name keeps its predefined kind. -/
def system (name : Text) (isProtocol : Bool) : ClassRef :=
  (predefined? name).getD { name, isProtocol }

/-- A class or protocol of which only the name is known. -/
def placeholder (name : Text) (isProtocol : Bool) : ClassRef :=
  { name, isProtocol, origin := .placeholder }

/-- The root class. -/
def nsObject : ClassRef := { name := "NSObject" }

/-- The type of any object. -/
def id : ClassRef := { name := "id" }

/-- Foundation strings. -/
def nsString : ClassRef := { name := "NSString" }

/-- Foundation strings that can change. -/
def nsMutableString : ClassRef := { name := "NSMutableString" }

/-- Foundation numbers. -/
def nsNumber : ClassRef := { name := "NSNumber" }

/-- Foundation arrays that can change. -/
def nsMutableArray : ClassRef := { name := "NSMutableArray" }

/-- Foundation dictionaries that can change. -/
def nsMutableDictionary : ClassRef := { name := "NSMutableDictionary" }

/-- Foundation sets that can change. -/
def nsMutableSet : ClassRef := { name := "NSMutableSet" }

/-- Foundation exceptions. -/
def nsException : ClassRef := { name := "NSException" }

/-- Objects that can be copied. -/
def nsCopying : ClassRef := { name := "NSCopying", isProtocol := true }

/-- Objects that can be archived. -/
def nsCoding : ClassRef := { name := "NSCoding", isProtocol := true }

/-- Whether the class belongs to the runtime or Foundation. -/
def isSystem (c : ClassRef) : Bool := c.origin == .system

/-- Whether only the name is known. -/
def isPlaceholder (c : ClassRef) : Bool := c.origin == .placeholder

/-- Whether this is the type of any object. A class of another origin that
happens to be named `id` is not. -/
def isId (c : ClassRef) : Bool := c.isSystem && c.name == "id"

/-- The file that declares the class. -/
def headerFile (c : ClassRef) : Text := c.name ++ ".h"

/-- The file that defines the class. -/
def implementationFile (c : ClassRef) : Text := c.name ++ ".m"

/-- The line that makes the class visible. -/
def importDirective (c : ClassRef) : Text :=
  if c.isSystem then "#import <Foundation/Foundation.h>"
  else "#import \"" ++ c.headerFile ++ "\""

end ClassRef

/-- The type of a value. -/
inductive TypeRef where
  /-- A C scalar by name; the empty name stands for no type at all. -/
  | scalar (name : Text)
  /-- A pointer to an object. -/
  | object (target : ClassRef)
  deriving DecidableEq, Repr

/-- A rendered C type and a name as a declaration. -/
def joinDeclaration (type name : Text) : Text :=
  if Text.endsWith type "*" then type ++ name else type ++ " " ++ name

namespace TypeRef

/-- Whether the type is written `void`. -/
def isVoid : TypeRef → Bool
  | .scalar name => name == "void"
  | .object _ => false

/-- The class of an object type. -/
def object? : TypeRef → Option ClassRef
  | .scalar _ => none
  | .object target => some target

/-- Whether values are objects. -/
def isObject (r : TypeRef) : Bool := r.object?.isSome

/-- The type as it appears in a declaration. -/
def render : TypeRef → Text
  | .scalar name => if name.isEmpty then "void" else name
  | .object target =>
    if target.isId then "id"
    else if target.isProtocol then "id<" ++ target.name ++ ">"
    else target.name ++ " *"

/-- A variable declaration of this type. -/
def declare (r : TypeRef) (name : Text) : Text := joinDeclaration r.render name

/-- What identifies the type inside a method signature. -/
def key : TypeRef → Text
  | .scalar name => render (.scalar name)
  | .object target => target.name

/-- The value a stub returns; `void` has none. -/
def zeroValue (r : TypeRef) : Text :=
  match r with
  | .object _ => "nil"
  | .scalar name => if name = "BOOL" then "NO" else if r.isVoid then [] else "0"

/-- The format directives of the C scalars. -/
def scalarSpecifiers : List (String × String) :=
  [("int", "%d"), ("BOOL", "%d"), ("short", "%d"), ("char", "%d"), ("long long", "%lld"),
   ("float", "%g"), ("double", "%g"), ("unichar", "%C")]

/-- The directive that prints a value in a format string. -/
def formatSpecifier : TypeRef → Text
  | .object _ => "%@"
  | .scalar name => (((Text.find? scalarSpecifiers name).getD "%@" : String) : Text)

end TypeRef

end JavaObjC
