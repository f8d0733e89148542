import JavaObjC.Text.Blank
import JavaObjC.Lowering.Registry

/-!
# From Java types to Objective-C types

Configured overrides come first, then the primitive types, then the Java
library classes that have a counterpart in Foundation, then the classes of the
program. Arrays of any type are mutable arrays.
-/

namespace JavaObjC

/-- The C scalars of the primitive types. -/
def primitiveScalars : List (String × String) :=
  [("void", "void"), ("int", "int"), ("short", "int"), ("byte", "int"), ("long", "long long"),
   ("float", "float"), ("double", "double"), ("boolean", "BOOL"), ("char", "unichar")]

/-- The C scalar of a primitive type. -/
def primitiveRef? (name : Text) : Option TypeRef :=
  (Text.find? primitiveScalars name).map fun scalar => .scalar scalar

/-- The Foundation classes that stand for Java library classes. -/
def libraryClasses : List (ClassRef × List String) :=
  [(.nsObject, ["Object"]),
   (.nsString, ["String", "CharSequence"]),
   (.nsMutableString, ["StringBuilder", "StringBuffer"]),
   (.nsNumber,
    ["Integer", "Long", "Short", "Byte", "Float", "Double", "Boolean", "Character", "Number"]),
   (.nsMutableArray, ["List", "ArrayList", "LinkedList", "Collection", "Iterable"]),
   (.nsMutableDictionary, ["Map", "HashMap", "TreeMap", "LinkedHashMap"]),
   (.nsMutableSet, ["Set", "HashSet", "TreeSet", "LinkedHashSet"]),
   (.nsException,
    ["Throwable", "Exception", "Error", "RuntimeException", "IllegalArgumentException",
     "IllegalStateException", "NullPointerException", "UnsupportedOperationException",
     "IndexOutOfBoundsException", "ArrayIndexOutOfBoundsException", "ArithmeticException",
     "ClassCastException", "NumberFormatException", "IOException", "InterruptedException"]),
   (.nsCopying, ["Cloneable"]),
   (.nsCoding, ["Serializable"])]

/-- The Foundation class for a Java library class, whatever its package. -/
def libraryClass? (name : Text) : Option ClassRef :=
  let simple := simpleName name
  (libraryClasses.find? fun (_, names) => names.any fun n => Text.ofString n == simple).map (·.1)

/-- How values of a type are collections. -/
inductive CollectionKind where
  | array | list | map | set | builder
  deriving DecidableEq, Repr

namespace CollectionKind

/-- The kind of the collections a Foundation class implements. -/
def ofClass? (c : ClassRef) : Option CollectionKind :=
  if c = .nsMutableArray then some .list
  else if c = .nsMutableDictionary then some .map
  else if c = .nsMutableSet then some .set
  else if c = .nsMutableString then some .builder
  else none

/-- How values of a Java type are collections, if they are. -/
def of? (t : JavaType) : Option CollectionKind :=
  if t.isArray then some .array else (libraryClass? t.name).bind ofClass?

end CollectionKind

/-- Configured Java types and the Objective-C types they stand for. -/
structure TypeMapper where
  overrides : List (Text × Text) := []

namespace TypeMapper

/-- A configured target without blanks and without one trailing star. -/
def cleanTarget (target : Text) : Text := Text.trim (Text.dropTail (Text.trim target) "*")

/-- The mapper for configured entries. -/
def ofEntries (entries : List (Text × Text)) : TypeMapper :=
  ⟨entries.map fun (source, target) => (source, cleanTarget target)⟩

/-- Foundation scalars whose names start with a capital. -/
def scalarNames : List String := ["NSInteger", "NSUInteger", "CGFloat"]

/-- Whether a configured target is a C scalar. -/
def isScalar (target : Text) : Bool :=
  scalarNames.any (Text.ofString · == target) || Text.startsLower target

/-- The type a configured target names. -/
def targetRef (r : Registry) (target : Text) : TypeRef :=
  if isScalar target then .scalar target
  else .object ((r.lookup? target).getD (ClassRef.system target false))

/-- The configured type for a name. The name as written comes before the simple
name; an empty target counts as none. -/
def override? (m : TypeMapper) (r : Registry) (name : Text) : Option TypeRef :=
  match (getKey? name m.overrides).or (getKey? (simpleName name) m.overrides) with
  | some target => if target.isEmpty then none else some (targetRef r target)
  | none => none

/-- The class that stands for a Java class or interface. -/
def classOf (m : TypeMapper) (r : Registry) (name : Text) : ClassRef :=
  match (m.override? r name).bind TypeRef.object? with
  | some target => target
  | none => (libraryClass? name).getD (r.resolve (simpleName name))

/-- The type of the values of a Java type. -/
def map (m : TypeMapper) (r : Registry) (t : JavaType) : TypeRef :=
  if t.isArray then .object .nsMutableArray
  else match m.override? r t.name with
    | some ref => ref
    | none => (primitiveRef? t.name).getD (.object (m.classOf r t.name))

/-- Whether a name is a library class with a counterpart in Foundation. -/
def isWellKnown (name : Text) : Bool := (libraryClass? name).isSome

end TypeMapper

end JavaObjC
