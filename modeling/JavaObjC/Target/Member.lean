import JavaObjC.Signature.Modifiers
import JavaObjC.Target.Statement

/-!
# Members of Objective-C classes

Methods with their selectors and prototypes, and fields. A method's selector
has one keyword per parameter: the method's name for the first and the
parameter's own name for every other one; an initializer's first keyword is
built from its first parameter.
-/

namespace JavaObjC

namespace Visibility

/-- The keyword that opens a section of instance variables. -/
def directive (v : Visibility) : Text :=
  if v.word.isEmpty then "@package" else "@" ++ v.word

end Visibility

/-- A parameter of a generated method. -/
structure TargetParameter where
  name : Text
  type : TypeRef
  deriving DecidableEq, Repr

/-- One keyword per parameter, or the bare name when there are none. -/
def selectorKeywords (name : Text) (isConstructor : Bool) (parameters : List Text) :
    List Text :=
  match parameters with
  | [] => [if isConstructor then "init" else name]
  | first :: more =>
    (if isConstructor then "initWith" ++ Text.capitalize first else name) :: more

/-- A generated method or initializer. -/
structure TargetMethod where
  name : Text
  parameters : List TargetParameter := []
  result : TypeRef := .scalar []
  visibility : Visibility := .otherAccess []
  isStatic : Bool := false
  isConstructor : Bool := false
  isAbstract : Bool := false
  /-- The message an initializer starts with; empty for `[super init]`. -/
  initCall : Text := []
  body : Option (List Stmt) := none

namespace TargetMethod

/-- The names of the parameters. -/
def parameterNames (m : TargetMethod) : List Text := m.parameters.map TargetParameter.name

/-- The keywords of the method's selector. -/
def keywords (m : TargetMethod) : List Text :=
  selectorKeywords m.name m.isConstructor m.parameterNames

/-- What tells methods of a class apart: name and parameter types. -/
def signature (m : TargetMethod) : Text :=
  (if m.isStatic then "+" else "" : Text)
    ++ (if m.isConstructor then "<init>" else m.name : Text)
    ++ "(" ++ Text.join "," (m.parameters.map (·.type.key)) ++ ")"

/-- The selector of the method. -/
def selector (m : TargetMethod) : Text :=
  if m.parameters.isEmpty then m.keywords.flatten else Text.endEach ":" m.keywords

/-- The result as declared; initializers return their own type. -/
def resultText (m : TargetMethod) : Text :=
  if m.isConstructor then "instancetype" else m.result.render

/-- The prototype of the method, without a terminator. -/
def declaration (m : TargetMethod) : Text :=
  let head : Text := (if m.isStatic then "+ (" else "- (" : Text) ++ m.resultText ++ ")"
  if m.parameters.isEmpty then head ++ m.keywords.flatten
  else
    head ++ Text.join " " ((m.keywords.zip m.parameters).map fun (keyword, p) =>
      keyword ++ ":(" ++ p.type.render ++ ")" ++ p.name)

/-- Whether the method is the class initializer. -/
def isClassInitializer (m : TargetMethod) : Bool :=
  m.isStatic && m.name == "initialize" && m.parameters.isEmpty

end TargetMethod

/-- An instance variable or a static variable. -/
structure TargetField where
  name : Text
  type : TypeRef := .scalar []
  visibility : Visibility := .otherAccess []
  isStatic : Bool := false
  isFinal : Bool := false
  /-- The rendered initial value, empty when there is none. -/
  init : Text := []
  /-- Whether the initial value can initialize static storage. -/
  isConstant : Bool := false

namespace TargetField

/-- The C identifier behind a static field of a class. -/
def globalName (f : TargetField) (owner : Text) : Text := owner ++ "_" ++ f.name

end TargetField

end JavaObjC
