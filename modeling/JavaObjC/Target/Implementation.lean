import JavaObjC.Target.Header

/-!
# Implementation files

The definition of a class: storage for its static variables, prototypes of its
private methods, and the methods themselves. Static initializers run in one
`+initialize`; instance initializers run in every initializer that does not
delegate to another one of the class.
-/

namespace JavaObjC.ClassModel

/-- The definition of the constants of a protocol that need code to initialize. -/
def protocolDefinition (m : ClassModel) : Text :=
  let dynamic := m.fields.filter (!·.isConstant)
  if dynamic.isEmpty then []
  else
    (dynamic.flatMap fun f => line (f.type.declare (f.globalName m.name) ++ ";")) ++ "\n"
      ++ line ("__attribute__((constructor)) static void " ++ m.name ++ "_initialize(void)")
      ++ line "\x7b"
      ++ (dynamic.flatMap fun f => indented 1 (f.globalName m.name ++ " = " ++ f.init ++ ";"))
      ++ line "\x7d"

/-- The storage of one static variable. -/
def storageLine (m : ClassModel) (f : TargetField) : Text :=
  let value := if f.isConstant then f.init else f.type.zeroValue
  let declared := f.type.declare (f.globalName m.name) ++ " = " ++ value ++ ";"
  line (if f.visibility = .privateAccess then "static " ++ declared else declared)

/-- The storage of the static variables, and an empty line if there are any. -/
def staticStorage (m : ClassModel) : Text :=
  let storage := (m.fields.filter (·.isStatic)).flatMap m.storageLine
  if storage.isEmpty then [] else storage ++ "\n"

/-- The methods whose prototypes stand in the implementation file of a class. -/
def hiddenMethods (m : ClassModel) : List TargetMethod :=
  m.methods.filter fun f => f.visibility = .privateAccess && !f.isClassInitializer

/-- The prototypes of the private methods. -/
def classExtension (m : ClassModel) : Text :=
  if m.hiddenMethods.isEmpty then []
  else
    line ("@interface " ++ m.name ++ " ()") ++ "\n" ++ m.hiddenMethods.flatMap prototypeLine
      ++ "\n" ++ line "@end" ++ "\n"

/-- What runs when the class is first used: the static variables that need code,
the static blocks, and a method the class itself calls `initialize`. -/
def classInitialization (m : ClassModel) : List Stmt :=
  let assigned := m.fields.filter fun f => f.isStatic && !f.isConstant && !f.init.isEmpty
  (assigned.map fun f => .expression (f.globalName m.name ++ " = " ++ f.init))
    ++ m.staticInit.flatten
    ++ (m.methods.filter (·.isClassInitializer)).flatMap fun f => f.body.getD []

/-- The class initializer, if anything runs in it. A subclass that inherits it
does not run it again. -/
def classInitializer? (m : ClassModel) : Option TargetMethod :=
  let body := m.classInitialization
  if body.isEmpty then none
  else some
    { name := "initialize"
      isStatic := true
      result := .scalar "void"
      visibility := .publicAccess
      body := some [.ifElse ("self == [" ++ m.name ++ " class]") (.block body) .nothing] }

/-- Whether instances need an initializer that the class does not declare. -/
def needsInit (m : ClassModel) : Bool :=
  !m.methods.any (·.isConstructor)
    && (!m.instanceInit.isEmpty || m.fields.any fun f => !f.isStatic && !f.init.isEmpty)

/-- The initializer of a class that declares none. -/
def synthesizedInit : TargetMethod :=
  { name := "init", isConstructor := true, visibility := .publicAccess }

/-- The initial values of the instance variables and the instance blocks. -/
def instanceInitialization (m : ClassModel) (k : Nat) : Text :=
  ((m.fields.filter fun f => !f.isStatic && !f.init.isEmpty).flatMap fun f =>
      indented k (f.name ++ " = " ++ f.init ++ ";"))
    ++ m.instanceInit.flatMap fun block => (Stmt.layout (.block block)).own k

/-- The message an initializer starts with. -/
def initCallOf (f : TargetMethod) : Text :=
  if f.initCall.isEmpty then "[super init]" else f.initCall

/-- The body of an initializer. One that starts with another initializer of the
class leaves the instance variables to it. -/
def constructorBody (m : ClassModel) (f : TargetMethod) : Text :=
  let call := initCallOf f
  indented 1 ("self = " ++ call ++ ";") ++ indented 1 "if (self) \x7b"
    ++ (if Text.startsWith call "[self " then [] else m.instanceInitialization 2)
    ++ Stmt.lines (f.body.getD []) 2 ++ indented 1 "\x7d" ++ indented 1 "return self;"

/-- The body of a method without one of its own. -/
def stubBody (f : TargetMethod) : Text :=
  let zero := f.result.zeroValue
  indented 1 "[self doesNotRecognizeSelector:_cmd];"
    ++ (if zero.isEmpty then [] else indented 1 ("return " ++ zero ++ ";"))

/-- The body of a method. -/
def methodBody (m : ClassModel) (f : TargetMethod) : Text :=
  if f.isConstructor then m.constructorBody f
  else match f.body with
    | some body => if f.isAbstract then stubBody f else Stmt.lines body 1
    | none => stubBody f

/-- The definition of a method, with an empty line after it. -/
def methodDefinition (m : ClassModel) (f : TargetMethod) : Text :=
  line f.declaration ++ line "\x7b" ++ m.methodBody f ++ line "\x7d" ++ "\n"

/-- The methods a class defines, in the order of the file: the class
initializer, the synthesized initializer, and the methods it declares. -/
def definedMethods (m : ClassModel) : List TargetMethod :=
  m.classInitializer?.toList ++ (if m.needsInit then [synthesizedInit] else [])
    ++ m.methods.filter (!·.isClassInitializer)

/-- The definition of a class. -/
def classDefinition (m : ClassModel) : Text :=
  m.staticStorage ++ m.classExtension ++ line ("@implementation " ++ m.name) ++ "\n"
    ++ m.definedMethods.flatMap m.methodDefinition ++ line "@end"

/-- The implementation file of a class. -/
def implementation (m : ClassModel) : Text :=
  banner m.implementationFile ++ line ("#import \"" ++ m.headerFile ++ "\"") ++ "\n"
    ++ (if m.isProtocol then m.protocolDefinition else m.classDefinition)

end JavaObjC.ClassModel
