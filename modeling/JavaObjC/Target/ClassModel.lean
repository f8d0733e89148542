import JavaObjC.Target.ImportSet
import JavaObjC.Target.Member

/-!
# Class models and their builder

A class model is a finished Objective-C class or protocol. A builder collects
its parts and builds once: the first base class wins, protocols and fields are
kept once per name, methods once per signature and then once per selector and
receiver. After that the builder ignores further parts and refuses to build.
-/

namespace JavaObjC

/-- A finished class or protocol. -/
structure ClassModel where
  name : Text
  isProtocol : Bool := false
  base : ClassRef := ClassRef.nsObject
  protocols : List ClassRef := []
  imports : List ClassRef := []
  fields : List TargetField := []
  methods : List TargetMethod := []
  /-- Blocks the class runs when it is first used. -/
  staticInit : List (List Stmt) := []
  /-- Blocks every designated initializer runs before its own body. -/
  instanceInit : List (List Stmt) := []

namespace ClassModel

/-- The model as other classes refer to it. -/
def toRef (m : ClassModel) : ClassRef :=
  { name := m.name, isProtocol := m.isProtocol, origin := .generated, baseName := m.base.name }

/-- The model of a class of which nothing but the reference is known. -/
def ofRef (c : ClassRef) : ClassModel := { name := c.name, isProtocol := c.isProtocol }

/-- The file that declares the class. -/
def headerFile (m : ClassModel) : Text := m.toRef.headerFile

/-- The file that defines the class. -/
def implementationFile (m : ClassModel) : Text := m.toRef.implementationFile

end ClassModel

/-- The parts of a class collected so far. -/
structure ClassBuilder where
  name : Text
  bases : List ClassRef := []
  protocols : List ClassRef := []
  fields : List TargetField := []
  methods : List TargetMethod := []
  staticInit : List (List Stmt) := []
  instanceInit : List (List Stmt) := []
  isProtocol : Bool := false
  /-- Whether the class has been built. -/
  isSealed : Bool := false

/-- The items of which no earlier one has the same key, in order. -/
def firstPerKey {α : Type} (key : α → Text) (items : List α) : List α :=
  go [] items
where
  /-- Keeps the items whose key is not among those seen. -/
  go (seen : List Text) : List α → List α
    | [] => []
    | a :: rest =>
      if seen.contains (key a) then go seen rest else a :: go (key a :: seen) rest

namespace ClassBuilder

/-- Applies a change unless the class has been built. -/
def change (b : ClassBuilder) (f : ClassBuilder → ClassBuilder) : ClassBuilder :=
  if b.isSealed then b else f b

/-- A further candidate for the base class. -/
def addBase (b : ClassBuilder) (c : ClassRef) : ClassBuilder :=
  b.change fun b => { b with bases := b.bases ++ [c] }

/-- An adopted protocol, unless its name is there already. -/
def addProtocol (b : ClassBuilder) (c : ClassRef) : ClassBuilder :=
  b.change fun b =>
    if b.protocols.any (·.name = c.name) then b
    else { b with protocols := b.protocols ++ [c] }

/-- A field, unless its name is there already. -/
def addField (b : ClassBuilder) (f : TargetField) : ClassBuilder :=
  b.change fun b =>
    if b.fields.any (·.name = f.name) then b else { b with fields := b.fields ++ [f] }

/-- Whether a method with a signature was added. -/
def hasMethod (b : ClassBuilder) (signature : Text) : Bool :=
  b.methods.any (·.signature = signature)

/-- A method, unless its signature is there already. -/
def addMethod (b : ClassBuilder) (m : TargetMethod) : ClassBuilder :=
  b.change fun b =>
    if b.hasMethod m.signature then b else { b with methods := b.methods ++ [m] }

/-- An initializer block of the class or of its instances. -/
def addInitializer (b : ClassBuilder) (body : List Stmt) (isStatic : Bool) : ClassBuilder :=
  b.change fun b =>
    if isStatic then { b with staticInit := b.staticInit ++ [body] }
    else { b with instanceInit := b.instanceInit ++ [body] }

/-- Says whether the class is a protocol. -/
def setProtocol (b : ClassBuilder) (isProtocol : Bool) : ClassBuilder :=
  b.change fun b => { b with isProtocol }

/-- What tells apart the messages two methods answer. -/
def messageKey (m : TargetMethod) : Text :=
  if m.isStatic then "+" ++ m.selector else m.selector

/-- The class of the parts collected so far, with the imports of its unit. -/
def model (b : ClassBuilder) (imports : ImportSet) : ClassModel :=
  { name := b.name
    isProtocol := b.isProtocol
    base := if b.isProtocol then ClassRef.nsObject else b.bases.head?.getD ClassRef.nsObject
    protocols := b.protocols
    imports := imports.classes.filter (·.name ≠ b.name)
    fields := b.fields
    methods := firstPerKey messageKey b.methods
    staticInit := b.staticInit
    instanceInit := b.instanceInit }

/-- Builds the class and seals the builder. A sealed builder does not build again. -/
def build? (b : ClassBuilder) (imports : ImportSet) : Option (ClassModel × ClassBuilder) :=
  if b.isSealed then none else some (b.model imports, { b with isSealed := true })

end ClassBuilder

end JavaObjC
