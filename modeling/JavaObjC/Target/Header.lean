import JavaObjC.Target.ClassModel

/-!
# Header files

The declaration of a class: a banner, the imports it depends on, and the
interface or protocol with its instance variables and prototypes.
-/

namespace JavaObjC

/-- A line without indentation. -/
def line (content : Text) : Text := indented 0 content

/-- The text followed by an empty line, unless it is empty or already ends in one. -/
def withBlank (t : Text) : Text :=
  if t.isEmpty || Text.endsWith t "\n\n" then t else t ++ "\n"

/-- The two lines every generated file starts with. -/
def banner (fileName : Text) : Text :=
  line ("// " ++ fileName) ++ line "// Generated by java2objc. Do not edit." ++ "\n"

namespace ClassModel

/-- Classes in the order of their import lines: system classes first, then by
name; one per name, the first mentioned. -/
def sortImports (classes : List ClassRef) : List ClassRef :=
  let distinct := firstPerKey ClassRef.name (classes.filter (!·.isId))
  Text.sortBy ClassRef.name (distinct.filter (·.isSystem))
    ++ Text.sortBy ClassRef.name (distinct.filter (!·.isSystem))

/-- The classes a declaration depends on: base, protocols and imports. -/
def dependencies (m : ClassModel) : List ClassRef :=
  (sortImports (m.base :: m.protocols ++ m.imports)).filter (·.name ≠ m.name)

/-- The import lines of a header, each once. -/
def importLines (m : ClassModel) : Text :=
  (firstPerKey id (m.dependencies.map ClassRef.importDirective)).flatMap line

/-- The names of the adopted protocols. -/
def protocolNames (m : ClassModel) : List Text := m.protocols.map ClassRef.name

/-- The order of the sections of instance variables. -/
def sectionOrder : List Visibility :=
  [.publicAccess, .protectedAccess, .packageAccess, .privateAccess]

/-- The section an instance variable belongs to. -/
def sectionOf (f : TargetField) : Visibility :=
  if f.visibility = .otherAccess [] then .packageAccess else f.visibility

/-- One section of instance variables; nothing if it is empty. -/
def ivarSection (fields : List TargetField) (v : Visibility) : Text :=
  let members := fields.filter (sectionOf · = v)
  if members.isEmpty then []
  else line v.directive ++ members.flatMap fun f => indented 1 (f.type.declare f.name ++ ";")

/-- The instance variables in braces; nothing if there are none. -/
def ivarLines (m : ClassModel) : Text :=
  let fields := m.fields.filter (!·.isStatic)
  if fields.isEmpty then []
  else line "\x7b" ++ sectionOrder.flatMap (ivarSection fields) ++ line "\x7d"

/-- The methods whose prototypes stand in the header of a class. -/
def publicMethods (m : ClassModel) : List TargetMethod :=
  m.methods.filter fun f => f.visibility ≠ .privateAccess && !f.isClassInitializer

/-- The prototype of a method on a line of its own. -/
def prototypeLine (f : TargetMethod) : Text := line (f.declaration ++ ";")

/-- The prototypes a class declares in its header. -/
def publicPrototypes (m : ClassModel) : Text := m.publicMethods.flatMap prototypeLine

/-- The declarations of the static variables others may use. -/
def externLines (m : ClassModel) : Text :=
  (m.fields.filter fun f => f.isStatic && f.visibility ≠ .privateAccess).flatMap
    fun f => line ("extern " ++ f.type.declare (f.globalName m.name) ++ ";")

/-- The first line of a class interface. -/
def interfaceLine (m : ClassModel) : Text :=
  let head := "@interface " ++ m.name ++ " : " ++ m.base.name
  if m.protocols.isEmpty then line head
  else line (head ++ " <" ++ Text.join ", " m.protocolNames ++ ">")

/-- The interface of a class, after what stands before it in the file. -/
def classDeclaration (m : ClassModel) (before : Text) : Text :=
  let head := withBlank (before ++ m.interfaceLine ++ m.ivarLines)
  let prototypes := m.publicPrototypes
  let body := if prototypes.isEmpty then head else withBlank (head ++ prototypes)
  let externs := m.externLines
  body ++ line "@end" ++ (if externs.isEmpty then [] else "\n" ++ externs : Text)

/-- The declaration of one protocol constant. -/
def constantLine (m : ClassModel) (f : TargetField) : Text :=
  let name := f.globalName m.name
  if f.isConstant then line ("static " ++ f.type.render ++ " const " ++ name ++ " = " ++ f.init ++ ";")
  else line ("extern " ++ f.type.declare name ++ ";")

/-- The first line of a protocol. -/
def protocolLine (m : ClassModel) : Text :=
  let adopted := Text.join ", " (Text.ofString "NSObject" :: m.protocolNames)
  line ("@protocol " ++ m.name ++ " <" ++ adopted ++ ">")

/-- The declaration of a protocol, with its constants after it. -/
def protocolDeclaration (m : ClassModel) : Text :=
  m.protocolLine ++ "\n" ++ m.methods.flatMap prototypeLine
    ++ (if m.methods.isEmpty then [] else "\n" : Text) ++ line "@end"
    ++ (if m.fields.isEmpty then [] else "\n" : Text) ++ m.fields.flatMap m.constantLine

/-- The header file of a class. -/
def header (m : ClassModel) : Text :=
  let before := withBlank (banner m.headerFile ++ m.importLines)
  if m.isProtocol then before ++ m.protocolDeclaration else m.classDeclaration before

end ClassModel

end JavaObjC
