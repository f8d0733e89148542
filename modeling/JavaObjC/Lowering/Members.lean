import JavaObjC.Lowering.UnitDraft

/-!
# Members, classes and units

The members of a class or interface become fields, methods, initializers and
initializer blocks of the unit's class. A unit holds one class or interface;
enums, annotation types, nested types, generic methods and interface methods
with a body have no counterpart.
-/

namespace JavaObjC

namespace Lowering

/-- Whether an initial value is a literal, possibly signed or in parentheses. -/
def isLiteral : Node → Bool
  | ⟨.literal, _, _, _, _⟩ => true
  | ⟨.parenExpr, _, _, _, inner :: _⟩ => isLiteral inner
  | ⟨.unaryExpr, _, _, _, [sign, operand]⟩ =>
    operand.kind = .literal && (sign.literal == "-" || sign.literal == "+")
  | _ => false

/-- The field all variables of a declaration start from. -/
def fieldShape (isInterface : Bool) (mods : Modifiers) (type : TypeRef) : TargetField :=
  { name := []
    type
    visibility := if isInterface then .publicAccess else mods.visibility
    isStatic := isInterface || mods.isStatic
    isFinal := isInterface || mods.isFinal }

/-- Adds the field of one variable. -/
def fieldVariable (shape : TargetField) (type : JavaType) (decl : Node) : Drafting Unit := do
  let name := declaredName decl
  match declaredValue decl with
  | none => Drafting.build (·.addField { shape with name })
  | some value =>
    let start ← Drafting.generate (fun s => { s with isStatic := shape.isStatic })
      (initialValue (attributed value) type)
    Drafting.build (·.addField
      { shape with
        name
        init := start.text
        isConstant := shape.isStatic && isLiteral value })

/-- Adds the fields of a declaration. -/
def field (isInterface : Bool) (n : Node) : Drafting Unit := do
  let type := JavaType.ofNode (← Drafting.require n.children[1]?)
  let ref ← Drafting.generateHead (Lower.mapType type)
  let shape := fieldShape isInterface (Modifiers.ofDecl n) ref
  (n.childrenOf .varDeclarator).forM (fieldVariable shape type)

/-- The parameters of a generated method. -/
def targetParameters (parameters : List Parameter) : Lower (List TargetParameter) :=
  parameters.mapM fun p => do return ⟨p.name, ← Lower.mapType p.type⟩

/-- Declares parameters as locals. -/
def declareParameters (parameters : List Parameter) : Lower Unit :=
  parameters.forM fun p => Lower.declareLocal p.name p.type

/-- What an interface method may not be, if it is that. -/
def interfaceMethodFault? (mods : Modifiers) (n : Node) (body : Option Node) :
    Option (Text × Node) :=
  if mods.isDefault then some ("default interface method", n)
  else if mods.isStatic then some ("static interface method", n)
  else body.map fun b => ("interface method body", b)

/-- The statements of a method with parameters. -/
def methodBody (parameters : List Parameter) (block : Node) : Lower (List Stmt) := do
  declareParameters parameters
  blockBody (attributed block).parts

/-- What a method may not be, and where it is that. -/
def methodFault? (isInterface : Bool) (n : Node) : Option (Text × Node) :=
  match n.child? .typeParameters with
  | some list => some ("generic method", list)
  | none =>
    if isInterface then interfaceMethodFault? (Modifiers.ofDecl n) n (n.child? .block) else none

/-- The statements of a method with the given modifiers; an abstract one has none. -/
def methodStatements (isInterface : Bool) (mods : Modifiers) (n : Node) :
    Drafting (Option (List Stmt)) := do
  match n.child? .block with
  | some block =>
    if mods.isAbstract || isInterface then return none
    else
      let result := JavaType.ofNode? (resultNode n)
      some <$> Drafting.generate (fun s => { s with isStatic := mods.isStatic, result })
        (methodBody (Parameter.ofDecl n) block)
  | none => return none

/-- Adds a method that has a counterpart. -/
def addMethod (isInterface : Bool) (n : Node) : Drafting Unit := do
  let mods := Modifiers.ofDecl n
  let targets ← Drafting.generateHead (targetParameters (Parameter.ofDecl n))
  let result ← Drafting.generateHead (Lower.mapType (JavaType.ofNode? (resultNode n)))
  let body ← methodStatements isInterface mods n
  Drafting.build (·.addMethod
    { name := declaredName n
      parameters := targets
      result
      visibility := if isInterface then .publicAccess else mods.visibility
      isStatic := mods.isStatic
      isAbstract := mods.isAbstract || isInterface
      body })

/-- Adds a method. -/
def method (isInterface : Bool) (n : Node) : Drafting Unit :=
  match methodFault? isInterface n with
  | some (construct, place) => Drafting.refuse construct place
  | none => addMethod isInterface n

/-- Whether the superclass of the unit's class is a library exception. -/
def extendsException (around : Surroundings) : Bool :=
  let base := around.baseName
  !base.isEmpty && around.classOf base = .nsException && (around.members? base).isNone

/-- The initializer message a constructor starts with. -/
def constructorCall (parts : Parts) : Lower Text := do
  match parts.first? .typeArguments with
  | some list => list.refuse "explicit type arguments"
  | none =>
    let arguments ← parts.arguments
    let around ← read
    if (parts.first? .thisRef).isSome then sendInit "self" around.unit arguments []
    else if extendsException around then
      let reason : Text := (arguments.head?.map Value.text).getD "nil"
      return "[super initWithName:" ++ stringConstant around.ownName ++ " reason:" ++ reason
        ++ " userInfo:nil]"
    else sendInit "super" (around.members? around.baseName) arguments []

/-- The initializer message and the statements of a constructor. -/
def constructorBody (parameters : List Parameter) (block : Node) : Lower (Text × List Stmt) := do
  declareParameters parameters
  match (attributed block).parts with
  | first :: rest =>
    if first.kind = .constructorCall then
      let start ← constructorCall first.parts
      return (start, ← blockBody rest)
    return ([], ← blockBody (first :: rest))
  | [] => return ([], ← blockBody [])

/-- Adds an initializer for a constructor of the unit's class. -/
def addConstructor (n : Node) : Drafting Unit := do
  let parameters := Parameter.ofDecl n
  let targets ← Drafting.generateHead (targetParameters parameters)
  let block ← Drafting.require (n.child? .block)
  let (initCall, body) ← Drafting.generate (fun s => { s with isConstructor := true })
    (constructorBody parameters block)
  Drafting.build (·.addMethod
    { name := "init"
      parameters := targets
      result := .object .id
      visibility := (Modifiers.ofDecl n).visibility
      isConstructor := true
      initCall
      body := some body })

/-- Adds an initializer for a constructor. -/
def constructor (n : Node) : Drafting Unit := do
  match n.child? .typeParameters with
  | some list => Drafting.refuse "generic constructor" list
  | none =>
    let own := ((← get).unit.map ClassSignature.name).getD []
    if declaredName n ≠ own then Drafting.refuse "method without return type" n
    else addConstructor n

/-- The block of an initializer, and whether it belongs to the class. -/
def initializerBlock (n : Node) : Node × Bool :=
  match n.children with
  | [mark, block] =>
    if mark.kind = .identifier ∧ mark.literal = "static" ∧ block.kind = .block then (block, true)
    else (n, false)
  | _ => (n, false)

/-- Adds an initializer block. -/
def initializerMember (n : Node) : Drafting Unit := do
  let (block, isStatic) := initializerBlock n
  let body ← Drafting.generate (fun s => { s with isStatic })
    (blockBody (attributed block).parts)
  Drafting.build (·.addInitializer body isStatic)

/-- Adds a member. -/
def member (isInterface : Bool) (n : Node) : Drafting Unit :=
  match n.kind with
  | .fieldDecl => field isInterface n
  | .methodDecl => method isInterface n
  | .constructorDecl => constructor n
  | .block => initializerMember n
  | .emptyStmt => pure ()
  | .classDecl | .interfaceDecl | .enumDecl | .annotationDecl => Drafting.refuse "nested type" n
  | kind => Drafting.refuse kind.name n

/-- The protocol an interface stands for. A name of which nothing else is known
is taken to be a protocol. -/
def protocolNamed (name : Text) : Lower ClassRef := do
  let c := (← read).classOf name
  let c := if c.isPlaceholder then ClassRef.placeholder c.name true else c
  Lower.refer c
  return c

/-- Adopts the protocols some type nodes name. -/
def adopt (types : List Node) : Drafting Unit :=
  types.forM fun n => do
    let c ← Drafting.generateHead (protocolNamed (JavaType.ofNode n).name)
    Drafting.build (·.addProtocol c)

/-- Adds the supertypes of a class or interface. -/
def supertypes (isInterface : Bool) (decl : Node) : Drafting Unit := do
  if isInterface then adopt (decl.childrenOf .type)
  else
    if let some base := decl.child? .type then
      let c ← Drafting.generateHead (Lower.classNamed (JavaType.ofNode base).name)
      Drafting.build (·.addBase c)
    adopt (ClassSignature.implementedNodes decl)

/-- Generates a class or interface. -/
def typeDeclaration (decl : Node) : Drafting Unit := do
  let signature := ClassSignature.ofDecl decl
  if signature.name.isEmpty then Drafting.refuse "anonymous type declaration" decl
  else
    let isInterface := signature.isInterface
    modify fun d =>
      { d with
        unit := some signature
        builder := some { name := signature.name, isProtocol := isInterface } }
    supertypes isInterface decl
    match decl.child? .block with
    | some block => block.children.forM (member isInterface)
    | none => pure ()

/-- Whether a name belongs to the Java library. -/
def isLibraryName (name : Text) : Bool :=
  Text.startsWith name "java." || Text.startsWith name "javax."

/-- Makes an imported name visible. Imports of members or whole packages and
imports from the library refer to no class. -/
def importDeclaration (n : Node) : Drafting Unit := do
  let marks := (n.childrenOf .identifier).map Node.literal
  if marks.contains "static" || marks.contains "*" then return ()
  let qualified := ((n.child? .qualifiedName).map qualifiedText).getD []
  let simple := simpleName qualified
  modify fun d => { d with imported := d.imported ++ [simple] }
  if isLibraryName qualified then return ()
  Drafting.generateHead do Lower.refer ((← read).classOf simple)

/-- Reads one top-level declaration; the class or interface is kept for later. -/
def topLevel (primary : Option Node) (n : Node) : Drafting (Option Node) := do
  match n.kind with
  | .packageDecl =>
    modify fun d => { d with package := ((n.child? .qualifiedName).map qualifiedText).getD [] }
    return primary
  | .importDecl =>
    importDeclaration n
    return primary
  | .classDecl | .interfaceDecl =>
    if primary.isSome then Drafting.refuse "additional top-level type" n else return some n
  | .enumDecl => Drafting.refuse "enum" n
  | .annotationDecl => Drafting.refuse "annotation type" n
  | .emptyStmt => return primary
  | kind => Drafting.refuse kind.name n

/-- Generates the class of a compilation unit, if it declares one. -/
def compilationUnit (cu : Node) : Drafting Unit := do
  match ← cu.children.foldlM topLevel none with
  | some decl => typeDeclaration decl
  | none => pure ()

end Lowering

namespace UnitDraft

/-- The failure behind a refusal. -/
def failure (file : Text) : Refusal → Failure
  | .unsupported construct place => .unsupported file construct place
  | .malformed => .malformed

/-- Feeds a tree into the unit. Only compilation units without error nodes are taken. -/
def visit (d : UnitDraft) (around : Surroundings) (tree : Node) :
    Except Failure Unit × UnitDraft :=
  if tree.kind ≠ .compilationUnit then (.error (.notUnit d.file), d)
  else match tree.problems with
    | [] =>
      let (outcome, after) := (Lowering.compilationUnit tree).run' around d
      (outcome.mapError (failure d.file), after)
    | problems => (.error (.rejected ⟨d.file, problems⟩), d)

end UnitDraft

end JavaObjC
