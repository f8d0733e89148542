import JavaObjC.Signature.Modifiers

/-!
# Signatures of declared types

What other units see of a class or interface: its kind, its supertypes and
type parameters, the types of its fields, and the parameters and results of
its methods and constructors. Bodies and initializers leave no trace here.
-/

namespace JavaObjC

/-- A declared parameter. A variable number of arguments arrives as an array. -/
structure Parameter where
  name : Text := []
  type : JavaType := .unknown
  deriving DecidableEq

/-- A declared field. -/
structure FieldSignature where
  name : Text
  type : JavaType
  isStatic : Bool
  deriving DecidableEq

/-- A declared method or constructor. -/
structure MethodSignature where
  name : Text
  parameters : List Parameter
  result : JavaType
  isStatic : Bool := false
  deriving DecidableEq

namespace MethodSignature

/-- The number of parameters. -/
def arity (m : MethodSignature) : Nat := m.parameters.length

/-- The names of the parameters. -/
def parameterNames (m : MethodSignature) : List Text := m.parameters.map Parameter.name

/-- The types of the parameters. -/
def parameterTypes (m : MethodSignature) : List JavaType := m.parameters.map Parameter.type

end MethodSignature

/-- The signature of a class or interface; member lists are in source order. -/
structure ClassSignature where
  name : Text
  isInterface : Bool
  /-- The simple name of the superclass, if one is declared. -/
  base : Option Text := none
  /-- The simple names of the declared interfaces. -/
  interfaces : List Text := []
  typeParameters : List Text := []
  fields : List FieldSignature := []
  methods : List MethodSignature := []
  constructors : List MethodSignature := []
  deriving DecidableEq

namespace ClassSignature

/-- The field of a name; the last declaration of it counts. -/
def field? (s : ClassSignature) (name : Text) : Option FieldSignature :=
  s.fields.reverse.find? (·.name = name)

/-- The first method of a name with a given number of parameters. -/
def method? (s : ClassSignature) (name : Text) (arity : Nat) : Option MethodSignature :=
  s.methods.find? fun m => m.name = name && m.arity = arity

/-- The first constructor with a given number of parameters. -/
def constructor? (s : ClassSignature) (arity : Nat) : Option MethodSignature :=
  s.constructors.find? (·.arity = arity)

/-- The superclass first, then the interfaces. -/
def supertypes (s : ClassSignature) : List Text := s.base.toList ++ s.interfaces

end ClassSignature

namespace Parameter

/-- Reads one child of a parameter node: a type, the dots, or the name. -/
def addNode (p : Parameter × Bool) (n : Node) : Parameter × Bool :=
  if n.kind = .type ∨ n.kind = .arrayType then ({ p.1 with type := JavaType.ofNode n }, p.2)
  else if n.kind = .identifier then
    if n.literal = "..." then (p.1, true) else ({ p.1 with name := n.literal }, p.2)
  else p

/-- The parameter a node declares. -/
def ofNode (n : Node) : Parameter :=
  let (p, hasDots) := n.children.foldl addNode ({}, false)
  if hasDots then { p with type := p.type.addDepth 1 } else p

/-- The parameters of a method or constructor node. -/
def ofDecl (n : Node) : List Parameter :=
  match n.child? .parameters with
  | some list => (list.childrenOf .parameter).map ofNode
  | none => []

end Parameter

/-- The name a declaration node gives. -/
def declaredName (n : Node) : Text := ((n.child? .identifier).map Node.literal).getD []

/-- The initializer of a declared variable. -/
def declaredValue (n : Node) : Option Node := n.children[1]?

/-- The type node of a method's result. -/
def resultNode (n : Node) : Option Node := (n.child? .type).or (n.child? .arrayType)

namespace ClassSignature

/-- The names a type parameter list declares. -/
def typeParameterNames (n : Node) : List Text :=
  n.children.filterMap fun p =>
    match p.child? .identifier with
    | some label => some label.literal
    | none => if p.kind = .identifier then some p.literal else none

/-- The signature with the fields of one declaration. -/
def addFields (s : ClassSignature) (n : Node) : ClassSignature :=
  let type := JavaType.ofNode? n.children[1]?
  let isStatic := (Modifiers.ofDecl n).isStatic || s.isInterface
  let fields := (n.childrenOf .varDeclarator).map fun d =>
    { name := declaredName d, type, isStatic : FieldSignature }
  { s with fields := s.fields ++ fields }

/-- The signature with one method. -/
def addMethod (s : ClassSignature) (n : Node) : ClassSignature :=
  let method : MethodSignature :=
    { name := declaredName n
      parameters := Parameter.ofDecl n
      result := ((resultNode n).map JavaType.ofNode).getD .unknown
      isStatic := (Modifiers.ofDecl n).isStatic }
  { s with methods := s.methods ++ [method] }

/-- The signature with one constructor. -/
def addConstructor (s : ClassSignature) (n : Node) : ClassSignature :=
  let method : MethodSignature :=
    { name := s.name, parameters := Parameter.ofDecl n, result := .named s.name }
  { s with constructors := s.constructors ++ [method] }

/-- The signature with one member; initializers and nested types are not part of it. -/
def addMember (s : ClassSignature) (n : Node) : ClassSignature :=
  match n.kind with
  | .fieldDecl => s.addFields n
  | .methodDecl => s.addMethod n
  | .constructorDecl => s.addConstructor n
  | _ => s

/-- The simple names of the types among some nodes. -/
def simpleTypeNames (nodes : List Node) : List Text :=
  nodes.map fun n => (JavaType.ofNode n).simple

/-- The interfaces a class node implements. -/
def implementedNodes (decl : Node) : List Node :=
  ((decl.child? .implementsList).map (·.childrenOf .type)).getD []

/-- The head of a class or interface, without its members. -/
def ofHead (decl : Node) : ClassSignature :=
  let isClass := decl.kind = .classDecl
  { name := declaredName decl
    isInterface := decl.kind = .interfaceDecl
    base := if isClass then (decl.child? .type).map fun n => (JavaType.ofNode n).simple else none
    interfaces :=
      simpleTypeNames (if isClass then implementedNodes decl else decl.childrenOf .type)
    typeParameters := ((decl.child? .typeParameters).map typeParameterNames).getD [] }

/-- The signature of a class or interface declaration. -/
def ofDecl (decl : Node) : ClassSignature :=
  match decl.child? .block with
  | some body => body.children.foldl addMember (ofHead decl)
  | none => ofHead decl

end ClassSignature

/-- The first type declaration of a compilation unit. -/
def primaryType? (unit : Node) : Option Node :=
  unit.children.find? fun n =>
    n.kind = .classDecl || n.kind = .interfaceDecl || n.kind = .enumDecl
      || n.kind = .annotationDecl

end JavaObjC
