import JavaObjC.Source.Tree

/-!
# Java types as written

A type is a possibly qualified name, the types given as its arguments, and a
number of array dimensions. Types are read off syntax trees: an array node
adds a dimension, a wildcard stands for its bound, and a group of alternatives
for the first of them. The empty name stands for a type that is not known.
-/

namespace JavaObjC

/-- A Java type as written in source. -/
structure JavaType where
  /-- The name as written, possibly qualified. -/
  name : Text
  arguments : List JavaType := []
  /-- The number of array dimensions. -/
  depth : Nat := 0

instance : Inhabited JavaType := ⟨{ name := [] }⟩

/-- The part of a name after its last dot. -/
def simpleName (name : Text) : Text := Text.afterLast (Text.byte '.') name

/-- The identifiers of a qualified name joined by dots. -/
def qualifiedText (n : Node) : Text :=
  if n.kind = .identifier then n.literal
  else Text.join "." (n.children.map Node.literal)

namespace JavaType

mutual

/-- Whether two types are the same. -/
def decEq : (s t : JavaType) → Decidable (s = t)
  | ⟨name, arguments, depth⟩, ⟨name', arguments', depth'⟩ =>
    match decEqAll arguments arguments' with
    | isTrue h => decidable_of_iff (name = name' ∧ depth = depth') (by simp [h])
    | isFalse h => isFalse (by simp [h])

/-- Whether two lists of types are the same. -/
def decEqAll : (s t : List JavaType) → Decidable (s = t)
  | [], [] => isTrue rfl
  | [], _ :: _ => isFalse (by simp)
  | _ :: _, [] => isFalse (by simp)
  | s :: rest, t :: rest' =>
    match decEq s t with
    | isTrue h =>
      match decEqAll rest rest' with
      | isTrue h' => isTrue (by rw [h, h'])
      | isFalse h' => isFalse (by simp [h'])
    | isFalse h => isFalse (by simp [h])

end

instance : DecidableEq JavaType := decEq

mutual

/-- The type as it is written in source. -/
def describe : JavaType → Text
  | ⟨name, [], depth⟩ => name ++ (List.replicate depth (Text.ofString "[]")).flatten
  | ⟨name, first :: more, depth⟩ =>
    name ++ "<" ++ describe first ++ describeMore more ++ ">"
      ++ (List.replicate depth (Text.ofString "[]")).flatten

/-- Further type arguments, each after a comma. -/
def describeMore : List JavaType → Text
  | [] => []
  | t :: rest => ", " ++ describe t ++ describeMore rest

end

/-- The name without its package. -/
def simple (t : JavaType) : Text := simpleName t.name

/-- Whether the type has array dimensions. -/
def isArray (t : JavaType) : Bool := 0 < t.depth

/-- The names of the primitive types. -/
def primitiveNames : List Text :=
  ["boolean", "byte", "char", "short", "int", "long", "float", "double"].map Text.ofString

/-- Whether the type is one of the eight primitive types. -/
def isPrimitive (t : JavaType) : Bool := !t.isArray && primitiveNames.contains t.name

/-- Whether the type is `void`. -/
def isVoid (t : JavaType) : Bool := t.name == "void" && t.depth == 0

/-- Whether the type of a variable is left to its initializer. -/
def isVar (t : JavaType) : Bool := t.name == "var" && t.depth == 0

/-- Whether nothing is known about the type. -/
def isUnknown (t : JavaType) : Bool := t.name.isEmpty

/-- The type of the elements of an array; other types are their own. -/
def element (t : JavaType) : JavaType := { t with depth := t.depth - 1 }

/-- The type with more array dimensions. -/
def addDepth (t : JavaType) (n : Nat) : JavaType := { t with depth := t.depth + n }

/-- The type with a given name and nothing else. -/
def named (name : Text) : JavaType := { name }

/-- Nothing known. -/
def unknown : JavaType := named []

/-- `Object`. -/
def object : JavaType := named "Object"

/-- `String`. -/
def string : JavaType := named "String"

/-- `int`. -/
def int : JavaType := named "int"

/-- `long`. -/
def long : JavaType := named "long"

/-- `float`. -/
def float : JavaType := named "float"

/-- `double`. -/
def double : JavaType := named "double"

/-- `boolean`. -/
def boolean : JavaType := named "boolean"

/-- `char`. -/
def char : JavaType := named "char"

/-- `void`. -/
def void : JavaType := named "void"

/-- The type of `null`. -/
def null : JavaType := named "null"

mutual

/-- The type a node stands for. -/
def ofNode : Node → JavaType
  | ⟨.arrayType, _, _, _, []⟩ => { name := "Object", depth := 1 }
  | ⟨.arrayType, _, _, _, element :: _⟩ => addDepth (ofNode element) 1
  | ⟨.wildcard, _, _, _, [_, bound]⟩ => ofNode bound
  | ⟨.wildcard, _, _, _, _⟩ => object
  | ⟨.type, _, some word, _, _⟩ => named word.literal
  | ⟨_, _, _, _, children⟩ => ofParts [] [] children

/-- The type whose name parts and arguments are the given nodes, after those
read so far. A nested type in front of any name stands for the whole. -/
def ofParts (names : List Text) (arguments : List JavaType) : List Node → JavaType
  | [] => { name := Text.join "." names, arguments }
  | ⟨.identifier, s, t, p, c⟩ :: rest =>
    ofParts (names ++ [Node.literal ⟨.identifier, s, t, p, c⟩]) arguments rest
  | ⟨.qualifiedName, s, t, p, c⟩ :: rest =>
    ofParts (names ++ [qualifiedText ⟨.qualifiedName, s, t, p, c⟩]) arguments rest
  | ⟨.typeArguments, _, _, _, given⟩ :: rest => ofParts names (ofAll given) rest
  | ⟨.type, s, t, p, c⟩ :: rest =>
    if names.isEmpty then ofNode ⟨.type, s, t, p, c⟩ else ofParts names arguments rest
  | ⟨.arrayType, s, t, p, c⟩ :: rest =>
    if names.isEmpty then ofNode ⟨.arrayType, s, t, p, c⟩ else ofParts names arguments rest
  | ⟨_, _, _, _, _⟩ :: rest => ofParts names arguments rest

/-- The types several nodes stand for. -/
def ofAll : List Node → List JavaType
  | [] => []
  | n :: rest => ofNode n :: ofAll rest

end

/-- The type a node stands for, and `void` where there is none. -/
def ofNode? (n : Option Node) : JavaType := (n.map ofNode).getD void

end JavaType

end JavaObjC
