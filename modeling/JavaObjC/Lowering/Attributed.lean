import JavaObjC.Lowering.Lower

/-!
# Attributed trees

A syntax tree in which every node carries what it means in each place it can
stand: as an expression, as an operand of a concatenation, as the initializer
of an array, and as a statement. The meaning of a node is computed from the
node and its attributed parts, so a whole tree is attributed bottom up.
-/

namespace JavaObjC

/-- What a node means. -/
structure Meaning where
  /-- As an expression. -/
  value : Lower Value
  /-- As the left end of a sum: its operands, and whether they make a string. -/
  operands : Lower (List Value × Bool)
  /-- As the initializer of an array of a type. -/
  array : JavaType → Lower Value
  /-- As a statement. -/
  statements : Lower (List Stmt)

/-- A node with its meaning and its attributed children. -/
structure Attributed where
  node : Node
  meaning : Meaning
  children : List Attributed

/-- The attributed children of a node. -/
abbrev Parts := List Attributed

namespace Attributed

/-- The kind of the node. -/
def kind (a : Attributed) : NodeKind := a.node.kind

/-- The bytes of the token the node stands for. -/
def literal (a : Attributed) : Text := a.node.literal

/-- The Java type the node stands for. -/
def type (a : Attributed) : JavaType := JavaType.ofNode a.node

/-- The parts of the node. -/
def parts (a : Attributed) : Parts := a.children

/-- The node as an expression. -/
def value (a : Attributed) : Lower Value := a.meaning.value

/-- The node as a statement. -/
def statements (a : Attributed) : Lower (List Stmt) := a.meaning.statements

/-- Refuses a construct at the node. -/
def refuse {α : Type} (a : Attributed) (construct : Text) : Lower α :=
  Lower.refuse construct a.node

mutual

/-- Attributes a tree, given what a node with attributed parts means. -/
def ofNode (meaning : Node → Parts → Meaning) : Node → Attributed
  | ⟨kind, span, token, problem, children⟩ =>
    let parts := ofAll meaning children
    let node : Node := ⟨kind, span, token, problem, children⟩
    ⟨node, meaning node parts, parts⟩

/-- Attributes several trees. -/
def ofAll (meaning : Node → Parts → Meaning) : List Node → Parts
  | [] => []
  | n :: rest => ofNode meaning n :: ofAll meaning rest

end

end Attributed

namespace Parts

/-- The part at a place, which every accepted tree has. -/
def child (parts : Parts) (i : Nat) : Lower Attributed := Lower.require parts[i]?

/-- The last part, which every accepted tree has. -/
def lastChild (parts : Parts) : Lower Attributed := Lower.require parts.getLast?

/-- The first part of a kind. -/
def first? (parts : Parts) (kind : NodeKind) : Option Attributed :=
  parts.find? (·.kind = kind)

/-- The parts of a kind. -/
def ofKind (parts : Parts) (kind : NodeKind) : Parts := parts.filter (·.kind = kind)

/-- The expression at a place. -/
def valueAt (parts : Parts) (i : Nat) : Lower Value := do (← parts.child i).value

/-- The word of the first identifier. -/
def name (parts : Parts) : Text := ((parts.first? .identifier).map Attributed.literal).getD []

/-- The values of the argument list, if there is one. -/
def arguments (parts : Parts) : Lower (List Value) :=
  match parts.first? .parameters with
  | some list => list.parts.mapM Attributed.value
  | none => pure []

end Parts

end JavaObjC
