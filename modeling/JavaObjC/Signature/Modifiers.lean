import JavaObjC.Signature.JavaType

/-!
# Modifiers

Visibility, flags and annotations of a declaration. The last visibility word
wins; a declaration without one is visible in its package.
-/

namespace JavaObjC

/-- Who may use a member. -/
inductive Visibility where
  | publicAccess | protectedAccess | packageAccess | privateAccess
  /-- A word that is none of the four; the empty word means package access. -/
  | otherAccess (word : Text)
  deriving DecidableEq, Repr

namespace Visibility

/-- The word for a visibility. -/
def word : Visibility → Text
  | .publicAccess => "public"
  | .protectedAccess => "protected"
  | .packageAccess => "package"
  | .privateAccess => "private"
  | .otherAccess w => w

/-- The visibility a word names. -/
def ofWord (w : Text) : Visibility :=
  ([.publicAccess, .protectedAccess, .packageAccess, .privateAccess].find? (·.word == w)).getD
    (.otherAccess w)

end Visibility

/-- The modifiers of a declaration. -/
structure Modifiers where
  visibility : Visibility := .packageAccess
  isStatic : Bool := false
  isFinal : Bool := false
  isAbstract : Bool := false
  isDefault : Bool := false
  isNative : Bool := false
  isSynchronized : Bool := false
  /-- The names of the annotations, in source order. -/
  annotations : List Text := []

namespace Modifiers

/-- The modifiers with one more word. -/
def addWord (m : Modifiers) (w : Text) : Modifiers :=
  if w = "public" then { m with visibility := .publicAccess }
  else if w = "protected" then { m with visibility := .protectedAccess }
  else if w = "private" then { m with visibility := .privateAccess }
  else if w = "static" then { m with isStatic := true }
  else if w = "final" then { m with isFinal := true }
  else if w = "abstract" then { m with isAbstract := true }
  else if w = "default" then { m with isDefault := true }
  else if w = "native" then { m with isNative := true }
  else if w = "synchronized" then { m with isSynchronized := true }
  else m

/-- The modifiers with one more node. -/
def addNode (m : Modifiers) (n : Node) : Modifiers :=
  if n.kind = .annotationUse then
    let target := ((n.child? .qualifiedName).map qualifiedText).getD []
    { m with annotations := m.annotations ++ [target] }
  else m.addWord n.literal

/-- The modifiers a node lists. -/
def ofNode (n : Node) : Modifiers := n.children.foldl addNode {}

/-- The modifiers of a declaration node. -/
def ofDecl (n : Node) : Modifiers := ((n.child? .modifiers).map ofNode).getD {}

/-- The flags that are set, by name. -/
def flags (m : Modifiers) : List String :=
  [(m.isStatic, "static"), (m.isFinal, "final"), (m.isAbstract, "abstract"),
   (m.isDefault, "default"), (m.isNative, "native"), (m.isSynchronized, "synchronized")].filterMap
    fun (isSet, word) => if isSet then some word else none

end Modifiers

end JavaObjC
