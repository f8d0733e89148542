import JavaObjC.Target.TypeRef

/-!
# Imported classes

The classes a unit depends on, in the order they were first mentioned, one per
name. A later mention replaces a placeholder and keeps its place; it never
replaces a class that is known. The type of any object is never imported.
-/

namespace JavaObjC

/-- Imported classes in order of first mention. -/
structure ImportSet where
  classes : List ClassRef := []

namespace ImportSet

/-- No classes. -/
def empty : ImportSet := {}

/-- Puts a class into a list in place of the placeholder of its name, or at the end. -/
def insert (c : ClassRef) : List ClassRef → List ClassRef
  | [] => [c]
  | old :: rest =>
    if old.name = c.name then (if old.isPlaceholder then c else old) :: rest
    else old :: insert c rest

/-- The set with one more class. -/
def add (s : ImportSet) (c : ClassRef) : ImportSet :=
  if c.isId then s else ⟨insert c s.classes⟩

/-- The names in the set, in order. -/
def names (s : ImportSet) : List Text := s.classes.map ClassRef.name

/-- Whether a name is in the set. -/
def contains (s : ImportSet) (name : Text) : Bool := s.names.contains name

end ImportSet

end JavaObjC
