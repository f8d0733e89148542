import JavaObjC.Keyed
import JavaObjC.Signature.ClassSignature
import JavaObjC.Target.ClassModel

/-!
# The registry of known classes

The classes one run knows, by name: declared ones, of which the signature is
known, and defined ones, which have been generated. A declaration never
replaces a definition, and the predefined Foundation classes come before both.
-/

namespace JavaObjC

/-- What is known about a name. -/
structure RegistryEntry where
  target : ClassRef
  isDefined : Bool := false
  signature : Option ClassSignature := none

/-- The classes of a run. -/
structure Registry where
  entries : List (Text × RegistryEntry) := []

namespace Registry

/-- The entry of a name. -/
def entry? (r : Registry) (name : Text) : Option RegistryEntry := getKey? name r.entries

/-- The registry with an entry for a name. -/
def setEntry (r : Registry) (name : Text) (e : RegistryEntry) : Registry :=
  ⟨setKey name e r.entries⟩

/-- The most that is known about a name: a predefined class, a definition or a
declaration. -/
def lookup? (r : Registry) (name : Text) : Option ClassRef :=
  (ClassRef.predefined? name).or ((r.entry? name).map RegistryEntry.target)

/-- The class of a name; one that nothing is known about is a placeholder. -/
def resolve (r : Registry) (name : Text) : ClassRef :=
  (r.lookup? name).getD (ClassRef.placeholder name false)

/-- Whether a predefined or generated class has the name. -/
def isDefined (r : Registry) (name : Text) : Bool :=
  (ClassRef.predefined? name).isSome || ((r.entry? name).map RegistryEntry.isDefined).getD false

/-- The signature of a declared class. -/
def signature? (r : Registry) (name : Text) : Option ClassSignature :=
  (r.entry? name).bind RegistryEntry.signature

/-- Whether an entry can stand for a declaration of the given kind. -/
def suits (e : RegistryEntry) (isProtocol : Bool) : Bool :=
  e.isDefined || e.target.isProtocol == isProtocol

/-- Declares a name. An entry that is defined or of the same kind stays as it is. -/
def declare (r : Registry) (name : Text) (isProtocol : Bool) : Registry :=
  let fresh := ClassRef.placeholder name isProtocol
  match r.entry? name with
  | some e => if suits e isProtocol then r else r.setEntry name { e with target := fresh }
  | none => r.setEntry name { target := fresh }

/-- Records the signature of a declared class. -/
def declareSignature (r : Registry) (s : ClassSignature) : Registry :=
  let r := r.declare s.name s.isInterface
  match r.entry? s.name with
  | some e => r.setEntry s.name { e with signature := some s }
  | none => r

/-- The signature of the class or interface a unit declares first, if it has a name. -/
def unitSignature? (unit : Node) : Option ClassSignature :=
  match primaryType? unit with
  | some decl =>
    if decl.kind = .classDecl ∨ decl.kind = .interfaceDecl then
      let s := ClassSignature.ofDecl decl
      if s.name.isEmpty then none else some s
    else none
  | none => none

/-- Declares the class a unit holds. -/
def declareUnit (r : Registry) (unit : Node) : Registry :=
  match unitSignature? unit with
  | some s => r.declareSignature s
  | none => r

/-- Records a generated class, and says whether it replaces another one. -/
def define (r : Registry) (target : ClassRef) : Registry × Bool :=
  match r.entry? target.name with
  | some e => (r.setEntry target.name { e with target, isDefined := true }, e.isDefined)
  | none => (r.setEntry target.name { target, isDefined := true }, false)

/-- The declared and defined names in order. -/
def names (r : Registry) : List Text := Text.sortBy id (r.entries.map (·.1))

end Registry

end JavaObjC
