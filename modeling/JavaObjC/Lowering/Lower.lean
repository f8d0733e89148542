import JavaObjC.Lowering.Surroundings

/-!
# Generating a body

The effects of generating code for a body: it reads its surroundings, records
the classes it refers to, declares locals in nested scopes, and stops at a
construct that has no counterpart. What was recorded before a refusal stays
recorded.
-/

namespace JavaObjC

/-- Why no code can be generated. -/
inductive Refusal where
  /-- A construct without a counterpart, and where it stands. -/
  | unsupported (construct : Text) (place : Position)
  /-- A tree that no accepted source has. -/
  | malformed

/-- The classes a unit refers to. -/
structure References where
  imports : ImportSet := {}
  /-- The names of the classes that are not part of Foundation, in the order of
  their first mention. -/
  pending : List Text := []

namespace References

/-- The references with a class, unless it is the unit's own or any object. -/
def add (r : References) (own : Text) (c : ClassRef) : References :=
  if c.isId || c.name = own then r
  else
    { imports := r.imports.add c
      pending :=
        if c.isSystem || c.name.isEmpty || r.pending.contains c.name then r.pending
        else r.pending ++ [c.name] }

end References

/-- The locals of one scope, the latest declaration first. -/
abbrev Scope := List (Text × JavaType)

/-- What changes while a body is generated. -/
structure BodyState where
  references : References := {}
  /-- The scopes that are open, innermost first. -/
  scopes : List Scope := []

/-- An action of the generator. -/
abbrev Lower := ReaderT Surroundings (ExceptT Refusal (StateM BodyState))

namespace Lower

/-- Runs an action: its result or refusal, and what it left behind. -/
def run' {α : Type} (action : Lower α) (around : Surroundings) (s : BodyState) :
    Except Refusal α × BodyState :=
  (action.run around).run.run s

/-- Refuses a construct at a node. -/
def refuse {α : Type} (construct : Text) (n : Node) : Lower α :=
  throw (.unsupported construct n.span.start)

/-- Refuses a node by the name of its kind. -/
def refuseKind {α : Type} (n : Node) : Lower α := refuse n.kind.name n

/-- A part that every accepted tree has. -/
def require {α : Type} (part : Option α) : Lower α :=
  match part with
  | some a => pure a
  | none => throw .malformed

/-- Records a class the unit refers to. -/
def refer (c : ClassRef) : Lower Unit := do
  let own := (← read).ownName
  modify fun s => { s with references := s.references.add own c }

/-- The type of the values of a Java type, recording its class. A type
parameter stands for any object. -/
def mapType (t : JavaType) : Lower TypeRef := do
  let around ← read
  if around.isParameterType t then return .object .id
  let ref := around.mapper.map around.registry t
  match ref with
  | .object c => refer c
  | .scalar _ => pure ()
  return ref

/-- The class a name stands for as a receiver, base or protocol, recording it. -/
def classNamed (name : Text) : Lower ClassRef := do
  let around ← read
  if around.isTypeParameter name then return .id
  let c := around.classOf name
  refer c
  return c

/-- Runs an action in a scope of its own, which ends also when it refuses. -/
def withScope {α : Type} (action : Lower α) : Lower α := fun around =>
  ExceptT.mk fun s =>
    let (result, after) := action.run' around { s with scopes := [] :: s.scopes }
    (result, { after with scopes := after.scopes.drop 1 })

/-- The scopes with a local declared in the innermost one. -/
def declareIn (name : Text) (t : JavaType) : List Scope → List Scope
  | [] => [[(name, t)]]
  | scope :: outer => ((name, t) :: scope) :: outer

/-- Declares a local in the innermost scope. -/
def declareLocal (name : Text) (t : JavaType) : Lower Unit :=
  modify fun s => { s with scopes := declareIn name t s.scopes }

/-- The type of a local in the innermost scope that has one. -/
def findLocal? (name : Text) (scopes : List Scope) : Option JavaType :=
  scopes.findSome? fun scope => getKey? name scope

/-- The type of a local that is in scope. -/
def localType? (name : Text) : Lower (Option JavaType) := do
  return findLocal? name (← get).scopes

end Lower

end JavaObjC
