import JavaObjC.Failure
import JavaObjC.Lowering.Statements

/-!
# Units in the making

A unit collects what its members generate: the package and the imported names,
the classes it refers to, and the parts of its class. A member is generated
against the unit as it stands; what it recorded before a refusal is kept.
-/

namespace JavaObjC

/-- A unit while its class is put together. -/
structure UnitDraft where
  file : Text
  package : Text := []
  /-- The simple names that import declarations make visible. -/
  imported : List Text := []
  references : References := {}
  /-- The class the unit declares, once its declaration is reached. -/
  unit : Option ClassSignature := none
  builder : Option ClassBuilder := none
  /-- The built class, or that there was none, once it has been asked for. -/
  outcome : Option (Option ClassModel) := none

/-- An action on a unit in the making. -/
abbrev Drafting := ReaderT Surroundings (ExceptT Refusal (StateM UnitDraft))

namespace Drafting

/-- Runs an action on a unit. -/
def run' {α : Type} (action : Drafting α) (around : Surroundings) (d : UnitDraft) :
    Except Refusal α × UnitDraft :=
  (action.run around).run.run d

/-- Refuses a construct at a node. -/
def refuse {α : Type} (construct : Text) (n : Node) : Drafting α :=
  throw (.unsupported construct n.span.start)

/-- A part that every accepted tree has. -/
def require {α : Type} (part : Option α) : Drafting α :=
  match part with
  | some a => pure a
  | none => throw .malformed

/-- The surroundings of a member of the unit. -/
def surroundings (base : Surroundings) (d : UnitDraft) : Surroundings :=
  { base with unit := d.unit, imported := d.imported }

/-- Generates for a member, with one open scope for its parameters. -/
def generate {α : Type} (setting : Surroundings → Surroundings) (action : Lower α) :
    Drafting α := fun base =>
  ExceptT.mk fun d =>
    let (result, after) :=
      action.run' (setting (surroundings base d)) { references := d.references, scopes := [[]] }
    (result, { d with references := after.references })

/-- Generates for the unit itself. -/
def generateHead {α : Type} (action : Lower α) : Drafting α := generate id action

/-- Changes the class in the making. -/
def build (f : ClassBuilder → ClassBuilder) : Drafting Unit :=
  modify fun d => { d with builder := d.builder.map f }

end Drafting

namespace UnitDraft

/-- Builds the unit's class when it is first asked for, and gives the same answer
ever after. -/
def currentClass (d : UnitDraft) : Except Failure ClassModel × UnitDraft :=
  let answer := fun (outcome : Option ClassModel) => match outcome with
    | some model => Except.ok model
    | none => Except.error (Failure.noType d.file)
  match d.outcome with
  | some outcome => (answer outcome, d)
  | none =>
    match d.builder.bind fun b => b.build? d.references.imports with
    | some (model, sealed) =>
      (.ok model, { d with builder := some sealed, outcome := some (some model) })
    | none => (answer none, { d with outcome := some none })

/-- The names of the classes the unit refers to and a registry knows nothing about. -/
def pending (d : UnitDraft) (r : Registry) : List Text :=
  d.references.pending.filter fun name => (r.lookup? name).isNone

end UnitDraft

end JavaObjC
