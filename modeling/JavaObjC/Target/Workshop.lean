import JavaObjC.Failure
import JavaObjC.Target.ClassModel

/-!
# Several builders at work

A workshop holds class builders by name and the import sets they use. Several
builders may share an import set, so an import added through one of them is
seen by all that build later. A built class never changes any more.
-/

namespace JavaObjC

/-- A part handed to a builder. -/
inductive ClassPart where
  | base (c : ClassRef)
  | adopted (c : ClassRef)
  | field (f : TargetField)
  | method (m : TargetMethod)
  | initializer (body : List Stmt) (isStatic : Bool)
  | protocolFlag (isProtocol : Bool)

namespace ClassBuilder

/-- The builder with one more part. -/
def addPart (b : ClassBuilder) : ClassPart → ClassBuilder
  | .base c => b.addBase c
  | .adopted c => b.addProtocol c
  | .field f => b.addField f
  | .method m => b.addMethod m
  | .initializer body isStatic => b.addInitializer body isStatic
  | .protocolFlag isProtocol => b.setProtocol isProtocol

end ClassBuilder

/-- A builder, the place of its import set, and the class it has built. -/
structure Bench where
  builder : ClassBuilder
  slot : Nat
  model : Option ClassModel := none

/-- Builders by name and their import sets. -/
structure Workshop where
  benches : List (Text × Bench) := []
  imports : List ImportSet := []
  /-- The places of the import sets that have a name. -/
  shared : List (Text × Nat) := []

/-- A list with the item at a place changed. -/
def changeAt {α : Type} (f : α → α) : Nat → List α → List α
  | _, [] => []
  | 0, a :: rest => f a :: rest
  | n + 1, a :: rest => a :: changeAt f n rest

namespace Workshop

/-- The bench of a builder. -/
def bench? (w : Workshop) (label : Text) : Option Bench :=
  (w.benches.find? (·.1 = label)).map (·.2)

/-- The workshop with a bench in place of an earlier one of its name. -/
def setBench (w : Workshop) (label : Text) (b : Bench) : Workshop :=
  { w with benches := (label, b) :: w.benches.filter (·.1 ≠ label) }

/-- Opens a builder for a class. It shares the import set of a name, or has its
own when no name is given. -/
def openBench (w : Workshop) (label name set : Text) : Workshop :=
  let bench := fun slot => { builder := { name }, slot : Bench }
  let fresh := w.imports.length
  match (w.shared.find? (·.1 = set)).map (·.2) with
  | some slot => w.setBench label (bench slot)
  | none =>
    let w := { w with imports := w.imports ++ [ImportSet.empty] }
    let w := if set.isEmpty then w else { w with shared := (set, fresh) :: w.shared }
    w.setBench label (bench fresh)

/-- The import set of a builder. -/
def importsOf (w : Workshop) (label : Text) : ImportSet :=
  ((w.bench? label).bind fun b => w.imports[b.slot]?).getD .empty

/-- The workshop with a part handed to a builder. -/
def addPart (w : Workshop) (label : Text) (part : ClassPart) : Workshop :=
  match w.bench? label with
  | some b => w.setBench label { b with builder := b.builder.addPart part }
  | none => w

/-- The workshop with a class added to the import set of a builder. -/
def addImport (w : Workshop) (label : Text) (c : ClassRef) : Workshop :=
  match w.bench? label with
  | some b => { w with imports := changeAt (·.add c) b.slot w.imports }
  | none => w

/-- Builds the class of a builder; only the first attempt succeeds. -/
def build (w : Workshop) (label : Text) : Except Failure ClassModel × Workshop :=
  match w.bench? label with
  | none => (.error (.builderUsed label), w)
  | some b =>
    match b.builder.build? (w.importsOf label) with
    | some (model, closed) =>
      (.ok model, w.setBench label { b with builder := closed, model := some model })
    | none => (.error (.builderUsed b.builder.name), w)

/-- The class a builder has built. -/
def built? (w : Workshop) (label : Text) : Option ClassModel :=
  (w.bench? label).bind Bench.model

end Workshop

end JavaObjC
