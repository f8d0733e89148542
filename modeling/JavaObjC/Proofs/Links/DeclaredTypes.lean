import JavaObjC.Proofs.Calls.SelfCalls
import JavaObjC.Proofs.Headers.Provision

/-!
# Declared types and types of the library

The name of a class is looked for in the library before it is looked for among
the classes of the program. So a class that a unit of a batch declares is what
its name stands for exactly if the library has no class of that name. Its
signature is found in either case, and so are its constructors and methods.
-/

namespace JavaObjC

open Generating Lowering

/-- The name behind the packages has no packages. -/
theorem simpleName_simpleName (name : Text) : simpleName (simpleName name) = simpleName name := by
  have hnone : ∀ t : Text, Text.byte '.' ∉ Text.afterLast (Text.byte '.') t := by
    intro t
    induction t with
    | nil => simp [Text.afterLast]
    | cons b rest ih =>
      rw [Text.afterLast]
      split
      · exact ih
      · next hrest =>
        split
        · exact hrest
        · next hne => simpa using ⟨Ne.symm hne, hrest⟩
  unfold simpleName
  cases hname : Text.afterLast (Text.byte '.') name with
  | nil => rfl
  | cons b rest =>
    have hnotMem := hnone name
    rw [hname, List.mem_cons, not_or] at hnotMem
    rw [Text.afterLast, if_neg hnotMem.2, if_neg (Ne.symm hnotMem.1)]

/-- A class that stands for one of the Java library is one of the system. -/
theorem isSystem_of_libraryClass? {name : Text} {l : ClassRef} (h : libraryClass? name = some l) :
    l.isSystem = true := by
  obtain ⟨entry, hentry, rfl⟩ := Option.map_eq_some_iff.1 h
  have hall : ∀ entry ∈ libraryClasses, entry.1.isSystem = true := by decide
  exact hall entry (List.mem_of_find?_eq_some hentry)

/-- The class of the library that a name stands for is no class of the program. -/
theorem getD_libraryClass?_eq_iff (name : Text) {d : ClassRef} (hd : d.isSystem = false) :
    (libraryClass? name).getD d = d ↔ libraryClass? name = none := by
  cases hfound : libraryClass? name with
  | none => simp
  | some l =>
    have hne : l ≠ d := fun heq => by
      have hl := isSystem_of_libraryClass? hfound
      rw [heq, hd] at hl
      cases hl
    simpa using hne

/-- Declaring several signatures makes a signature of each name known. -/
theorem Registry.signature?_declareAll {declared : List ClassSignature} {c : ClassSignature}
    (hc : c ∈ declared) (r : Registry) :
    ∃ own, (r.declareAll declared).signature? c.name = some own := by
  induction declared generalizing r c with
  | nil => cases hc
  | cons first rest ih =>
    by_cases hlater : c.name ∈ rest.map ClassSignature.name
    · obtain ⟨other, hother, hname⟩ := List.mem_map.1 hlater
      exact hname ▸ ih hother (r.declareSignature first)
    · have hfirst : c = first := by
        rcases List.mem_cons.1 hc with hfirst | hrest
        · exact hfirst
        · exact absurd (List.mem_map_of_mem hrest) hlater
      subst hfirst
      have hentry : Registry.entry? (r.declareAll (c :: rest)) c.name =
          some (declaredEntry (r.entry? c.name) c) :=
        (entry?_declareAll_of_notMem hlater _).trans (entry?_declareSignature_self r c)
      rw [Registry.signature?, hentry, Option.bind_some]
      unfold declaredEntry
      split
      · split <;> exact ⟨_, rfl⟩
      · exact ⟨_, rfl⟩

namespace Surroundings

variable {around : Surroundings} {own : ClassSignature} {written name : Text}

/-- A class that the registry knows is found, unless the unit declares one of that name itself. -/
theorem exists_members {c : Text} (hknown : around.registry.signature? c = some own)
    (hsound : ∀ own, around.registry.signature? c = some own → own.name = c)
    (hwritten : simpleName written = c) :
    ∃ own, around.members? written = some own ∧ own.name = c := by
  rw [members?, hwritten]
  cases hunit : around.unit with
  | none => exact ⟨own, hknown, hsound own hknown⟩
  | some unit =>
    dsimp only
    split
    · next heq => exact ⟨unit, rfl, heq.symm⟩
    · exact ⟨own, hknown, hsound own hknown⟩

end Surroundings

/-- Generating a type gives what it is mapped to. -/
theorem Lowering.mapType_run {around : Surroundings} {t : JavaType}
    (h : around.isTypeParameter t.name = false) (s : BodyState) :
    ∃ s', result (Lower.mapType t) around s =
      (.ok (around.mapper.map around.registry t), s') := by
  have hparameter : around.isParameterType t = false := by
    rw [Surroundings.isParameterType, h, Bool.false_and]
  unfold Lower.mapType
  rw [read_result, if_neg (by simp [hparameter])]
  generalize around.mapper.map around.registry t = ref
  cases ref with
  | object c => exact ⟨_, rfl⟩
  | scalar _ => exact ⟨_, rfl⟩

namespace Generator

variable {options : GeneratorOptions} {parsed : List (Text × Except Failure Node)}
  {c : ClassSignature} {g : Generator}

/-- A unit declares a class with a name only. -/
theorem name_ne_nil_of_mem_signatures (hc : c ∈ signatures parsed) : c.name ≠ [] := by
  obtain ⟨path, cu, -, hsignature⟩ := exists_of_mem_signatures hc
  unfold Registry.unitSignature? at hsignature
  split at hsignature
  · split at hsignature
    · dsimp only at hsignature
      split at hsignature
      · cases hsignature
      · next hname =>
        cases hsignature
        simpa using hname
    · cases hsignature
  · cases hsignature

/-- What a spelling of the name of the declared class `c` stands for where units of `g` are
generated, if the name itself is declared as `d`. -/
structure StandsFor (g : Generator) (c : ClassSignature) (d : ClassRef) (written : Text)
    (around : Surroundings) : Prop where
  /-- A class that is named is the declared one exactly if the library has none of the name. -/
  named_iff : namedClass around written = d ↔ libraryClass? c.name = none
  /-- New objects, tests and superclasses take the class that is named. -/
  classNamed : ∀ s, ∃ s', result (Lower.classNamed written) around s =
    (.ok (namedClass around written), s')
  /-- Variables and results take the type that the spelling is mapped to. -/
  mapType : ∀ t : JavaType, t.name = written → ∀ s, ∃ s', result (Lower.mapType t) around s =
    (.ok (g.mapper.map g.registry t), s')
  /-- Calls find the methods of the declared class, and a value of it has no methods of the library
  but those of every object if the library has no class of the name. -/
  members : ∃ own, around.members? written = some own ∧ own.name = c.name ∧
    (∀ name arity m, own.method? name arity = some m →
      around.method? written name arity = some m) ∧
    (libraryClass? c.name = none → ∀ text name arguments,
      libraryCall? around (.typed text (.named written)) name arguments =
        LibraryCall.onObject? text true (LibraryCall.word name) arguments)

/-- The name of the declared class `c` stands for `d` in every spelling, unless the library has a
class of the name. -/
structure ResolvesTo (g : Generator) (c : ClassSignature) (d : ClassRef) : Prop where
  lookup : g.registry.lookup? c.name = some d
  name_eq : d.name = c.name
  not_system : d.isSystem = false
  /-- Otherwise it stands for the class that takes the place of the library's. -/
  classOf_eq : ∀ written, simpleName written = c.name →
    g.mapper.classOf g.registry written = (libraryClass? c.name).getD d
  classOf_iff : ∀ written, simpleName written = c.name →
    (g.mapper.classOf g.registry written = d ↔ libraryClass? c.name = none)
  /-- As a type it stands for the declared class, if it is no keyword for a primitive type. -/
  map_iff : ∀ written, simpleName written = c.name → ∀ t : JavaType, t.name = written →
    t.isArray = false →
    (g.mapper.map g.registry t = .object d ↔
      libraryClass? c.name = none ∧ primitiveRef? written = none)
  /-- In every unit, where the spelling is not that of a type parameter. -/
  everywhere : ∀ written, simpleName written = c.name → ∀ around : Surroundings,
    around.registry = g.registry → around.mapper = g.mapper →
    around.isTypeParameter written = false → StandsFor g c d written around

/-- A class that has the name of one of the library, and one that has a name of its own. Each has a
field of its own type. -/
def linkedBatch : List (Text × Except Failure Node) :=
  [("List.java", parseForGeneration "List.java" "class List \x7b List next; \x7d"),
    ("Link.java", parseForGeneration "Link.java" "class Link \x7b Link next; \x7d")]

/-- The signature of a class with a field of its own type. -/
def linkedSignature (name : Text) : ClassSignature where
  name := name
  isInterface := false
  fields := [{ name := "next", type := .named name, isStatic := false }]

end Generator

end JavaObjC
