import JavaObjC.Proofs.Headers.ImportBlock
import JavaObjC.Proofs.Links.Consistency
import JavaObjC.Proofs.Lowering.Recording

/-!
# Classes that are provided without configured types

Without configured types, every class that the surroundings of a unit provide
belongs to the system exactly if its name is predefined: a generator registers
declared and generated classes only. So the imports that a unit records are
told apart by their names, and a name that was recorded stays imported.
-/

namespace JavaObjC

open Generating

namespace ClassRef

/-- A predefined class is the one of its name. -/
theorem canonical_of_predefined (name : Text) {c : ClassRef} (h : predefined? name = some c) :
    c.Canonical := by
  have hname := predefined?_name h
  rw [Canonical, hname, h]
  unfold predefined? at h
  split at h
  · cases h
    rfl
  · split at h
    · cases h
      rfl
    · cases h

theorem canonical_id : ClassRef.id.Canonical := canonical_of_predefined "id" rfl

theorem canonical_nsObject : nsObject.Canonical :=
  canonical_of_predefined "NSObject" rfl

/-- The classes of the library are canonical. -/
theorem libraryClass?_canonical {name : Text} {c : ClassRef} (h : libraryClass? name = some c) :
    c.Canonical := by
  obtain ⟨entry, hentry, rfl⟩ := Option.map_eq_some_iff.1 h
  have hall : ∀ entry ∈ libraryClasses, entry.1.isSystem = (predefined? entry.1.name).isSome := by
    decide
  exact hall entry (List.mem_of_find?_eq_some hentry)

end ClassRef

/-- A registry that holds no system class under its entries. -/
def Registry.Foreign (r : Registry) : Prop :=
  ∀ entry ∈ r.entries, entry.2.target.name = entry.1 ∧ entry.2.target.isSystem = false

namespace Registry.Foreign

variable {r : Registry} {name : Text} {e : RegistryEntry}

/-- A foreign registry stays so with an entry that is not of the system. -/
theorem setEntry (h : r.Foreign) (hname : e.target.name = name)
    (hsystem : e.target.isSystem = false) : (r.setEntry name e).Foreign := by
  intro entry hentry
  rcases mem_setKey hentry with hold | rfl
  · exact h entry hold
  · exact ⟨hname, hsystem⟩

/-- Declaring a signature keeps a registry foreign. -/
theorem declareSignature (h : r.Foreign) (s : ClassSignature) : (r.declareSignature s).Foreign := by
  have hdeclared : (r.declare s.name s.isInterface).Foreign := by
    unfold Registry.declare
    cases hentry : r.entry? s.name with
    | none => exact h.setEntry rfl rfl
    | some e =>
      dsimp only
      split
      · exact h
      · exact h.setEntry rfl rfl
  unfold Registry.declareSignature
  dsimp only
  split
  · next e he =>
    obtain ⟨hname, hsystem⟩ := hdeclared (s.name, e) (mem_of_getKey? he)
    exact hdeclared.setEntry hname hsystem
  · exact hdeclared

/-- Defining a class of the program keeps a registry foreign. -/
theorem define (h : r.Foreign) {target : ClassRef} (htarget : target.isSystem = false) :
    (r.define target).1.Foreign := by
  unfold Registry.define
  split
  · exact h.setEntry rfl htarget
  · exact h.setEntry rfl htarget

/-- A name resolves to a canonical class in a foreign registry. -/
theorem resolve (h : r.Foreign) (name : Text) : (r.resolve name).Canonical := by
  unfold Registry.resolve Registry.lookup?
  cases hpredefined : ClassRef.predefined? name with
  | some c => exact ClassRef.canonical_of_predefined _ hpredefined
  | none =>
    rw [Option.none_or]
    cases hentry : r.entry? name with
    | none =>
      have hname : (ClassRef.placeholder name false).name = name := rfl
      rw [Option.map_none, Option.getD_none, ClassRef.Canonical, hname, hpredefined]
      rfl
    | some e =>
      obtain ⟨hname, hsystem⟩ := h (name, e) (mem_of_getKey? hentry)
      rw [Option.map_some, Option.getD_some, ClassRef.Canonical, hname, hsystem, hpredefined]
      rfl

end Registry.Foreign

/-- In a session the registry holds classes of the program only. -/
theorem Generator.Session.foreign {options : GeneratorOptions} {declared : List ClassSignature}
    {g : Generator} (h : Generator.Session options declared g) : g.registry.Foreign := by
  induction h with
  | fresh => exact nofun
  | declare _ _ ih => exact ih.declareSignature _
  | define _ _ ih => exact ih.define rfl

/-- Surroundings without configured types whose registry holds no system class. -/
structure Surroundings.Plain (around : Surroundings) : Prop where
  overrides_eq : around.mapper.overrides = []
  foreign : around.registry.Foreign

namespace Surroundings.Plain

variable {around : Surroundings} {c : ClassRef}

/-- Without a type map no name is overridden. -/
theorem override?_eq (h : around.Plain) (name : Text) :
    around.mapper.override? around.registry name = none := by
  simp [TypeMapper.override?, h.overrides_eq, getKey?]

/-- Without a type map the class of a name is canonical. -/
theorem classOf (h : around.Plain) (name : Text) : (around.classOf name).Canonical := by
  rw [Surroundings.classOf, TypeMapper.classOf, h.override?_eq]
  cases hlibrary : libraryClass? name with
  | some c => exact ClassRef.libraryClass?_canonical hlibrary
  | none => exact h.foreign.resolve _

/-- All classes that plain surroundings provide are canonical. -/
theorem provides (h : around.Plain) (hc : around.Provides c) : c.Canonical := by
  cases hc with
  | ofName name hname => exact hname ▸ h.classOf name
  | predefined hpredefined => exact ClassRef.canonical_of_predefined _ hpredefined
  | ofType t ht =>
    rw [TypeMapper.map, h.override?_eq] at ht
    split at ht
    · cases ht
      exact ClassRef.canonical_of_predefined "NSMutableArray" rfl
    · dsimp only at ht
      cases hprimitive : primitiveRef? t.name with
      | some ref =>
        rw [hprimitive, Option.getD_some] at ht
        obtain ⟨scalar, -, hscalar⟩ := Option.map_eq_some_iff.1 hprimitive
        rw [← hscalar] at ht
        cases ht
      | none =>
        rw [hprimitive, Option.getD_none] at ht
        cases ht
        exact h.classOf t.name
  | asProtocol name hunknown hc =>
    -- a placeholder is no system class, so its name is not predefined
    have hforeign : (around.classOf name).isSystem = false := by
      unfold ClassRef.isPlaceholder at hunknown
      unfold ClassRef.isSystem
      simp_all
    have hclass : (ClassRef.predefined? (around.classOf name).name).isSome = false := by
      rw [← h.classOf name, hforeign]
    rw [← hc]
    exact hclass.symm

end Surroundings.Plain

namespace ImportSet

variable {s : ImportSet} {c c' : ClassRef} {name : Text}

/-- What is imported after an insertion was so before or is the class. -/
theorem mem_insert {classes : List ClassRef} (h : c' ∈ insert c classes) :
    c' ∈ classes ∨ c' = c := by
  induction classes with
  | nil => exact .inr (List.mem_singleton.1 h)
  | cons old rest ih =>
    rw [insert] at h
    split at h
    · rcases List.mem_cons.1 h with heq | hrest
      · split at heq
        · exact .inr heq
        · exact .inl (heq ▸ List.mem_cons_self)
      · exact .inl (List.mem_cons_of_mem old hrest)
    · rcases List.mem_cons.1 h with rfl | hrest
      · exact .inl List.mem_cons_self
      · exact (ih hrest).imp_left (List.mem_cons_of_mem old)

/-- The names of imports after an insertion. -/
theorem names_insert {classes : List ClassRef} :
    name ∈ (insert c classes).map ClassRef.name ↔
      name ∈ classes.map ClassRef.name ∨ name = c.name := by
  induction classes with
  | nil => simp [insert]
  | cons old rest ih =>
    rw [insert]
    by_cases hold : old.name = c.name
    · have hname : (if old.isPlaceholder = true then c else old).name = old.name := by
        split
        · exact hold.symm
        · rfl
      rw [if_pos hold, List.map_cons, List.map_cons, hname, List.mem_cons, hold]
      exact ⟨Or.inl, fun h => h.elim id Or.inl⟩
    · rw [if_neg hold, List.map_cons, List.map_cons, List.mem_cons, List.mem_cons, ih, or_assoc]

end ImportSet

namespace References

variable {r : References} {own : Text} {c : ClassRef} {noted : List ClassRef}

/-- Whether a name is imported. -/
def Imports (r : References) (name : Text) : Prop := name ∈ r.imports.names

/-- References whose imports are canonical. -/
def Canonical (r : References) : Prop := ∀ c ∈ r.imports.classes, c.Canonical

/-- What is imported stays so when a class is recorded. -/
theorem imports_add {name : Text} (h : r.Imports name) : (r.add own c).Imports name := by
  unfold add
  split
  · exact h
  · dsimp only [Imports]
    unfold ImportSet.add
    split
    · exact h
    · exact ImportSet.names_insert.2 (.inl h)

/-- A class that is recorded is imported, unless it needs no import. -/
theorem imports_add_self (hid : c.isId = false) (hown : c.name ≠ own) :
    (r.add own c).Imports c.name := by
  have hadd : (r.add own c).imports = r.imports.add c := by simp [add, hid, hown]
  rw [Imports, hadd, ImportSet.add, if_neg (by simp [hid])]
  exact ImportSet.names_insert.2 (.inr rfl)

/-- Recording a canonical class leaves the references canonical. -/
theorem Canonical.add (h : r.Canonical) (hc : c.Canonical) : (r.add own c).Canonical := by
  unfold References.add
  split
  · exact h
  · intro c' hc'
    dsimp only at hc'
    unfold ImportSet.add at hc'
    split at hc'
    · exact h c' hc'
    · rcases ImportSet.mem_insert hc' with hold | rfl
      · exact h c' hold
      · exact hc

/-- What is imported stays so when classes are recorded. -/
theorem imports_addAll {name : Text} (noted : List ClassRef) (h : r.Imports name) :
    (r.addAll own noted).Imports name := by
  induction noted generalizing r with
  | nil => exact h
  | cons c rest ih => exact ih (imports_add h)

/-- Every recorded class is imported, the class itself and `id` apart. -/
theorem imports_addAll_of_mem (hc : c ∈ noted) (hid : c.isId = false) (hown : c.name ≠ own) :
    (r.addAll own noted).Imports c.name := by
  induction noted generalizing r with
  | nil => cases hc
  | cons first rest ih =>
    rcases List.mem_cons.1 hc with rfl | hrest
    · exact imports_addAll rest (imports_add_self hid hown)
    · exact ih hrest

/-- Recording canonical classes leaves the references canonical. -/
theorem Canonical.addAll (h : r.Canonical) (hnoted : ∀ c ∈ noted, c.Canonical) :
    (r.addAll own noted).Canonical := by
  induction noted generalizing r with
  | nil => exact h
  | cons c rest ih =>
    rw [List.forall_mem_cons] at hnoted
    exact ih (h.add hnoted.1) hnoted.2

end References

end JavaObjC
