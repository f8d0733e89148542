import JavaObjC.Lowering.Surroundings
import Mathlib.Data.List.Forall2
import Mathlib.Data.List.Nodup

/-!
# Registries that answer alike

Units see other units through the registry alone, and the registry through
look-ups alone. Two signatures are alike when every look-up of a member gives
the same answer, two registries when every name has alike entries, and two
surroundings when they differ in such registries only. Every question that a
body asks its surroundings is then answered the same way, whatever order the
classes were declared in and however their members are listed.
-/

namespace JavaObjC

section Tables

variable {κ α β : Type} [DecidableEq κ]

/-- Setting a key adds it to the keys of a table. -/
theorem mem_keys_setKey {key other : κ} {value : α} {entries : List (κ × α)} :
    other ∈ (setKey key value entries).map Prod.fst ↔
      other = key ∨ other ∈ entries.map Prod.fst := by
  induction entries with
  | nil => simp [setKey]
  | cons entry rest ih =>
    by_cases hk : entry.1 = key
    · simp [setKey, hk]
    · rw [setKey, if_neg hk, List.map_cons, List.mem_cons, ih, List.map_cons, List.mem_cons]
      exact or_left_comm

/-- Setting a key of a table keeps its keys distinct. -/
theorem nodup_keys_setKey (key : κ) (value : α) {entries : List (κ × α)}
    (h : (entries.map Prod.fst).Nodup) : ((setKey key value entries).map Prod.fst).Nodup := by
  induction entries with
  | nil => exact List.nodup_singleton key
  | cons entry rest ih =>
    rw [List.map_cons, List.nodup_cons] at h
    by_cases hk : entry.1 = key
    · rw [setKey, if_pos hk, List.map_cons, List.nodup_cons]
      exact h
    · rw [setKey, if_neg hk, List.map_cons, List.nodup_cons, mem_keys_setKey, not_or]
      exact ⟨⟨hk, h.1⟩, ih h.2⟩

end Tables

/-- Signatures that answer every look-up alike. Fields count by name and methods by name in
their order; how different names are mixed does not matter. -/
structure ClassSignature.Alike (s t : ClassSignature) : Prop where
  name_eq : t.name = s.name
  isInterface_eq : t.isInterface = s.isInterface
  base_eq : t.base = s.base
  interfaces_eq : t.interfaces = s.interfaces
  typeParameters_iff : ∀ name, name ∈ t.typeParameters ↔ name ∈ s.typeParameters
  field_eq : ∀ name, t.field? name = s.field? name
  methods_eq : ∀ name, t.methods.filter (·.name = name) = s.methods.filter (·.name = name)
  constructors_eq : t.constructors = s.constructors

namespace ClassSignature.Alike

variable {s t u : ClassSignature}

/-- A signature answers like itself. -/
theorem refl (s : ClassSignature) : Alike s s :=
  ⟨rfl, rfl, rfl, rfl, fun _ => Iff.rfl, fun _ => rfl, fun _ => rfl, rfl⟩

/-- A method is found by its name first and then by its arity. -/
theorem method_eq (h : Alike s t) (name : Text) (arity : Nat) :
    t.method? name arity = s.method? name arity := by
  have hfind : ∀ c : ClassSignature, c.method? name arity =
      (c.methods.filter (·.name = name)).find? (·.arity = arity) := by
    intro c
    rw [method?, List.find?_filter]
    simp only [decide_eq_true_eq, Bool.decide_and]
  rw [hfind, hfind, h.methods_eq]

/-- Alike signatures have the same constructor of an arity. -/
theorem constructor_eq (h : Alike s t) (arity : Nat) :
    t.constructor? arity = s.constructor? arity := by
  rw [constructor?, constructor?, h.constructors_eq]

/-- Alike signatures have the same supertypes. -/
theorem supertypes_eq (h : Alike s t) : t.supertypes = s.supertypes := by
  rw [supertypes, supertypes, h.base_eq, h.interfaces_eq]

end ClassSignature.Alike

/-- Entries of a registry with alike signatures. -/
structure RegistryEntry.Alike (e f : RegistryEntry) : Prop where
  target_eq : f.target = e.target
  isDefined_eq : f.isDefined = e.isDefined
  signature : Option.Rel ClassSignature.Alike e.signature f.signature

namespace Registry

/-- Every name has one entry. -/
def Distinct (r : Registry) : Prop := (r.entries.map Prod.fst).Nodup

/-- Registries in which every name has alike entries. -/
structure Alike (r r' : Registry) : Prop where
  entry : ∀ name, Option.Rel RegistryEntry.Alike (r.entry? name) (r'.entry? name)
  distinct : r.Distinct
  distinct' : r'.Distinct

/-- Replacing or adding an entry keeps the names apart. -/
theorem setEntry_distinct {r : Registry} (h : r.Distinct) (name : Text) (e : RegistryEntry) :
    (r.setEntry name e).Distinct := nodup_keys_setKey name e h

/-- Declaring a class keeps the names apart. -/
theorem declare_distinct {r : Registry} (h : r.Distinct) (name : Text) (isProtocol : Bool) :
    (r.declare name isProtocol).Distinct := by
  unfold declare
  dsimp only
  cases r.entry? name with
  | none => exact setEntry_distinct h _ _
  | some e =>
    dsimp only
    split
    · exact h
    · exact setEntry_distinct h _ _

/-- Declaring a signature keeps the names apart. -/
theorem declareSignature_distinct {r : Registry} (h : r.Distinct) (s : ClassSignature) :
    (r.declareSignature s).Distinct := by
  unfold declareSignature
  dsimp only
  split
  · exact setEntry_distinct (declare_distinct h _ _) _ _
  · exact declare_distinct h _ _

namespace Alike

variable {r r' : Registry}

/-- Alike registries find the same class of a name. -/
theorem lookup_eq (h : Alike r r') (name : Text) : r'.lookup? name = r.lookup? name := by
  have hentry := h.entry name
  unfold lookup?
  generalize r.entry? name = e at hentry ⊢
  generalize r'.entry? name = e' at hentry ⊢
  cases hentry with
  | none => rfl
  | some he => simp only [Option.map_some, he.target_eq]

/-- Alike registries resolve a name to the same class. -/
theorem resolve_eq (h : Alike r r') (name : Text) : r'.resolve name = r.resolve name := by
  rw [resolve, resolve, h.lookup_eq]

/-- Alike registries have alike signatures of a name. -/
theorem signature (h : Alike r r') (name : Text) :
    Option.Rel ClassSignature.Alike (r.signature? name) (r'.signature? name) := by
  have hentry := h.entry name
  unfold signature?
  generalize r.entry? name = e at hentry ⊢
  generalize r'.entry? name = e' at hentry ⊢
  cases hentry with
  | none => exact .none
  | some he => exact he.signature

end Alike

end Registry

namespace TypeMapper

variable {r r' : Registry}

/-- The override of a name is the same with alike registries. -/
theorem override_eq (h : r.Alike r') (m : TypeMapper) (name : Text) :
    m.override? r' name = m.override? r name := by
  unfold override? targetRef
  simp only [h.lookup_eq]

/-- The class of a name is the same with alike registries. -/
theorem classOf_eq (h : r.Alike r') (m : TypeMapper) (name : Text) :
    m.classOf r' name = m.classOf r name := by
  rw [classOf, classOf, override_eq h, h.resolve_eq]

/-- A type is mapped the same with alike registries. -/
theorem map_eq (h : r.Alike r') (m : TypeMapper) (t : JavaType) : m.map r' t = m.map r t := by
  rw [map, map, override_eq h, classOf_eq h]

end TypeMapper

/-- Surroundings that differ in alike registries only. -/
structure Surroundings.Alike (s s' : Surroundings) : Prop where
  registry : s.registry.Alike s'.registry
  mapper_eq : s'.mapper = s.mapper
  unit_eq : s'.unit = s.unit
  imported_eq : s'.imported = s.imported
  isStatic_eq : s'.isStatic = s.isStatic
  isConstructor_eq : s'.isConstructor = s.isConstructor
  result_eq : s'.result = s.result

namespace Surroundings.Alike

variable {s s' : Surroundings}

theorem ownName_eq (h : Alike s s') : s'.ownName = s.ownName := by
  rw [ownName, ownName, h.unit_eq]

/-- Alike surroundings have the same class above. -/
theorem baseName_eq (h : Alike s s') : s'.baseName = s.baseName := by
  rw [baseName, baseName, h.unit_eq]

/-- Alike surroundings have the same type parameters. -/
theorem isTypeParameter_eq (h : Alike s s') (name : Text) :
    s'.isTypeParameter name = s.isTypeParameter name := by
  rw [isTypeParameter, isTypeParameter, h.unit_eq]

/-- Alike surroundings agree on which types are parameters. -/
theorem isParameterType_eq (h : Alike s s') (t : JavaType) :
    s'.isParameterType t = s.isParameterType t := by
  rw [isParameterType, isParameterType, h.isTypeParameter_eq]

/-- Alike surroundings read a result type the same. -/
theorem resultType_eq (h : Alike s s') (t : JavaType) : s'.resultType t = s.resultType t := by
  rw [resultType, resultType, h.isParameterType_eq]

/-- Alike surroundings give a name the same class. -/
theorem classOf_eq (h : Alike s s') (name : Text) : s'.classOf name = s.classOf name := by
  rw [classOf, classOf, h.mapper_eq, TypeMapper.classOf_eq h.registry]

/-- Alike surroundings map a type the same. -/
theorem map_eq (h : Alike s s') (t : JavaType) :
    s'.mapper.map s'.registry t = s.mapper.map s.registry t := by
  rw [h.mapper_eq, TypeMapper.map_eq h.registry]

/-- Alike surroundings agree on which names are classes. -/
theorem isClassName_eq (h : Alike s s') (name : Text) :
    s'.isClassName name = s.isClassName name := by
  cases name with
  | nil => rfl
  | cons first rest =>
    simp only [isClassName, h.imported_eq, h.ownName_eq, h.isTypeParameter_eq,
      h.registry.lookup_eq]

/-- Alike surroundings agree on which target types are the same. -/
theorem isSameType_eq (h : Alike s s') (a b : TypeRef) : s'.isSameType a b = s.isSameType a b := by
  cases a <;> cases b <;> simp only [isSameType, h.registry.lookup_eq]

/-- Alike surroundings find alike members of a class. -/
theorem members (h : Alike s s') (name : Text) :
    Option.Rel ClassSignature.Alike (s.members? name) (s'.members? name) := by
  have hsignature := h.registry.signature (simpleName name)
  unfold members?
  rw [h.unit_eq]
  cases s.unit with
  | none => exact hsignature
  | some unit =>
    dsimp only
    split
    · exact .some (.refl unit)
    · exact hsignature

/-- Alike surroundings agree on which classes have members. -/
theorem members_isSome_eq (h : Alike s s') (name : Text) :
    (s'.members? name).isSome = (s.members? name).isSome := by
  have hmembers := h.members name
  generalize s.members? name = c at hmembers ⊢
  generalize s'.members? name = c' at hmembers ⊢
  cases hmembers <;> rfl

/-- What is read off the members of a class, if it has any, and is the same for alike ones. -/
theorem members_bind_eq {α : Type} (h : Alike s s') (name : Text)
    {f : ClassSignature → Option α} (hf : ∀ c c', ClassSignature.Alike c c' → f c' = f c) :
    (s'.members? name).bind f = (s.members? name).bind f := by
  have hmembers := h.members name
  generalize s.members? name = c at hmembers ⊢
  generalize s'.members? name = c' at hmembers ⊢
  cases hmembers with
  | none => rfl
  | some hc => exact hf _ _ hc

/-- Alike surroundings agree on the declared name of a class with members. -/
theorem members_name_eq (h : Alike s s') (name : Text) :
    (s'.members? name).map ClassSignature.name = (s.members? name).map ClassSignature.name := by
  rw [Option.map_eq_bind, Option.map_eq_bind]
  exact h.members_bind_eq name fun c c' hc => congrArg some hc.name_eq

/-- Alike surroundings agree on the type of a declared field. -/
theorem declaredFieldType_eq (h : Alike s s') (className name : Text) :
    s'.declaredFieldType className name = s.declaredFieldType className name := by
  rw [declaredFieldType, declaredFieldType,
    h.members_bind_eq className fun c c' hc => hc.field_eq name]

/-- Classes that answer alike are visited in the same order. -/
theorem search (h : Alike s s') (seen queue : List Text) :
    List.Forall₂ ClassSignature.Alike (s.search seen queue) (s'.search seen queue) := by
  fun_induction Surroundings.search s seen queue with
  | case1 seen =>
    rw [Surroundings.search]
    exact .nil
  | case2 seen name rest hskip ih =>
    rw [Surroundings.search, dif_pos hskip]
    exact ih
  | case3 seen name rest hskip hnone ih =>
    have hmembers := h.members name
    rw [hnone] at hmembers
    rw [Surroundings.search, dif_neg hskip]
    split
    · exact ih
    · next c' hc' =>
      rw [hc'] at hmembers
      cases hmembers
  | case4 seen name rest hskip c hc ih =>
    have hmembers := h.members name
    rw [hc] at hmembers
    rw [Surroundings.search, dif_neg hskip]
    split
    · next hnone' =>
      rw [hnone'] at hmembers
      cases hmembers
    · next c' hc' =>
      rw [hc'] at hmembers
      cases hmembers with
      | some hsame =>
        rw [hsame.supertypes_eq]
        exact .cons hsame ih

/-- A hierarchy is searched the same way in alike surroundings. -/
theorem hierarchy (h : Alike s s') (name : Text) :
    List.Forall₂ ClassSignature.Alike (s.hierarchy name) (s'.hierarchy name) :=
  h.search [] [name]

/-- Alike surroundings find the same method. -/
theorem method_eq (h : Alike s s') (className name : Text) (arity : Nat) :
    s'.method? className name arity = s.method? className name arity := by
  have hhierarchy := h.hierarchy className
  unfold method?
  generalize s.hierarchy className = classes at hhierarchy ⊢
  generalize s'.hierarchy className = classes' at hhierarchy ⊢
  induction hhierarchy with
  | nil => rfl
  | cons hc _ ih => rw [List.findSome?_cons, List.findSome?_cons, hc.method_eq, ih]

/-- The same field is found, in a class of the same name. -/
theorem field (h : Alike s s') (name : Text) :
    (s'.field? name).map (fun found => (found.1, found.2.name)) =
      (s.field? name).map fun found => (found.1, found.2.name) := by
  have hhierarchy := h.hierarchy s.ownName
  unfold field?
  rw [h.ownName_eq]
  generalize s.hierarchy s.ownName = classes at hhierarchy ⊢
  generalize s'.hierarchy s.ownName = classes' at hhierarchy ⊢
  induction hhierarchy with
  | nil => rfl
  | @cons c c' _ _ hc _ ih =>
    rw [List.findSome?_cons, List.findSome?_cons, hc.field_eq name]
    cases c.field? name with
    | none => exact ih
    | some f => simp only [Option.map_some, hc.name_eq]

end Surroundings.Alike

end JavaObjC
