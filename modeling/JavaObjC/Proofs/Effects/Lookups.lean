import JavaObjC.Proofs.Effects.Library
import JavaObjC.Proofs.Links.Consistency

/-!
# Surroundings in which a name is not used

The name of a method is used for nothing else if no configured type, no class,
no parameter and no keyword of an initializer is written with it. Then whatever
an action writes that it has looked up, the name does not stand in it. Besides,
no method of the program may be taken for appending to a builder. What an
action gives is described for the results only, since what it leaves behind
plays no part in the texts.
-/

namespace JavaObjC

open Generating Fragments

/-- A class in whose signature the name of a method is not written, apart from the method
itself. -/
structure ClassSignature.Avoids (f : MethodName) (c : ClassSignature) : Prop where
  name : c.name.IsWord ∧ c.name ≠ f.text
  parameters : ∀ m ∈ c.methods, ∀ p ∈ m.parameterNames, Shows f 0 p
  initializers : ∀ m ∈ c.constructors, ∀ w ∈ selectorKeywords "init" true m.parameterNames,
    Shows f 0 w
  /-- What a method named `append` gives is no string builder. -/
  builders : ∀ m ∈ c.methods, LibraryCall.word m.name = "append" →
    CollectionKind.of? m.result ≠ some .builder

/-- Surroundings in which the name of a method is used for nothing else. -/
structure Surroundings.Avoids (f : MethodName) (around : Surroundings) : Prop where
  targets : ∀ o ∈ around.mapper.overrides, Shows f 0 o.2
  classes : ∀ e ∈ around.registry.entries, Shows f 0 e.2.target.name
  known : ∀ c ∈ around.knownClasses.map Prod.snd, c.Avoids f

section Classes

variable {f : MethodName} {around : Surroundings} {name : Text} {c : ClassSignature}
  {m : MethodSignature} {arity : Nat}

/-- The class of a name that shows no call shows none. -/
theorem Shows.lookup? (haround : around.Avoids f) (hname : Shows f 0 name) {target : ClassRef}
    (h : around.registry.lookup? name = some target) : Shows f 0 target.name := by
  rw [Registry.lookup?, Option.or_eq_some_iff] at h
  rcases h with h | ⟨-, h⟩
  · rwa [predefined?_name h]
  · obtain ⟨e, he, rfl⟩ := Option.map_eq_some_iff.1 h
    exact haround.classes _ (mem_of_getKey? he)

/-- A type in whose name the method's name does not stand. -/
def TypeRef.Avoids (f : MethodName) : TypeRef → Prop
  | .scalar name => Shows f 0 name
  | .object target => Shows f 0 target.name

/-- The target type of a name that shows no call avoids the method. -/
theorem TypeRef.Avoids.targetRef (haround : around.Avoids f) (hname : Shows f 0 name) :
    (TypeMapper.targetRef around.registry name).Avoids f := by
  unfold TypeMapper.targetRef
  split
  · exact hname
  · change Shows f 0 (ClassRef.name _)
    cases h : around.registry.lookup? name with
    | some target => exact .lookup? haround hname h
    | none =>
      rw [Option.getD_none, ClassRef.system]
      cases hsystem : ClassRef.predefined? name with
      | none => exact hname
      | some target => simpa [predefined?_name hsystem] using hname

/-- A configured type. -/
theorem Surroundings.Avoids.override? (haround : around.Avoids f) {ref : TypeRef}
    (h : around.mapper.override? around.registry name = some ref) : ref.Avoids f := by
  unfold TypeMapper.override? at h
  split at h
  · next target htarget =>
    split at h
    · cases h
    · obtain rfl := Option.some.inj h
      rw [Option.or_eq_some_iff] at htarget
      refine .targetRef haround ?_
      rcases htarget with htarget | ⟨-, htarget⟩
      · exact haround.targets _ (mem_of_getKey? htarget)
      · exact haround.targets _ (mem_of_getKey? htarget)
  · cases h

/-- The Foundation class for a library class. -/
theorem Shows.libraryClass (f : MethodName) {target : ClassRef}
    (h : target ∈ libraryClasses.map Prod.fst) : Shows f 0 target.name := by
  simp only [libraryClasses, List.map_cons, List.map_nil, List.mem_cons, List.not_mem_nil,
    or_false] at h
  rcases h with rfl | rfl | rfl | rfl | rfl | rfl | rfl | rfl | rfl | rfl
  · exact .whole f (c := "NSObject") (by simp [wholes])
  · exact .whole f (c := "NSString") (by simp [wholes])
  · exact .whole f (c := "NSMutableString") (by simp [wholes])
  · exact .whole f (c := "NSNumber") (by simp [wholes])
  · exact .whole f (c := "NSMutableArray") (by simp [wholes])
  · exact .whole f (c := "NSMutableDictionary") (by simp [wholes])
  · exact .whole f (c := "NSMutableSet") (by simp [wholes])
  · exact .whole f (c := "NSException") (by simp [wholes])
  · exact .whole f (c := "NSCopying") (by simp [wholes])
  · exact .whole f (c := "NSCoding") (by simp [wholes])

/-- The class that stands for another one. -/
theorem Shows.classOf (haround : around.Avoids f) (hname : Shows f 0 (simpleName name)) :
    Shows f 0 (around.classOf name).name := by
  unfold Surroundings.classOf TypeMapper.classOf
  split
  · next target htarget =>
    obtain ⟨ref, href, hobject⟩ := Option.bind_eq_some_iff.1 htarget
    have havoids := haround.override? href
    cases ref with
    | scalar _ => cases hobject
    | object c =>
      obtain rfl := Option.some.inj hobject
      exact havoids
  · cases hlibrary : libraryClass? name with
    | some target =>
      obtain ⟨entry, hentry, rfl⟩ := Option.map_eq_some_iff.1 hlibrary
      exact .libraryClass f (List.mem_map_of_mem (List.mem_of_find?_eq_some hentry))
    | none =>
      rw [Option.getD_none, Registry.resolve]
      cases hfound : around.registry.lookup? (simpleName name) with
      | none => exact hname
      | some target => exact .lookup? haround hname hfound

/-- The type that stands for another one. -/
theorem TypeRef.Avoids.map (haround : around.Avoids f) {t : JavaType}
    (ht : t.isArray = false → Shows f 0 t.simple) :
    (around.mapper.map around.registry t).Avoids f := by
  unfold TypeMapper.map
  split
  · exact .whole f (c := "NSMutableArray") (by simp [wholes])
  · next harray =>
    split
    · next ref href => exact haround.override? href
    · cases hscalar : primitiveRef? t.name with
      | none => exact Shows.classOf haround (ht (by simpa using harray))
      | some ref =>
        have hall : ∀ scalar ∈ primitiveScalars.map Prod.snd, scalar ∈ wholes := by
          simp [primitiveScalars, wholes]
        obtain ⟨_, hname, rfl⟩ := Option.map_eq_some_iff.1 hscalar
        obtain ⟨scalar, hfound, heq⟩ := Option.bind_eq_some_iff.1 hname
        obtain rfl := Option.some.inj heq
        exact .whole f (hall scalar (Text.mem_of_find? hfound))

/-- A target type that avoids the method shows no call of it. -/
theorem Shows.render {ref : TypeRef} (h : ref.Avoids f) : Shows f 0 ref.render := by
  unfold TypeRef.render
  split
  · split
    · exact .whole f (by simp [wholes])
    · exact h
  · next target =>
    have htarget : Shows f 0 target.name := h
    split_ifs
    · exact .whole f (by simp [wholes])
    · exact (htarget.keyed (by simp [openings])).followed (by simp [endings])
    · exact htarget.followed (by simp [endings])

namespace Surroundings.Avoids

/-- The classes above one avoid the method. -/
theorem hierarchy (haround : around.Avoids f) (h : c ∈ around.hierarchy name) : c.Avoids f :=
  haround.known c (mem_of_mem_hierarchy h)

/-- Members that are found avoid the method. -/
theorem members? (haround : around.Avoids f) (h : around.members? name = some c) :
    c.Avoids f := haround.known c (mem_knownClasses h)

/-- The name of the class itself shows no call. -/
theorem ownName (haround : around.Avoids f) : Shows f 0 around.ownName := by
  unfold Surroundings.ownName
  cases hunit : around.unit with
  | none => exact .nil f
  | some unit =>
    obtain ⟨hword, hne⟩ := (haround.known unit (by simp [knownClasses, hunit])).name
    exact .of_isWord hword hne

/-- The keywords of a method that is found, apart from the name. -/
theorem method? (haround : around.Avoids f) (h : around.method? name t arity = some m) :
    (∀ p ∈ m.parameterNames, Shows f 0 p) ∧ (LibraryCall.word t = "append" →
      CollectionKind.of? m.result ≠ some .builder) := by
  obtain ⟨c, hc, hmethod⟩ := List.exists_of_findSome?_eq_some h
  have hfound := List.find?_some hmethod
  simp only [Bool.and_eq_true, decide_eq_true_eq] at hfound
  have hclass := haround.hierarchy hc
  have hmem := List.mem_of_find?_eq_some hmethod
  exact ⟨hclass.parameters m hmem, fun heq => hclass.builders m hmem (hfound.1 ▸ heq)⟩

end Surroundings.Avoids

end Classes

namespace Lower

variable {α : Type} {f : MethodName}

/-- Whatever an action gives in surroundings in which a name is not used has a property. -/
abbrev Returns (f : MethodName) (x : Lower α) (P : α → Prop) : Prop :=
  Answers (Surroundings.Avoids f) x P

/-- The class that an action records. -/
theorem classNamed_returns {name : Text} (hname : Shows f 0 (simpleName name)) :
    Returns f (classNamed name) fun c => Shows f 0 c.name := by
  refine Answers.read.bind fun around haround => .ite (fun _ => ?_) fun _ => .after fun _ => ?_
  · exact .pure (.whole f (c := "id") (by simp [wholes]))
  · exact .pure (.classOf haround hname)

/-- The type that an action records. -/
theorem mapType_returns {t : JavaType} (ht : t.isArray = false → Shows f 0 t.simple) :
    Returns f (mapType t) (TypeRef.Avoids f) := by
  refine Answers.read.bind fun around haround => .ite (fun _ => ?_) fun _ => ?_
  · exact .pure (.whole f (c := "id") (by simp [wholes]))
  · have hmap := TypeRef.Avoids.map haround ht
    dsimp only
    generalize around.mapper.map around.registry t = ref at hmap ⊢
    cases ref with
    | object c => exact .after fun _ => .pure hmap
    | scalar name => exact .pure hmap

end Lower

end JavaObjC
