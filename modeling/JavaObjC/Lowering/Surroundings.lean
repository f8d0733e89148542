import JavaObjC.Lowering.Value

/-!
# The surroundings of a member

What a member's body is generated against: the classes of the run, the
configured types, and the class the unit declares. A name is looked for in the
class it starts from and then in the supertypes, superclass before interfaces,
nearer types before farther ones. Names are told apart as they are written, so
every type is visited once, unless the first name has its package.
-/

namespace JavaObjC

/-- What is known while a body is generated. -/
structure Surroundings where
  registry : Registry := {}
  mapper : TypeMapper := {}
  /-- The class or interface the unit declares, once it is known. -/
  unit : Option ClassSignature := none
  /-- The simple names that import declarations make visible. -/
  imported : List Text := []
  /-- Whether the member belongs to the class rather than to its instances. -/
  isStatic : Bool := false
  isConstructor : Bool := false
  /-- What the member returns, if it is a method. -/
  result : JavaType := .unknown

/-- A name that is seen is one of the unseen names less, if it was one of them. -/
theorem length_unseen_add_le {name : Text} {seen : List Text} (hname : name ∉ seen)
    (names : List Text) : (names.filter (· ∉ name :: seen)).length +
      (if name ∈ names then 1 else 0) ≤ (names.filter (· ∉ seen)).length := by
  induction names with
  | nil => simp
  | cons other names ih =>
    by_cases hother : other = name
    · subst hother
      have hle : (names.filter (· ∉ other :: seen)).length ≤ (names.filter (· ∉ seen)).length :=
        Nat.le_trans (Nat.le_add_right _ _) ih
      simpa [List.filter_cons, hname] using hle
    · by_cases hseen : other ∈ seen
      · simpa [List.filter_cons, hother, hseen, Ne.symm hother] using ih
      · simp only [List.filter_cons, List.mem_cons, hother, hseen, Ne.symm hother, false_or,
          not_false_eq_true, decide_true, if_true, List.length_cons] at ih ⊢
        omega

namespace Surroundings

/-- The name of the unit's own class, empty as long as there is none. -/
def ownName (s : Surroundings) : Text := (s.unit.map ClassSignature.name).getD []

/-- The simple name of the superclass of the unit's own class. -/
def baseName (s : Surroundings) : Text := (s.unit.bind ClassSignature.base).getD []

/-- Whether a name is a type parameter of the unit's own class. -/
def isTypeParameter (s : Surroundings) (name : Text) : Bool :=
  match s.unit with
  | some unit => unit.typeParameters.contains name
  | none => false

/-- Whether a type is a type parameter of the unit's own class. -/
def isParameterType (s : Surroundings) (t : JavaType) : Bool :=
  s.isTypeParameter t.name && !t.isArray

/-- The signature of a class by its possibly qualified name; the unit's own
class comes before the others. -/
def members? (s : Surroundings) (name : Text) : Option ClassSignature :=
  let simple := simpleName name
  match s.unit with
  | some unit => if simple = unit.name then some unit else s.registry.signature? simple
  | none => s.registry.signature? simple

/-- The classes with a signature by name, the unit's own first. -/
def knownClasses (s : Surroundings) : List (Text × ClassSignature) :=
  s.unit.toList.map (fun unit => (unit.name, unit))
    ++ s.registry.entries.filterMap fun (name, e) => e.signature.map fun sig => (name, sig)

/-- A class that is found by a name is known by its simple name. -/
theorem entry_mem_knownClasses {s : Surroundings} {name : Text} {c : ClassSignature}
    (h : s.members? name = some c) : (simpleName name, c) ∈ s.knownClasses := by
  have hregistry : s.registry.signature? (simpleName name) = some c →
      (simpleName name, c) ∈ s.knownClasses := by
    intro hfound
    obtain ⟨e, he, hsignature⟩ := Option.bind_eq_some_iff.1 hfound
    refine List.mem_append_right _ (List.mem_filterMap.2 ⟨_, mem_of_getKey? he, ?_⟩)
    simp [hsignature]
  unfold members? at h
  cases hunit : s.unit with
  | none =>
    rw [hunit] at h
    exact hregistry h
  | some unit =>
    rw [hunit] at h
    dsimp only at h
    split at h
    · next hname =>
      obtain rfl := Option.some.inj h
      simp [knownClasses, hunit, hname]
    · exact hregistry h

theorem mem_knownClasses {s : Surroundings} {name : Text} {c : ClassSignature}
    (h : s.members? name = some c) : c ∈ s.knownClasses.map Prod.snd :=
  List.mem_map_of_mem (f := Prod.snd) (entry_mem_knownClasses h)

/-- The supertypes of all known classes. -/
def knownSupertypes (s : Surroundings) : List Text :=
  (s.knownClasses.map Prod.snd).flatMap ClassSignature.supertypes

theorem supertypes_subset {s : Surroundings} {name : Text} {c : ClassSignature}
    (h : s.members? name = some c) : c.supertypes ⊆ s.knownSupertypes :=
  fun _ hupper => List.mem_flatMap.2 ⟨c, mem_knownClasses h, hupper⟩

/-- How many names a search can still visit: supertypes that it has not seen, and names in the queue
that are no supertypes. -/
def unvisited (s : Surroundings) (seen queue : List Text) : Nat :=
  (s.knownSupertypes.filter (· ∉ seen)).length + (queue.filter (· ∉ s.knownSupertypes)).length

/-- The name at the front of the queue is seen once. -/
theorem unvisited_lt {s : Surroundings} {seen rest uppers : List Text} {name : Text}
    (hname : name ∉ seen) (huppers : uppers ⊆ s.knownSupertypes) :
    s.unvisited (name :: seen) (rest ++ uppers) < s.unvisited seen (name :: rest) := by
  have huppers' : uppers.filter (· ∉ s.knownSupertypes) = [] :=
    List.filter_eq_nil_iff.2 fun upper hupper => by simpa using huppers hupper
  unfold unvisited
  rw [List.filter_append, huppers', List.append_nil, List.filter_cons]
  generalize s.knownSupertypes = names
  have hnames := length_unseen_add_le hname names
  by_cases hmem : name ∈ names
  · simp only [hmem, if_true, not_true_eq_false, decide_false, Bool.false_eq_true, if_false] at hnames ⊢
    omega
  · simp only [hmem, if_false, not_false_eq_true, decide_true, if_true, List.length_cons] at hnames ⊢
    omega

/-- A class that is found declares no more supertypes than there are. -/
theorem length_supertypes_le {s : Surroundings} {name : Text} {c : ClassSignature}
    (h : s.members? name = some c) : c.supertypes.length ≤ s.knownSupertypes.length := by
  obtain ⟨before, after, heq⟩ := List.append_of_mem (mem_knownClasses h)
  simp only [knownSupertypes, heq, List.flatMap_append, List.flatMap_cons, List.length_append]
  omega

/-- A bound for the steps of a search: a visit adds as many names to the queue as a class has
supertypes, and every other step takes one name away. -/
def stepBound (s : Surroundings) (seen queue : List Text) : Nat :=
  s.unvisited seen queue * (s.knownSupertypes.length + 1) + queue.length

/-- A visit leaves fewer steps. -/
theorem stepBound_lt {s : Surroundings} {seen rest uppers : List Text} {name : Text}
    (hname : name ∉ seen) (huppers : uppers ⊆ s.knownSupertypes)
    (hlength : uppers.length ≤ s.knownSupertypes.length) :
    s.stepBound (name :: seen) (rest ++ uppers) < s.stepBound seen (name :: rest) := by
  have hunvisited : s.unvisited (name :: seen) (rest ++ uppers) + 1
      ≤ s.unvisited seen (name :: rest) := unvisited_lt hname huppers
  have hless := Nat.mul_le_mul_right (s.knownSupertypes.length + 1) hunvisited
  rw [Nat.succ_mul] at hless
  simp only [stepBound, List.length_append, List.length_cons]
  omega

/-- Passing a name over leaves fewer steps. -/
theorem stepBound_rest_lt (s : Surroundings) (seen : List Text) (name : Text) (rest : List Text) :
    s.stepBound seen rest < s.stepBound seen (name :: rest) := by
  have hrest : s.unvisited seen rest ≤ s.unvisited seen (name :: rest) :=
    Nat.add_le_add_left (((List.sublist_cons_self name rest).filter _).length_le) _
  have hless := Nat.mul_le_mul_right (s.knownSupertypes.length + 1) hrest
  simp only [stepBound, List.length_cons]
  omega

/-- The classes that the names in a queue lead to through declared supertypes, breadth first. A name
that was seen is passed over, so cycles end. -/
def search (s : Surroundings) (seen queue : List Text) : List ClassSignature :=
  match queue with
  | [] => []
  | name :: rest =>
    if _hskip : name = [] ∨ name ∈ seen then s.search seen rest
    else
      match _hfound : s.members? name with
      | none => s.search (name :: seen) rest
      | some c => c :: s.search (name :: seen) (rest ++ c.supertypes)
termination_by s.stepBound seen queue
decreasing_by
  · exact s.stepBound_rest_lt seen name rest
  · have hless : s.stepBound (name :: seen) (rest ++ []) < s.stepBound seen (name :: rest) :=
      stepBound_lt (fun h => _hskip (.inr h)) (List.nil_subset _) (Nat.zero_le _)
    rwa [List.append_nil] at hless
  · exact stepBound_lt (fun h => _hskip (.inr h)) (supertypes_subset _hfound)
      (length_supertypes_le _hfound)

/-- A class and its supertypes, nearest first. -/
def hierarchy (s : Surroundings) (name : Text) : List ClassSignature := s.search [] [name]

/-- A class that is found comes before its supertypes. -/
theorem hierarchy_of_members {s : Surroundings} {name : Text} {c : ClassSignature}
    (hname : name ≠ []) (h : s.members? name = some c) :
    s.hierarchy name = c :: s.search [name] c.supertypes := by
  rw [hierarchy, search, dif_neg (by simp [hname])]
  split
  · next hnone =>
    rw [h] at hnone
    cases hnone
  · next found hfound =>
    obtain rfl := Option.some.inj (h.symm.trans hfound)
    rfl

/-- A field of the unit's own class or a supertype, with the class that declares it. -/
def field? (s : Surroundings) (name : Text) : Option (FieldSignature × ClassSignature) :=
  (s.hierarchy s.ownName).findSome? fun c => (c.field? name).map fun f => (f, c)

/-- A method of a class or one of its supertypes. -/
def method? (s : Surroundings) (className name : Text) (arity : Nat) : Option MethodSignature :=
  (s.hierarchy className).findSome? fun c => c.method? name arity

/-- The type of a field as its own class declares it; not known without the class. -/
def declaredFieldType (s : Surroundings) (className name : Text) : JavaType :=
  (((s.members? className).bind fun c => c.field? name).map FieldSignature.type).getD .unknown

/-- Whether a byte is a capital letter. -/
def isCapital (b : UInt8) : Bool := Text.byte 'A' ≤ b && b ≤ Text.byte 'Z'

/-- Whether a name that is no variable denotes a class. -/
def isClassName (s : Surroundings) (name : Text) : Bool :=
  match name with
  | [] => false
  | first :: _ =>
    s.imported.contains name || name == s.ownName || s.isTypeParameter name
      || TypeMapper.isWellKnown name || (s.registry.lookup? name).isSome || isCapital first

/-- The class that stands for a Java class. -/
def classOf (s : Surroundings) (name : Text) : ClassRef := s.mapper.classOf s.registry name

/-- The static type of a result; a type parameter says nothing about it. -/
def resultType (s : Surroundings) (t : JavaType) : JavaType :=
  if s.isParameterType t then .object else t

/-- Whether two types are the same class, which only a known class can be. -/
def isSameType (s : Surroundings) : TypeRef → TypeRef → Bool
  | .object a, .object b => a.name == b.name && (s.registry.lookup? a.name).isSome
  | .scalar _, .scalar _ => true
  | _, _ => false

end Surroundings

end JavaObjC
