import JavaObjC.Proofs.Effects.Lookups
import JavaObjC.Proofs.Formats.Arguments
import JavaObjC.Proofs.Effects.Trees
import JavaObjC.Proofs.Links.DeclaredTypes

/-!
# The names in the types of values

No value of an expression has a type that is not written somewhere: its name and
those of its type arguments stand in a declaration, in the expression itself, or
in what the generator knows about the library. So a property of names holds of
all names in the types of values if it holds of those that the generator gives
and of those that are written.

The types that a class declares stand in its tree. So a property of names that
the names in a tree have is one of all names in the types of the fields and the
results of the methods that the tree declares.
-/

namespace JavaObjC

open Generating Lower Lowering

section Names

variable {names : Text → Prop} {t : JavaType}

/-- The names that the generator itself gives to types. -/
def givenNames : List Text :=
  ["Object", "String", "List", "void", "null", "Class", "Protocol", "Throwable"].map
    Text.ofString ++ unboxSelectors.map fun entry => Text.ofString entry.1

/-- A property of names that those have that the generator gives, and that does not depend on
packages. -/
structure IsVocabulary (names : Text → Prop) : Prop where
  given : ∀ name ∈ givenNames, names name
  simple : ∀ name, names name → names (simpleName name)

/-- Types in which all names have a property. -/
inductive JavaType.Over (names : Text → Prop) : JavaType → Prop where
  | intro {t : JavaType} (hname : names t.name) (harguments : ∀ a ∈ t.arguments, Over names a) :
    Over names t

/-- Types that are not known, or in which all names have a property. -/
def JavaType.Known (names : Text → Prop) (t : JavaType) : Prop := t = .unknown ∨ t.Over names

namespace JavaType

theorem Over.name (h : t.Over names) : names t.name := by
  cases h
  assumption

theorem Over.arguments (h : t.Over names) : ∀ a ∈ t.arguments, a.Over names := by
  cases h
  assumption

/-- Array dimensions do not matter. -/
theorem Over.with_depth (h : t.Over names) (depth : Nat) : Over names { t with depth } :=
  .intro h.name h.arguments

/-- A type without arguments is over a vocabulary when its name is in it. -/
theorem Over.named {name : Text} (h : names name) : (JavaType.named name).Over names :=
  .intro h fun _ ha => nomatch ha

theorem Over.known (h : t.Over names) : t.Known names := .inr h

@[simp] theorem Known.unknown : JavaType.unknown.Known names := .inl rfl

/-- A type without arguments is known when it has no name or one of the vocabulary. -/
theorem Known.named {name : Text} (h : name = [] ∨ names name) : (JavaType.named name).Known names :=
  h.imp (congrArg JavaType.named) Over.named

/-- The elements of an array whose type is known have a known type. -/
theorem Known.element (h : t.Known names) : t.element.Known names := by
  rcases h with rfl | h
  · exact .unknown
  · exact .inr (h.with_depth _)

/-- The arguments of a known type are over the vocabulary, also when its name is missing. -/
theorem Known.arguments (h : t.Known names) : ∀ a ∈ t.arguments, a.Over names := by
  rcases h with rfl | h
  · exact fun _ ha => nomatch ha
  · exact h.arguments

end JavaType

namespace IsVocabulary

variable (h : IsVocabulary names)

include h

/-- The types that the generator itself gives to values. -/
theorem over_of_mem {name : String} (hname : Text.ofString name ∈ givenNames) :
    (JavaType.named name).Over names := .named (h.given _ hname)

/-- The types that the generator makes up itself are known in every vocabulary. -/
theorem constants :
    JavaType.object.Known names ∧ JavaType.string.Known names ∧ JavaType.int.Known names ∧
      JavaType.long.Known names ∧ JavaType.float.Known names ∧ JavaType.double.Known names ∧
      JavaType.boolean.Known names ∧ JavaType.char.Known names ∧ JavaType.void.Known names ∧
      JavaType.null.Known names ∧ (JavaType.named "Class").Known names ∧
      (JavaType.named "Protocol").Known names ∧ (JavaType.named "Boolean").Known names := by
  refine ⟨.inr (h.over_of_mem ?_), .inr (h.over_of_mem ?_), .inr (h.over_of_mem ?_),
    .inr (h.over_of_mem ?_), .inr (h.over_of_mem ?_), .inr (h.over_of_mem ?_),
    .inr (h.over_of_mem ?_), .inr (h.over_of_mem ?_), .inr (h.over_of_mem ?_),
    .inr (h.over_of_mem ?_), .inr (h.over_of_mem ?_), .inr (h.over_of_mem ?_),
    .inr (h.over_of_mem ?_)⟩
  all_goals decide

theorem object : JavaType.object.Over names := h.over_of_mem (by decide)

/-- Primitive types are in every vocabulary. -/
theorem primitive {name : Text} (hname : name ∈ JavaType.primitiveNames) :
    (JavaType.named name).Over names := by
  have hgiven : ∀ name ∈ JavaType.primitiveNames, name ∈ givenNames := by decide
  exact .named (h.given name (hgiven name hname))

/-- A name with an accessor is given. -/
theorem of_unboxSelector {name : Text} (hname : unboxSelector name ≠ []) : names name := by
  unfold unboxSelector at hname
  cases hfound : Text.find? unboxSelectors name with
  | none =>
    rw [hfound] at hname
    exact absurd rfl hname
  | some selector =>
    obtain ⟨key, hmem, rfl⟩ := Text.exists_of_find? hfound
    exact h.given _ (List.mem_append_right _ (List.mem_map_of_mem hmem))

/-- The type that a boxed class wraps is primitive. -/
theorem primitiveOf {name primitive : Text} (hfound : primitiveOf? name = some primitive) :
    (JavaType.named primitive).Over names := by
  have htable : ∀ entry ∈ boxedPrimitives, Text.ofString entry.2 ∈ JavaType.primitiveNames := by
    decide
  obtain ⟨found, hentry, rfl⟩ := Option.map_eq_some_iff.1 hfound
  obtain ⟨key, hmem, -⟩ := Text.exists_of_find? hentry
  exact h.primitive (htable _ hmem)

/-- A boxed type is computed with as its primitive type. -/
theorem numericType (ht : t.Known names) : (JavaObjC.numericType t).Known names := by
  unfold JavaObjC.numericType
  split
  · next found hfound =>
    split
    · exact ht
    · exact .inr (h.primitiveOf hfound)
  · exact ht

/-- Promoting two numeric types gives a type of the vocabulary, whatever they are. -/
theorem promote (a b : JavaType) : (JavaObjC.promote a b).Known names := by
  unfold JavaObjC.promote
  dsimp only
  split
  · next name hname =>
    have hwide : ∀ name ∈ ["double", "float", "long"].map Text.ofString,
        name ∈ JavaType.primitiveNames := by decide
    exact .inr (h.primitive (hwide name (List.mem_of_find?_eq_some hname)))
  · split <;> simp [h.constants]

end IsVocabulary

end Names

/-- Expressions in whose types all names have a property. -/
structure Value.Over (names : Text → Prop) (v : Value) : Prop where
  type : v.type.Known names
  className : ∀ c ∈ v.className, names c

section Values

variable {names : Text → Prop} {v : Value} {t : JavaType} {text : Text}

/-- A text with a type is over a vocabulary when the type is known in it. -/
@[simp] theorem over_typed : (Value.typed text t).Over names ↔ t.Known names :=
  ⟨Value.Over.type, fun h => ⟨h, fun _ hc => nomatch hc⟩⟩

/-- What is known of the type of a value is known whatever its text. -/
theorem Value.Over.with_text (h : v.Over names) (text : Text) : Value.Over names { v with text } :=
  ⟨h.type, h.className⟩

/-- A concatenation is a string. -/
theorem over_concatenation (h : IsVocabulary names) (parts : List Value) :
    (concatenation parts).Over names := by
  have hliteral : ∀ content : Text, Value.Over names
      { text := stringConstant content, type := .string, content := some content } :=
    fun _ => ⟨by simp [h.constants], fun _ hc => nomatch hc⟩
  unfold concatenation
  dsimp only
  split
  · split_ifs
    · simp [h.constants]
    · exact hliteral _
    · simp [h.constants]
  · exact hliteral _
  · simp [h.constants]

end Values

namespace LibraryCall

variable {names : Text → Prop} (h : IsVocabulary names) {receiver v : Value}
  {r name text : Text} {method : String} {arguments : List Value} {type : JavaType}

@[simp] theorem over_answer : (answer r text type).Over names ↔ type.Known names := over_typed

/-- A call of a C function has the type that was asked for. -/
@[simp] theorem over_functionOf :
    (functionOf name arguments type).Over names ↔ type.Known names := over_typed

include h

/-- A type argument, or any object. -/
theorem over_typeArgument (ht : type.Known names) (i : Nat) : (typeArgument type i).Over names := by
  unfold typeArgument
  cases hfound : type.arguments[i]? with
  | none => exact h.object
  | some a => exact ht.arguments a (List.mem_of_getElem? hfound)

theorem over_asInt : (asInt text).Over names := by simp [asInt, h.constants]

theorem over_comparison : (comparison text).Over names := by simp [comparison, h.constants]

theorem over_size : (size r).Over names := over_asInt h

/-- What a string answers is a string, an integer, a truth value or a character, or the receiver
itself. -/
theorem over_onString? (hreceiver : receiver.Over names)
    (hv : onString? receiver method arguments = some v) : v.Over names := by
  unfold onString? at hv
  split at hv
  all_goals try split_ifs at hv
  all_goals cases hv
  all_goals
    first
    | exact hreceiver
    | simp [h.constants, over_asInt h, over_comparison h]

/-- What a list answers has a type of its own or the type of its elements. -/
theorem over_onList? {element : JavaType} (helement : element.Known names)
    (hv : onList? r element method arguments = some v) : v.Over names := by
  unfold onList? at hv
  split at hv
  all_goals try split_ifs at hv
  all_goals cases hv
  all_goals simp [helement, h.constants, over_asInt h, over_size h]

/-- A list type is over a vocabulary when its element type is. -/
theorem over_listOf (ht : type.Over names) : (listOf type).Over names :=
  .intro (h.given "List" (by decide)) (List.forall_mem_singleton.2 ht)

/-- What a map answers has a type of its own or one made of the types of its keys and values. -/
theorem over_onMap? {key element : JavaType} (hkey : key.Over names) (helement : element.Over names)
    (hv : onMap? r key element method arguments = some v) : v.Over names := by
  unfold onMap? at hv
  split at hv <;> cases hv
  all_goals
    simp [helement.known, (over_listOf h hkey).known, (over_listOf h helement).known, h.constants,
      over_comparison h, over_size h]

theorem over_onSet? (hv : onSet? r method arguments = some v) : v.Over names := by
  unfold onSet? at hv
  split at hv <;> cases hv
  all_goals simp [h.constants, over_size h]

/-- A string builder answers itself, a string or an integer. -/
theorem over_onBuilder? (hreceiver : receiver.Over names)
    (hv : onBuilder? receiver method arguments = some v) : v.Over names := by
  unfold onBuilder? at hv
  dsimp only at hv
  split at hv
  · cases hv
    exact ⟨hreceiver.type, fun _ hc => nomatch hc⟩
  · split at hv <;> cases hv <;> simp [h.constants]
  · cases hv
    exact over_asInt h
  · cases hv

theorem over_onCollection? (hv : onCollection? r method arguments = some v) : v.Over names := by
  unfold onCollection? at hv
  split at hv <;> cases hv
  all_goals simp [h.constants, over_comparison h]

theorem over_onBoxed? (hv : onBoxed? r name arguments = some v) : v.Over names := by
  unfold onBoxed? at hv
  dsimp only at hv
  split_ifs at hv with hname hselector
  cases hv
  rw [over_answer]
  exact .inr (.named (h.of_unboxSelector (by simpa using hselector)))

theorem over_onObject? {isDeclared : Bool}
    (hv : onObject? r isDeclared method arguments = some v) : v.Over names := by
  unfold onObject? at hv
  split at hv
  all_goals try split_ifs at hv
  all_goals cases hv
  all_goals simp [h.constants, over_asInt h]

/-- A mathematical function answers a number; the larger of two has their promoted type. -/
theorem over_onMath? (harguments : ∀ a ∈ arguments, a.Over names)
    (hv : onMath? method arguments = some v) : v.Over names := by
  unfold onMath? at hv
  split at hv
  all_goals try dsimp only at hv
  all_goals try split_ifs at hv
  all_goals cases hv
  all_goals simp [h.promote, h.numericType, (harguments _ _).type, h.constants]

theorem over_onSystem? (hv : onSystem? method arguments = some v) : v.Over names := by
  unfold onSystem? at hv
  split at hv <;> cases hv
  all_goals simp [timeSince1970, h.constants]

theorem over_onStringClass? (hv : onStringClass? method arguments = some v) : v.Over names := by
  unfold onStringClass? at hv
  split at hv <;> cases hv
  · exact over_concatenation h _
  · simp [h.constants]

theorem over_onThread? (hv : onThread? method arguments = some v) : v.Over names := by
  unfold onThread? at hv
  split at hv <;> cases hv
  simp [h.constants]

/-- A boxed class reads and boxes numbers, so what it answers may have its own type. -/
theorem over_onBoxedClass? {className : Text} (hclass : names className)
    (hv : onBoxedClass? className name arguments = some v) : v.Over names := by
  have hprimitive : (JavaType.named ((primitiveOf? className).getD [])).Known names := by
    cases hfound : primitiveOf? className with
    | none => exact .unknown
    | some primitive => exact .inr (h.primitiveOf hfound)
  unfold onBoxedClass? at hv
  dsimp only at hv
  split at hv
  · split_ifs at hv <;> cases hv
    all_goals simp [(JavaType.Over.named hclass).known, hprimitive, h.constants]
  · cases hv

theorem over_constant? {className : Text} (hv : constant? className name = some v) :
    v.Over names := by
  have hlisted : ∀ entry ∈ constants.map Prod.snd, entry.2.Known names := by
    simp [constants, h.constants]
  obtain ⟨entry, hfound, rfl⟩ := Option.map_eq_some_iff.1 hv
  exact over_typed.2 (hlisted entry (Text.mem_of_find? hfound))

/-- A new object of the library has the type it was asked for. -/
theorem over_newFoundation? {target : ClassRef} (htype : type.Known names)
    (hv : newFoundation? target type arguments = some v) : v.Over names := by
  unfold newFoundation? newFoundation?.raised at hv
  split at hv
  · split_ifs at hv <;> cases hv
    all_goals simp [htype, h.constants]
  · split_ifs at hv <;> cases hv
    all_goals simp [htype, h.constants]
  · cases hv

end LibraryCall

variable {literals names : Text → Prop}

/-- Classes in whose name, fields and results all names have a property. -/
structure ClassSignature.Over (names : Text → Prop) (c : ClassSignature) : Prop where
  name : c.name = [] ∨ names c.name
  base : ∀ b ∈ c.base, names b
  fields : ∀ f ∈ c.fields, f.type.Known names
  methods : ∀ m ∈ c.methods, m.result.Known names

/-- Surroundings in whose classes all names have a property. -/
def Surroundings.Over (names : Text → Prop) (around : Surroundings) : Prop :=
  ∀ c ∈ around.knownClasses.map Prod.snd, c.Over names

/-- The place among the children at which a node of a kind has the type it is written with. -/
def NodeKind.typePlace? : NodeKind → Option Nat
  | .castExpr | .newArrayExpr => some 0
  | .localVarDecl | .fieldDecl | .instanceofExpr => some 1
  | _ => none

/-- Nodes that have a literal with one property if they are a name, and whose types are written with
names that have another one. -/
structure Node.Over (literals names : Text → Prop) (n : Node) : Prop where
  literal : n.kind = .identifier → literals n.literal
  type : n.kind = .type → (JavaType.ofNode n).Over names
  placed : ∀ i ∈ n.kind.typePlace?, ∀ m ∈ n.children[i]?, (JavaType.ofNode m).Over names
  /-- The types of loop variables and the results of methods are found by their kind. -/
  parts : n.kind ∈ [.enhancedForStmt, .methodDecl] →
    ∀ m ∈ n.children, m.kind = .type ∨ m.kind = .arrayType → (JavaType.ofNode m).Over names
  /-- A class is written with its name alone where its object is meant. -/
  named : n.kind = .classLiteral → ∀ m ∈ n.children[0]?, m.kind = .identifier → names m.literal
  parameter : n.kind = .parameter → (Parameter.ofNode n).type.Over names

/-- Nodes that are no type, and have none among their children. -/
theorem Node.Over.of_untyped {n : Node} (hliteral : n.kind = .identifier → literals n.literal)
    (hkind : n.kind ∉ [.type, .parameter, .enhancedForStmt, .methodDecl, .classLiteral])
    (hplace : n.kind.typePlace? = none) : n.Over literals names := by
  simp only [List.mem_cons, List.not_mem_nil, or_false, not_or] at hkind
  obtain ⟨htype, hparameter, hloop, hmethod, hclass⟩ := hkind
  exact ⟨hliteral, (absurd · htype), fun i hi => by simp [hplace] at hi,
    fun h => by simp [hloop, hmethod] at h, (absurd · hclass), (absurd · hparameter)⟩

/-- Trees in which all nodes are such. The dots of a parameter are no name. -/
inductive Node.OverTree (literals names : Text → Prop) : Node → Prop where
  | intro {n : Node} (here : n.Over literals names)
    (children : n.kind ≠ .parameter → ∀ m ∈ n.children, OverTree literals names m) :
    OverTree literals names n

namespace Node.OverTree

variable {n m : Node}

theorem here (h : n.OverTree literals names) : n.Over literals names := by
  cases h
  assumption

/-- The children of a tree over a vocabulary are over it, those of parameters apart. -/
theorem child (h : n.OverTree literals names) (hkind : n.kind ≠ .parameter) (hm : m ∈ n.children) :
    m.OverTree literals names := by
  cases h with
  | intro _ children => exact children hkind m hm

end Node.OverTree

section Signatures

variable {n decl : Node} {c : ClassSignature}

/-- The type written in a node is over the vocabulary of the tree. -/
theorem over_child_type (h : n.OverTree literals names) (hn : n.kind ≠ .parameter) {m : Node}
    (hm : n.child? .type = some m) : (JavaType.ofNode m).Over names :=
  (h.child hn (List.mem_of_find?_eq_some hm)).here.type (by simpa using List.find?_some hm)

/-- The result of a declared method. -/
theorem over_resultNode (h : n.Over literals names) (hn : n.kind = .methodDecl) {m : Node}
    (hm : resultNode n = some m) : (JavaType.ofNode m).Over names := by
  have hparts := h.parts (by rw [hn]; decide)
  rw [resultNode, Option.or_eq_some_iff] at hm
  rcases hm with hm | ⟨-, hm⟩
  · exact hparts m (List.mem_of_find?_eq_some hm) (.inl (by simpa using List.find?_some hm))
  · exact hparts m (List.mem_of_find?_eq_some hm) (.inr (by simpa using List.find?_some hm))

/-- Members of a declaration over a vocabulary bring only types known in it. -/
theorem ClassSignature.Over.addMember (hnames : IsVocabulary names) (hc : c.Over names)
    (h : n.OverTree literals names) : (c.addMember n).Over names := by
  unfold ClassSignature.addMember
  split
  · next hkind =>
    have htype : (JavaType.ofNode? n.children[1]?).Known names := by
      unfold JavaType.ofNode?
      cases hchild : n.children[1]? with
      | none => simp [hnames.constants]
      | some m => exact .inr (h.here.placed 1 (by rw [hkind]; rfl) m hchild)
    refine ⟨hc.name, hc.base, List.forall_mem_append.2 ⟨hc.fields, ?_⟩, hc.methods⟩
    simpa using fun _ _ => htype
  · next hkind =>
    have hresult : (((resultNode n).map JavaType.ofNode).getD .unknown).Known names := by
      cases hresult : resultNode n with
      | none => exact .unknown
      | some m => exact .inr (over_resultNode h.here hkind hresult)
    exact ⟨hc.name, hc.base, hc.fields,
      List.forall_mem_append.2 ⟨hc.methods, List.forall_mem_singleton.2 hresult⟩⟩
  · exact ⟨hc.name, hc.base, hc.fields, hc.methods⟩
  · exact hc

/-- The head of a declaration over a vocabulary names only types known in it. -/
theorem ClassSignature.over_ofHead (hnames : IsVocabulary names)
    (hname : declaredName decl = [] ∨ names (declaredName decl)) (h : decl.OverTree literals names)
    (hkind : decl.kind ≠ .parameter) : (ofHead decl).Over names where
  name := hname
  base := by
    intro b hb
    change b ∈ if _ then _ else _ at hb
    split at hb
    · obtain ⟨m, hm, rfl⟩ := Option.map_eq_some_iff.1 hb
      exact hnames.simple _ (over_child_type h hkind hm).name
    · cases hb
  fields := fun _ hf => nomatch hf
  methods := fun _ hm => nomatch hm

/-- What others see of a class that is declared by such a tree. -/
theorem ClassSignature.over_ofDecl (hnames : IsVocabulary names)
    (hname : declaredName decl = [] ∨ names (declaredName decl)) (h : decl.OverTree literals names)
    (hkind : decl.kind ≠ .parameter) : (ofDecl decl).Over names := by
  have hfold : ∀ (members : List Node) (c : ClassSignature), c.Over names →
      (∀ m ∈ members, m.OverTree literals names) →
        (members.foldl ClassSignature.addMember c).Over names := by
    intro members
    induction members with
    | nil => exact fun _ hc _ => hc
    | cons m members ih =>
      intro c hc hmembers
      rw [List.forall_mem_cons] at hmembers
      exact ih _ (hc.addMember hnames hmembers.1) hmembers.2
  unfold ofDecl
  cases hbody : decl.child? .block with
  | none => exact over_ofHead hnames hname h hkind
  | some body =>
    have hmem : body ∈ decl.children := List.mem_of_find?_eq_some hbody
    have hblock : body.kind = .block := by simpa using List.find?_some hbody
    exact hfold _ _ (over_ofHead hnames hname h hkind) fun m hm =>
      (h.child hkind hmem).child (by rw [hblock]; decide) hm

end Signatures

namespace Surroundings.Over

variable {around : Surroundings} {name className : Text} {t : JavaType}

/-- The name of the class itself is in the vocabulary, unless no class is being generated. -/
theorem ownName (h : around.Over names) : around.ownName = [] ∨ names around.ownName := by
  unfold Surroundings.ownName
  cases hunit : around.unit with
  | none => exact .inl rfl
  | some unit => exact (h unit (by simp [knownClasses, hunit])).name

/-- The name of the class above is in the vocabulary, unless there is none. -/
theorem baseName (h : around.Over names) : around.baseName = [] ∨ names around.baseName := by
  unfold Surroundings.baseName
  cases hunit : around.unit with
  | none => exact .inl rfl
  | some unit =>
    have hclass := h unit (by simp [knownClasses, hunit])
    cases hbase : unit.base with
    | none => exact .inl (by simp [hbase])
    | some base => exact .inr (by simpa [hbase] using hclass.base base hbase)

/-- A field that is found has a known type, whichever class declares it. -/
theorem field? (h : around.Over names) {f : FieldSignature} {owner : ClassSignature}
    (hfound : around.field? name = some (f, owner)) : f.type.Known names := by
  obtain ⟨c, hc, hfield⟩ := List.exists_of_findSome?_eq_some hfound
  obtain ⟨found, hdeclared, hsame⟩ := Option.map_eq_some_iff.1 hfield
  cases hsame
  exact (h owner (mem_of_mem_hierarchy hc)).fields f
    (List.mem_reverse.1 (List.mem_of_find?_eq_some hdeclared))

/-- A method that is found has a known result type. -/
theorem method? (h : around.Over names) {arity : Nat} {m : MethodSignature}
    (hfound : m ∈ around.method? className name arity) : m.result.Known names := by
  obtain ⟨c, hc, hmethod⟩ := List.exists_of_findSome?_eq_some hfound
  exact (h c (mem_of_mem_hierarchy hc)).methods m (List.mem_of_find?_eq_some hmethod)

/-- The type of a declared field is known, and so is that of one nobody declares. -/
theorem declaredFieldType (h : around.Over names) :
    (around.declaredFieldType className name).Known names := by
  unfold Surroundings.declaredFieldType
  cases hfound : (around.members? className).bind fun c => c.field? name with
  | none => exact .unknown
  | some f =>
    obtain ⟨c, hc, hfield⟩ := Option.bind_eq_some_iff.1 hfound
    exact (h c (mem_knownClasses hc)).fields f
      (List.mem_reverse.1 (List.mem_of_find?_eq_some hfield))

end Surroundings.Over

section Results

variable {around : Surroundings} {t : JavaType}

/-- Reading a type parameter as its bound leaves the vocabulary as it is. -/
theorem over_resultType (hnames : IsVocabulary names) (ht : t.Over names) :
    (around.resultType t).Over names := by
  unfold Surroundings.resultType
  split
  · exact hnames.object
  · exact ht

/-- A known type stays known when type parameters are read as their bounds. -/
theorem known_resultType (hnames : IsVocabulary names) (ht : t.Known names) :
    (around.resultType t).Known names := by
  unfold Surroundings.resultType
  split
  · exact .inr hnames.object
  · exact ht

end Results

end JavaObjC
