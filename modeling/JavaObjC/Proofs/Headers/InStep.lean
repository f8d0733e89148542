import JavaObjC.Proofs.Headers.Completeness
import JavaObjC.Proofs.Scopes.Locals
import JavaObjC.Proofs.Typing.Trees

/-!
# References in step

A unit keeps two lists of the classes it refers to: those that it imports, and
the names of those that are not part of Foundation. Every class is recorded in
both of them at once, and without configured types its name tells whether it is
part of Foundation. So the lists stay in step, as long as no class without a
name is recorded; and there is none, because all names in an accepted tree end in
a word. This is what the bodies of members keep.
-/

namespace JavaObjC

open Generating Lower Lowering

namespace ClassRef

variable {c c' : ClassRef}

/-- Canonical classes of one name are both part of the system, or neither is. -/
theorem Canonical.isSystem_eq (h : c.Canonical) (h' : c'.Canonical) (hname : c.name = c'.name) :
    c.isSystem = c'.isSystem := by
  rw [Canonical] at h h'
  rw [h, h', hname]

end ClassRef

namespace ImportSet

variable {c : ClassRef} {classes : List ClassRef}

/-- A class whose name is there takes the place of one that is just as much part of the system. -/
theorem foreign_insert_of_mem (hclasses : ∀ c' ∈ classes, c'.Canonical) (hc : c.Canonical)
    (hmem : c.name ∈ classes.map ClassRef.name) :
    ((insert c classes).filter (!·.isSystem)).map ClassRef.name =
      (classes.filter (!·.isSystem)).map ClassRef.name ∧
    (insert c classes).map ClassRef.name = classes.map ClassRef.name := by
  induction classes with
  | nil => cases hmem
  | cons old rest ih =>
    rw [List.forall_mem_cons] at hclasses
    rw [insert]
    by_cases hold : old.name = c.name
    · rw [if_pos hold]
      have hsystem := hclasses.1.isSystem_eq hc hold
      split
      · simp [List.filter_cons, hsystem, hold, apply_ite]
      · exact ⟨rfl, rfl⟩
    · rw [if_neg hold]
      have hrest : c.name ∈ rest.map ClassRef.name := by
        rw [List.map_cons, List.mem_cons] at hmem
        exact hmem.resolve_left fun h => hold h.symm
      obtain ⟨hforeign, hnames⟩ := ih hclasses.2 hrest
      refine ⟨?_, by rw [List.map_cons, List.map_cons, hnames]⟩
      rw [List.filter_cons, List.filter_cons]
      split
      · rw [List.map_cons, List.map_cons, hforeign]
      · exact hforeign

/-- A class of a new name comes last. -/
theorem insert_of_notMem (hnew : c.name ∉ classes.map ClassRef.name) :
    insert c classes = classes ++ [c] := by
  induction classes with
  | nil => rfl
  | cons old rest ih =>
    rw [List.map_cons, List.mem_cons, not_or] at hnew
    rw [insert, if_neg fun h => hnew.1 h.symm, ih hnew.2]
    rfl

end ImportSet

namespace References

variable {r : References} {own : Text} {c : ClassRef}

/-- References in which the names of the imported classes that are not part of the system are
pending, in the same order. -/
structure InStep (r : References) : Prop where
  pending_eq : r.pending = (r.imports.classes.filter (!·.isSystem)).map ClassRef.name
  canonical : r.Canonical
  nodup : r.imports.names.Nodup
  named : ∀ c ∈ r.imports.classes, c.name ≠ []

/-- Where nothing is recorded both places agree. -/
theorem InStep.empty : InStep {} :=
  ⟨rfl, List.forall_mem_nil _, List.nodup_nil, List.forall_mem_nil _⟩

/-- A class of the program is pending exactly when its header is imported. -/
theorem InStep.mem_pending (h : r.InStep) (hc : c.Canonical) (hforeign : c.isSystem = false) :
    c.name ∈ r.pending ↔ c.name ∈ r.imports.names := by
  rw [h.pending_eq, ImportSet.names, List.mem_map, List.mem_map]
  constructor
  · rintro ⟨c', hc', hname⟩
    exact ⟨c', (List.mem_filter.1 hc').1, hname⟩
  · rintro ⟨c', hc', hname⟩
    refine ⟨c', List.mem_filter.2 ⟨hc', ?_⟩, hname⟩
    rw [(h.canonical c' hc').isSystem_eq hc hname, hforeign]
    rfl

/-- Recording a class with a name keeps references in step. -/
theorem InStep.add (h : r.InStep) (own : Text) (hc : c.Canonical) (hname : c.name ≠ []) :
    (r.add own c).InStep := by
  have hempty : c.name.isEmpty = false := by simpa using hname
  unfold References.add
  split
  · exact h
  · next hkept =>
    rw [Bool.or_eq_true, not_or, Bool.not_eq_true] at hkept
    have himports : r.imports.add c = ⟨ImportSet.insert c r.imports.classes⟩ := by
      rw [ImportSet.add, hkept.1]
      rfl
    have hnamed : ∀ c' ∈ ImportSet.insert c r.imports.classes, c'.name ≠ [] := fun c' hc' =>
      (ImportSet.mem_insert hc').elim (h.named c') fun heq => heq ▸ hname
    have hcanonical : ∀ c' ∈ ImportSet.insert c r.imports.classes, c'.Canonical := fun c' hc' =>
      (ImportSet.mem_insert hc').elim (h.canonical c') fun heq => heq ▸ hc
    rw [himports, hempty, Bool.or_false]
    -- A class that takes the place of another one is pending already, or both are system classes.
    by_cases hmem : c.name ∈ r.imports.names
    · obtain ⟨hforeign, hnames⟩ := ImportSet.foreign_insert_of_mem h.canonical hc hmem
      refine ⟨?_, hcanonical, ?_, hnamed⟩
      · dsimp only
        rw [hforeign, ← h.pending_eq]
        cases hsystem : c.isSystem with
        | true => rfl
        | false =>
          have hpending := (h.mem_pending hc hsystem).2 hmem
          simp [hpending]
      · rw [ImportSet.names, hnames]
        exact h.nodup
    · rw [ImportSet.insert_of_notMem hmem] at hnamed hcanonical ⊢
      refine ⟨?_, hcanonical, ?_, hnamed⟩
      · dsimp only
        rw [List.filter_append, List.map_append, ← h.pending_eq]
        cases hsystem : c.isSystem with
        | true => simp [hsystem]
        | false =>
          have hpending : c.name ∉ r.pending := fun hin => hmem ((h.mem_pending hc hsystem).1 hin)
          simp [hsystem, hpending]
      · rw [ImportSet.names, List.map_append]
        exact List.nodup_append.2 ⟨h.nodup, by simp, by
          intro a ha b hb
          rw [List.map_singleton, List.mem_singleton] at hb
          rw [hb]
          rintro rfl
          exact hmem ha⟩

end References


section Names

variable {name : Text}

/-- A name with something behind its last dot. -/
def IsProperName (name : Text) : Prop := simpleName name ≠ []

theorem Text.IsTypeName.isProperName (h : name.IsTypeName) : IsProperName name := h.simpleName.1

theorem Text.IsWord.isProperName (h : name.IsWord) : IsProperName name := h.isTypeName.isProperName

/-- Without its package a proper name is proper. -/
theorem isProperName_simpleName (h : IsProperName name) : IsProperName (simpleName name) := by
  rwa [IsProperName, simpleName_simpleName]

/-- The proper names are a vocabulary: the generator makes up no other names of types. -/
theorem isVocabulary_isProperName : IsVocabulary IsProperName where
  given := by
    have hall : ∀ name ∈ givenNames, simpleName name ≠ [] := by decide
    exact hall
  simple := fun _ => isProperName_simpleName

/-- A name that is proper if it begins with a letter, as all names in a source are. -/
def IsPlausibleName (name : Text) : Prop :=
  Lexeme.frontIs Lexeme.isLetter name = true → IsProperName name

/-- The names of library classes are proper. -/
theorem isProperName_of_libraryClass? (h : (libraryClass? name).isSome = true) :
    IsProperName name := by
  obtain ⟨c, hc⟩ := Option.isSome_iff_exists.1 h
  obtain ⟨entry, hentry, -⟩ := Option.map_eq_some_iff.1 hc
  have hall : ∀ entry ∈ libraryClasses, ∀ n ∈ entry.2, Text.ofString n ≠ [] := by decide
  have hany : (entry.2.any fun n => Text.ofString n == simpleName name) = true := by
    simpa using List.find?_some hentry
  obtain ⟨n, hn, hname⟩ := List.any_eq_true.1 hany
  rw [beq_iff_eq] at hname
  rw [IsProperName, ← hname]
  exact hall entry (List.mem_of_find?_eq_some hentry) n hn

/-- The names of predefined classes are proper. -/
theorem isProperName_of_predefined? (h : (ClassRef.predefined? name).isSome = true) :
    IsProperName name := by
  have hall : ∀ n ∈ ClassRef.predefinedClasses ++ ClassRef.predefinedProtocols,
      simpleName (Text.ofString n) ≠ [] := by decide
  have hlisted : name ∈ (ClassRef.predefinedClasses ++ ClassRef.predefinedProtocols).map
      Text.ofString := by
    unfold ClassRef.predefined? at h
    rw [List.map_append, List.mem_append]
    split at h
    · next hclass => exact .inl (by simpa using hclass)
    · split at h
      · next hprotocol => exact .inr (by simpa using hprotocol)
      · cases h
  obtain ⟨n, hn, rfl⟩ := List.mem_map.1 hlisted
  exact hall n hn

end Names

/-- Surroundings without configured types in which all names of classes are proper. -/
structure Surroundings.Proper (around : Surroundings) : Prop where
  plain : around.Plain
  known : around.Over IsProperName
  registered : ∀ name, (around.registry.entry? name).isSome = true → IsProperName name
  imported : ∀ name ∈ around.imported, IsProperName name
  parameters : ∀ unit ∈ around.unit, ∀ name ∈ unit.typeParameters, IsProperName name

namespace Surroundings.Proper

variable {around : Surroundings} {name : Text} {t : JavaType} {c : ClassRef}

/-- What member is generated plays no part. -/
theorem same {around' : Surroundings} (h : around.Proper)
    (hregistry : around'.registry = around.registry) (hmapper : around'.mapper = around.mapper)
    (hunit : around'.unit = around.unit) (himported : around'.imported = around.imported) :
    around'.Proper := by
  refine ⟨⟨hmapper ▸ h.plain.overrides_eq, hregistry ▸ h.plain.foreign⟩, ?_,
    hregistry ▸ h.registered, himported ▸ h.imported, hunit ▸ h.parameters⟩
  have hover := h.known
  rw [Surroundings.Over, knownClasses] at hover ⊢
  rwa [hunit, hregistry]

/-- What denotes a class has a proper name. -/
theorem of_isClassName (h : around.Proper) (hname : IsPlausibleName name)
    (hclass : around.isClassName name = true) : IsProperName name := by
  cases name with
  | nil => cases hclass
  | cons first rest =>
    simp only [isClassName, Bool.or_eq_true] at hclass
    rcases hclass with ((((himported | hown) | hparameter) | hknown) | hregistered) | hcapital
    · exact h.imported _ (by simpa using himported)
    · rw [beq_iff_eq] at hown
      have hproper := h.known.ownName
      rw [← hown] at hproper
      exact hproper.resolve_left (List.cons_ne_nil _ _)
    · unfold isTypeParameter at hparameter
      cases hunit : around.unit with
      | none =>
        rw [hunit] at hparameter
        cases hparameter
      | some unit =>
        rw [hunit] at hparameter
        exact h.parameters unit hunit _ (by simpa using hparameter)
    · exact isProperName_of_libraryClass? hknown
    · rw [Registry.lookup?, Option.isSome_or, Bool.or_eq_true, Option.isSome_map] at hregistered
      rcases hregistered with hpredefined | hentry
      · exact isProperName_of_predefined? hpredefined
      · exact h.registered _ hentry
    · refine hname ?_
      have hletter : (65 ≤ first && first ≤ 90) = true := hcapital
      simp [Lexeme.frontIs, Lexeme.isLetter, hletter]

/-- The class of a proper name has a name. -/
theorem classOf_name_ne_nil (h : around.Proper) (hname : IsProperName name) :
    (around.classOf name).name ≠ [] := by
  rw [Surroundings.classOf, TypeMapper.classOf, h.plain.override?_eq]
  cases hlibrary : libraryClass? name with
  | some c =>
    obtain ⟨entry, hentry, rfl⟩ := Option.map_eq_some_iff.1 hlibrary
    have hall : ∀ entry ∈ libraryClasses, entry.1.name ≠ [] := by decide
    exact hall entry (List.mem_of_find?_eq_some hentry)
  | none =>
    have hnamed : around.registry.Named := fun entry hentry => (h.plain.foreign entry hentry).1
    change (around.registry.resolve (simpleName name)).name ≠ []
    rw [hnamed.resolve_name]
    exact hname

/-- Recording the class of a proper name stays in step. -/
theorem classOf_inStep {r : References} (h : around.Proper) (hname : IsProperName name)
    (hr : r.InStep) : (r.add around.ownName (around.classOf name)).InStep :=
  hr.add _ (h.plain.classOf name) (h.classOf_name_ne_nil hname)

/-- Recording the class of a type over proper names stays in step. -/
theorem map_inStep {r : References} (h : around.Proper) (ht : t.Over IsProperName)
    (hc : around.mapper.map around.registry t = .object c) (hr : r.InStep) :
    (r.add around.ownName c).InStep := by
  rw [TypeMapper.map, h.plain.override?_eq] at hc
  split at hc
  · cases hc
    exact hr.add _ (ClassRef.canonical_of_predefined "NSMutableArray" rfl) (by decide)
  · dsimp only at hc
    cases hprimitive : primitiveRef? t.name with
    | some ref =>
      rw [hprimitive, Option.getD_some] at hc
      obtain ⟨scalar, -, hscalar⟩ := Option.map_eq_some_iff.1 hprimitive
      rw [← hscalar] at hc
      cases hc
    | none =>
      rw [hprimitive, Option.getD_none] at hc
      cases hc
      exact h.classOf_inStep ht.name hr

/-- In given surroundings, what is kept is that references are in step. -/
def bounds (h : around.Proper) : Bounds where
  literals := IsPlausibleName
  names := IsProperName
  vocabulary := isVocabulary_isProperName
  around := (· = around)
  bounded := fun ha => ha ▸ h.known
  classes := fun ha hname hclass => h.of_isClassName hname (ha ▸ hclass)
  kept := References.InStep
  mapped := fun ha ht hc hr => by
    subst ha
    exact h.map_inStep ht hc hr
  named := fun ha hname hr => by
    subst ha
    exact h.classOf_inStep hname hr
  used := fun _ hc hr => by
    have hall : ∀ c ∈ [ClassRef.nsNumber, ClassRef.nsMutableArray],
        ClassRef.predefined? c.name = some c ∧ c.name ≠ [] := by decide
    exact hr.add _ (ClassRef.canonical_of_predefined _ (hall _ hc).1) (hall _ hc).2

end Surroundings.Proper

/-- Trees in which all names are plausible. -/
structure Node.Plausible (n : Node) : Prop where
  derives : ∃ c, Derives c n
  clean : n.Clean
  literal : ∀ m ∈ n.walk, m.kind = .identifier → IsPlausibleName m.literal

namespace Node.Plausible

variable {n m : Node}

/-- The children of a plausible tree are plausible. -/
theorem child (h : n.Plausible) (hm : m ∈ n.children) : m.Plausible := by
  obtain ⟨c, hc⟩ := h.derives
  obtain ⟨f, -, -, -, hitems⟩ := hc.form h.clean
  obtain ⟨item, -, hderives⟩ := hitems.mem hm
  exact ⟨⟨_, hderives⟩, h.clean.child hm, fun o ho => h.literal o (mem_walk_of_child hm ho)⟩

/-- A plausible tree is over the proper names. -/
theorem overTree (h : n.Plausible) : n.OverTree IsPlausibleName IsProperName := by
  obtain ⟨c, hc⟩ := h.derives
  exact hc.overTree (fun _ => Text.IsTypeName.isProperName) n h.clean h.literal

/-- The type that a child is. -/
theorem over_child (h : n.Plausible) (hn : n.kind ≠ .parameter) (hm : m ∈ n.children)
    (hkind : m.kind = .type) : (JavaType.ofNode m).Over IsProperName :=
  (h.overTree.child hn hm).here.type hkind

/-- The types written in a plausible node are over the proper names. -/
theorem over_typeNodes (h : n.Plausible) (hn : n.kind ≠ .parameter) :
    ∀ m ∈ n.childrenOf .type, (JavaType.ofNode m).Over IsProperName := by
  intro m hm
  obtain ⟨hm, hkind⟩ := List.mem_filter.1 hm
  exact h.over_child hn hm (by simpa using hkind)

/-- The types of the parameters of a plausible declaration are over the proper names. -/
theorem over_parameters (h : n.Plausible) :
    ∀ p ∈ Parameter.ofDecl n, p.type.Over IsProperName := by
  unfold Parameter.ofDecl
  cases hlist : n.child? .parameters with
  | none => exact List.forall_mem_nil _
  | some list =>
    have hmem : list ∈ n.children := List.mem_of_find?_eq_some hlist
    intro p hp
    obtain ⟨m, hm, rfl⟩ := List.mem_map.1 hp
    obtain ⟨hm, hkind⟩ := List.mem_filter.1 hm
    exact ((h.child hmem).child hm).overTree.here.parameter (by simpa using hkind)

/-- A plausible tree is locked by bounds of proper names. -/
theorem locked {b : Bounds} (hliterals : b.literals = IsPlausibleName)
    (hnames : b.names = IsProperName) (h : n.Plausible) : b.Locked n := by
  induction n using Node.induction with
  | h n ih =>
    refine .intro (fun _ m hm inner hinner => ?_) fun m hm => ih m hm (h.child hm)
    rw [hliterals, hnames]
    exact ((h.child (List.mem_of_getElem? hm)).child hinner).overTree

/-- The rules of scopes decorate such trees. -/
theorem resolves {around : Surroundings} (h : n.Plausible) (haround : around.Proper) :
    haround.bounds.Resolves around n :=
  Bounds.resolves (fun _ ha => ha) n h.overTree (h.locked rfl rfl)

end Node.Plausible

/-- The trees of accepted sources are such. -/
theorem plausible_of_parseForGeneration {path source : Text} {cu : Node}
    (h : parseForGeneration path source = .ok cu) : cu.Plausible := by
  obtain ⟨htree, hclean⟩ := derives_of_parseForGeneration h
  have hlettered : cu.Within (Region.ofSource source) := by
    obtain ⟨-, rfl⟩ := read_of_parseForGeneration h
    exact (Entry.compilationUnit.read_proceeds (Grammar.parse 0) source).2.2.1
  refine ⟨⟨_, htree⟩, hclean, fun m hm hkind hletter => ?_⟩
  unfold Node.literal at hletter ⊢
  cases htoken : m.token with
  | none =>
    rw [htoken] at hletter
    cases hletter
  | some t =>
    rw [htoken] at hletter
    have hword := ((hlettered m hm).2 hkind t htoken).2 hletter
    have hne : t.literal ≠ [] := by
      rintro hnil
      change Lexeme.frontIs Lexeme.isLetter t.literal = true at hletter
      rw [hnil] at hletter
      cases hletter
    exact Text.IsWord.isProperName ⟨hne, hword⟩

section Actions

variable {around : Surroundings} {α : Type} {x y : Lower α} {n : Node}

/-- An action from which references come out in step. -/
def Lower.KeepsStep (around : Surroundings) (x : Lower α) : Prop :=
  ∀ r, r.InStep → ∀ a s, Generating.result x around ⟨r, [[]]⟩ = (.ok a, s) → s.references.InStep

variable (h : around.Proper)

include h

/-- An action that moves within bounds of proper names stays in step. -/
theorem keepsStep_of_moves {after : List Scope} {P : α → Prop}
    (hx : h.bounds.Moves [[]] after x y P) : KeepsStep around x := by
  intro r hr a s hresult
  have hat : h.bounds.At [[]] ⟨r, [[]]⟩ := by
    refine ⟨rfl, ?_, hr⟩
    rw [List.forall_mem_singleton]
    exact List.forall_mem_nil _
  have hleft := (hx around _ rfl hat).2
  rw [hresult] at hleft
  exact hleft.2.kept

/-- An action that is tied within bounds of proper names stays in step. -/
theorem keepsStep_of_ties {P : α → Prop} (hx : h.bounds.Ties [[]] x y P) :
    KeepsStep around x := keepsStep_of_moves h (Bounds.Ties.moves hx)

/-- Mapping a type over proper names stays in step. -/
theorem mapType_keepsStep {t : JavaType} (ht : t.Over IsProperName) :
    KeepsStep around (mapType t) := keepsStep_of_ties h (Bounds.mapType_ties ht)

/-- Mapping the types of parameters stays in step. -/
theorem targetParameters_keepsStep {parameters : List Parameter}
    (ht : ∀ p ∈ parameters, p.type.Over IsProperName) :
    KeepsStep around (targetParameters parameters) := by
  refine keepsStep_of_ties h (y := targetParameters parameters) (P := fun _ => True) ?_
  unfold targetParameters
  induction parameters with
  | nil => exact .pure trivial
  | cons p rest ih =>
    rw [List.forall_mem_cons] at ht
    rw [List.mapM_cons]
    refine Coincide.bind (P := fun _ => True) ?_ fun _ _ => (ih ht.2).bind fun _ _ => .pure trivial
    exact (Bounds.mapType_ties ht.1).bind fun _ _ => .pure trivial

/-- The initial value of a plausible field stays in step. -/
theorem initialValue_keepsStep (hn : n.Plausible) {t : JavaType} (ht : t.Over IsProperName) :
    KeepsStep around (initialValue (attributed n) t) :=
  keepsStep_of_ties h (Bounds.initialValue_ties (Bounds.located_tied [[]] hn.overTree) ht)

/-- Statements behind parameters. -/
theorem statements_ties (env : List Scope) {nodes : List Node} (hnodes : ∀ m ∈ nodes, m.Plausible) :
    h.bounds.Ties env (blockBody (nodes.map attributed))
    (blockBody (inOrder around (fun _ => true) none ([] :: env) nodes).1) fun _ => True :=
  Bounds.blockBody_ties (Bounds.inOrder_threaded _ _ fun m hm => (hnodes m hm).resolves h)

/-- A body stays in step behind the declaration of its parameters. -/
theorem declared_keepsStep {parameters : List Parameter} {P : α → Prop}
    (hparameters : ∀ p ∈ parameters, p.type.Over IsProperName)
    (hx : h.bounds.Ties [parameterScope parameters] x y P) :
    KeepsStep around (declareParameters parameters >>= fun _ => x) := by
  have hdeclared := Lowering.declareParameters_moves (b := h.bounds) [] [] fun p hp =>
    (hparameters p hp).known
  rw [List.append_nil] at hdeclared
  exact keepsStep_of_moves h (hdeclared.bind rfl fun _ _ => Bounds.Ties.moves hx)

/-- The body of a method stays in step. -/
theorem methodBody_keepsStep {parameters : List Parameter}
    (hparameters : ∀ p ∈ parameters, p.type.Over IsProperName) (hn : n.Plausible) :
    KeepsStep around (methodBody parameters n) := by
  rw [methodBody, attributed_parts]
  exact declared_keepsStep h hparameters (statements_ties h _ fun m => hn.child)

/-- The body of an initializer stays in step. -/
theorem initializer_keepsStep (hn : n.Plausible) :
    KeepsStep around (blockBody (attributed n).parts) := by
  rw [attributed_parts]
  exact keepsStep_of_ties h (statements_ties h [[]] fun m => hn.child)

/-- The body of a constructor stays in step, its explicit call included. -/
theorem constructorBody_keepsStep {parameters : List Parameter}
    (hparameters : ∀ p ∈ parameters, p.type.Over IsProperName) (hn : n.Plausible) :
    KeepsStep around (constructorBody parameters n) := by
  have hparts := attributed_parts n
  have hchildren : ∀ m ∈ n.children, m.Plausible := fun m => hn.child
  unfold constructorBody
  rw [hparts]
  generalize n.children = children at hchildren
  cases children with
  | nil =>
    exact declared_keepsStep h hparameters (y := _) ((statements_ties h _ hchildren).bind
      fun _ _ => .pure (P := fun _ => True) trivial)
  | cons first rest =>
    rw [List.forall_mem_cons] at hchildren
    have htied := Bounds.located_tied (b := h.bounds) [parameterScope parameters]
      hchildren.1.overTree
    have hcall : first.kind = .constructorCall →
        h.bounds.Ties [parameterScope parameters] (constructorCall (attributed first).parts)
          (constructorCall (located [parameterScope parameters] first).parts) fun _ => True := by
      intro hkind
      refine constructorCall_ties (htied.inner ?_)
      rw [attributed_kind, hkind]
      decide
    rw [List.map_cons]
    dsimp only
    rw [attributed_kind]
    exact declared_keepsStep h hparameters (P := fun _ => True) (Coincide.ite
      (fun hkind => (hcall hkind).bind fun _ _ => (statements_ties h _ hchildren.2).bind fun _ _ =>
        Coincide.pure trivial)
      fun _ => (statements_ties h _ (List.forall_mem_cons.2 hchildren)).bind fun _ _ =>
        Coincide.pure trivial)

end Actions

end JavaObjC
