import JavaObjC.Proofs.Headers.InStep

/-!
# Pending names agree with imports

The references of a unit are in step from its first import declaration to its
last member, since every step in its making records classes with names only. A
generator knows exactly the classes that the sources it received declare. So
what is pending in a generated unit can be read off its imports: it is what is
not part of Foundation and what none of these sources declares.
-/

namespace JavaObjC

open Generating Lower Lowering


section Declarations

variable {n m : Node}

/-- What others see of a class in which all names are proper. -/
structure ClassSignature.Proper (s : ClassSignature) : Prop where
  known : s.Over IsProperName
  name : IsProperName s.name
  parameters : ∀ name ∈ s.typeParameters, IsProperName name

namespace ClassSignature

/-- A member does not change the type parameters of its class. -/
@[simp] theorem addMember_typeParameters (s : ClassSignature) (n : Node) :
    (s.addMember n).typeParameters = s.typeParameters := by
  unfold addMember
  split <;> rfl

/-- The type parameters of a class are those of its head. -/
@[simp] theorem addMembers_typeParameters (s : ClassSignature) (nodes : List Node) :
    (nodes.foldl addMember s).typeParameters = s.typeParameters := by
  induction nodes generalizing s with
  | nil => rfl
  | cons n nodes ih => rw [List.foldl_cons, ih, addMember_typeParameters]

/-- The type parameters of a class are those in its head. -/
theorem ofDecl_typeParameters (decl : Node) : (ofDecl decl).typeParameters =
    ((decl.child? .typeParameters).map typeParameterNames).getD [] := by
  rw [ofDecl_eq, addMembers_typeParameters]
  rfl

end ClassSignature

namespace Node.Plausible

/-- The items that the children of a node of one kind belong to. -/
theorem matches_of_kind (h : n.Plausible) {kind : NodeKind} {items : List Item}
    (hkind : n.kind = kind)
    (hforms : ∀ c : Category, ∀ f ∈ c.forms, f.kind = kind → f.items = items) :
    Matches items n.children := by
  obtain ⟨c, hc⟩ := h.derives
  obtain ⟨f, hf, hfkind, -, hitems⟩ := hc.form h.clean
  rwa [hforms c f hf (hfkind.symm.trans hkind)] at hitems

/-- The child that belongs to an item that stands once. -/
theorem exists_child (h : n.Plausible) {front back : List Item} {c : Category}
    (hitems : Matches (front ++ .one c :: back) n.children) :
    ∃ m ∈ n.children, Derives c m ∧ m.Plausible := by
  obtain ⟨first, last, heq, -, hlast⟩ := Matches.split front hitems
  obtain ⟨m, rest, rfl, hm, -⟩ := Matches.one_iff.1 hlast
  have hmem : m ∈ n.children := by simp [heq]
  exact ⟨m, hmem, hm, h.child hmem⟩

/-- A method has a result. -/
theorem over_result (h : n.Plausible) (hkind : n.kind = .methodDecl) :
    (JavaType.ofNode? (resultNode n)).Over IsProperName := by
  have hitems : Matches ([.one .modifiers, .optional .typeParameters] ++ .one .type ::
      [.one .word, .one .parameters, .optional .throwsList, .optional .methodEnd]) n.children :=
    h.matches_of_kind hkind (by intro c; cases c <;> decide)
  obtain ⟨m, hmem, hm, hplausible⟩ := h.exists_child hitems
  have hmkind : m.kind = .type ∨ m.kind = .arrayType := by
    simpa [Category.forms, Category.typeForms] using hm.kind_mem hplausible.clean
  cases hresult : resultNode n with
  | some result => exact over_resultNode h.overTree.here hkind hresult
  | none =>
    rw [resultNode, Option.or_eq_none_iff, Node.child?, Node.child?, List.find?_eq_none,
      List.find?_eq_none] at hresult
    rcases hmkind with hmkind | hmkind
    · exact absurd hmkind (by simpa using hresult.1 m hmem)
    · exact absurd hmkind (by simpa using hresult.2 m hmem)

/-- The name that an import declaration makes visible. -/
theorem imported (h : n.Plausible) (hkind : n.kind = .importDecl) :
    IsProperName (simpleName (((n.child? .qualifiedName).map qualifiedText).getD [])) := by
  have hitems : Matches ([.optional .mark] ++ .one .qualifiedName :: [.optional .mark])
      n.children := h.matches_of_kind hkind (by intro c; cases c <;> decide)
  obtain ⟨m, hmem, hm, hplausible⟩ := h.exists_child hitems
  have hmkind : m.kind = .qualifiedName := by
    simpa [Category.forms] using hm.kind_mem hplausible.clean
  refine isProperName_simpleName ?_
  cases hname : n.child? .qualifiedName with
  | none =>
    rw [Node.child?, List.find?_eq_none] at hname
    exact absurd hmkind (by simpa using hname m hmem)
  | some q =>
    have hq : q.Plausible := h.child (List.mem_of_find?_eq_some hname)
    have hqkind : q.kind = .qualifiedName := by simpa using List.find?_some hname
    obtain ⟨c, hc⟩ := hq.derives
    have hforms : ∀ c : Category, ∀ f ∈ c.forms, f.kind = .qualifiedName →
        f ∈ Category.qualifiedName.forms := by intro c; cases c <;> decide
    have hderives : Derives .qualifiedName q :=
      hc.of_kind hq.clean fun f hf hf' => hforms c f hf (hf'.trans hqkind)
    have hgives := hderives.givesName_of_qualifiedName (P := Text.IsTypeName)
      (Q := fun _ => True) (fun _ => .join)
      ⟨fun _ _ _ _ => trivial, fun _ _ _ hword => hword.isTypeName⟩ hq.clean trivial
    rcases hgives with ⟨hother, -⟩ | ⟨-, htext⟩
    · rw [hqkind] at hother
      cases hother
    · exact htext.isProperName

/-- The names of type parameters. -/
theorem typeParameterNames (h : n.Plausible) (hkind : n.kind = .typeParameters) :
    ∀ name ∈ ClassSignature.typeParameterNames n, IsProperName name := by
  have hitems : Matches [.one .typeParameter, .many .typeParameter] n.children :=
    h.matches_of_kind hkind (by intro c; cases c <;> decide)
  intro name hname
  obtain ⟨p, hp, hlabel⟩ := List.mem_filterMap.1 hname
  have hderives : Derives .typeParameter p := hitems.all (by decide) p hp
  have hclean : p.Clean := (h.child hp).clean
  obtain ⟨f, hf, hfkind, -, hparts⟩ := hderives.form hclean
  obtain rfl := List.mem_singleton.1 hf
  have hword := declaredName_isWord [.many .annotationUse] hclean hparts (by decide)
  cases hchild : p.child? .identifier with
  | none =>
    rw [hchild, if_neg (by rw [hfkind]; decide)] at hlabel
    cases hlabel
  | some label =>
    rw [hchild] at hlabel
    rw [declaredName, hchild] at hword
    exact Option.some.inj hlabel ▸ hword.isProperName

/-- A class or interface is declared with proper names. -/
theorem declares (h : n.Plausible) (hkind : Lowering.declaresType n) :
    (ClassSignature.ofDecl n).Proper := by
  obtain ⟨c, hc⟩ := h.derives
  have hforms : ∀ c : Category, ∀ f ∈ c.forms, f.kind = .classDecl ∨ f.kind = .interfaceDecl →
      f ∈ Category.typeDecl.forms := by intro c; cases c <;> decide
  have hderives : Derives .typeDecl n :=
    hc.of_kind h.clean fun f hf hf' => hforms c f hf (hf' ▸ hkind)
  have hname := (declaredName_of_typeDecl hderives h.clean).isProperName
  refine ⟨ClassSignature.over_ofDecl isVocabulary_isProperName (.inr hname) h.overTree ?_, ?_, ?_⟩
  · rcases hkind with hkind | hkind <;> rw [hkind] <;> decide
  · rwa [ClassSignature.ofDecl_name]
  · rw [ClassSignature.ofDecl_typeParameters]
    cases hlist : n.child? .typeParameters with
    | none => exact List.forall_mem_nil _
    | some list =>
      exact (h.child (List.mem_of_find?_eq_some hlist)).typeParameterNames
        (by simpa using List.find?_some hlist)

end Node.Plausible

/-- The signature that a source declares. -/
theorem proper_of_unitSignature? {path source : Text} {cu : Node} {s : ClassSignature}
    (hparse : parseForGeneration path source = .ok cu)
    (hs : Registry.unitSignature? cu = some s) : s.Proper := by
  have hcu := plausible_of_parseForGeneration hparse
  unfold Registry.unitSignature? at hs
  cases hprimary : primaryType? cu with
  | none =>
    rw [hprimary] at hs
    cases hs
  | some decl =>
    rw [hprimary] at hs
    dsimp only at hs
    split at hs
    · next hkind =>
      split at hs
      · cases hs
      · cases hs
        exact (hcu.child (List.mem_of_find?_eq_some hprimary)).declares hkind
    · cases hs

end Declarations

/-- A step in the making of a unit that leaves its references in step. -/
structure UnitDraft.Advances (d d' : UnitDraft) : Prop where
  unit_eq : d'.unit = d.unit
  imported_eq : d'.imported = d.imported
  inStep : d.references.InStep → d'.references.InStep

namespace UnitDraft.Advances

variable {d d' d'' : UnitDraft} {around : Surroundings}

theorem refl (d : UnitDraft) : Advances d d := ⟨rfl, rfl, id⟩

/-- A draft that advances twice has advanced. -/
theorem trans (h : Advances d d') (h' : Advances d' d'') : Advances d d'' :=
  ⟨h'.unit_eq.trans h.unit_eq, h'.imported_eq.trans h.imported_eq,
    fun hr => h'.inStep (h.inStep hr)⟩

/-- Advancing changes neither the class that is generated nor what is known of others. -/
theorem surroundings_eq (h : Advances d d') :
    Drafting.surroundings around d' = Drafting.surroundings around d := by
  rw [Drafting.surroundings, h.unit_eq, h.imported_eq]
  rfl

end UnitDraft.Advances

open UnitDraft Drafting

section Drafts

variable {around : Surroundings} {d d' : UnitDraft} {n : Node} {isInterface : Bool} {α : Type}
  {a : α}

/-- Naming a protocol records a declaration in both places. -/
theorem protocolNamed_keepsStep (h : around.Proper) {name : Text} (hname : IsProperName name) :
    KeepsStep around (protocolNamed name) := by
  intro r hr c s hresult
  have hclass := h.classOf_name_ne_nil hname
  have hstate := congrArg Prod.snd hresult
  change (⟨r.add around.ownName (if (around.classOf name).isPlaceholder
    then ClassRef.placeholder (around.classOf name).name true else around.classOf name),
    [[]]⟩ : BodyState) = s at hstate
  subst hstate
  refine hr.add _ ?_ ?_
  · split
    · next hunknown => exact h.plain.provides (.asProtocol name hunknown rfl)
    · exact h.plain.classOf name
  · split
    · exact hclass
    · exact hclass

/-- Naming a class records a declaration in both places, unless it is the class itself or the
library's. -/
theorem classNamed_keepsStep (h : around.Proper) {name : Text} (hname : IsProperName name) :
    KeepsStep around (classNamed name) :=
  keepsStep_of_ties h (Bounds.classNamed_ties (b := h.bounds) hname)

/-- Generating a body in step advances the draft by what the body records. -/
theorem generate_advances {setting : Surroundings → Surroundings} {x : Lower α}
    (hx : KeepsStep (setting (surroundings around d)) x)
    (h : result (generate setting x) around d = (.ok a, d')) : Advances d d' := by
  have hresult : (Generating.result x (setting (surroundings around d)) ⟨d.references, [[]]⟩).1 =
      .ok a := congrArg Prod.fst h
  have hstate := congrArg Prod.snd h
  change { d with references := _ } = d' at hstate
  subst hstate
  exact ⟨rfl, rfl, fun hr => hx _ hr a _ (Prod.ext hresult rfl)⟩

/-- Adding to the class that is built records nothing. -/
theorem build_advances {f : ClassBuilder → ClassBuilder} {u : Unit}
    (h : result (build f) around d = (.ok u, d')) : Advances d d' := by
  rw [build_ok h]
  exact ⟨rfl, rfl, id⟩

/-- Steps one after the other. -/
theorem forM_advances {β : Type} {f : β → Drafting PUnit} {l : List β}
    (hd : (surroundings around d).Proper)
    (hf : ∀ b ∈ l, ∀ d d', (surroundings around d).Proper →
      result (f b) around d = (.ok (), d') → Advances d d')
    (h : result (l.forM f) around d = (.ok (), d')) : Advances d d' := by
  induction l generalizing d with
  | nil => exact (pure_ok h).2 ▸ .refl d
  | cons b l ih =>
    rw [List.forall_mem_cons] at hf
    obtain ⟨_, d₁, hfirst, hrest⟩ := bind_ok h
    have hstep := hf.1 d d₁ hd hfirst
    exact hstep.trans (ih (hstep.surroundings_eq ▸ hd) hf.2 hrest)

/-- A field declaration advances the draft, one variable after another. -/
theorem field_advances (hd : (surroundings around d).Proper) (hn : n.Plausible)
    (hkind : n.kind = .fieldDecl)
    (h : result (field isInterface n) around d = (.ok (), d')) : Advances d d' := by
  unfold field at h
  obtain ⟨type, d₁, hrequire, hrest⟩ := bind_ok h
  obtain ⟨htype, rfl⟩ := require_ok hrequire
  obtain ⟨ref, d₂, hhead, hvariables⟩ := bind_ok hrest
  have hover : (JavaType.ofNode type).Over IsProperName :=
    hn.overTree.here.placed 1 (by rw [hkind]; rfl) type htype
  have hfirst : Advances d₁ d₂ := generate_advances (mapType_keepsStep hd hover) hhead
  refine hfirst.trans (forM_advances (hfirst.surroundings_eq ▸ hd) ?_ hvariables)
  intro decl hdecl d d' hd hvariable
  have hdeclared : decl.Plausible := hn.child (List.mem_filter.1 hdecl).1
  unfold fieldVariable at hvariable
  cases hvalue : declaredValue decl with
  | none =>
    rw [hvalue] at hvariable
    exact build_advances hvariable
  | some value =>
    rw [hvalue] at hvariable
    obtain ⟨start, d₁, hstart, hbuild⟩ := bind_ok hvariable
    refine (generate_advances ?_ hstart).trans (build_advances hbuild)
    refine initialValue_keepsStep ?_ (hdeclared.child (List.mem_of_getElem? hvalue)) hover
    exact hd.same rfl rfl rfl rfl

/-- A method advances the draft by its types and its body. -/
theorem method_advances (hd : (surroundings around d).Proper) (hn : n.Plausible)
    (hkind : n.kind = .methodDecl)
    (h : result (method isInterface n) around d = (.ok (), d')) : Advances d d' := by
  unfold method at h
  split at h
  · exact absurd h refuse_ok
  · unfold addMethod at h
    obtain ⟨targets, d₁, htargets, hrest⟩ := bind_ok h
    obtain ⟨ref, d₂, href, hrest'⟩ := bind_ok hrest
    obtain ⟨body, d₃, hbody, hbuild⟩ := bind_ok hrest'
    have hfirst : Advances d d₁ :=
      generate_advances (targetParameters_keepsStep hd hn.over_parameters) htargets
    have hd₁ : (surroundings around d₁).Proper := hfirst.surroundings_eq ▸ hd
    have hsecond : Advances d₁ d₂ :=
      generate_advances (mapType_keepsStep hd₁ (hn.over_result hkind)) href
    have hd₂ : (surroundings around d₂).Proper := hsecond.surroundings_eq ▸ hd₁
    have hthird : Advances d₂ d₃ := by
      unfold methodStatements at hbody
      split at hbody
      · next block hblock =>
        split at hbody
        · exact (pure_ok hbody).2 ▸ .refl d₂
        · rw [map_eq_pure_bind] at hbody
          obtain ⟨_, d₄, hgenerate, hpure⟩ := bind_ok hbody
          refine (pure_ok hpure).2 ▸ generate_advances ?_ hgenerate
          refine methodBody_keepsStep ?_ hn.over_parameters
            (hn.child (List.mem_of_find?_eq_some hblock))
          exact hd₂.same rfl rfl rfl rfl
      · exact (pure_ok hbody).2 ▸ .refl d₂
    exact ((hfirst.trans hsecond).trans hthird).trans (build_advances hbuild)

/-- A constructor advances the draft by its types and its body. -/
theorem constructor_advances (hd : (surroundings around d).Proper) (hn : n.Plausible)
    (h : result (constructor n) around d = (.ok (), d')) : Advances d d' := by
  unfold constructor at h
  split at h
  · exact absurd h refuse_ok
  · obtain ⟨_, d₀, hget, hrest⟩ := bind_ok h
    obtain rfl : d = d₀ := by cases hget; rfl
    dsimp only at hrest
    split at hrest
    · exact absurd hrest refuse_ok
    · unfold addConstructor at hrest
      obtain ⟨targets, d₁, htargets, hrest⟩ := bind_ok hrest
      obtain ⟨block, d₂, hrequire, hrest'⟩ := bind_ok hrest
      obtain ⟨hblock, rfl⟩ := require_ok hrequire
      obtain ⟨⟨initCall, body⟩, d₃, hbody, hbuild⟩ := bind_ok hrest'
      have hfirst : Advances d d₂ :=
        generate_advances (targetParameters_keepsStep hd hn.over_parameters) htargets
      have hd₂ : (surroundings around d₂).Proper := hfirst.surroundings_eq ▸ hd
      refine (hfirst.trans (generate_advances ?_ hbody)).trans (build_advances hbuild)
      refine constructorBody_keepsStep ?_ hn.over_parameters
        (hn.child (List.mem_of_find?_eq_some hblock))
      exact hd₂.same rfl rfl rfl rfl

/-- Every kind of member advances the draft. -/
theorem member_advances (hd : (surroundings around d).Proper) (hn : n.Plausible)
    (h : result (member isInterface n) around d = (.ok (), d')) : Advances d d' := by
  unfold member at h
  cases hkind : n.kind with
  | fieldDecl =>
    simp only [hkind] at h
    exact field_advances hd hn hkind h
  | methodDecl =>
    simp only [hkind] at h
    exact method_advances hd hn hkind h
  | constructorDecl =>
    simp only [hkind] at h
    exact constructor_advances hd hn h
  | block =>
    simp only [hkind, initializerMember] at h
    obtain ⟨body, d₁, hbody, hbuild⟩ := bind_ok h
    have hblock : (initializerBlock n).1.Plausible := by
      unfold initializerBlock
      split
      · next mark block hchildren =>
        split
        · exact hn.child (by simp [hchildren])
        · exact hn
      · exact hn
    refine (generate_advances ?_ hbody).trans (build_advances hbuild)
    refine initializer_keepsStep ?_ hblock
    exact hd.same rfl rfl rfl rfl
  | emptyStmt =>
    simp only [hkind] at h
    exact (pure_ok h).2 ▸ .refl d
  | _ =>
    simp only [hkind] at h
    exact absurd h refuse_ok

/-- Each adopted protocol is recorded as a header to import. -/
theorem adopt_advances {types : List Node} (hd : (surroundings around d).Proper)
    (htypes : ∀ m ∈ types, (JavaType.ofNode m).Over IsProperName)
    (h : result (adopt types) around d = (.ok (), d')) : Advances d d' := by
  refine forM_advances hd (fun m hm d d' hd hadopt => ?_) h
  obtain ⟨c, d₁, hhead, hbuild⟩ := bind_ok hadopt
  exact (generate_advances (protocolNamed_keepsStep hd (htypes m hm).name) hhead).trans
    (build_advances hbuild)

/-- The class above is recorded as a header to import, and so is each protocol. -/
theorem supertypes_advances (hd : (surroundings around d).Proper) (hn : n.Plausible)
    (hkind : declaresType n)
    (h : result (supertypes isInterface n) around d = (.ok (), d')) : Advances d d' := by
  have hnone : n.kind ≠ .parameter := by rcases hkind with hkind | hkind <;> rw [hkind] <;> decide
  have himplemented : ∀ m ∈ ClassSignature.implementedNodes n,
      (JavaType.ofNode m).Over IsProperName := by
    unfold ClassSignature.implementedNodes
    cases hlist : n.child? .implementsList with
    | none => exact List.forall_mem_nil _
    | some list =>
      refine (hn.child (List.mem_of_find?_eq_some hlist)).over_typeNodes ?_
      have hlistKind : list.kind = .implementsList := by simpa using List.find?_some hlist
      rw [hlistKind]
      decide
  unfold supertypes at h
  split at h
  · exact adopt_advances hd (hn.over_typeNodes hnone) h
  · cases hbase : n.child? .type with
    | none =>
      simp only [hbase] at h
      exact adopt_advances hd himplemented h
    | some base =>
      simp only [hbase] at h
      obtain ⟨c, d₁, hhead, hrest⟩ := bind_ok h
      obtain ⟨_, d₂, hbuild, hadopt⟩ := bind_ok hrest
      have hname := (over_child_type hn.overTree hnone hbase).name
      have hfirst : Advances d d₂ := (generate_advances (classNamed_keepsStep hd hname) hhead).trans
        (build_advances hbuild)
      exact hfirst.trans (adopt_advances (hfirst.surroundings_eq ▸ hd) himplemented hadopt)

end Drafts

section Units

variable {around : Surroundings} {d d' : UnitDraft} {cu n decl : Node}

/-- A unit without a class so far, the references of which are in step. -/
structure UnitDraft.Heads (d : UnitDraft) : Prop where
  unit_eq : d.unit = none
  imported : ∀ name ∈ d.imported, IsProperName name
  inStep : d.references.InStep

/-- Surroundings without a class, as far as the declarations of other units are concerned. -/
structure Surroundings.ProperBase (around : Surroundings) : Prop where
  plain : around.Plain
  registered : ∀ name, (around.registry.entry? name).isSome = true → IsProperName name
  signatures : ∀ entry ∈ around.registry.entries, ∀ s ∈ entry.2.signature, s.Over IsProperName

/-- Members are generated in proper surroundings if the class and the imported names are proper. -/
theorem Surroundings.ProperBase.surroundings (h : around.ProperBase)
    (hunit : ∀ s ∈ d.unit, s.Proper) (himported : ∀ name ∈ d.imported, IsProperName name) :
    (Drafting.surroundings around d).Proper where
  plain := ⟨h.plain.overrides_eq, h.plain.foreign⟩
  known := by
    intro c hc
    obtain ⟨⟨name, s⟩, hs, rfl⟩ := List.mem_map.1 hc
    rcases List.mem_append.1 hs with hs | hs
    · obtain ⟨unit, hmem, heq⟩ := List.mem_map.1 hs
      cases heq
      exact (hunit _ (Option.mem_toList.1 hmem)).known
    · obtain ⟨entry, hentry, hsignature⟩ := List.mem_filterMap.1 hs
      obtain ⟨s', hs', heq⟩ := Option.map_eq_some_iff.1 hsignature
      cases heq
      exact h.signatures entry hentry _ hs'
  registered := h.registered
  imported := himported
  parameters := fun unit hmem => (hunit unit hmem).parameters

/-- Before its type is read a unit records only what it imports. -/
theorem topLevel_heads {primary kept : Option Node} (h : around.ProperBase) (hn : n.Plausible)
    (hprimary : ∀ decl ∈ primary, decl.Plausible ∧ declaresType decl) (hd : d.Heads)
    (hresult : result (topLevel primary n) around d = (.ok kept, d')) :
    d'.Heads ∧ ∀ decl ∈ kept, decl.Plausible ∧ declaresType decl := by
  unfold topLevel at hresult
  cases hkind : n.kind with
  | packageDecl =>
    simp only [hkind] at hresult
    obtain ⟨_, d₁, hpackage, hpure⟩ := bind_ok hresult
    obtain ⟨rfl, rfl⟩ := pure_ok hpure
    rw [modify_ok hpackage]
    exact ⟨⟨hd.unit_eq, hd.imported, hd.inStep⟩, hprimary⟩
  | importDecl =>
    simp only [hkind, importDeclaration] at hresult
    obtain ⟨_, d₁, himport, hpure⟩ := bind_ok hresult
    obtain ⟨rfl, rfl⟩ := pure_ok hpure
    refine ⟨?_, hprimary⟩
    split at himport
    · exact (pure_ok himport).2 ▸ hd
    · obtain ⟨_, d₂, hvisible, hrefer⟩ := bind_ok himport
      have hname := hn.imported hkind
      -- The own class is not known yet, so it is recorded as well if it is imported; it is left out
      -- when the class is built, and what is pending leaves it out since it is declared.
      have hheads : d₂.Heads := by
        rw [modify_ok hvisible]
        refine ⟨hd.unit_eq, List.forall_mem_append.2 ⟨hd.imported, ?_⟩, hd.inStep⟩
        exact List.forall_mem_singleton.2 hname
      split at hrefer
      · exact (pure_ok hrefer).2 ▸ hheads
      · have hproper : (surroundings around d₂).Proper :=
          h.surroundings (by rw [hheads.unit_eq]; intro s hs; cases hs) hheads.imported
        obtain ⟨-, rfl⟩ := generateHead_of_records (referName_records _ _ [[]]) hrefer
        exact ⟨hheads.unit_eq, hheads.imported, hproper.classOf_inStep hname hheads.inStep⟩
  | classDecl =>
    simp only [hkind] at hresult
    split at hresult
    · exact absurd hresult refuse_ok
    · obtain ⟨rfl, rfl⟩ := pure_ok hresult
      refine ⟨hd, fun decl hdecl => ?_⟩
      cases hdecl
      exact ⟨hn, .inl hkind⟩
  | interfaceDecl =>
    simp only [hkind] at hresult
    split at hresult
    · exact absurd hresult refuse_ok
    · obtain ⟨rfl, rfl⟩ := pure_ok hresult
      refine ⟨hd, fun decl hdecl => ?_⟩
      cases hdecl
      exact ⟨hn, .inr hkind⟩
  | emptyStmt =>
    simp only [hkind] at hresult
    obtain ⟨rfl, rfl⟩ := pure_ok hresult
    exact ⟨hd, hprimary⟩
  | _ =>
    simp only [hkind] at hresult
    exact absurd hresult refuse_ok

/-- The declarations before the type of a unit record only what it imports. -/
theorem topLevels_heads {nodes : List Node} {primary kept : Option Node} (h : around.ProperBase)
    (hnodes : ∀ n ∈ nodes, n.Plausible)
    (hprimary : ∀ decl ∈ primary, decl.Plausible ∧ declaresType decl) (hd : d.Heads)
    (hresult : result (nodes.foldlM topLevel primary) around d = (.ok kept, d')) :
    d'.Heads ∧ ∀ decl ∈ kept, decl.Plausible ∧ declaresType decl := by
  induction nodes generalizing primary d with
  | nil =>
    obtain ⟨rfl, rfl⟩ := pure_ok hresult
    exact ⟨hd, hprimary⟩
  | cons n nodes ih =>
    rw [List.forall_mem_cons] at hnodes
    rw [List.foldlM_cons] at hresult
    obtain ⟨_, d₁, hfirst, hrest⟩ := bind_ok hresult
    obtain ⟨hd₁, hprimary₁⟩ := topLevel_heads h hnodes.1 hprimary hd hfirst
    exact ih hnodes.2 hprimary₁ hd₁ hrest

/-- A class is generated with references in step. -/
theorem typeDeclaration_inStep (h : around.ProperBase) (hdecl : decl.Plausible)
    (hkind : declaresType decl) (hd : d.Heads)
    (hresult : result (typeDeclaration decl) around d = (.ok (), d')) : d'.references.InStep := by
  unfold typeDeclaration at hresult
  dsimp only at hresult
  split at hresult
  · exact absurd hresult refuse_ok
  · obtain ⟨_, d₁, hopen, hrest⟩ := bind_ok hresult
    obtain ⟨_, d₂, hsupertypes, hmembers⟩ := bind_ok hrest
    have hproper : (surroundings around d₁).Proper := by
      refine h.surroundings ?_ ?_
      · rw [modify_ok hopen]
        intro s hs
        cases hs
        exact hdecl.declares hkind
      · rw [modify_ok hopen]
        exact hd.imported
    have hopened : d₁.references.InStep := by
      rw [modify_ok hopen]
      exact hd.inStep
    have hfirst := supertypes_advances hproper hdecl hkind hsupertypes
    have hsecond : Advances d₂ d' := by
      cases hblock : decl.child? .block with
      | none =>
        rw [hblock] at hmembers
        exact (pure_ok hmembers).2 ▸ .refl d₂
      | some block =>
        rw [hblock] at hmembers
        have hchild := hdecl.child (List.mem_of_find?_eq_some hblock)
        exact forM_advances (hfirst.surroundings_eq ▸ hproper)
          (fun n hn d d' hd hmember => member_advances hd (hchild.child hn) hmember) hmembers
    exact (hfirst.trans hsecond).inStep hopened

/-- A unit is generated with references in step. -/
theorem compilationUnit_inStep {path : Text} (h : around.ProperBase) (hcu : cu.Plausible)
    (hresult : result (compilationUnit cu) around { file := path } = (.ok (), d')) :
    d'.references.InStep := by
  obtain ⟨kept, d₁, hkept, hrest⟩ := bind_ok hresult
  have hfresh : Heads { file := path } :=
    ⟨rfl, List.forall_mem_nil _, References.InStep.empty⟩
  have hnone : ∀ decl ∈ (none : Option Node), decl.Plausible ∧ declaresType decl := by
    intro decl hdecl
    cases hdecl
  obtain ⟨hheads, hdeclares⟩ := topLevels_heads h (fun n => hcu.child) hnone hfresh hkept
  cases kept with
  | none =>
    obtain rfl : d₁ = d' := (pure_ok hrest).2
    exact hheads.inStep
  | some decl =>
    obtain ⟨hdecl, hkind⟩ := hdeclares decl rfl
    exact typeDeclaration_inStep h hdecl hkind hheads hrest

end Units

namespace Generator

variable {options : GeneratorOptions} {sources : List (Text × Text)} {g : Generator}
  {path source : Text} {cu : Node} {unit : GeneratedUnit}

/-- What becomes of a fresh generator to which sources are declared and from which classes are
generated, in any order. -/
inductive Receives (options : GeneratorOptions) : List (Text × Text) → Generator → Prop
  | fresh : Receives options [] (ofOptions options)
  | declare {sources : List (Text × Text)} {g : Generator} (h : Receives options sources g)
      (path source : Text) :
      Receives options (sources ++ [(path, source)]) (g.declareSource path source).2
  | generate {sources : List (Text × Text)} {g : Generator} (h : Receives options sources g)
      (path source : Text) :
      Receives options (sources ++ [(path, source)]) (g.generateSource path source).2

/-- A batch declares its sources one by one. -/
theorem Receives.declareAll (h : Receives options sources g) (later : List (Text × Text)) :
    Receives options (sources ++ later) (g.declareAll (parsedSources later)) := by
  induction later generalizing sources g with
  | nil => rwa [List.append_nil]
  | cons entry later ih =>
    obtain ⟨path, source⟩ := entry
    have hstep : g.declareAll (parsedSources ((path, source) :: later)) =
        (g.declareSource path source).2.declareAll (parsedSources later) := by
      rw [declareSource]
      change Generator.declareAll _ ((path, parseForGeneration path source) :: _) = _
      cases parseForGeneration path source with
      | error f => rfl
      | ok cu => rfl
    rw [hstep, ← List.singleton_append, ← List.append_assoc]
    exact ih (h.declare path source)

/-- A generator that knows the classes that some sources declare, and no other ones. -/
structure Informed (options : GeneratorOptions) (sources : List (Text × Text)) (g : Generator) :
    Prop where
  session : Session options (signatures (parsedSources sources)) g
  isSome_entry? : ∀ name, (g.registry.entry? name).isSome = true ↔
    name ∈ (signatures (parsedSources sources)).map ClassSignature.name

/-- A session in which more classes are declared is still one. -/
theorem Session.mono {declared declared' : List ClassSignature} (h : Session options declared g)
    (hdeclared : ∀ s ∈ declared, s ∈ declared') : Session options declared' g := by
  induction h with
  | fresh => exact .fresh
  | declare _ hs ih => exact ih.declare (hdeclared _ hs)
  | define _ model ih => exact ih.define model

/-- One more source adds its signature behind the others, if it parses. -/
theorem signatures_append (sources : List (Text × Text)) (path source : Text) :
    signatures (parsedSources (sources ++ [(path, source)])) =
      signatures (parsedSources sources) ++
        (fileSignature? (path, parseForGeneration path source)).toList := by
  rw [parsedSources, List.map_append, signatures, List.filterMap_append]
  refine congrArg (signatures (parsedSources sources) ++ ·) ?_
  rw [List.map_singleton, List.filterMap_cons, List.filterMap_nil]
  cases fileSignature? (path, parseForGeneration path source) <;> rfl

/-- The class of a source among some is among the declared ones. -/
theorem mem_names_of_unitSignature? {s : ClassSignature}
    (hparse : parseForGeneration path source = .ok cu) (hmem : (path, source) ∈ sources)
    (hs : Registry.unitSignature? cu = some s) :
    s.name ∈ (signatures (parsedSources sources)).map ClassSignature.name := by
  have hparsed : (path, .ok cu) ∈ parsedSources sources :=
    List.mem_map.2 ⟨_, hmem, Prod.ext rfl hparse⟩
  exact List.mem_map_of_mem (mem_signatures hparsed hs)

namespace Informed

/-- A new generator knows of no source. -/
theorem fresh : Informed options [] (ofOptions options) := by
  refine ⟨.fresh, fun name => ?_⟩
  change (none : Option RegistryEntry).isSome = true ↔ name ∈ []
  simp

/-- A source that cannot be parsed declares nothing. -/
theorem ignore {f : Failure} (h : Informed options sources g)
    (hparse : parseForGeneration path source = .error f) :
    Informed options (sources ++ [(path, source)]) g := by
  have hsame : signatures (parsedSources (sources ++ [(path, source)])) =
      signatures (parsedSources sources) := by
    rw [signatures_append, hparse]
    exact List.append_nil _
  exact ⟨hsame ▸ h.session, hsame ▸ h.isSome_entry?⟩

/-- Declaring the unit of a source is knowing of the source. -/
theorem declareUnit (h : Informed options sources g)
    (hparse : parseForGeneration path source = .ok cu) :
    Informed options (sources ++ [(path, source)]) (g.declareUnit cu) := by
  have hall := signatures_append sources path source
  rw [hparse] at hall
  change _ = _ ++ (Registry.unitSignature? cu).toList at hall
  unfold Generator.declareUnit Registry.declareUnit
  cases hs : Registry.unitSignature? cu with
  | none =>
    rw [hs, Option.toList_none, List.append_nil] at hall
    exact ⟨hall ▸ h.session, hall ▸ h.isSome_entry?⟩
  | some s =>
    rw [hs, Option.toList_some] at hall
    refine ⟨?_, fun name => ?_⟩
    · rw [hall]
      exact (h.session.mono fun t ht => List.mem_append_left _ ht).declare (by simp)
    · rw [hall, List.map_append, List.mem_append, ← h.isSome_entry?]
      dsimp only
      by_cases hname : name = s.name
      · subst hname
        rw [Registry.entry?_declareSignature_self]
        simp
      · rw [Registry.entry?_declareSignature_of_ne hname]
        simp [hname]

/-- Defining a class that a source declares changes nothing that is known of the sources. -/
theorem define (h : Informed options sources g) {model : ClassModel}
    (hmodel : model.name ∈ (signatures (parsedSources sources)).map ClassSignature.name) :
    Informed options sources (g.define model) := by
  refine ⟨h.session.define model, fun name => ?_⟩
  obtain ⟨e, he⟩ := Option.isSome_iff_exists.1 ((h.isSome_entry? _).2 hmodel)
  have hregistry : (g.define model).registry =
      g.registry.setEntry model.name { e with target := model.toRef, isDefined := true } := by
    change (g.registry.define model.toRef).1 = _
    have he' : g.registry.entry? model.toRef.name = some e := he
    rw [Registry.define, he']
    rfl
  rw [hregistry]
  by_cases hname : name = model.name
  · subst hname
    rw [Registry.entry?_setEntry_self]
    simpa using hmodel
  · rw [Registry.entry?_setEntry_of_ne hname, h.isSome_entry?]

end Informed

/-- The name of a generated class is the one that its source declares. -/
theorem declared_of_generateUnit (hparse : parseForGeneration path source = .ok cu)
    (hmem : (path, source) ∈ sources) (h : g.generateUnit path cu = .ok unit) :
    unit.model.name ∈ (signatures (parsedSources sources)).map ClassSignature.name := by
  obtain ⟨hkind, hclean⟩ := accepted_of_generateUnit h
  obtain ⟨decl, -, hs, -, -, hname, -⟩ := generateUnit_model hkind hclean h
  rw [hname, ← ClassSignature.ofDecl_name]
  exact mem_names_of_unitSignature? hparse hmem hs

/-- A generator that was given sources in any way knows of them. -/
theorem Receives.informed (h : Receives options sources g) : Informed options sources g := by
  induction h with
  | fresh => exact .fresh
  | @declare sources g _ path source ih =>
    unfold declareSource
    cases hparse : parseForGeneration path source with
    | error f => exact ih.ignore hparse
    | ok cu => exact ih.declareUnit hparse
  | @generate sources g _ path source ih =>
    unfold generateSource
    cases hparse : parseForGeneration path source with
    | error f => exact ih.ignore hparse
    | ok cu =>
      dsimp only
      unfold generateParsed
      have hdeclared := ih.declareUnit hparse
      cases hunit : (g.declareUnit cu).generateUnit path cu with
      | error f =>
        simp only [hunit]
        exact hdeclared
      | ok unit =>
        simp only [hunit]
        exact hdeclared.define (declared_of_generateUnit hparse (by simp) hunit)

/-- Without configured types, members are generated against proper surroundings. -/
theorem Informed.properBase (h : Informed options sources g) (hmap : options.typeMap = []) :
    g.surroundings.ProperBase := by
  have hsignatures : ∀ s ∈ signatures (parsedSources sources), s.Proper := by
    intro s hs
    obtain ⟨path, cu, hmem, hsignature⟩ := exists_of_mem_signatures hs
    obtain ⟨_, -, heq⟩ := List.mem_map.1 hmem
    exact proper_of_unitSignature? (Prod.mk.inj heq).2 hsignature
  refine ⟨⟨?_, h.session.foreign⟩, fun name hname => ?_, fun entry hentry s hs => ?_⟩
  · change g.mapper.overrides = []
    rw [h.session.mapper_eq, hmap]
    rfl
  · obtain ⟨s, hs, rfl⟩ := List.mem_map.1 ((h.isSome_entry? name).1 hname)
    exact (hsignatures s hs).name
  · exact (hsignatures s ((h.session.sound entry hentry).signature s hs).1).known

/-- A unit whose pending names are those of the imported classes that are not part of the system
and that nothing declares, in the order of the imports. Each of them is pending once, and neither
the unit's own class nor one of Foundation is. -/
structure PendingMatches (declared : List ClassSignature) (unit : GeneratedUnit) : Prop where
  pending_eq : unit.pending = (unit.model.imports.filter fun c =>
    !c.isSystem && !(declared.map ClassSignature.name).contains c.name).map ClassRef.name
  nodup : unit.pending.Nodup
  own : unit.model.name ∉ unit.pending
  foundation : ∀ name ∈ unit.pending, ClassRef.predefined? name = none

/-- The class of a generated unit and its pending names come from the same references. -/
theorem generateUnit_inStep (hbase : g.surroundings.ProperBase) (hcu : cu.Plausible)
    (h : g.generateUnit path cu = .ok unit) :
    ∃ r : References, r.InStep ∧
      unit.model.imports = r.imports.classes.filter (·.name ≠ unit.model.name) ∧
      unit.pending = r.pending.filter fun name => (g.registry.lookup? name).isNone := by
  obtain ⟨hkind, hclean⟩ := accepted_of_generateUnit h
  obtain ⟨d, hresult⟩ := generateUnit_ok hkind hclean h
  rw [generateUnit_eq hkind hclean, hresult] at h
  refine ⟨d.references, compilationUnit_inStep hbase hcu hresult, ?_⟩
  rcases compilationUnit_covered hbase.plain hresult with hnone | ⟨b, hb⟩
  · simp [unitOf, UnitDraft.currentClass, hnone] at h
    cases h
  · simp [unitOf, UnitDraft.currentClass, hb.outcome, hb.builder, ClassBuilder.build?,
      hb.isOpen] at h
    cases h
    exact ⟨rfl, rfl⟩

/-- A unit generated without a type map declares what its header does not import. -/
theorem Informed.pendingMatches (hg : Informed options sources g) (hmap : options.typeMap = [])
    (hparse : parseForGeneration path source = .ok cu) (hmem : (path, source) ∈ sources)
    (h : g.generateUnit path cu = .ok unit) :
    PendingMatches (signatures (parsedSources sources)) unit := by
  obtain ⟨r, hr, himports, hpending⟩ := generateUnit_inStep (hg.properBase hmap)
    (plausible_of_parseForGeneration hparse) h
  have hown := declared_of_generateUnit hparse hmem h
  have hunknown : ∀ name, (g.registry.lookup? name).isNone = true ↔
      ClassRef.predefined? name = none ∧
        name ∉ (signatures (parsedSources sources)).map ClassSignature.name := by
    intro name
    rw [← hg.isSome_entry?, Registry.lookup?]
    simp
  refine ⟨?_, ?_, ?_, ?_⟩
  · rw [hpending, hr.pending_eq, himports, List.filter_map, List.filter_filter, List.filter_filter]
    refine congrArg (List.map ClassRef.name) (List.filter_congr fun c hc => ?_)
    -- The own class is declared, so both sides leave it out.
    have hcanonical : c.isSystem = (ClassRef.predefined? c.name).isSome := hr.canonical c hc
    rw [Bool.eq_iff_iff]
    simp only [Function.comp_apply, Bool.and_eq_true, hunknown, hcanonical, Bool.not_eq_true',
      Option.isSome_eq_false_iff, Option.isNone_iff_eq_none, List.contains_eq_mem,
      decide_eq_false_iff_not, decide_eq_true_eq]
    rw [and_congr_right_iff]
    rintro ⟨hpredefined, hdeclared⟩
    exact iff_of_true hpredefined fun heq => hdeclared (heq ▸ hown)
  · rw [hpending, hr.pending_eq]
    exact (hr.nodup.sublist ((List.filter_sublist).map _)).sublist List.filter_sublist
  · rw [hpending, List.mem_filter, hunknown]
    exact fun hin => hin.2.2 hown
  · intro name hname
    rw [hpending, List.mem_filter, hunknown] at hname
    exact hname.2.1

/-- Pending names agree with imports. Without configured types, and whatever sources were declared
to a generator or generated by it before, the names that are pending in a generated unit are those
of its imported classes that are not part of Foundation and that no source declares, in the same
order. This is so for a source that is generated on its own, and for one that a batch declares with
others first. -/
theorem pending_matches_imports (hmap : options.typeMap = []) (hg : Receives options sources g) :
    (∀ path source unit, (g.generateSource path source).1 = .ok unit →
      PendingMatches (signatures (parsedSources (sources ++ [(path, source)]))) unit) ∧
    ∀ path source cu unit, (path, source) ∈ sources → parseForGeneration path source = .ok cu →
      g.generateUnit path cu = .ok unit →
        PendingMatches (signatures (parsedSources sources)) unit := by
  refine ⟨fun path source unit h => ?_, fun path source cu unit hmem hparse h =>
    hg.informed.pendingMatches hmap hparse hmem h⟩
  unfold generateSource at h
  cases hparse : parseForGeneration path source with
  | error f =>
    rw [hparse] at h
    cases h
  | ok cu =>
    rw [hparse] at h
    dsimp only at h
    unfold generateParsed at h
    cases hunit : (g.declareUnit cu).generateUnit path cu with
    | error f =>
      simp only [hunit] at h
      cases h
    | ok unit' =>
      simp only [hunit] at h
      cases h
      exact (hg.informed.declareUnit hparse).pendingMatches hmap hparse (by simp) hunit

/-- The protocol and the type of the parameter are pending, the declared superclass is not. -/
theorem pending_matches_imports_of_parameter :
    ({} : GeneratorOptions).typeMap = [] ∧
    Receives {} [("B.java", "class B\x7b\x7d")] borrowingGenerator ∧
    ∃ unit, (borrowingGenerator.generateSource "A.java" borrowingSource).1 = .ok unit ∧
      unit.pending = ["Q", "C"] ∧
      PendingMatches (signatures (parsedSources
        [("B.java", "class B\x7b\x7d"), ("A.java", borrowingSource)])) unit := by
  have hreceives : Receives {} [("B.java", "class B\x7b\x7d")] borrowingGenerator :=
    Receives.fresh.declareAll [("B.java", "class B\x7b\x7d")]
  have hpending : ((borrowingGenerator.generateSource "A.java" borrowingSource).1.toOption.map
      GeneratedUnit.pending) = some [Text.ofString "Q", Text.ofString "C"] := by decide +kernel
  refine ⟨rfl, hreceives, ?_⟩
  cases hunit : (borrowingGenerator.generateSource "A.java" borrowingSource).1 with
  | error f =>
    rw [hunit] at hpending
    cases hpending
  | ok unit =>
    rw [hunit] at hpending
    exact ⟨unit, rfl, Option.some.inj hpending,
      (pending_matches_imports rfl hreceives).1 "A.java" borrowingSource unit hunit⟩

end Generator

end JavaObjC
