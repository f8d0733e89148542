import JavaObjC.Proofs.Headers.Provision

/-!
# Headers import what they mention

While a unit is put together, each type that a field or a prototype mentions is
recorded among the references when it is mapped, and imports are never lost. So
the header of a generated class imports every class that its declaration
mentions, by the line that belongs to it, and never itself.
-/

namespace JavaObjC

open Generating

/-- The types in the prototype of a method. -/
def TargetMethod.types (m : TargetMethod) : List TypeRef :=
  m.result :: m.parameters.map TargetParameter.type

namespace ClassPart

/-- The supertypes that a part of a class adds. -/
def supertypes : ClassPart → List ClassRef
  | .base c => [c]
  | .adopted c => [c]
  | _ => []

/-- The types that a part of a class mentions. -/
def types : ClassPart → List TypeRef
  | .field f => [f.type]
  | .method m => m.types
  | _ => []

end ClassPart

namespace ClassBuilder

/-- The supertypes collected so far. -/
def supertypes (b : ClassBuilder) : List ClassRef := b.bases ++ b.protocols

/-- The types of the fields and prototypes collected so far. -/
def types (b : ClassBuilder) : List TypeRef :=
  b.fields.map TargetField.type ++ b.methods.flatMap TargetMethod.types

variable {b : ClassBuilder}

/-- A class in the making mentions nothing but what its parts mention. -/
theorem addPart_mentions (hopen : b.isSealed = false) (p : ClassPart) :
    (b.addPart p).isSealed = false ∧ (b.addPart p).name = b.name ∧
      (∀ c ∈ (b.addPart p).supertypes, c ∈ b.supertypes ∨ c ∈ p.supertypes) ∧
      ∀ t ∈ (b.addPart p).types, t ∈ b.types ∨ t ∈ p.types := by
  cases p with
  | base c =>
    rw [addPart, addBase, change_of_open hopen]
    refine ⟨hopen, rfl, fun c' hc' => ?_, fun t ht => .inl ht⟩
    simp only [supertypes, List.mem_append] at hc' ⊢
    tauto
  | adopted c =>
    rw [addPart, addProtocol, change_of_open hopen]
    split
    · exact ⟨hopen, rfl, fun c' hc' => .inl hc', fun t ht => .inl ht⟩
    · refine ⟨hopen, rfl, fun c' hc' => ?_, fun t ht => .inl ht⟩
      simp only [supertypes, List.mem_append] at hc' ⊢
      tauto
  | field f =>
    rw [addPart, addField, change_of_open hopen]
    split
    · exact ⟨hopen, rfl, fun c' hc' => .inl hc', fun t ht => .inl ht⟩
    · refine ⟨hopen, rfl, fun c' hc' => .inl hc', fun t ht => ?_⟩
      simp only [types, List.map_append, List.mem_append] at ht ⊢
      tauto
  | method m =>
    rw [addPart, addMethod, change_of_open hopen]
    split
    · exact ⟨hopen, rfl, fun c' hc' => .inl hc', fun t ht => .inl ht⟩
    · refine ⟨hopen, rfl, fun c' hc' => .inl hc', fun t ht => ?_⟩
      simp only [types, List.flatMap_append, List.flatMap_singleton, List.mem_append] at ht ⊢
      tauto
  | initializer body isStatic =>
    rw [addPart, addInitializer, change_of_open hopen]
    split <;> exact ⟨hopen, rfl, fun c' hc' => .inl hc', fun t ht => .inl ht⟩
  | protocolFlag isProtocol =>
    rw [addPart, setProtocol, change_of_open hopen]
    exact ⟨hopen, rfl, fun c' hc' => .inl hc', fun t ht => .inl ht⟩

end ClassBuilder

namespace UnitDraft

/-- The name of the class that the unit declares. -/
def ownName (d : UnitDraft) : Text := (d.unit.map ClassSignature.name).getD []

/-- A type that the class of a unit may mention: its class, if it has one, is imported or needs no
import. -/
def Knows (d : UnitDraft) (t : TypeRef) : Prop :=
  ∀ c, t = .object c →
    c.Canonical ∧ (c.isId = true ∨ c.name = d.ownName ∨ d.references.Imports c.name)

/-- A unit in the making whose references cover what its class mentions. -/
structure Covered (b : ClassBuilder) (d : UnitDraft) : Prop where
  outcome : d.outcome = none
  builder : d.builder = some b
  isOpen : b.isSealed = false
  own : d.ownName = b.name
  references : d.references.Canonical
  supertypes : ∀ c ∈ b.supertypes, c.Canonical
  types : ∀ t ∈ b.types, d.Knows t

/-- A step in the making of a unit: no import is lost, and a covered unit stays covered. -/
structure Goes (d d' : UnitDraft) : Prop where
  unit_eq : d'.unit = d.unit
  imports : ∀ name, d.references.Imports name → d'.references.Imports name
  covered : ∀ b, d.Covered b → ∃ b', d'.Covered b'

variable {d d' d'' : UnitDraft} {t : TypeRef}

/-- What the unit knows it knows ever after. -/
theorem Knows.goes (h : d.Knows t) (hgoes : d.Goes d') : d'.Knows t := by
  intro c hc
  obtain ⟨hcanonical, hknown⟩ := h c hc
  refine ⟨hcanonical, hknown.imp_right (Or.imp (fun hname => ?_) (hgoes.imports c.name))⟩
  rw [hname, ownName, ownName, hgoes.unit_eq]

namespace Goes

theorem refl (d : UnitDraft) : Goes d d := ⟨rfl, fun _ h => h, fun b h => ⟨b, h⟩⟩

/-- A draft that goes on twice has gone on. -/
theorem trans (h : Goes d d') (h' : Goes d' d'') : Goes d d'' := by
  refine ⟨h'.unit_eq.trans h.unit_eq, fun name hname => h'.imports name (h.imports name hname), ?_⟩
  intro b hb
  obtain ⟨b', hb'⟩ := h.covered b hb
  exact h'.covered b' hb'

/-- Recording canonical classes. -/
theorem addAll {noted : List ClassRef} (hnoted : ∀ c ∈ noted, c.Canonical) :
    Goes d { d with references := d.references.addAll d.ownName noted } := by
  have himports : ∀ name, d.references.Imports name →
      (d.references.addAll d.ownName noted).Imports name := fun _ => References.imports_addAll noted
  refine ⟨rfl, himports, fun b h => ⟨b, { h with
    references := h.references.addAll hnoted
    types := fun t ht c hc => ?_ }⟩⟩
  obtain ⟨hcanonical, hknown⟩ := h.types t ht c hc
  exact ⟨hcanonical, hknown.imp_right (Or.imp_right (himports c.name))⟩

/-- Adding a part that mentions known types only. -/
theorem addPart {p : ClassPart} (hsupertypes : ∀ c ∈ p.supertypes, c.Canonical)
    (htypes : ∀ t ∈ p.types, d.Knows t) :
    Goes d { d with builder := d.builder.map (·.addPart p) } := by
  refine ⟨rfl, fun _ h => h, fun b h => ⟨b.addPart p, ?_⟩⟩
  obtain ⟨hopen, hname, hsupers, hmentions⟩ := ClassBuilder.addPart_mentions h.isOpen p
  exact
    { outcome := h.outcome
      builder := by rw [h.builder]; rfl
      isOpen := hopen
      own := by rw [hname]; exact h.own
      references := h.references
      supertypes := fun c hc => (hsupers c hc).elim (h.supertypes c) (hsupertypes c)
      types := fun t ht => (hmentions t ht).elim (h.types t) (htypes t) }

end Goes

end UnitDraft

open UnitDraft

namespace Drafting

variable {around : Surroundings} {d d' : UnitDraft} {α : Type} {a b : α}

/-- Members are generated in plain surroundings if units are. -/
theorem plain_surroundings (h : around.Plain) (d : UnitDraft) : (surroundings around d).Plain :=
  ⟨h.overrides_eq, h.foreign⟩

/-- Generating a body adds what its formed action records. -/
theorem generate_goes {setting : Surroundings → Surroundings} {x : Lower α} (hx : x.Formed)
    (hplain : (setting (surroundings around d)).Plain)
    (hunit : (setting (surroundings around d)).unit = d.unit)
    (h : result (generate setting x) around d = (.ok a, d')) : Goes d d' := by
  obtain ⟨noted, hnoted, hresult⟩ := generate_records hx setting around d
  have hstate := congrArg Prod.snd (hresult.symm.trans h)
  have hown : (setting (surroundings around d)).ownName = d.ownName := by
    rw [Surroundings.ownName, hunit, UnitDraft.ownName]
  dsimp only at hstate
  rw [← hstate, hown]
  exact .addAll fun c hc => hplain.provides (hnoted c hc)

/-- What is recorded for the unit itself is known from then on. -/
theorem generateHead_goes {x : Lower α} {noted : List ClassRef} {left : List Scope}
    (hplain : around.Plain)
    (hrecords : x.Records (surroundings around d) [[]] (.ok a) noted left)
    (h : result (generateHead x) around d = (.ok b, d')) :
    b = a ∧ Goes d d' ∧
      ∀ t : TypeRef, (∀ c, t = .object c → c = .id ∨ c ∈ noted) → d'.Knows t := by
  obtain ⟨rfl, rfl⟩ := generateHead_of_records hrecords h
  have hcanonical : ∀ c ∈ noted, c.Canonical := fun c hc =>
    (plain_surroundings hplain d).provides (hrecords.provided c hc)
  refine ⟨rfl, .addAll hcanonical, fun t ht c hc => ?_⟩
  rcases ht c hc with rfl | hmem
  · exact ⟨ClassRef.canonical_id, .inl rfl⟩
  · refine ⟨hcanonical c hmem, ?_⟩
    cases hid : c.isId with
    | true => exact .inl rfl
    | false =>
      by_cases hown : c.name = d.ownName
      · exact .inr (.inl hown)
      · exact .inr (.inr (References.imports_addAll_of_mem hmem hid hown))

/-- A mapped type is known in the draft that recorded it. -/
theorem mapType_goes {t : JavaType} {ref : TypeRef} (hplain : around.Plain)
    (h : result (generateHead (Lower.mapType t)) around d = (.ok ref, d')) :
    Goes d d' ∧ d'.Knows ref := by
  obtain ⟨ref', noted, hrecords, href⟩ := Lower.mapType_records (surroundings around d) t [[]]
  obtain ⟨rfl, hgoes, hknows⟩ := generateHead_goes hplain hrecords h
  exact ⟨hgoes, hknows ref href⟩

/-- The types of parameters are known in the draft that recorded them. -/
theorem targetParameters_goes {parameters : List Parameter} {targets : List TargetParameter}
    (hplain : around.Plain)
    (h : result (generateHead (Lowering.targetParameters parameters)) around d
      = (.ok targets, d')) : Goes d d' ∧ ∀ q ∈ targets, d'.Knows q.type := by
  obtain ⟨targets', noted, hrecords, htargets⟩ :=
    Lower.targetParameters_records (surroundings around d) parameters [[]]
  obtain ⟨rfl, hgoes, hknows⟩ := generateHead_goes hplain hrecords h
  exact ⟨hgoes, fun q hq => hknows q.type (htargets q hq)⟩

/-- A part of the class may be added when its types are known and its supertypes canonical. -/
theorem build_goes {p : ClassPart} {a : Unit} (hsupertypes : ∀ c ∈ p.supertypes, c.Canonical)
    (htypes : ∀ t ∈ p.types, d.Knows t)
    (h : result (build (·.addPart p)) around d = (.ok a, d')) : Goes d d' := by
  rw [build_ok h]
  exact .addPart hsupertypes htypes

/-- Steps one after the other, each of which starts from where the first one starts or later. -/
theorem forM_goes {f : α → Drafting PUnit} {l : List α} {start : UnitDraft} (hstart : Goes start d)
    (hf : ∀ a d d', Goes start d → result (f a) around d = (.ok (), d') → Goes d d')
    (h : result (l.forM f) around d = (.ok (), d')) : Goes d d' := by
  induction l generalizing d with
  | nil =>
    obtain ⟨-, rfl⟩ := pure_ok h
    exact .refl d
  | cons a l ih =>
    obtain ⟨_, d₁, hfirst, hrest⟩ := bind_ok h
    have hstep := hf a d d₁ hstart hfirst
    exact hstep.trans (ih (hstart.trans hstep) hrest)

end Drafting

namespace Lowering

open Drafting

variable {around : Surroundings} {d d' : UnitDraft} {n : Node} {isInterface : Bool}

/-- A variable has the type of its declaration, which is known. -/
theorem fieldVariable_goes {shape : TargetField} {t : JavaType} (hplain : around.Plain)
    (hshape : d.Knows shape.type)
    (h : result (fieldVariable shape t n) around d = (.ok (), d')) : Goes d d' := by
  unfold fieldVariable at h
  cases hvalue : declaredValue n with
  | none =>
    rw [hvalue] at h
    exact build_goes (p := .field _) (List.forall_mem_nil _)
      (by simpa [ClassPart.types] using hshape) h
  | some value =>
    rw [hvalue] at h
    obtain ⟨start, d₁, hstart, hbuild⟩ := bind_ok h
    have hgoes : Goes d d₁ := generate_goes
      (initialValue_formed (attributed_formed value) t) ⟨hplain.overrides_eq, hplain.foreign⟩ rfl
      hstart
    have hknows := hshape.goes hgoes
    exact hgoes.trans
      (build_goes (p := .field _) (List.forall_mem_nil _)
        (by simpa [ClassPart.types] using hknows) hbuild)

/-- The type of a field is recorded before its variables are added. -/
theorem field_goes (hplain : around.Plain)
    (h : result (field isInterface n) around d = (.ok (), d')) : Goes d d' := by
  unfold field at h
  obtain ⟨_, d₁, hrequire, hrest⟩ := bind_ok h
  rw [(require_ok hrequire).2] at hrest
  obtain ⟨ref, d₂, hhead, hvariables⟩ := bind_ok hrest
  obtain ⟨hgoes, hknows⟩ := mapType_goes hplain hhead
  refine hgoes.trans (forM_goes (.refl d₂) (fun decl d d' hd hvariable => ?_) hvariables)
  exact fieldVariable_goes hplain (hknows.goes hd) hvariable

/-- The statements of a method are a body or nothing. -/
theorem methodStatements_goes {mods : Modifiers} {body : Option (List Stmt)}
    (hplain : around.Plain)
    (h : result (methodStatements isInterface mods n) around d = (.ok body, d')) : Goes d d' := by
  unfold methodStatements at h
  split at h
  · next block _ =>
    split at h
    · exact (pure_ok h).2 ▸ .refl d
    · rw [map_eq_pure_bind] at h
      obtain ⟨_, d₁, hblock, hpure⟩ := bind_ok h
      have hformed := (declareParameters_formed (Parameter.ofDecl n)).bind fun _ =>
        blockBody_formed (attributed_formed block).parts
      have hgoes : Goes d d₁ :=
        generate_goes hformed ⟨hplain.overrides_eq, hplain.foreign⟩ rfl hblock
      exact (pure_ok hpure).2 ▸ hgoes
  · exact (pure_ok h).2 ▸ .refl d

/-- The types of a method are recorded before it is added. -/
theorem addMethod_goes (hplain : around.Plain)
    (h : result (addMethod isInterface n) around d = (.ok (), d')) : Goes d d' := by
  unfold addMethod at h
  obtain ⟨targets, d₁, htargets, hrest⟩ := bind_ok h
  obtain ⟨ref, d₂, href, hrest'⟩ := bind_ok hrest
  obtain ⟨body, d₃, hbody, hbuild⟩ := bind_ok hrest'
  obtain ⟨hfirst, hparameters⟩ := targetParameters_goes hplain htargets
  obtain ⟨hsecond, hresult⟩ := mapType_goes hplain href
  have hthird := methodStatements_goes hplain hbody
  have hall := (hfirst.trans hsecond).trans hthird
  refine hall.trans (build_goes (p := .method _) (List.forall_mem_nil _) ?_ hbuild)
  rw [ClassPart.types, TargetMethod.types, List.forall_mem_cons]
  refine ⟨hresult.goes hthird, List.forall_mem_map.2 fun q hq => ?_⟩
  exact (hparameters q hq).goes (hsecond.trans hthird)

/-- The types of a constructor are recorded before it is added. -/
theorem addConstructor_goes (hplain : around.Plain)
    (h : result (addConstructor n) around d = (.ok (), d')) : Goes d d' := by
  unfold addConstructor at h
  obtain ⟨targets, d₁, htargets, hrest⟩ := bind_ok h
  obtain ⟨block, d₂, hblock, hrest'⟩ := bind_ok hrest
  rw [(require_ok hblock).2] at hrest'
  obtain ⟨⟨initCall, body⟩, d₃, hbody, hbuild⟩ := bind_ok hrest'
  obtain ⟨hfirst, hparameters⟩ := targetParameters_goes hplain htargets
  have hsecond : Goes d₁ d₃ := generate_goes (constructorBody_formed _ block)
    ⟨hplain.overrides_eq, hplain.foreign⟩ rfl hbody
  refine (hfirst.trans hsecond).trans
    (build_goes (p := .method _) (List.forall_mem_nil _) ?_ hbuild)
  rw [ClassPart.types, TargetMethod.types, List.forall_mem_cons]
  refine ⟨fun c hc => ?_, List.forall_mem_map.2 fun q hq => (hparameters q hq).goes hsecond⟩
  cases hc
  exact ⟨ClassRef.canonical_id, .inl rfl⟩

/-- A member leaves the unit covered. -/
theorem member_goes (hplain : around.Plain)
    (h : result (member isInterface n) around d = (.ok (), d')) : Goes d d' := by
  unfold member at h
  cases hkind : n.kind with
  | fieldDecl =>
    simp only [hkind] at h
    exact field_goes hplain h
  | methodDecl =>
    simp only [hkind, method] at h
    split at h
    · exact absurd h refuse_ok
    · exact addMethod_goes hplain h
  | constructorDecl =>
    simp only [hkind, constructor] at h
    split at h
    · exact absurd h refuse_ok
    · obtain ⟨_, d₁, hget, hrest⟩ := bind_ok h
      obtain rfl : d = d₁ := by cases hget; rfl
      split at hrest
      · exact absurd hrest refuse_ok
      · exact addConstructor_goes hplain hrest
  | block =>
    simp only [hkind, initializerMember] at h
    obtain ⟨body, d₁, hbody, hbuild⟩ := bind_ok h
    have hgoes : Goes d d₁ := generate_goes (blockBody_formed (attributed_formed _).parts)
      ⟨hplain.overrides_eq, hplain.foreign⟩ rfl hbody
    exact hgoes.trans (build_goes (p := .initializer _ _) (List.forall_mem_nil _)
      (List.forall_mem_nil _) hbuild)
  | emptyStmt =>
    simp only [hkind] at h
    exact (pure_ok h).2 ▸ .refl d
  | _ =>
    simp only [hkind] at h
    exact absurd h refuse_ok

/-- A protocol is recorded before it is adopted. -/
theorem adopt_goes {types : List Node} (hplain : around.Plain)
    (h : result (adopt types) around d = (.ok (), d')) : Goes d d' := by
  refine forM_goes (.refl d) (fun n d d' _ hadopt => ?_) h
  obtain ⟨c, d₁, hhead, hbuild⟩ := bind_ok hadopt
  obtain ⟨c', hrecords⟩ :=
    Lower.protocolNamed_records (surroundings around d) (JavaType.ofNode n).name [[]]
  obtain ⟨rfl, hgoes, -⟩ := generateHead_goes hplain hrecords hhead
  have hcanonical : c.Canonical := (plain_surroundings hplain d).provides
    (hrecords.provided c List.mem_cons_self)
  exact hgoes.trans
    (build_goes (p := .adopted c) (List.forall_mem_singleton.2 hcanonical)
      (List.forall_mem_nil _) hbuild)

/-- The class above and the protocols are recorded before they are added. -/
theorem supertypes_goes {decl : Node} (hplain : around.Plain)
    (h : result (supertypes isInterface decl) around d = (.ok (), d')) : Goes d d' := by
  unfold supertypes at h
  split at h
  · exact adopt_goes hplain h
  · cases hbase : decl.child? .type with
    | none =>
      simp only [hbase] at h
      exact adopt_goes hplain h
    | some base =>
      simp only [hbase] at h
      obtain ⟨c, d₁, hhead, hrest⟩ := bind_ok h
      obtain ⟨_, d₂, hbuild, hadopt⟩ := bind_ok hrest
      obtain ⟨c', noted, hrecords, hprovides⟩ :=
        Lower.classNamed_records (surroundings around d) (JavaType.ofNode base).name [[]]
      obtain ⟨rfl, hgoes, -⟩ := generateHead_goes hplain hrecords hhead
      have hcanonical : c.Canonical := (plain_surroundings hplain d).provides hprovides
      have hbased := build_goes (p := .base c) (List.forall_mem_singleton.2 hcanonical)
        (List.forall_mem_nil _) hbuild
      exact (hgoes.trans hbased).trans (adopt_goes hplain hadopt)

/-- A class that is generated is covered. -/
theorem typeDeclaration_covered {decl : Node} (hplain : around.Plain) (hnew : d.outcome = none)
    (hreferences : d.references.Canonical)
    (h : result (typeDeclaration decl) around d = (.ok (), d')) : ∃ b, d'.Covered b := by
  unfold typeDeclaration at h
  dsimp only at h
  split at h
  · exact absurd h refuse_ok
  · obtain ⟨_, d₁, hopen, hrest⟩ := bind_ok h
    obtain ⟨_, d₂, hsupertypes, hmembers⟩ := bind_ok hrest
    have hfirst : ∃ b, d₁.Covered b := by
      rw [modify_ok hopen]
      exact ⟨_, hnew, rfl, rfl, rfl, hreferences, nofun, nofun⟩
    obtain ⟨b, hb⟩ := hfirst
    have hsecond := supertypes_goes hplain hsupertypes
    have hthird : Goes d₂ d' := by
      cases hblock : decl.child? .block with
      | none =>
        rw [hblock] at hmembers
        exact (pure_ok hmembers).2 ▸ .refl d₂
      | some block =>
        rw [hblock] at hmembers
        exact forM_goes (.refl d₂) (fun n d d' _ hmember => member_goes hplain hmember) hmembers
    exact (hsecond.trans hthird).covered b hb

/-- Referring to a name records its class. -/
theorem referName_records (around : Surroundings) (name : Text) (scopes : List Scope) :
    Lower.Records (do Lower.refer ((← read).classOf name)) around scopes (.ok ())
      [around.classOf name] scopes :=
  ⟨List.forall_mem_singleton.2 (.ofName name rfl), fun _ => rfl⟩

/-- Import declarations record canonical classes. -/
theorem topLevel_canonical {primary kept : Option Node} (hplain : around.Plain)
    (hd : d.references.Canonical)
    (h : result (topLevel primary n) around d = (.ok kept, d')) : d'.references.Canonical := by
  unfold topLevel at h
  cases hkind : n.kind with
  | packageDecl =>
    simp only [hkind] at h
    obtain ⟨_, d₁, hpackage, hpure⟩ := bind_ok h
    rw [← (pure_ok hpure).2, modify_ok hpackage]
    exact hd
  | importDecl =>
    simp only [hkind, importDeclaration] at h
    obtain ⟨_, d₁, himport, hpure⟩ := bind_ok h
    rw [← (pure_ok hpure).2]
    split at himport
    · exact (pure_ok himport).2 ▸ hd
    · obtain ⟨_, d₂, hvisible, hrefer⟩ := bind_ok himport
      have hsame : d₂.references = d.references := by rw [modify_ok hvisible]
      split at hrefer
      · rw [← (pure_ok hrefer).2, hsame]
        exact hd
      · obtain ⟨-, rfl⟩ := generateHead_of_records (referName_records _ _ [[]]) hrefer
        refine References.Canonical.addAll (hsame ▸ hd) ?_
        exact List.forall_mem_singleton.2 ((plain_surroundings hplain d₂).classOf _)
  | classDecl =>
    simp only [hkind] at h
    split at h
    · exact absurd h refuse_ok
    · exact (pure_ok h).2 ▸ hd
  | interfaceDecl =>
    simp only [hkind] at h
    split at h
    · exact absurd h refuse_ok
    · exact (pure_ok h).2 ▸ hd
  | emptyStmt =>
    simp only [hkind] at h
    exact (pure_ok h).2 ▸ hd
  | _ =>
    simp only [hkind] at h
    exact absurd h refuse_ok

/-- What the declarations before the type of a unit import is canonical. -/
theorem topLevels_canonical {nodes : List Node} {primary kept : Option Node}
    (hplain : around.Plain) (hd : d.references.Canonical)
    (h : result (nodes.foldlM topLevel primary) around d = (.ok kept, d')) :
    d'.references.Canonical := by
  induction nodes generalizing primary d with
  | nil => exact (pure_ok h).2 ▸ hd
  | cons n nodes ih =>
    rw [List.foldlM_cons] at h
    obtain ⟨_, d₁, hfirst, hrest⟩ := bind_ok h
    exact ih (topLevel_canonical hplain hd hfirst) hrest

/-- The references of a unit cover what its class mentions. -/
theorem compilationUnit_covered {cu : Node} {path : Text} (hplain : around.Plain)
    (h : result (compilationUnit cu) around { file := path } = (.ok (), d')) :
    d'.builder = none ∧ d'.outcome = none ∨ ∃ b, d'.Covered b := by
  obtain ⟨kept, d₁, hkept, hrest⟩ := bind_ok h
  have hcanonical := topLevels_canonical hplain (d := { file := path }) nofun hkept
  have hfresh : Stage false { file := path } := ⟨rfl, rfl⟩
  obtain ⟨hstage, -⟩ := topLevels_lead _ _ _ _ _ _ hfresh hkept
  cases kept with
  | none =>
    obtain rfl : d₁ = d' := (pure_ok hrest).2
    exact .inl ⟨by simpa using hstage.builder, hstage.outcome⟩
  | some decl => exact .inr (typeDeclaration_covered hplain hstage.outcome hcanonical hrest)

end Lowering

/-- Only compilation units without problems are generated. -/
theorem accepted_of_generateUnit {g : Generator} {path : Text} {cu : Node} {unit : GeneratedUnit}
    (h : g.generateUnit path cu = .ok unit) : cu.kind = .compilationUnit ∧ cu.problems = [] := by
  unfold Generator.generateUnit UnitDraft.visit at h
  by_cases hkind : cu.kind = .compilationUnit
  · refine ⟨hkind, ?_⟩
    cases hproblems : cu.problems with
    | nil => rfl
    | cons problem rest =>
      simp only [hkind, hproblems, ne_eq, not_true_eq_false, if_false] at h
      cases h
  · simp only [hkind, ne_eq, not_false_eq_true, if_true] at h
    cases h

/-- A class that is generated in plain surroundings is built from a covered unit. -/
theorem generateUnit_covered {g : Generator} {path : Text} {cu : Node} {unit : GeneratedUnit}
    (hplain : g.surroundings.Plain) (h : g.generateUnit path cu = .ok unit) :
    ∃ b d, UnitDraft.Covered b d ∧ unit.model = b.model d.references.imports := by
  obtain ⟨hkind, hclean⟩ := accepted_of_generateUnit h
  obtain ⟨d, hresult⟩ := generateUnit_ok hkind hclean h
  rw [generateUnit_eq hkind hclean, hresult] at h
  rcases Lowering.compilationUnit_covered hplain hresult with hnone | ⟨b, hb⟩
  · simp [unitOf, UnitDraft.currentClass, hnone] at h
    cases h
  · refine ⟨b, d, hb, ?_⟩
    have hclass : d.currentClass.1 = .ok (b.model d.references.imports) := by
      simp [UnitDraft.currentClass, hb.outcome, hb.builder, ClassBuilder.build?, hb.isOpen]
    simp only [unitOf, hclass] at h
    cases h
    rfl

namespace ClassModel

/-- The classes that a declaration mentions: as base, as protocol, or as the type of a field, of a
parameter or of a result. -/
def Mentions (m : ClassModel) (c : ClassRef) : Prop :=
  c = m.base ∨ c ∈ m.protocols ∨ .object c ∈ m.fields.map TargetField.type ∨
    .object c ∈ m.methods.flatMap TargetMethod.types

end ClassModel

namespace UnitDraft.Covered

variable {b : ClassBuilder} {d : UnitDraft} {c : ClassRef}

/-- The class above is canonical, whether declared or the class of all objects. -/
theorem canonical_base (h : d.Covered b) : (b.model d.references.imports).base.Canonical := by
  unfold ClassBuilder.model
  dsimp only
  split
  · exact ClassRef.canonical_nsObject
  · cases hbases : b.bases with
    | nil => exact ClassRef.canonical_nsObject
    | cons first rest =>
      refine h.supertypes first (List.mem_append_left _ ?_)
      rw [hbases]
      exact List.mem_cons_self

/-- All dependencies of the class of a covered unit are canonical. -/
theorem canonical_dependencies (h : d.Covered b) :
    ∀ c ∈ (b.model d.references.imports).dependencies, c.Canonical := by
  intro c hc
  have hmem := (ClassModel.mem_of_mem_dependencies hc).1
  rw [List.cons_append, List.mem_cons, List.mem_append] at hmem
  rcases hmem with rfl | hprotocol | himport
  · exact h.canonical_base
  · exact h.supertypes c (List.mem_append_right _ hprotocol)
  · exact h.references c (List.mem_filter.1 himport).1

/-- What the class of a covered unit mentions is a supertype, or is imported or needs no import. -/
theorem canonical_of_mentions (h : d.Covered b) (hc : (b.model d.references.imports).Mentions c) :
    c.Canonical ∧
      (c ∈ (b.model d.references.imports).base :: (b.model d.references.imports).protocols ∨
        c.isId = true ∨ c.name = b.name ∨ d.references.Imports c.name) := by
  have htyped : .object c ∈ b.types → c.Canonical ∧
      (c.isId = true ∨ c.name = b.name ∨ d.references.Imports c.name) := fun ht =>
    h.own ▸ h.types _ ht c rfl
  rcases hc with rfl | hprotocol | hfield | hmethod
  · exact ⟨h.canonical_base, .inl List.mem_cons_self⟩
  · exact ⟨h.supertypes c (List.mem_append_right _ hprotocol),
      .inl (List.mem_cons_of_mem _ hprotocol)⟩
  · exact (htyped (List.mem_append_left _ hfield)).imp_right .inr
  · obtain ⟨m, hm, ht⟩ := List.mem_flatMap.1 hmethod
    rw [ClassBuilder.model, firstPerKey_eq] at hm
    have hadded : m ∈ b.methods := (firstBy_sublist _ _).subset hm
    exact (htyped (List.mem_append_right _ (List.mem_flatMap.2 ⟨m, hadded, ht⟩))).imp_right .inr

/-- What the class of a covered unit mentions is among its dependencies by name. -/
theorem exists_dependency (h : d.Covered b) (hc : (b.model d.references.imports).Mentions c)
    (hid : c.isId = false) (hown : c.name ≠ b.name) :
    ∃ c' ∈ (b.model d.references.imports).dependencies, c'.name = c.name := by
  obtain ⟨hcanonical, hsupertype | hid' | hown' | himports⟩ := h.canonical_of_mentions hc
  · exact ClassModel.exists_mem_dependencies (List.mem_append_left _ hsupertype) hid hown
  · rw [hid] at hid'
    cases hid'
  · exact absurd hown' hown
  · obtain ⟨c', hmem, hname⟩ := List.mem_map.1 himports
    have hid' : c'.isId = false :=
      (hcanonical.isId_eq (h.references c' hmem) hname).trans hid
    have hown' : c'.name ≠ b.name := fun heq => hown (hname ▸ heq)
    have himported : c' ∈ (b.model d.references.imports).imports :=
      List.mem_filter.2 ⟨hmem, by simpa using hown'⟩
    obtain ⟨c'', hdependency, hname'⟩ :=
      ClassModel.exists_mem_dependencies (List.mem_append_right _ himported) hid' hown'
    exact ⟨c'', hdependency, hname'.trans hname⟩

end UnitDraft.Covered

/-- A header with the import lines its declaration needs: a banner, then the import block and an
empty line, then the `@interface` or the `@protocol`. -/
structure ClassModel.ImportsWhatItMentions (m : ClassModel) : Prop where
  /-- The block stands right between the banner and the declaration. -/
  header_eq : ∃ rest, m.header = banner m.headerFile ++ m.importBlock.flatMap line ++ m.blockEnd ++
    m.openingLine ++ rest
  /-- No line of the block is there twice. -/
  distinct : m.importBlock.Nodup
  /-- Foundation is first, and the other classes follow in the order of their names. -/
  sorted : ∃ foundation, ∃ users : List Text,
    m.importBlock = foundation ++ users.map ClassRef.classLine ∧
    (foundation = [] ∨ foundation = [ClassRef.foundationLine]) ∧
    users.Pairwise fun s t => Text.before s t = true
  /-- What the declaration mentions has its line, other than the type of any object and the class
  itself. -/
  mentioned : ∀ c, m.Mentions c → c.isId = false → (c.name = m.name → c.isSystem = true) →
    c.importDirective ∈ m.importBlock
  /-- The class does not import itself. -/
  not_itself : m.toRef.importDirective ∉ m.importBlock

namespace Generator

/-- Without configured types, the header of a generated class starts with distinct import lines,
Foundation first and then the other classes in the order of their names. Each class that the
declaration mentions, other than the type of any object and the class itself, has its line there,
and the class itself has none. -/
theorem header_imports_what_it_mentions {options : GeneratorOptions}
    {declared : List ClassSignature} {g : Generator} {path : Text} {cu : Node}
    {unit : GeneratedUnit} (hg : Session options declared g) (hmap : options.typeMap = [])
    (h : g.generateUnit path cu = .ok unit)
    (hown : ClassRef.predefined? unit.model.name = none) :
    unit.model.ImportsWhatItMentions := by
  have hplain : g.surroundings.Plain := by
    refine ⟨?_, hg.foreign⟩
    change g.mapper.overrides = []
    rw [hg.mapper_eq, hmap]
    rfl
  obtain ⟨b, d, hb, hmodel⟩ := generateUnit_covered hplain h
  rw [hmodel] at hown ⊢
  refine
    { header_eq := ClassModel.header_eq _
      distinct := ClassModel.importBlock_nodup _
      sorted := ?_
      mentioned := fun c hc hid hother => ?_
      not_itself := fun hmem => ?_ }
  · obtain ⟨foundation, users, heq, hfoundation, hstrict, -⟩ :=
      (b.model d.references.imports).importBlock_eq
    exact ⟨foundation, users, heq, hfoundation, hstrict⟩
  · have hcanonical := (hb.canonical_of_mentions hc).1
    have hname : c.name ≠ (b.model d.references.imports).name := by
      intro heq
      have hsystem := hother heq
      rw [hcanonical, heq, hown] at hsystem
      cases hsystem
    obtain ⟨c', hdependency, hname'⟩ := hb.exists_dependency hc hid hname
    refine ClassModel.mem_importBlock.2 ⟨c', hdependency, ?_⟩
    exact hcanonical.importDirective_eq (hb.canonical_dependencies c' hdependency) hname'
  · obtain ⟨c, hc, hline⟩ := ClassModel.mem_importBlock.1 hmem
    have hforeign : (b.model d.references.imports).toRef.isSystem = false := rfl
    rw [ClassRef.importDirective_of_not_system hforeign] at hline
    cases hsystem : c.isSystem with
    | true =>
      rw [ClassRef.importDirective_of_system hsystem] at hline
      exact ClassRef.classLine_ne_foundationLine _ hline.symm
    | false =>
      rw [ClassRef.importDirective_of_not_system hsystem] at hline
      exact (ClassModel.mem_of_mem_dependencies hc).2 (ClassRef.classLine_inj hline)

/-- A class that mentions itself, a declared class, a library class and classes that nothing
declares. -/
def borrowingSource : Text :=
  "class A extends B implements Q\x7bString s; A next; int f(C c, int n)\x7breturn n;\x7d\x7d"

/-- The generator that knows the superclass of the class. -/
def borrowingGenerator : Generator :=
  (ofOptions {}).declareAll (parsedSources [("B.java", "class B\x7b\x7d")])

/-- The header of the class imports the type of a parameter and not the class itself. -/
theorem header_imports_what_it_mentions_of_parameter :
    ({} : GeneratorOptions).typeMap = [] ∧
    ∃ unit, borrowingGenerator.generateUnit "A.java"
        (Entry.compilationUnit.read borrowingSource).1 = .ok unit ∧
      ClassRef.predefined? unit.model.name = none ∧
      unit.model.Mentions (.placeholder "C" false) ∧
      ClassRef.classLine "C" ∈ unit.model.importBlock ∧
      ClassRef.classLine "A" ∉ unit.model.importBlock := by
  have hfacts : ((borrowingGenerator.generateUnit "A.java"
      (Entry.compilationUnit.read borrowingSource).1).toOption.map fun unit =>
        (unit.model.name, decide (TypeRef.object (.placeholder "C" false) ∈
          unit.model.methods.flatMap TargetMethod.types))) = some (Text.ofString "A", true) := by
    decide +kernel
  cases hunit : borrowingGenerator.generateUnit "A.java"
      (Entry.compilationUnit.read borrowingSource).1 with
  | error f =>
    rw [hunit] at hfacts
    cases hfacts
  | ok unit =>
    rw [hunit] at hfacts
    obtain ⟨hname, hmention⟩ := Prod.mk.inj (Option.some.inj hfacts)
    have hown : ClassRef.predefined? unit.model.name = none := by
      rw [hname]
      decide
    have hmentions : unit.model.Mentions (.placeholder "C" false) :=
      .inr (.inr (.inr (of_decide_eq_true hmention)))
    have hsession := session_declareAll {} (parsedSources [("B.java", "class B\x7b\x7d")])
    have himports := header_imports_what_it_mentions hsession rfl hunit hown
    have hline := himports.mentioned (.placeholder "C" false) hmentions rfl (by rw [hname]; decide)
    have hself := himports.not_itself
    have hselfLine : unit.model.toRef.importDirective = ClassRef.classLine unit.model.name := rfl
    rw [hselfLine, hname] at hself
    exact ⟨rfl, unit, rfl, hown, hmentions, hline, hself⟩

end Generator

end JavaObjC
