import JavaObjC.Proofs.Lowering.Agreement
import JavaObjC.Lowering.Members

/-!
# Whether a unit has a class

An action leads from one condition on the state to another when, started under
the first, it leaves the second behind unless it refuses. No member opens or
seals the builder of the unit's class, and the declaration of the class opens
it. So a unit that is generated without a refusal has an open builder exactly
if it declares a class or interface.
-/

namespace JavaObjC

namespace Generating

variable {σ α β : Type}

/-- An action that gives a result under one condition leaves another one behind. -/
def Leads (P : σ → Prop) (x : Generating σ α) (Q : α → σ → Prop) : Prop :=
  ∀ around s a s', P s → x.result around s = (.ok a, s') → Q a s'

/-- An action that leaves a condition as it was. -/
abbrev Keeps (P : σ → Prop) (x : Generating σ α) : Prop := Leads P x fun _ => P

namespace Leads

variable {P : σ → Prop} {Q : α → σ → Prop} {R : β → σ → Prop}

/-- A plain answer leaves the draft as it is. -/
theorem pure {a : α} (h : ∀ s, P s → Q a s) : Leads P (Pure.pure a : Generating σ α) Q := by
  rintro around s _ _ hs ⟨⟩
  exact h s hs

/-- What one action leads to is what the next one starts from. -/
theorem bind {x : Generating σ α} {f : α → Generating σ β} (hx : Leads P x Q)
    (hf : ∀ a, Leads (Q a) (f a) R) : Leads P (x >>= f) R := by
  intro around s b s' hs hresult
  rw [bind_result] at hresult
  cases hfirst : x.result around s with
  | mk outcome s₁ =>
    rw [hfirst] at hresult
    cases outcome with
    | error e => cases hresult
    | ok a => exact hf a around s₁ b s' (hx around s a s₁ hs hfirst) hresult

theorem refused (r : Refusal) : Leads P (throw r : Generating σ α) Q := by
  rintro around s a s' - ⟨⟩

/-- A choice leads where both of its actions do. -/
theorem ite {x y : Generating σ α} {p : Prop} [Decidable p] (yes : p → Leads P x Q)
    (no : ¬ p → Leads P y Q) : Leads P (if p then x else y) Q := by
  by_cases h : p
  · rw [if_pos h]
    exact yes h
  · rw [if_neg h]
    exact no h

/-- What does not depend on the state can be assumed. -/
theorem of_and {x : Generating σ α} {p : Prop} (h : p → Leads P x Q) :
    Leads (fun s => P s ∧ p) x Q := fun around s a s' hs => h hs.2 around s a s' hs.1

/-- What is left behind can be described differently. -/
theorem mono {Q' : α → σ → Prop} {x : Generating σ α} (h : Leads P x Q)
    (hQ : ∀ a s, Q a s → Q' a s) : Leads P x Q' := fun around s a s' hs hresult =>
  hQ a s' (h around s a s' hs hresult)

/-- Changing the answer keeps what the action keeps. -/
theorem map {x : Generating σ α} {f : α → β} (hx : Keeps P x) : Keeps P (f <$> x) := by
  rw [map_eq_pure_bind]
  exact hx.bind fun a => .pure fun _ => id

/-- Actions in a row keep what each of them keeps. -/
theorem forM {f : α → Generating σ PUnit} {l : List α} (hf : ∀ a, Keeps P (f a)) :
    Keeps P (l.forM f) := by
  induction l with
  | nil => exact .pure fun _ => id
  | cons a l ih => exact (hf a).bind fun _ => ih

end Leads

end Generating

open Generating

/-- A unit that has not been built yet, with or without an open builder. -/
structure UnitDraft.Stage (hasBuilder : Bool) (d : UnitDraft) : Prop where
  outcome : d.outcome = none
  builder : d.builder.map ClassBuilder.isSealed = if hasBuilder then some false else none

namespace Drafting

variable {α : Type} {hasBuilder : Bool}

/-- A refused member leads nowhere. -/
theorem refuse_leads {P : UnitDraft → Prop} {Q : α → UnitDraft → Prop} (construct : Text)
    (n : Node) : Leads P (refuse construct n) Q := .refused _

/-- Reading the draft keeps its stage. -/
theorem get_keeps : Keeps (UnitDraft.Stage hasBuilder) (get : Drafting UnitDraft) := by
  rintro around d _ _ hd ⟨⟩
  exact hd

/-- Requiring a part keeps the stage. -/
theorem require_keeps (part : Option α) :
    Keeps (UnitDraft.Stage hasBuilder) (require part) := by
  cases part with
  | none => exact .refused _
  | some a => exact .pure fun _ => id

/-- Generating for a member changes nothing but the references. -/
theorem generate_keeps (setting : Surroundings → Surroundings) (action : Lower α) :
    Keeps (UnitDraft.Stage hasBuilder) (generate setting action) := by
  intro around d a d' hd hresult
  have hstate := congrArg Prod.snd hresult
  change { d with references := _ } = d' at hstate
  subst hstate
  exact ⟨hd.outcome, hd.builder⟩

/-- Generating a head changes the references of a draft only. -/
theorem generateHead_keeps (action : Lower α) :
    Keeps (UnitDraft.Stage hasBuilder) (generateHead action) := generate_keeps id action

/-- A change that leaves the builder and the outcome alone. -/
theorem modify_keeps {f : UnitDraft → UnitDraft}
    (h : ∀ d, (f d).outcome = d.outcome ∧ (f d).builder = d.builder) :
    Keeps (UnitDraft.Stage hasBuilder) (modify f : Drafting PUnit) := by
  rintro around d _ _ hd ⟨⟩
  exact ⟨(h d).1.trans hd.outcome, by rw [(h d).2]; exact hd.builder⟩

/-- A change of the class in the making that does not seal it. -/
theorem build_keeps {f : ClassBuilder → ClassBuilder} (h : ∀ b, (f b).isSealed = b.isSealed) :
    Keeps (UnitDraft.Stage hasBuilder) (build f) := by
  rintro around d _ _ hd ⟨⟩
  refine ⟨hd.outcome, ?_⟩
  rw [← hd.builder, Option.map_map]
  exact congrArg (Option.map · d.builder) (funext h)

end Drafting

namespace ClassBuilder

/-- A change that is refused after sealing does not seal. -/
theorem change_isSealed (b : ClassBuilder) {f : ClassBuilder → ClassBuilder}
    (h : (f b).isSealed = b.isSealed) : (b.change f).isSealed = b.isSealed := by
  unfold change
  split
  · rfl
  · exact h

/-- Adding the class above does not seal a class. -/
theorem addBase_isSealed (c : ClassRef) (b : ClassBuilder) :
    (b.addBase c).isSealed = b.isSealed := b.change_isSealed rfl

/-- Adding a protocol does not seal a class. -/
theorem addProtocol_isSealed (c : ClassRef) (b : ClassBuilder) :
    (b.addProtocol c).isSealed = b.isSealed := b.change_isSealed (by split <;> rfl)

/-- Adding a field does not seal a class. -/
theorem addField_isSealed (f : TargetField) (b : ClassBuilder) :
    (b.addField f).isSealed = b.isSealed := b.change_isSealed (by split <;> rfl)

/-- Adding a method does not seal a class. -/
theorem addMethod_isSealed (m : TargetMethod) (b : ClassBuilder) :
    (b.addMethod m).isSealed = b.isSealed := b.change_isSealed (by split <;> rfl)

/-- Adding an initializer does not seal a class. -/
theorem addInitializer_isSealed (body : List Stmt) (isStatic : Bool) (b : ClassBuilder) :
    (b.addInitializer body isStatic).isSealed = b.isSealed :=
  b.change_isSealed (by split <;> rfl)

end ClassBuilder

namespace Lowering

open Drafting

variable {hasBuilder : Bool}

section Members

/-- A field declaration keeps the stage: it adds to an open class. -/
theorem field_keeps (isInterface : Bool) (n : Node) :
    Keeps (UnitDraft.Stage hasBuilder) (field isInterface n) := by
  refine (require_keeps _).bind fun type => (generateHead_keeps _).bind fun ref => ?_
  refine .forM fun decl => ?_
  unfold fieldVariable
  cases declaredValue decl with
  | none => exact build_keeps (ClassBuilder.addField_isSealed _)
  | some value =>
    exact (generate_keeps _ _).bind fun _ => build_keeps (ClassBuilder.addField_isSealed _)

/-- A method keeps the stage. -/
theorem method_keeps (isInterface : Bool) (n : Node) :
    Keeps (UnitDraft.Stage hasBuilder) (method isInterface n) := by
  have hstatements : ∀ mods, Keeps (UnitDraft.Stage hasBuilder)
      (methodStatements isInterface mods n) := by
    intro mods
    unfold methodStatements
    cases n.child? .block with
    | none => exact .pure fun _ => id
    | some block => exact .ite (fun _ => .pure fun _ => id) fun _ => .map (generate_keeps _ _)
  unfold method
  cases methodFault? isInterface n with
  | some fault => exact refuse_leads _ _
  | none =>
    refine (generateHead_keeps _).bind fun targets => (generateHead_keeps _).bind fun result => ?_
    exact (hstatements _).bind fun body => build_keeps (ClassBuilder.addMethod_isSealed _)

/-- A constructor keeps the stage. -/
theorem constructor_keeps (n : Node) :
    Keeps (UnitDraft.Stage hasBuilder) (constructor n) := by
  unfold constructor
  cases n.child? .typeParameters with
  | some list => exact refuse_leads _ _
  | none =>
    refine get_keeps.bind fun d => .ite (fun _ => refuse_leads _ _) fun _ => ?_
    refine (generateHead_keeps _).bind fun targets => (require_keeps _).bind fun block => ?_
    exact (generate_keeps _ _).bind fun _ => build_keeps (ClassBuilder.addMethod_isSealed _)

/-- Every kind of member keeps the stage. -/
theorem member_keeps (isInterface : Bool) (n : Node) :
    Keeps (UnitDraft.Stage hasBuilder) (member isInterface n) := by
  unfold member
  cases n.kind with
  | fieldDecl => exact field_keeps isInterface n
  | methodDecl => exact method_keeps isInterface n
  | constructorDecl => exact constructor_keeps n
  | block =>
    exact (generate_keeps _ _).bind fun _ =>
      build_keeps (ClassBuilder.addInitializer_isSealed _ _)
  | emptyStmt => exact .pure fun _ => id
  | _ => exact refuse_leads _ _

/-- Adopting protocols keeps the stage. -/
theorem adopt_keeps (types : List Node) :
    Keeps (UnitDraft.Stage hasBuilder) (adopt types) :=
  .forM fun _ => (generateHead_keeps _).bind fun _ =>
    build_keeps (ClassBuilder.addProtocol_isSealed _)

/-- The supertypes of a declaration keep the stage. -/
theorem supertypes_keeps (isInterface : Bool) (decl : Node) :
    Keeps (UnitDraft.Stage hasBuilder) (supertypes isInterface decl) := by
  refine .ite (fun _ => adopt_keeps _) fun _ => ?_
  cases decl.child? .type with
  | none => exact adopt_keeps _
  | some base =>
    refine (generateHead_keeps _).bind fun c => ?_
    exact (build_keeps (ClassBuilder.addBase_isSealed c)).bind fun _ => adopt_keeps _

/-- The declaration of a class opens the unit's builder. -/
theorem typeDeclaration_opens (decl : Node) :
    Leads (UnitDraft.Stage false) (typeDeclaration decl) fun _ => UnitDraft.Stage true := by
  refine .ite (fun _ => refuse_leads _ _) fun _ => ?_
  refine Leads.bind (Q := fun _ => UnitDraft.Stage true) ?_ fun _ => ?_
  · rintro around d _ _ hd ⟨⟩
    exact ⟨hd.outcome, rfl⟩
  · refine (supertypes_keeps _ decl).bind fun _ => ?_
    cases decl.child? .block with
    | none => exact .pure fun _ => id
    | some block => exact .forM fun n => member_keeps _ n

end Members

/-- Whether a node declares a class or an interface. -/
def declaresType (n : Node) : Prop := n.kind = .classDecl ∨ n.kind = .interfaceDecl

/-- An import keeps the stage. -/
theorem importDeclaration_keeps (n : Node) :
    Keeps (UnitDraft.Stage hasBuilder) (importDeclaration n) := by
  refine Leads.ite (fun _ => .pure fun _ => id) fun _ => ?_
  refine Leads.bind (modify_keeps ?_) fun _ => ?_
  · exact fun _ => ⟨rfl, rfl⟩
  · exact Leads.ite (fun _ => .pure fun _ => id) fun _ => generateHead_keeps _

/-- A top-level declaration is kept exactly if it declares a class or interface. -/
theorem topLevel_leads (primary : Option Node) (n : Node) :
    Leads (UnitDraft.Stage hasBuilder) (topLevel primary n) fun kept d =>
      d.Stage hasBuilder ∧ (kept.isSome ↔ primary.isSome ∨ declaresType n) := by
  unfold topLevel
  cases hkind : n.kind with
  | packageDecl =>
    refine Leads.bind (modify_keeps ?_) fun _ => .pure fun _ hd => ⟨hd, ?_⟩
    · exact fun _ => ⟨rfl, rfl⟩
    · simp [declaresType, hkind]
  | importDecl =>
    refine (importDeclaration_keeps n).bind fun _ => .pure fun _ hd => ⟨hd, ?_⟩
    simp [declaresType, hkind]
  | classDecl =>
    refine .ite (fun _ => refuse_leads _ _) fun _ => .pure fun _ hd => ⟨hd, ?_⟩
    simp [declaresType, hkind]
  | interfaceDecl =>
    refine .ite (fun _ => refuse_leads _ _) fun _ => .pure fun _ hd => ⟨hd, ?_⟩
    simp [declaresType, hkind]
  | emptyStmt => exact .pure fun _ hd => ⟨hd, by simp [declaresType, hkind]⟩
  | _ => exact refuse_leads _ _

/-- The declarations of a unit start no class, and one of them is kept exactly when one declares a
type. -/
theorem topLevels_lead (nodes : List Node) (primary : Option Node) :
    Leads (UnitDraft.Stage hasBuilder) (nodes.foldlM topLevel primary) fun kept d =>
      d.Stage hasBuilder ∧ (kept.isSome ↔ primary.isSome ∨ ∃ n ∈ nodes, declaresType n) := by
  induction nodes generalizing primary with
  | nil => exact .pure fun _ hd => ⟨hd, by simp⟩
  | cons n nodes ih =>
    rw [List.foldlM_cons]
    refine (topLevel_leads primary n).bind fun kept => .of_and fun hkept => ?_
    refine (ih kept).mono fun kept' d hd => ⟨hd.1, ?_⟩
    rw [hd.2, hkept, or_assoc, List.exists_mem_cons_iff]

/-- A unit that is generated has an open builder exactly if it declares a class or
interface. -/
theorem compilationUnit_leads (cu : Node) :
    Leads (UnitDraft.Stage false) (compilationUnit cu) fun _ d =>
      d.Stage true ∧ (∃ n ∈ cu.children, declaresType n) ∨
        d.Stage false ∧ ¬ ∃ n ∈ cu.children, declaresType n := by
  refine (topLevels_lead cu.children none).bind fun kept => .of_and fun hkept => ?_
  cases kept with
  | none =>
    exact .pure fun d hd => .inr ⟨hd, by simpa using hkept⟩
  | some decl =>
    have hdeclared : ∃ n ∈ cu.children, declaresType n := by simpa using hkept
    exact (typeDeclaration_opens decl).mono fun _ d hd => .inl ⟨hd, hdeclared⟩

end Lowering

namespace UnitDraft

/-- A unit with an open builder has a class. -/
theorem Stage.currentClass_ok {d : UnitDraft} (h : d.Stage true) :
    ∃ model, d.currentClass.1 = .ok model := by
  obtain ⟨b, hb, hsealed⟩ := Option.map_eq_some_iff.1 h.builder
  refine ⟨b.model d.references.imports, ?_⟩
  simp [currentClass, h.outcome, hb, ClassBuilder.build?, hsealed]

/-- A unit without a builder has none. -/
theorem Stage.currentClass_error {d : UnitDraft} (h : d.Stage false) :
    d.currentClass.1 = .error (.noType d.file) := by
  have hnone : d.builder = none := Option.map_eq_none_iff.1 h.builder
  simp [currentClass, h.outcome, hnone]

end UnitDraft

end JavaObjC
