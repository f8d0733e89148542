import JavaObjC.Proofs.Lowering.Formation

/-!
# Generating in surroundings that answer alike

An action is steady when surroundings that differ in alike registries only make
no difference to it: it gives the same result or the same refusal and leaves
the same state. Every action that generates code is steady, from the single
expression to the whole unit, because it asks its surroundings nothing but
look-ups. In particular no body, initializer or modifier of another unit has
any influence, for a registry keeps none of them.
-/

namespace JavaObjC

namespace Generating

variable {σ α β : Type}

/-- An action to which surroundings that answer alike are the same. -/
def Steady (x : Generating σ α) : Prop :=
  ∀ around around', around.Alike around' → ∀ s, x.result around' s = x.result around s

namespace Steady

theorem pure (a : α) : Steady (Pure.pure a : Generating σ α) := fun _ _ _ _ => rfl

theorem refused (r : Refusal) : Steady (throw r : Generating σ α) := fun _ _ _ _ => rfl

/-- A steady action followed by steady ones is steady. -/
theorem bind {x : Generating σ α} {f : α → Generating σ β} (hx : Steady x)
    (hf : ∀ a, Steady (f a)) : Steady (x >>= f) := by
  intro around around' h s
  rw [bind_result, bind_result, hx around around' h s]
  obtain ⟨outcome, s'⟩ := x.result around s
  cases outcome with
  | ok a => exact hf a around around' h s'
  | error e => rfl

/-- An action that reads its surroundings and uses only what is the same in all that answer
alike. -/
theorem read {f : Surroundings → Generating σ α}
    (heq : ∀ around around', around.Alike around' → f around' = f around)
    (hf : ∀ around, Steady (f around)) : Steady (MonadReader.read >>= f) := by
  intro around around' h s
  change (f around').result around' s = (f around).result around s
  rw [heq around around' h]
  exact hf around around around' h s

/-- Changing the answer of a steady action leaves it steady. -/
theorem map {x : Generating σ α} (hx : Steady x) (f : α → β) : Steady (f <$> x) := by
  rw [map_eq_pure_bind]
  exact hx.bind fun a => .pure (f a)

/-- A choice between steady actions is steady. -/
theorem ite {x y : Generating σ α} {p : Prop} [Decidable p] (yes : Steady x) (no : Steady y) :
    Steady (if p then x else y) := by
  split
  · exact yes
  · exact no

/-- A steady action on a running value, member after member. -/
theorem foldlM {f : β → α → Generating σ β} {l : List α} (hf : ∀ b, ∀ a ∈ l, Steady (f b a))
    (b : β) : Steady (l.foldlM f b) := by
  induction l generalizing b with
  | nil => exact .pure b
  | cons a l ih =>
    rw [List.foldlM_cons]
    exact (hf b a (List.mem_cons_self ..)).bind fun c =>
      ih (fun b a ha => hf b a (List.mem_cons_of_mem _ ha)) c

/-- Steady actions in a row. -/
theorem forM {f : α → Generating σ PUnit} {l : List α} (hf : ∀ a ∈ l, Steady (f a)) :
    Steady (l.forM f) := by
  induction l with
  | nil => exact .pure _
  | cons a l ih =>
    rw [List.forall_mem_cons] at hf
    exact hf.1.bind fun _ => ih hf.2

end Steady

end Generating

open Generating

namespace Lower

variable {α : Type}

/-- Changing the state of a body asks nothing of the surroundings. -/
theorem modify_steady (f : BodyState → BodyState) : Steady (modify f : Lower PUnit) :=
  fun _ _ _ _ => rfl

/-- Recording a class that is known asks nothing of the surroundings. -/
theorem refer_steady (c : ClassRef) : Steady (refer c) :=
  .read (fun _ _ h => by rw [h.ownName_eq]) fun _ => modify_steady _

/-- A type is mapped to the same target type in surroundings that answer alike. -/
theorem mapType_steady (t : JavaType) : Steady (mapType t) := by
  refine .read (fun around around' h => by rw [h.isParameterType_eq, h.map_eq]) fun around => ?_
  refine .ite (.pure _) ?_
  dsimp only
  cases around.mapper.map around.registry t with
  | object c => exact (refer_steady c).bind fun _ => .pure _
  | scalar _ => exact .bind (.pure _) fun _ => .pure _

/-- A name is mapped to the same class in surroundings that answer alike. -/
theorem classNamed_steady (name : Text) : Steady (classNamed name) := by
  refine .read (fun around around' h => by rw [h.isTypeParameter_eq, h.classOf_eq]) fun around => ?_
  exact .ite (.pure _) ((refer_steady _).bind fun _ => .pure _)

/-- A scope around a steady action is steady. -/
theorem withScope_steady {x : Lower α} (h : Steady x) : Steady (withScope x) := by
  intro around around' ha s
  have hx := h around around' ha { s with scopes := [] :: s.scopes }
  exact congrArg (fun p : Except Refusal α × BodyState =>
    (p.1, { p.2 with scopes := p.2.scopes.drop 1 })) hx

/-- All code generation for bodies is steady. -/
theorem Formed.steady {x : Lower α} (h : Formed x) : Steady x := by
  induction h with
  | pure a => exact .pure a
  | refused r => exact .refused r
  | bind _ _ hx hf => exact .bind hx hf
  | read heq _ hf => exact .read heq hf
  | mapType t => exact mapType_steady t
  | classNamed name => exact classNamed_steady name
  | refer _ => exact refer_steady _
  | declareLocal name t => exact modify_steady _
  | localType? name => exact fun _ _ _ _ => rfl
  | withScope _ hx => exact withScope_steady hx

end Lower

namespace Drafting

variable {α β : Type}

/-- Requiring a part asks nothing of the surroundings. -/
theorem require_steady (part : Option α) : Steady (require part) := by
  cases part with
  | none => exact .refused _
  | some a => exact .pure a

/-- Changing the draft of a unit asks nothing of the surroundings. -/
theorem modify_steady (f : UnitDraft → UnitDraft) : Steady (modify f : Drafting PUnit) :=
  fun _ _ _ _ => rfl

theorem build_steady (f : ClassBuilder → ClassBuilder) : Steady (build f) := modify_steady _

theorem get_steady : Steady (get : Drafting UnitDraft) := fun _ _ _ _ => rfl

/-- Generating for a member in a setting that looks at nothing but what it replaces. -/
theorem generate_steady {setting : Surroundings → Surroundings} {x : Lower α}
    (hsetting : ∀ s s', Surroundings.Alike s s' → (setting s).Alike (setting s'))
    (hx : Steady x) : Steady (generate setting x) := by
  intro around around' h d
  have hmember : (surroundings around d).Alike (surroundings around' d) :=
    ⟨h.registry, h.mapper_eq, rfl, rfl, h.isStatic_eq, h.isConstructor_eq, h.result_eq⟩
  have hresult := hx _ _ (hsetting _ _ hmember) { references := d.references, scopes := [[]] }
  exact congrArg (fun p : Except Refusal α × BodyState =>
    (p.1, { d with references := p.2.references })) hresult

/-- What a head generates is steady when its action is. -/
theorem generateHead_steady {x : Lower α} (hx : Steady x) : Steady (generateHead x) :=
  generate_steady (fun _ _ h => h) hx

end Drafting

namespace Lowering

open Drafting

section Members

/-- The initial value of a field is generated by a formed action. -/
theorem initialized_steady (value : Node) (type : JavaType) (isStatic : Bool) :
    Steady (Drafting.generate (fun s => { s with isStatic })
      (initialValue (attributed value) type)) :=
  generate_steady (fun _ _ h => { h with isStatic_eq := rfl })
    (initialValue_formed (attributed_formed value) type).steady

/-- A field declaration is steady, one variable after another. -/
theorem field_steady (isInterface : Bool) (n : Node) : Steady (field isInterface n) := by
  refine (require_steady _).bind fun _ => ?_
  refine (generateHead_steady (Lower.mapType_steady _)).bind fun ref => .forM fun decl _ => ?_
  unfold fieldVariable
  cases declaredValue decl with
  | none => exact build_steady _
  | some value => exact (initialized_steady value _ _).bind fun _ => build_steady _

/-- The statements of a method are generated by a formed action. -/
theorem methodStatements_steady (isInterface : Bool) (mods : Modifiers) (n : Node) :
    Steady (methodStatements isInterface mods n) := by
  unfold methodStatements
  cases n.child? .block with
  | none => exact .pure _
  | some block =>
    refine .ite (.pure _) (.map (generate_steady (fun _ _ h => ?_) ?_) _)
    · exact { h with isStatic_eq := rfl, result_eq := rfl }
    · exact ((declareParameters_formed _).bind fun _ =>
        blockBody_formed (attributed_formed block).parts).steady

/-- A method is steady whether it is at fault or generated. -/
theorem method_steady (isInterface : Bool) (n : Node) : Steady (method isInterface n) := by
  unfold method
  cases methodFault? isInterface n with
  | some fault => exact .refused _
  | none =>
    refine (generateHead_steady (targetParameters_formed _).steady).bind fun _ => ?_
    refine (generateHead_steady (Lower.mapType_steady _)).bind fun _ => ?_
    exact (methodStatements_steady _ _ n).bind fun _ => build_steady _

/-- A constructor is steady. -/
theorem constructor_steady (n : Node) : Steady (constructor n) := by
  unfold constructor
  cases n.child? .typeParameters with
  | some list => exact .refused _
  | none =>
    refine get_steady.bind fun d => .ite (.refused _) ?_
    refine (generateHead_steady (targetParameters_formed _).steady).bind fun _ => ?_
    refine (require_steady _).bind fun block => .bind ?_ fun _ => build_steady _
    exact generate_steady (fun _ _ h => { h with isConstructor_eq := rfl })
      (constructorBody_formed _ block).steady

/-- An initializer is steady. -/
theorem initializerMember_steady (n : Node) : Steady (initializerMember n) := by
  refine .bind (generate_steady (fun _ _ h => ?_) ?_) fun _ => build_steady _
  · exact { h with isStatic_eq := rfl }
  · exact (blockBody_formed (attributed_formed _).parts).steady

/-- Every kind of member is steady. -/
theorem member_steady (isInterface : Bool) (n : Node) : Steady (member isInterface n) := by
  unfold member
  cases n.kind with
  | fieldDecl => exact field_steady isInterface n
  | methodDecl => exact method_steady isInterface n
  | constructorDecl => exact constructor_steady n
  | block => exact initializerMember_steady n
  | emptyStmt => exact .pure _
  | _ => exact .refused _

end Members

section Units

/-- Naming a protocol is steady. -/
theorem protocolNamed_steady (name : Text) : Steady (protocolNamed name) :=
  .read (fun _ _ h => by rw [h.classOf_eq]) fun _ =>
    (Lower.refer_steady _).bind fun _ => .pure _

/-- Adopting protocols is steady, one after another. -/
theorem adopt_steady (types : List Node) : Steady (adopt types) :=
  .forM fun _ _ => (generateHead_steady (protocolNamed_steady _)).bind fun _ => build_steady _

/-- The supertypes of a declaration are steady. -/
theorem supertypes_steady (isInterface : Bool) (decl : Node) :
    Steady (supertypes isInterface decl) := by
  refine .ite (adopt_steady _) ?_
  cases decl.child? .type with
  | none => exact adopt_steady _
  | some base =>
    refine (generateHead_steady (Lower.classNamed_steady _)).bind fun _ => ?_
    exact (build_steady _).bind fun _ => adopt_steady _

/-- A type declaration is steady: head, supertypes and members in turn. -/
theorem typeDeclaration_steady (decl : Node) : Steady (typeDeclaration decl) := by
  refine .ite (.refused _) ((modify_steady _).bind fun _ => ?_)
  refine (supertypes_steady _ decl).bind fun _ => ?_
  cases decl.child? .block with
  | none => exact .pure _
  | some block => exact .forM fun n _ => member_steady _ n

/-- An import asks for the class of its simple name only. -/
theorem importDeclaration_steady (n : Node) : Steady (importDeclaration n) := by
  refine .ite (.pure _) ((modify_steady _).bind fun _ => .ite (.pure _) ?_)
  exact generateHead_steady (.read (fun _ _ h => by rw [h.classOf_eq]) fun _ =>
    Lower.refer_steady _)

/-- Every declaration of a unit is steady. -/
theorem topLevel_steady (primary : Option Node) (n : Node) : Steady (topLevel primary n) := by
  unfold topLevel
  cases n.kind with
  | packageDecl => exact (modify_steady _).bind fun _ => .pure _
  | importDecl => exact (importDeclaration_steady n).bind fun _ => .pure _
  | classDecl => exact .ite (.refused _) (.pure _)
  | interfaceDecl => exact .ite (.refused _) (.pure _)
  | emptyStmt => exact .pure _
  | _ => exact .refused _

/-- A whole unit depends on its surroundings through look-ups alone. -/
theorem compilationUnit_steady (cu : Node) : Steady (compilationUnit cu) := by
  refine .bind (.foldlM (fun primary n _ => topLevel_steady primary n) none) fun primary => ?_
  cases primary with
  | none => exact .pure _
  | some decl => exact typeDeclaration_steady decl

end Units

end Lowering

end JavaObjC
