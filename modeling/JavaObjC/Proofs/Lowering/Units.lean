import JavaObjC.Lowering.Members
import JavaObjC.Proofs.Lowering.Statements

/-!
# Members and units up to places

The actions that put a unit together agree with themselves on declarations
that differ in places only. So two units of which one is the other with a
different layout leave the same draft behind, and neither is malformed.
-/

namespace JavaObjC

open Generating

/-- Shaped trees that differ in places only. -/
structure Node.Twins (n m : Node) : Prop where
  erase_eq : n.erase = m.erase
  shaped : n.Shaped

namespace Node.Twins

variable {n m : Node}

/-- What is read off a tree without its places is the same. -/
theorem eq_of_erase {α : Type} {f : Node → α} (h : Twins n m) (hf : ∀ k : Node, f k.erase = f k) :
    f m = f n := by
  rw [← hf m, ← h.erase_eq, hf n]

theorem kind_eq (h : Twins n m) : m.kind = n.kind := h.eq_of_erase erase_kind

theorem literal_eq (h : Twins n m) : m.literal = n.literal := h.eq_of_erase erase_literal

theorem fits (h : Twins n m) : n.Fits := ((shaped_iff n).1 h.shaped).1

/-- The attributed trees of such nodes are alike. -/
theorem attributed (h : Twins n m) : (Lowering.attributed n).Alike (Lowering.attributed m) :=
  Lowering.attributed_alike h.erase_eq h.shaped

/-- Trees that are the same without places, one by one. -/
theorem of_map_erase {l k : List Node} (h : l.map erase = k.map erase)
    (hshaped : ∀ n ∈ l, n.Shaped) : List.Forall₂ Twins l k := by
  induction l generalizing k with
  | nil =>
    cases k with
    | nil => exact .nil
    | cons m k => simp at h
  | cons n l ih =>
    cases k with
    | nil => simp at h
    | cons m k =>
      rw [List.map_cons, List.map_cons, List.cons.injEq] at h
      rw [List.forall_mem_cons] at hshaped
      exact .cons ⟨h.1, hshaped.1⟩ (ih h.2 hshaped.2)

/-- The children of such nodes differ in places only. -/
theorem children (h : Twins n m) : List.Forall₂ Twins n.children m.children :=
  of_map_erase (by rw [← erase_children, h.erase_eq, erase_children]) ((shaped_iff n).1 h.shaped).2

/-- The first nodes whose kinds pass a test. -/
theorem find? {l k : List Node} (h : List.Forall₂ Twins l k) (test : NodeKind → Bool) :
    Option.Rel Twins (l.find? fun n => test n.kind) (k.find? fun n => test n.kind) := by
  induction h with
  | nil => exact .none
  | cons hab _ ih =>
    rw [List.find?_cons, List.find?_cons, hab.kind_eq]
    split
    · exact .some hab
    · exact ih

/-- The first children of a kind. -/
theorem child? (h : Twins n m) (kind : NodeKind) :
    Option.Rel Twins (n.child? kind) (m.child? kind) :=
  find? h.children fun k => k = kind

/-- The children of a kind. -/
theorem childrenOf (h : Twins n m) (kind : NodeKind) :
    List.Forall₂ Twins (n.childrenOf kind) (m.childrenOf kind) := by
  have hchildren := h.children
  unfold Node.childrenOf
  generalize n.children = l at hchildren ⊢
  generalize m.children = k at hchildren ⊢
  induction hchildren with
  | nil => exact .nil
  | cons hab _ ih =>
    rw [List.filter_cons, List.filter_cons, hab.kind_eq]
    split
    · exact .cons hab ih
    · exact ih

/-- The children at the same place. -/
theorem childAt (h : Twins n m) (i : Nat) : Option.Rel Twins n.children[i]? m.children[i]? := by
  have hchildren := h.children
  generalize n.children = l at hchildren
  generalize m.children = k at hchildren
  induction hchildren generalizing i with
  | nil => exact .none
  | cons hab _ ih =>
    cases i with
    | zero => exact .some hab
    | succ i => simpa using ih i

end Node.Twins

namespace Drafting

variable {α β : Type} {R : α → β → Prop}

/-- Changing the draft of a unit is never malformed. -/
theorem modify_sound (f : UnitDraft → UnitDraft) : Sound (modify f : Drafting PUnit) :=
  .of_ok fun _ _ => ⟨(), rfl⟩

theorem build_sound (f : ClassBuilder → ClassBuilder) : Sound (build f) := modify_sound _

theorem get_sound : Sound (get : Drafting UnitDraft) := .of_ok fun _ d => ⟨d, rfl⟩

/-- Both refuse the same construct. -/
theorem refuse_agrees {construct construct' : Text} (h : construct = construct') (n m : Node) :
    Agrees R (refuse construct n : Drafting α) (refuse construct' m : Drafting β) := .refused h

/-- A part that is there on both sides. -/
theorem require_agrees {a : Option α} {b : Option β} (h : Option.Rel R a b) (ha : a.isSome) :
    Agrees R (require a) (require b) := by
  cases h with
  | none => cases ha
  | some h => exact .pure h

/-- Actions for a member that agree do so for the unit. -/
theorem generate_agrees (setting : Surroundings → Surroundings) {x : Lower α} {y : Lower β}
    (h : Agrees R x y) : Agrees R (generate setting x) (generate setting y) := by
  intro base d
  obtain ⟨houtcome, hstate⟩ := h (setting (surroundings base d))
    { references := d.references, scopes := [[]] }
  exact ⟨houtcome, congrArg (fun after : BodyState => { d with references := after.references })
    hstate⟩

/-- What is generated with the surroundings of a head agrees when it agrees in all surroundings. -/
theorem generateHead_agrees {x : Lower α} {y : Lower β} (h : Agrees R x y) :
    Agrees R (generateHead x) (generateHead y) := generate_agrees id h

end Drafting

namespace Lowering

variable {n m : Node}

section Fields

/-- The variables of a declaration share its modifiers and its type. -/
theorem fieldVariable_agrees (h : n.Twins m) (shape : TargetField) (type : JavaType) :
    Agrees Eq (fieldVariable shape type n) (fieldVariable shape type m) := by
  have hvalue : Option.Rel Node.Twins (declaredValue n) (declaredValue m) := h.childAt 1
  unfold fieldVariable
  rw [h.eq_of_erase declaredName_erase]
  generalize declaredValue n = value at hvalue ⊢
  generalize declaredValue m = value' at hvalue ⊢
  cases hvalue with
  | none => exact Drafting.build_sound _
  | some hvalue =>
    dsimp only
    rw [hvalue.eq_of_erase isLiteral_erase]
    exact (Drafting.generate_agrees _ (initialValue_agrees hvalue.attributed type)).bind_eq
      fun start => Drafting.build_sound _

/-- A field declaration has a type and declarators. -/
theorem field_agrees (h : n.Twins m) (hkind : n.kind = .fieldDecl) (isInterface : Bool) :
    Agrees Eq (field isInterface n) (field isInterface m) := by
  have hleast := h.fits.least
  rw [hkind] at hleast
  have hsome : n.children[1]?.isSome := by
    rw [List.getElem?_eq_getElem hleast]
    rfl
  refine (Drafting.require_agrees (h.childAt 1) hsome).bind fun type type' htype => ?_
  rw [htype.eq_of_erase JavaType.ofNode_erase, h.eq_of_erase Modifiers.ofDecl_erase]
  refine (Drafting.generateHead_agrees (Lower.mapType_sound _)).bind_eq fun ref => ?_
  exact .forM (h.childrenOf .varDeclarator) fun a b hab => fieldVariable_agrees hab _ _

end Fields

section Methods

/-- Parameters always have target types. -/
theorem targetParameters_sound (parameters : List Parameter) :
    Sound (targetParameters parameters) := by
  refine (Agrees.mapM_eq (T := Eq) (List.forall₂_refl parameters) ?_).mono fun _ _ h => h.1
  rintro p _ rfl
  exact (Lower.mapType_sound _).bind_eq fun _ => .pure rfl

/-- Parameters can always be declared. -/
theorem declareParameters_sound (parameters : List Parameter) :
    Sound (declareParameters parameters) := by
  refine Agrees.forM (T := Eq) (List.forall₂_refl parameters) ?_
  rintro p _ rfl
  exact Lower.declareLocal_sound _ _

/-- The body of a method is read in the scope of its parameters. -/
theorem methodBody_agrees (h : n.Twins m) (parameters : List Parameter) :
    Agrees Eq (methodBody parameters n) (methodBody parameters m) :=
  (declareParameters_sound parameters).bind_eq fun _ =>
    blockBody_agrees h.attributed.pieces.parts

/-- The same fault is found, if any. -/
theorem interfaceMethodFault?_rel {body body' : Option Node} (mods : Modifiers)
    (h : Option.Rel Node.Twins body body') :
    Option.Rel (fun x y => x.1 = y.1) (interfaceMethodFault? mods n body)
      (interfaceMethodFault? mods m body') := by
  unfold interfaceMethodFault?
  split
  · exact .some rfl
  · split
    · exact .some rfl
    · cases h with
      | none => exact .none
      | some _ => exact .some rfl

/-- Both methods are at fault for the same construct, at nodes that may stand elsewhere. -/
theorem methodFault?_rel (h : n.Twins m) (isInterface : Bool) :
    Option.Rel (fun x y => x.1 = y.1) (methodFault? isInterface n)
      (methodFault? isInterface m) := by
  have hlist := h.child? .typeParameters
  unfold methodFault?
  rw [h.eq_of_erase Modifiers.ofDecl_erase]
  generalize n.child? .typeParameters = list at hlist ⊢
  generalize m.child? .typeParameters = list' at hlist ⊢
  cases hlist with
  | some _ => exact .some rfl
  | none =>
    dsimp only
    split
    · exact interfaceMethodFault?_rel _ (h.child? .block)
    · exact .none

/-- The type of a method's result. -/
theorem resultType_eq (h : n.Twins m) :
    JavaType.ofNode? (resultNode m) = JavaType.ofNode? (resultNode n) :=
  h.eq_of_erase (f := fun n => JavaType.ofNode? (resultNode n)) fun k => by
    rw [resultNode_erase, JavaType.ofNode?_erase]

/-- A method without body has no statements, another one those of its block. -/
theorem methodStatements_agrees (h : n.Twins m) (isInterface : Bool) (mods : Modifiers) :
    Agrees Eq (methodStatements isInterface mods n) (methodStatements isInterface mods m) := by
  have hblock := h.child? .block
  unfold methodStatements
  rw [resultType_eq h, h.eq_of_erase Parameter.ofDecl_erase]
  generalize n.child? .block = block at hblock ⊢
  generalize m.child? .block = block' at hblock ⊢
  cases hblock with
  | none => exact .pure rfl
  | some hblock =>
    refine .ite (fun _ => .pure rfl) fun _ => ?_
    exact (Drafting.generate_agrees _ (methodBody_agrees hblock _)).map fun _ _ => congrArg some

/-- A method is at fault on both sides or on neither. -/
theorem method_agrees (h : n.Twins m) (isInterface : Bool) :
    Agrees Eq (method isInterface n) (method isInterface m) := by
  have hfault := methodFault?_rel h isInterface
  unfold method
  generalize methodFault? isInterface n = fault at hfault ⊢
  generalize methodFault? isInterface m = fault' at hfault ⊢
  cases hfault with
  | some hconstruct => exact Drafting.refuse_agrees hconstruct _ _
  | none =>
    dsimp only
    unfold addMethod
    rw [h.eq_of_erase Modifiers.ofDecl_erase, h.eq_of_erase Parameter.ofDecl_erase,
      resultType_eq h, h.eq_of_erase declaredName_erase]
    refine (Drafting.generateHead_agrees (targetParameters_sound _)).bind_eq fun targets => ?_
    refine (Drafting.generateHead_agrees (Lower.mapType_sound _)).bind_eq fun result => ?_
    refine (methodStatements_agrees h isInterface _).bind_eq fun body => ?_
    exact Drafting.build_sound _

end Methods

section Constructors

/-- An explicit constructor call is read by its arguments and by the word in front. -/
theorem constructorCall_agrees {parts parts' : Parts} (h : Parts.Alike parts parts') :
    Agrees Eq (constructorCall parts) (constructorCall parts') := by
  have hlist := h.first? .typeArguments
  have hself : (parts'.first? .thisRef).isSome = (parts.first? .thisRef).isSome := by
    have hself := h.first? .thisRef
    generalize parts.first? .thisRef = a at hself ⊢
    generalize parts'.first? .thisRef = b at hself ⊢
    cases hself <;> rfl
  unfold constructorCall
  rw [hself]
  generalize parts.first? .typeArguments = list at hlist ⊢
  generalize parts'.first? .typeArguments = list' at hlist ⊢
  cases hlist with
  | some _ => exact Attributed.Alike.refuse rfl
  | none =>
    refine h.arguments.bind ?_
    rintro arguments _ ⟨rfl, -⟩
    refine Lower.read_sound.bind_eq fun around => ?_
    refine .ite (fun _ => sendInit_sound _ _ _ _) fun _ => ?_
    exact .ite (fun _ => .pure rfl) fun _ => sendInit_sound _ _ _ _

/-- The call a constructor begins with is the same on both sides. -/
theorem constructorBody_agrees (h : n.Twins m) (parameters : List Parameter) :
    Agrees Eq (constructorBody parameters n) (constructorBody parameters m) := by
  refine (declareParameters_sound parameters).bind_eq fun _ => ?_
  have hparts := h.attributed.pieces.parts
  generalize (attributed n).parts = parts at hparts ⊢
  generalize (attributed m).parts = parts' at hparts ⊢
  cases hparts with
  | nil => exact (blockBody_agrees .nil).bind_eq fun _ => .pure rfl
  | cons hfirst hrest =>
    dsimp only
    rw [hfirst.kind_eq]
    refine Agrees.ite (fun _ => ?_) fun _ => ?_
    · refine (constructorCall_agrees hfirst.pieces.parts).bind_eq fun start => ?_
      exact (blockBody_agrees hrest).bind_eq fun _ => .pure rfl
    · exact (blockBody_agrees (.cons hfirst hrest)).bind_eq fun _ => .pure rfl

/-- A constructor has a body. -/
theorem constructor_agrees (h : n.Twins m) (hkind : n.kind = .constructorDecl) :
    Agrees Eq (constructor n) (constructor m) := by
  have hlist := h.child? .typeParameters
  have hsome : (n.child? .block).isSome := h.fits.required .block (by rw [hkind]; decide)
  unfold constructor
  rw [h.eq_of_erase declaredName_erase]
  generalize n.child? .typeParameters = list at hlist ⊢
  generalize m.child? .typeParameters = list' at hlist ⊢
  cases hlist with
  | some _ => exact Drafting.refuse_agrees rfl _ _
  | none =>
    refine Drafting.get_sound.bind_eq fun d => ?_
    refine .ite (fun _ => Drafting.refuse_agrees rfl _ _) fun _ => ?_
    unfold addConstructor
    rw [h.eq_of_erase Parameter.ofDecl_erase, h.eq_of_erase Modifiers.ofDecl_erase]
    refine (Drafting.generateHead_agrees (targetParameters_sound _)).bind_eq fun targets => ?_
    refine (Drafting.require_agrees (h.child? .block) hsome).bind fun block block' hblock => ?_
    refine (Drafting.generate_agrees _ (constructorBody_agrees hblock _)).bind_eq
      fun generated => ?_
    exact Drafting.build_sound _

/-- The same block is found, and belongs to the class on both sides or on none. -/
theorem initializerBlock_twins (h : n.Twins m) :
    (initializerBlock n).1.Twins (initializerBlock m).1 ∧
      (initializerBlock m).2 = (initializerBlock n).2 := by
  have hchildren := h.children
  unfold initializerBlock
  generalize n.children = children at hchildren ⊢
  generalize m.children = children' at hchildren ⊢
  match hchildren with
  | .nil => exact ⟨h, rfl⟩
  | .cons _ .nil => exact ⟨h, rfl⟩
  | .cons _ (.cons _ (.cons _ _)) => exact ⟨h, rfl⟩
  | .cons hmark (.cons hblock .nil) =>
    dsimp only
    rw [hmark.kind_eq, hmark.literal_eq, hblock.kind_eq]
    split
    · exact ⟨hblock, rfl⟩
    · exact ⟨h, rfl⟩

/-- An initializer is static or not on both sides. -/
theorem initializerMember_agrees (h : n.Twins m) :
    Agrees Eq (initializerMember n) (initializerMember m) := by
  have hpair := initializerBlock_twins h
  unfold initializerMember
  generalize initializerBlock n = found at hpair ⊢
  generalize initializerBlock m = found' at hpair ⊢
  obtain ⟨block, isStatic⟩ := found
  obtain ⟨block', isStatic'⟩ := found'
  obtain ⟨hblock, hstatic⟩ := hpair
  dsimp only at hstatic
  subst hstatic
  refine (Drafting.generate_agrees _ (blockBody_agrees hblock.attributed.pieces.parts)).bind_eq
    fun body => ?_
  exact Drafting.build_sound _

end Constructors

section Declarations

/-- Every kind of member. -/
theorem member_agrees (h : n.Twins m) (isInterface : Bool) :
    Agrees Eq (member isInterface n) (member isInterface m) := by
  unfold member
  rw [h.kind_eq]
  cases hkind : n.kind with
  | fieldDecl => exact field_agrees h hkind isInterface
  | methodDecl => exact method_agrees h isInterface
  | constructorDecl => exact constructor_agrees h hkind
  | block => exact initializerMember_agrees h
  | emptyStmt => exact .pure rfl
  | _ => exact Drafting.refuse_agrees rfl _ _

/-- A protocol can always be named. -/
theorem protocolNamed_sound (name : Text) : Sound (protocolNamed name) :=
  Lower.read_sound.bind_eq fun _ => (Lower.refer_sound _).bind_eq fun _ => .pure rfl

/-- The protocols of a class are adopted in the same order. -/
theorem adopt_agrees {types types' : List Node} (h : List.Forall₂ Node.Twins types types') :
    Agrees Eq (adopt types) (adopt types') := by
  refine .forM h fun a b hab => ?_
  rw [hab.eq_of_erase JavaType.ofNode_erase]
  exact (Drafting.generateHead_agrees (protocolNamed_sound _)).bind_eq fun c =>
    Drafting.build_sound _

/-- The types that a declaration implements. -/
theorem implementedNodes_twins (h : n.Twins m) :
    List.Forall₂ Node.Twins (ClassSignature.implementedNodes n)
      (ClassSignature.implementedNodes m) := by
  have hlist := h.child? .implementsList
  unfold ClassSignature.implementedNodes
  generalize n.child? .implementsList = list at hlist ⊢
  generalize m.child? .implementsList = list' at hlist ⊢
  cases hlist with
  | none => exact .nil
  | some hlist => exact hlist.childrenOf .type

/-- The class above and the protocols of a declaration. -/
theorem supertypes_agrees (h : n.Twins m) (isInterface : Bool) :
    Agrees Eq (supertypes isInterface n) (supertypes isInterface m) := by
  have hbase := h.child? .type
  have hadopt := adopt_agrees (implementedNodes_twins h)
  unfold supertypes
  refine .ite (fun _ => adopt_agrees (h.childrenOf .type)) fun _ => ?_
  generalize n.child? .type = base at hbase ⊢
  generalize m.child? .type = base' at hbase ⊢
  cases hbase with
  | none => exact hadopt
  | some hbase =>
    dsimp only
    rw [hbase.eq_of_erase JavaType.ofNode_erase]
    refine (Drafting.generateHead_agrees (Lower.classNamed_sound _)).bind_eq fun c => ?_
    exact (Drafting.build_sound _).bind_eq fun _ => hadopt

/-- A type declaration: its head, its supertypes, then its members. -/
theorem typeDeclaration_agrees (h : n.Twins m) :
    Agrees Eq (typeDeclaration n) (typeDeclaration m) := by
  have hbody := h.child? .block
  unfold typeDeclaration
  rw [h.eq_of_erase ClassSignature.ofDecl_erase]
  refine .ite (fun _ => Drafting.refuse_agrees rfl _ _) fun _ => ?_
  refine (Drafting.modify_sound _).bind_eq fun _ => ?_
  refine (supertypes_agrees h _).bind_eq fun _ => ?_
  generalize n.child? .block = body at hbody ⊢
  generalize m.child? .block = body' at hbody ⊢
  cases hbody with
  | none => exact .pure rfl
  | some hbody => exact .forM hbody.children fun a b hab => member_agrees hab _

/-- The qualified name in a package or import declaration. -/
theorem qualified_eq (h : n.Twins m) :
    ((m.child? .qualifiedName).map qualifiedText).getD [] =
      ((n.child? .qualifiedName).map qualifiedText).getD [] :=
  h.eq_of_erase (f := fun n => ((n.child? .qualifiedName).map qualifiedText).getD []) fun k => by
    rw [Node.child?_map_erase qualifiedText_erase]

/-- An import names the same class on both sides, or records nothing on either. -/
theorem importDeclaration_agrees (h : n.Twins m) :
    Agrees Eq (importDeclaration n) (importDeclaration m) := by
  have hmarks : (m.childrenOf .identifier).map Node.literal =
      (n.childrenOf .identifier).map Node.literal :=
    h.eq_of_erase (f := fun n => (n.childrenOf .identifier).map Node.literal) fun k => by
      rw [Node.erase_childrenOf, List.map_map]
      exact List.map_congr_left fun a _ => Node.erase_literal a
  unfold importDeclaration
  rw [hmarks, qualified_eq h]
  refine Agrees.ite (fun _ => .pure rfl) fun _ => ?_
  refine (Drafting.modify_sound _).bind_eq fun _ => Agrees.ite (fun _ => .pure rfl) fun _ => ?_
  exact Drafting.generateHead_agrees (Lower.read_sound.bind_eq fun _ => Lower.refer_sound _)

/-- A declaration at the top level is kept, passed over or refused on both sides. -/
theorem topLevel_agrees (h : n.Twins m) {primary primary' : Option Node}
    (hprimary : Option.Rel Node.Twins primary primary') :
    Agrees (Option.Rel Node.Twins) (topLevel primary n) (topLevel primary' m) := by
  have hkeep : Agrees (Option.Rel Node.Twins)
      (if primary.isSome then Drafting.refuse "additional top-level type" n
        else return some n : Drafting (Option Node))
      (if primary'.isSome then Drafting.refuse "additional top-level type" m
        else return some m) := by
    cases hprimary with
    | none => exact .pure (.some h)
    | some _ => exact Drafting.refuse_agrees rfl _ _
  unfold topLevel
  rw [h.kind_eq, qualified_eq h]
  cases n.kind with
  | packageDecl => exact (Drafting.modify_sound _).bind_eq fun _ => .pure hprimary
  | importDecl => exact (importDeclaration_agrees h).bind_eq fun _ => .pure hprimary
  | classDecl => exact hkeep
  | interfaceDecl => exact hkeep
  | emptyStmt => exact .pure hprimary
  | _ => exact Drafting.refuse_agrees rfl _ _

/-- A whole unit. -/
theorem compilationUnit_agrees (h : n.Twins m) :
    Agrees Eq (compilationUnit n) (compilationUnit m) := by
  have hprimary : Agrees (Option.Rel Node.Twins) (n.children.foldlM topLevel none)
      (m.children.foldlM topLevel none) :=
    .foldlM h.children (fun _ _ _ _ hprimary hab => topLevel_agrees hab hprimary) .none
  refine hprimary.bind fun decl decl' hdecl => ?_
  cases hdecl with
  | none => exact .pure rfl
  | some hdecl => exact typeDeclaration_agrees hdecl

end Declarations

end Lowering

end JavaObjC
