import JavaObjC.Proofs.Coverage.Units
import JavaObjC.Proofs.Lowering.Recording
import JavaObjC.Proofs.Workshop.Records

/-!
# What the members of a class become

A member hands its parts to the class in the making: a method or a constructor
hands one method with its own name, parameters and receiver, a declaration of
fields a field for each of its variables, and a block an initializer. The class
is built from the parts of all members in their order. So it has the methods
that its signature lists, up to those that are left out because an earlier one
is in their way.
-/

namespace JavaObjC

open Generating

namespace Generating

variable {σ α β : Type} {around : Surroundings} {s s' : σ}

/-- Two actions give a result if the first one does and then the second one. -/
theorem bind_ok {x : Generating σ α} {f : α → Generating σ β} {b : β}
    (h : (x >>= f).result around s = (.ok b, s')) :
    ∃ a s₁, x.result around s = (.ok a, s₁) ∧ (f a).result around s₁ = (.ok b, s') := by
  rw [bind_result] at h
  cases hx : x.result around s with
  | mk outcome s₁ =>
    rw [hx] at h
    cases outcome with
    | ok a => exact ⟨a, s₁, rfl, h⟩
    | error e => cases h

/-- A plain answer is its value and leaves the state. -/
theorem pure_ok {a b : α} (h : (pure a : Generating σ α).result around s = (.ok b, s')) :
    a = b ∧ s = s' := by
  cases h
  exact ⟨rfl, rfl⟩

/-- Reading the surroundings gives them and leaves the state. -/
theorem read_ok {a : Surroundings}
    (h : (read : Generating σ Surroundings).result around s = (.ok a, s')) :
    a = around ∧ s = s' := by
  cases h
  exact ⟨rfl, rfl⟩

/-- A refusal gives nothing. -/
theorem throw_ok {r : Refusal} {b : α} :
    (throw r : Generating σ α).result around s ≠ (.ok b, s') := nofun

/-- As many values as actions. -/
theorem length_of_mapM_ok {l : List α} {f : α → Generating σ β} {values : List β}
    (h : (l.mapM f).result around s = (.ok values, s')) : values.length = l.length := by
  induction l generalizing s values with
  | nil =>
    obtain ⟨rfl, -⟩ := pure_ok (by simpa using h)
    rfl
  | cons a l ih =>
    rw [List.mapM_cons] at h
    obtain ⟨value, s₁, -, h⟩ := bind_ok h
    obtain ⟨more, s₂, hmore, h⟩ := bind_ok h
    obtain ⟨rfl, rfl⟩ := pure_ok h
    rw [List.length_cons, List.length_cons, ih hmore]

end Generating

/-- The list of methods with one more, unless one with its signature is there. -/
def addedTo (methods : List TargetMethod) (m : TargetMethod) : List TargetMethod :=
  if methods.any (·.signature = m.signature) then methods else methods ++ [m]

/-- Adding methods one by one keeps the first of each signature. -/
theorem foldl_addedTo_eq (added : List TargetMethod) :
    added.foldl addedTo [] = firstBy TargetMethod.signature added := by
  induction added using List.reverseRecOn with
  | nil => rfl
  | append_singleton added m ih =>
    rw [List.foldl_append, ih, firstBy_concat]
    simp only [List.foldl_cons, List.foldl_nil, addedTo]
    by_cases hthere : ∃ m' ∈ added, m'.signature = m.signature
    · rw [if_pos hthere, if_pos (ClassBuilder.any_firstBy.2 hthere)]
    · rw [if_neg hthere, if_neg fun hany => hthere (ClassBuilder.any_firstBy.1 hany)]

/-- In rows that correspond, what stands in the second one has a counterpart in the first. -/
theorem exists_of_mem_forall₂ {α β : Type} {R : α → β → Prop} {as : List α} {bs : List β}
    (h : List.Forall₂ R as bs) {b : β} (hb : b ∈ bs) : ∃ a ∈ as, R a b := by
  induction h with
  | nil => cases hb
  | @cons a _ _ _ hfirst _ ih =>
    rcases List.mem_cons.1 hb with rfl | hb
    · exact ⟨a, List.mem_cons_self, hfirst⟩
    · obtain ⟨a', ha', hrel⟩ := ih hb
      exact ⟨a', List.mem_cons_of_mem a ha', hrel⟩

/-- Rows with one image each are the images of a list in a row. -/
theorem forall₂_of_singletons {α β γ : Type} {R : α → β → Prop} {g : β → γ} {as : List α}
    {rows : List (List γ)} (h : List.Forall₂ (fun a row => ∃ b, R a b ∧ row = [g b]) as rows) :
    ∃ bs, List.Forall₂ R as bs ∧ rows.flatten = bs.map g := by
  induction h with
  | nil => exact ⟨[], .nil, rfl⟩
  | cons hfirst _ ih =>
    obtain ⟨b, hb, rfl⟩ := hfirst
    obtain ⟨bs, hbs, hflatten⟩ := ih
    exact ⟨b :: bs, .cons hb hbs, by rw [List.flatten_cons, hflatten]; rfl⟩

namespace ClassBuilder

/-- Handing a part to a builder does not seal it. -/
theorem addPart_isSealed (b : ClassBuilder) (part : ClassPart) :
    (b.addPart part).isSealed = b.isSealed := by
  cases part with
  | base c => exact b.addBase_isSealed c
  | adopted c => exact b.addProtocol_isSealed c
  | field f => exact b.addField_isSealed f
  | method m => exact b.addMethod_isSealed m
  | initializer body isStatic => exact b.addInitializer_isSealed body isStatic
  | protocolFlag isProtocol => exact b.change_isSealed rfl

/-- An open class is changed. -/
theorem change_of_open {b : ClassBuilder} {f : ClassBuilder → ClassBuilder}
    (h : b.isSealed = false) : b.change f = f b := by simp [change, h]

/-- Adding parts does not seal a class. -/
theorem foldl_addPart_isSealed (parts : List ClassPart) (b : ClassBuilder) :
    (parts.foldl addPart b).isSealed = b.isSealed := by
  induction parts generalizing b with
  | nil => rfl
  | cons part parts ih => rw [List.foldl_cons, ih, addPart_isSealed]

/-- Parts handed one after the other are gathered with the earlier ones. -/
theorem foldl_addPart_gathered (name : Text) (earlier parts : List ClassPart) :
    parts.foldl addPart (gathered name earlier) = gathered name (earlier ++ parts) := by
  induction parts generalizing earlier with
  | nil => rw [List.foldl_nil, List.append_nil]
  | cons part parts ih =>
    rw [List.foldl_cons, addPart_gathered, ih, List.append_assoc, List.singleton_append]

end ClassBuilder

namespace UnitDraft

/-- A draft after some parts have been handed to its class. -/
structure Extends (parts : List ClassPart) (d d' : UnitDraft) : Prop where
  unit_eq : d'.unit = d.unit
  imported_eq : d'.imported = d.imported
  outcome_eq : d'.outcome = d.outcome
  builder : ∀ b, d.builder = some b → b.isSealed = false →
    d'.builder = some (parts.foldl ClassBuilder.addPart b)

namespace Extends

variable {d d' d'' : UnitDraft} {parts parts' : List ClassPart}

theorem refl (d : UnitDraft) : Extends [] d d := ⟨rfl, rfl, rfl, fun _ hb _ => hb⟩

/-- Two extensions in a row add their parts in order. -/
theorem trans (h : Extends parts d d') (h' : Extends parts' d' d'') :
    Extends (parts ++ parts') d d'' := by
  refine ⟨h'.unit_eq.trans h.unit_eq, h'.imported_eq.trans h.imported_eq,
    h'.outcome_eq.trans h.outcome_eq, fun b hb hopen => ?_⟩
  have hopen' : (parts.foldl ClassBuilder.addPart b).isSealed = false := by
    rw [ClassBuilder.foldl_addPart_isSealed, hopen]
  rw [List.foldl_append]
  exact h'.builder _ (h.builder b hb hopen) hopen'

/-- Members before and after are generated in the same surroundings. -/
theorem surroundings_eq (h : Extends parts d d') (around : Surroundings) :
    Drafting.surroundings around d' = Drafting.surroundings around d := by
  rw [Drafting.surroundings, Drafting.surroundings, h.unit_eq, h.imported_eq]

/-- Recording references adds nothing. -/
theorem of_references (d : UnitDraft) (references : References) :
    Extends [] d { d with references } := ⟨rfl, rfl, rfl, fun _ hb _ => hb⟩

/-- Handing a part to the class in the making. -/
theorem of_build (d : UnitDraft) (part : ClassPart) :
    Extends [part] d { d with builder := d.builder.map (·.addPart part) } :=
  ⟨rfl, rfl, rfl, fun _ hb _ => congrArg (Option.map _) hb⟩

end Extends

end UnitDraft

open UnitDraft

namespace Drafting

variable {α : Type} {around : Surroundings} {d d' : UnitDraft}

/-- Generating for a member adds nothing. -/
theorem generate_extends {setting : Surroundings → Surroundings} {x : Lower α} {a : α}
    (h : result (generate setting x) around d = (.ok a, d')) : Extends [] d d' := by
  have hstate := congrArg Prod.snd h
  change { d with references := _ } = d' at hstate
  exact hstate ▸ .of_references d _

/-- What generating for a member gives is the outcome of its action in the member's surroundings. -/
theorem generate_ok {setting : Surroundings → Surroundings} {x : Lower α} {a : α} (hx : x.Formed)
    (h : result (generate setting x) around d = (.ok a, d')) :
    x.outcome (setting (surroundings around d)) = .ok a ∧ Extends [] d d' := by
  obtain ⟨_, -, hresult⟩ := generate_records hx setting around d
  exact ⟨congrArg Prod.fst (hresult.symm.trans h), generate_extends h⟩

/-- A part that is required and given was there. -/
theorem require_ok {part : Option α} {a : α} (h : result (require part) around d = (.ok a, d')) :
    part = some a ∧ d' = d := by
  cases part with
  | none => exact absurd h throw_ok
  | some b =>
    obtain ⟨rfl, rfl⟩ := pure_ok h
    exact ⟨rfl, rfl⟩

/-- A refused member gives nothing. -/
theorem refuse_ok {construct : Text} {n : Node} {a : α} :
    result (refuse construct n) around d ≠ (.ok a, d') := throw_ok

/-- Changing the draft changes it as it says. -/
theorem modify_ok {f : UnitDraft → UnitDraft} {a : PUnit}
    (h : result (modify f : Drafting PUnit) around d = (.ok a, d')) : d' = f d :=
  (congrArg Prod.snd h).symm

/-- A change of the class in the making. -/
theorem build_ok {f : ClassBuilder → ClassBuilder} {a : Unit}
    (h : result (build f) around d = (.ok a, d')) :
    d' = { d with builder := d.builder.map f } := modify_ok h

/-- A part handed to the class in the making. -/
theorem build_extends (part : ClassPart) {a : Unit}
    (h : result (build (·.addPart part)) around d = (.ok a, d')) : Extends [part] d d' := by
  rw [build_ok h]
  exact .of_build d part

/-- Actions that add parts, one after the other in the same surroundings. -/
theorem forM_ok {β : Type} {f : β → Drafting PUnit} {l : List β} {R : β → List ClassPart → Prop}
    {inside : Surroundings}
    (hf : ∀ a d d', surroundings around d = inside → result (f a) around d = (.ok (), d') →
      ∃ parts, R a parts ∧ Extends parts d d')
    (hd : surroundings around d = inside) (h : result (l.forM f) around d = (.ok (), d')) :
    ∃ rows, List.Forall₂ R l rows ∧ Extends rows.flatten d d' := by
  induction l generalizing d with
  | nil =>
    obtain ⟨-, rfl⟩ := pure_ok h
    exact ⟨[], .nil, .refl d⟩
  | cons a l ih =>
    obtain ⟨_, d₁, hfirst, hrest⟩ := bind_ok h
    obtain ⟨parts, hparts, hextends⟩ := hf a d d₁ hd hfirst
    obtain ⟨rows, hrows, hextends'⟩ := ih ((hextends.surroundings_eq around).trans hd) hrest
    exact ⟨parts :: rows, .cons hparts hrows, hextends.trans hextends'⟩

end Drafting

/-- A parameter of a generated method and the declared one it comes from. Its type is the one the
declared type stands for, or that of any object. -/
structure TargetParameter.Reflects (mapper : TypeMapper) (r : Registry) (p : Parameter)
    (q : TargetParameter) : Prop where
  name_eq : q.name = p.name
  type_eq : q.type = .object .id ∨ q.type = mapper.map r p.type

/-- A generated method and the declared method or constructor it comes from. -/
structure TargetMethod.Reflects (mapper : TypeMapper) (r : Registry) (isConstructor : Bool)
    (info : MethodSignature) (m : TargetMethod) : Prop where
  name_eq : m.name = if isConstructor then Text.ofString "init" else info.name
  isConstructor_eq : m.isConstructor = isConstructor
  isStatic_eq : m.isStatic = info.isStatic
  parameters : List.Forall₂ (TargetParameter.Reflects mapper r) info.parameters m.parameters

namespace Lowering

/-- The statements of a method; one that is abstract or has no block has none. -/
def translatedBody (isInterface : Bool) (around : Surroundings) (n : Node) :
    Except Refusal (Option (List Stmt)) :=
  let mods := Modifiers.ofDecl n
  match n.child? .block with
  | some block =>
    if mods.isAbstract || isInterface then .ok none
    else
      let inside :=
        { around with isStatic := mods.isStatic, result := JavaType.ofNode? (resultNode n) }
      ((methodBody (Parameter.ofDecl n) block).outcome inside).map some
  | none => .ok none

/-- The method that a declared method or constructor stands for in the surroundings of its class:
its prototype and its body, both generated by themselves. -/
inductive Translates (isInterface : Bool) (around : Surroundings) (n : Node) :
    TargetMethod → Prop where
  | method {parameters : List TargetParameter} {result : TypeRef} {body : Option (List Stmt)}
      (hkind : n.kind = .methodDecl)
      (hparameters : (targetParameters (Parameter.ofDecl n)).outcome around = .ok parameters)
      (hresult : (Lower.mapType (JavaType.ofNode? (resultNode n))).outcome around = .ok result)
      (hbody : translatedBody isInterface around n = .ok body) :
      Translates isInterface around n
        { name := declaredName n
          parameters
          result
          visibility := if isInterface then .publicAccess else (Modifiers.ofDecl n).visibility
          isStatic := (Modifiers.ofDecl n).isStatic
          isAbstract := (Modifiers.ofDecl n).isAbstract || isInterface
          body }
  | constructor {parameters : List TargetParameter} {block : Node} {initCall : Text}
      {body : List Stmt} (hkind : n.kind = .constructorDecl)
      (hparameters : (targetParameters (Parameter.ofDecl n)).outcome around = .ok parameters)
      (hblock : n.child? .block = some block)
      (hbody : (constructorBody (Parameter.ofDecl n) block).outcome
        { around with isConstructor := true } = .ok (initCall, body)) :
      Translates isInterface around n
        { name := "init"
          parameters
          result := .object .id
          visibility := (Modifiers.ofDecl n).visibility
          isConstructor := true
          initCall
          body := some body }

/-- The field that a declared variable stands for in the surroundings of its class. -/
inductive FieldOf (around : Surroundings) (shape : TargetField) (t : JavaType) (decl : Node) :
    TargetField → Prop where
  | plain (hvalue : declaredValue decl = none) :
    FieldOf around shape t decl { shape with name := declaredName decl }
  | started {value : Node} {start : Value} (hvalue : declaredValue decl = some value)
      (hstart : (initialValue (attributed value) t).outcome
        { around with isStatic := shape.isStatic } = .ok start) :
    FieldOf around shape t decl
      { shape with
        name := declaredName decl
        init := start.text
        isConstant := shape.isStatic && isLiteral value }

/-- The parts that a member hands to its class, in order. -/
inductive Contributes (isInterface : Bool) (around : Surroundings) (n : Node) :
    List ClassPart → Prop where
  | method {m : TargetMethod} (h : Translates isInterface around n m) :
    Contributes isInterface around n [.method m]
  | fields {type : Node} {ref : TypeRef} {fields : List TargetField} (hkind : n.kind = .fieldDecl)
      (htype : n.children[1]? = some type)
      (href : (Lower.mapType (JavaType.ofNode type)).outcome around = .ok ref)
      (hfields : List.Forall₂
        (FieldOf around (fieldShape isInterface (Modifiers.ofDecl n) ref) (JavaType.ofNode type))
        (n.childrenOf .varDeclarator) fields) :
    Contributes isInterface around n (fields.map .field)
  | block {body : List Stmt} (hkind : n.kind = .block)
      (hbody : (blockBody (attributed (initializerBlock n).1).parts).outcome
        { around with isStatic := (initializerBlock n).2 } = .ok body) :
    Contributes isInterface around n [.initializer body (initializerBlock n).2]
  | empty (hkind : n.kind = .emptyStmt) : Contributes isInterface around n []

end Lowering

/-- Whether a member is a method or a constructor. -/
def Node.declaresMethod (n : Node) : Bool := n.kind = .methodDecl || n.kind = .constructorDecl

/-- The declared method or constructor that a member of a class is, and which of them it is. -/
def memberInfo? (owner : Text) (n : Node) : Option (Bool × MethodSignature) :=
  match n.kind with
  | .methodDecl => some (false, .ofMethod n)
  | .constructorDecl => some (true, .ofConstructor owner n)
  | _ => none

namespace Lowering

open Drafting

variable {around : Surroundings} {d d' : UnitDraft} {n : Node}

/-- The type of a parameter is the one its declared type stands for, or that of any object. -/
theorem mapType_ok {t : JavaType} {s s' : BodyState} {ref : TypeRef}
    (h : result (Lower.mapType t) around s = (.ok ref, s')) :
    ref = .object .id ∨ ref = around.mapper.map around.registry t := by
  obtain ⟨_, _, hread, h⟩ := bind_ok h
  obtain ⟨rfl, rfl⟩ := read_ok hread
  split at h
  · exact .inl (pure_ok h).1.symm
  · refine .inr ?_
    dsimp only at h
    split at h
    · obtain ⟨_, _, -, h⟩ := bind_ok h
      exact (pure_ok h).1.symm
    · exact (pure_ok h).1.symm

/-- The parameters of a generated method are those that are declared. -/
theorem targetParameters_ok {parameters : List Parameter} {targets : List TargetParameter}
    {s s' : BodyState} (h : result (targetParameters parameters) around s = (.ok targets, s')) :
    List.Forall₂ (TargetParameter.Reflects around.mapper around.registry) parameters targets := by
  unfold targetParameters at h
  induction parameters generalizing s s' targets with
  | nil =>
    obtain ⟨rfl, -⟩ := pure_ok h
    exact .nil
  | cons p rest ih =>
    rw [List.mapM_cons] at h
    obtain ⟨q, s₁, hfirst, h⟩ := bind_ok h
    obtain ⟨later, s₂, hlater, h⟩ := bind_ok h
    obtain ⟨ref, _, href, hfirst⟩ := bind_ok hfirst
    obtain ⟨rfl, -⟩ := pure_ok hfirst
    obtain ⟨rfl, -⟩ := pure_ok h
    exact .cons ⟨rfl, mapType_ok href⟩ (ih hlater)

/-- The method of a member has the name, the receiver and the parameters that are declared. -/
theorem Translates.reflects {isInterface : Bool} {owner : Text} {m : TargetMethod}
    {info : Bool × MethodSignature} (h : Translates isInterface around n m)
    (hinfo : memberInfo? owner n = some info) :
    m.Reflects around.mapper around.registry info.1 info.2 := by
  have hrun : ∀ {α : Type} {x : Lower α} {a : α}, x.outcome around = .ok a →
      ∃ s, result x around { scopes := [[]] } = (.ok a, s) := fun h => ⟨_, Prod.ext h rfl⟩
  cases h with
  | method hkind hparameters =>
    obtain ⟨_, hrun⟩ := hrun hparameters
    simp only [memberInfo?, hkind, Option.some.injEq] at hinfo
    subst hinfo
    exact ⟨rfl, rfl, rfl, targetParameters_ok hrun⟩
  | constructor hkind hparameters =>
    obtain ⟨_, hrun⟩ := hrun hparameters
    simp only [memberInfo?, hkind, Option.some.injEq] at hinfo
    subst hinfo
    exact ⟨rfl, rfl, rfl, targetParameters_ok hrun⟩

/-- The methods of the members of a class are those that are declared. -/
theorem reflects_of_translates {isInterface : Bool} {owner : Text} {nodes : List Node}
    {added : List TargetMethod}
    (h : List.Forall₂ (Translates isInterface around) (nodes.filter Node.declaresMethod) added) :
    List.Forall₂ (fun info m => TargetMethod.Reflects around.mapper around.registry info.1 info.2 m)
      (nodes.filterMap (memberInfo? owner)) added := by
  induction nodes generalizing added with
  | nil =>
    cases h
    exact .nil
  | cons n nodes ih =>
    cases hinfo : memberInfo? owner n with
    | none =>
      have hother : n.declaresMethod = false := by
        unfold memberInfo? at hinfo
        cases hkind : n.kind <;> simp_all [Node.declaresMethod]
      rw [List.filter_cons_of_neg (by simp [hother])] at h
      rw [List.filterMap_cons_none hinfo]
      exact ih h
    | some info =>
      have hdeclares : n.declaresMethod = true := by
        unfold memberInfo? at hinfo
        cases hkind : n.kind <;> simp_all [Node.declaresMethod]
      rw [List.filter_cons_of_pos hdeclares] at h
      rw [List.filterMap_cons_some hinfo]
      cases h with
      | cons hfirst hrest => exact .cons (hfirst.reflects hinfo) (ih hrest)

/-- A declared variable adds its field. -/
theorem fieldVariable_ok {shape : TargetField} {t : JavaType}
    (h : result (fieldVariable shape t n) around d = (.ok (), d')) :
    ∃ f, FieldOf (surroundings around d) shape t n f ∧ Extends [.field f] d d' := by
  unfold fieldVariable at h
  cases hvalue : declaredValue n with
  | none =>
    rw [hvalue] at h
    exact ⟨_, .plain hvalue, build_extends (.field _) h⟩
  | some value =>
    rw [hvalue] at h
    obtain ⟨start, d₁, hstart, hbuild⟩ := bind_ok h
    obtain ⟨houtcome, hextends⟩ :=
      generate_ok (initialValue_formed (attributed_formed value) t) hstart
    exact ⟨_, .started hvalue houtcome, hextends.trans (build_extends (.field _) hbuild)⟩

/-- A declaration of fields adds a field for each of its variables. -/
theorem field_ok {isInterface : Bool} (hkind : n.kind = .fieldDecl)
    (h : result (field isInterface n) around d = (.ok (), d')) :
    ∃ parts, Contributes isInterface (surroundings around d) n parts ∧ Extends parts d d' := by
  unfold field at h
  obtain ⟨type, d₁, hrequire, hrest⟩ := bind_ok h
  obtain ⟨htype, rfl⟩ := require_ok hrequire
  obtain ⟨ref, d₂, hhead, hvariables⟩ := bind_ok hrest
  obtain ⟨href, hfirst⟩ := generate_ok (.mapType _) hhead
  have hall : ∃ rows, List.Forall₂ (fun decl parts => ∃ f, FieldOf (surroundings around d₁)
      (fieldShape isInterface (Modifiers.ofDecl n) ref) (JavaType.ofNode type) decl f ∧
      parts = [.field f]) (n.childrenOf .varDeclarator) rows ∧ Extends rows.flatten d₂ d' := by
    refine forM_ok (fun decl d d' hd h => ?_) (hfirst.surroundings_eq around) hvariables
    obtain ⟨f, hf, hextends⟩ := fieldVariable_ok h
    exact ⟨_, ⟨f, hd ▸ hf, rfl⟩, hextends⟩
  obtain ⟨rows, hrows, hsecond⟩ := hall
  obtain ⟨fields, hfields, hflatten⟩ := forall₂_of_singletons hrows
  refine ⟨_, .fields hkind htype href hfields, ?_⟩
  rw [← hflatten]
  exact hfirst.trans hsecond

/-- The body of a method is a formed action. -/
theorem methodBody_formed (parameters : List Parameter) (block : Node) :
    (methodBody parameters block).Formed :=
  (declareParameters_formed parameters).bind fun _ =>
    blockBody_formed (attributed_formed block).parts

/-- The statements of a method are generated by themselves. -/
theorem methodStatements_ok {isInterface : Bool} {body : Option (List Stmt)}
    (h : result (methodStatements isInterface (Modifiers.ofDecl n) n) around d = (.ok body, d')) :
    translatedBody isInterface (surroundings around d) n = .ok body ∧ Extends [] d d' := by
  unfold methodStatements at h
  unfold translatedBody
  cases hblock : n.child? .block with
  | none =>
    rw [hblock] at h
    obtain ⟨rfl, rfl⟩ := pure_ok h
    exact ⟨rfl, .refl d⟩
  | some block =>
    rw [hblock] at h
    dsimp only at h ⊢
    split at h
    · next habstract =>
      obtain ⟨rfl, rfl⟩ := pure_ok h
      rw [if_pos habstract]
      exact ⟨rfl, .refl d⟩
    · next hconcrete =>
      rw [map_eq_pure_bind] at h
      obtain ⟨statements, d₁, hgenerate, hpure⟩ := bind_ok h
      obtain ⟨rfl, rfl⟩ := pure_ok hpure
      obtain ⟨houtcome, hextends⟩ := generate_ok (methodBody_formed _ block) hgenerate
      rw [if_neg hconcrete, houtcome]
      exact ⟨rfl, hextends⟩

/-- A method adds the one it stands for. -/
theorem addMethod_ok {isInterface : Bool} (hkind : n.kind = .methodDecl)
    (h : result (addMethod isInterface n) around d = (.ok (), d')) :
    ∃ parts, Contributes isInterface (surroundings around d) n parts ∧ Extends parts d d' := by
  unfold addMethod at h
  obtain ⟨targets, d₁, htargets, hrest⟩ := bind_ok h
  obtain ⟨ref, d₂, href, hrest'⟩ := bind_ok hrest
  obtain ⟨body, d₃, hbody, hbuild⟩ := bind_ok hrest'
  obtain ⟨hparameters, hfirst⟩ := generate_ok (targetParameters_formed _) htargets
  obtain ⟨hresult, hsecond⟩ := generate_ok (.mapType _) href
  obtain ⟨hstatements, hthird⟩ := methodStatements_ok hbody
  rw [id, hfirst.surroundings_eq] at hresult
  rw [hsecond.surroundings_eq, hfirst.surroundings_eq] at hstatements
  exact ⟨_, .method (.method hkind hparameters hresult hstatements),
    ((hfirst.trans hsecond).trans hthird).trans (build_extends (.method _) hbuild)⟩

/-- A constructor adds the initializer it stands for. -/
theorem addConstructor_ok {isInterface : Bool} (hkind : n.kind = .constructorDecl)
    (h : result (addConstructor n) around d = (.ok (), d')) :
    ∃ parts, Contributes isInterface (surroundings around d) n parts ∧ Extends parts d d' := by
  unfold addConstructor at h
  obtain ⟨targets, d₁, htargets, hrest⟩ := bind_ok h
  obtain ⟨block, d₂, hrequire, hrest'⟩ := bind_ok hrest
  obtain ⟨hblock, rfl⟩ := require_ok hrequire
  obtain ⟨⟨initCall, body⟩, d₃, hbody, hbuild⟩ := bind_ok hrest'
  obtain ⟨hparameters, hfirst⟩ := generate_ok (targetParameters_formed _) htargets
  obtain ⟨hstatements, hsecond⟩ := generate_ok (constructorBody_formed _ block) hbody
  rw [hfirst.surroundings_eq] at hstatements
  exact ⟨_, .method (.constructor hkind hparameters hblock hstatements),
    (hfirst.trans hsecond).trans (build_extends (.method _) hbuild)⟩

/-- A block adds its statements. -/
theorem initializerMember_ok {isInterface : Bool} (hkind : n.kind = .block)
    (h : result (initializerMember n) around d = (.ok (), d')) :
    ∃ parts, Contributes isInterface (surroundings around d) n parts ∧ Extends parts d d' := by
  obtain ⟨body, d₁, hbody, hbuild⟩ := bind_ok h
  obtain ⟨houtcome, hextends⟩ :=
    generate_ok (blockBody_formed (attributed_formed _).parts) hbody
  exact ⟨_, .block hkind houtcome, hextends.trans (build_extends (.initializer _ _) hbuild)⟩

/-- A member adds the parts that it stands for. -/
theorem member_ok {isInterface : Bool}
    (h : result (member isInterface n) around d = (.ok (), d')) :
    ∃ parts, Contributes isInterface (surroundings around d) n parts ∧ Extends parts d d' := by
  unfold member at h
  cases hkind : n.kind with
  | fieldDecl =>
    simp only [hkind] at h
    exact field_ok hkind h
  | methodDecl =>
    simp only [hkind, method] at h
    split at h
    · exact absurd h refuse_ok
    · exact addMethod_ok hkind h
  | constructorDecl =>
    simp only [hkind, constructor] at h
    split at h
    · exact absurd h refuse_ok
    · obtain ⟨_, d₁, hget, hrest⟩ := bind_ok h
      obtain rfl : d = d₁ := by cases hget; rfl
      split at hrest
      · exact absurd hrest refuse_ok
      · exact addConstructor_ok hkind hrest
  | block =>
    simp only [hkind] at h
    exact initializerMember_ok hkind h
  | emptyStmt =>
    simp only [hkind] at h
    exact ⟨[], .empty hkind, (pure_ok h).2 ▸ .refl d⟩
  | _ =>
    simp only [hkind] at h
    exact absurd h refuse_ok

/-- The methods among the parts of the members are those that the members stand for. -/
theorem translates_of_contributes {isInterface : Bool} {nodes : List Node}
    {rows : List (List ClassPart)}
    (h : List.Forall₂ (Contributes isInterface around) nodes rows) :
    List.Forall₂ (Translates isInterface around) (nodes.filter Node.declaresMethod)
      (rows.flatten.filterMap ClassPart.method?) := by
  induction h with
  | nil => exact .nil
  | @cons n parts nodes rows hfirst _ ih =>
    rw [List.flatten_cons, List.filterMap_append]
    have hother : ∀ {kind : NodeKind}, n.kind = kind → kind ≠ .methodDecl →
        kind ≠ .constructorDecl → (n :: nodes).filter Node.declaresMethod =
          nodes.filter Node.declaresMethod := by
      intro kind hkind hmethod hconstructor
      exact List.filter_cons_of_neg (by simp [Node.declaresMethod, hkind, hmethod, hconstructor])
    cases hfirst with
    | @method m hm =>
      have hdeclares : n.declaresMethod = true := by
        cases hm with
        | method hkind => simp [Node.declaresMethod, hkind]
        | constructor hkind => simp [Node.declaresMethod, hkind]
      rw [List.filter_cons_of_pos hdeclares]
      exact .cons hm ih
    | @fields _ _ fields hkind =>
      have hnone : (fields.map ClassPart.field).filterMap ClassPart.method? = [] := by
        simp [List.filterMap_eq_nil_iff]
      rw [hother hkind (by decide) (by decide), hnone]
      exact ih
    | block hkind =>
      rw [hother hkind (by decide) (by decide)]
      exact ih
    | empty hkind =>
      rw [hother hkind (by decide) (by decide)]
      exact ih

end Lowering

/-- A part that is a supertype. -/
def ClassPart.IsSupertype (part : ClassPart) : Prop := ∃ c, part = .base c ∨ part = .adopted c

namespace Lowering

open Drafting

variable {around : Surroundings} {d d' : UnitDraft} {n : Node}

/-- Adopted protocols are supertypes. -/
theorem adopt_ok {types : List Node} (h : result (adopt types) around d = (.ok (), d')) :
    ∃ parts, (∀ part ∈ parts, part.IsSupertype) ∧ Extends parts d d' := by
  have hall : ∃ rows, List.Forall₂ (fun _ parts => ∀ part ∈ parts, part.IsSupertype) types rows ∧
      Extends rows.flatten d d' := by
    refine forM_ok (fun n d d' _ hadopt => ?_) rfl h
    obtain ⟨c, d₁, hhead, hbuild⟩ := bind_ok hadopt
    refine ⟨_, ?_, (generate_extends hhead).trans (build_extends (.adopted c) hbuild)⟩
    rintro part hpart
    exact ⟨c, .inr (by simpa using hpart)⟩
  obtain ⟨rows, hrows, hextends⟩ := hall
  refine ⟨_, fun part hpart => ?_, hextends⟩
  obtain ⟨row, hrow, hpart⟩ := List.mem_flatten.1 hpart
  obtain ⟨_, -, hsupertypes⟩ := exists_of_mem_forall₂ hrows hrow
  exact hsupertypes part hpart

/-- The supertypes add nothing else. -/
theorem supertypes_ok {isInterface : Bool} {decl : Node}
    (h : result (supertypes isInterface decl) around d = (.ok (), d')) :
    ∃ parts, (∀ part ∈ parts, part.IsSupertype) ∧ Extends parts d d' := by
  unfold supertypes at h
  split at h
  · exact adopt_ok h
  · cases hbase : decl.child? .type with
    | none =>
      simp only [hbase] at h
      exact adopt_ok h
    | some base =>
      simp only [hbase] at h
      obtain ⟨c, d₁, hhead, hrest⟩ := bind_ok h
      obtain ⟨_, d₂, hbuild, hadopt⟩ := bind_ok hrest
      obtain ⟨parts, hparts, hextends⟩ := adopt_ok hadopt
      refine ⟨_, ?_, ((generate_extends hhead).trans (build_extends (.base c) hbuild)).trans
        hextends⟩
      refine List.forall_mem_cons.2 ⟨⟨c, .inl rfl⟩, hparts⟩

/-- The surroundings of the members of a class in a file that imports some names. -/
def classSurroundings (around : Surroundings) (decl : Node) (imported : List Text) :
    Surroundings := { around with unit := some (.ofDecl decl), imported }

/-- The parts of a class: whether it is a protocol, its supertypes, and what its members add. -/
structure ClassTrace (decl : Node) (around : Surroundings) (supertypes : List ClassPart)
    (rows : List (List ClassPart)) : Prop where
  supertypes : ∀ part ∈ supertypes, part.IsSupertype
  members : List.Forall₂ (Contributes (ClassSignature.ofDecl decl).isInterface around)
    decl.members rows

/-- The builder of a class with these parts. -/
def classBuilder (decl : Node) (supertypes : List ClassPart) (rows : List (List ClassPart)) :
    ClassBuilder :=
  .gathered (declaredName decl)
    (.protocolFlag (ClassSignature.ofDecl decl).isInterface :: (supertypes ++ rows.flatten))

/-- No member says anything about being a protocol. -/
theorem Contributes.flag?_eq {isInterface : Bool} {parts : List ClassPart}
    (h : Contributes isInterface around n parts) : ∀ part ∈ parts, part.flag? = none := by
  cases h with
  | method => simp
  | fields => simp
  | block => simp
  | empty => simp

section Traces

variable {decl : Node} {supertypes : List ClassPart} {rows : List (List ClassPart)}

/-- What is no supertype comes from the members. -/
theorem ClassTrace.filterMap_parts {β : Type} {f : ClassPart → Option β}
    (h : ClassTrace decl around supertypes rows) (hflag : ∀ flag, f (.protocolFlag flag) = none)
    (hbase : ∀ c, f (.base c) = none) (hadopted : ∀ c, f (.adopted c) = none) :
    (.protocolFlag (ClassSignature.ofDecl decl).isInterface ::
      (supertypes ++ rows.flatten)).filterMap f = rows.flatten.filterMap f := by
  have hsupertypes : supertypes.filterMap f = [] := by
    refine List.filterMap_eq_nil_iff.2 fun part hpart => ?_
    obtain ⟨c, rfl | rfl⟩ := h.supertypes part hpart
    · exact hbase c
    · exact hadopted c
  rw [List.filterMap_cons_none (hflag _), List.filterMap_append, hsupertypes, List.nil_append]

/-- The methods of a class are the first of each signature among its parts. -/
theorem ClassTrace.methods_eq (h : ClassTrace decl around supertypes rows) :
    (classBuilder decl supertypes rows).methods =
      firstBy TargetMethod.signature (rows.flatten.filterMap ClassPart.method?) := by
  have hmethods := h.filterMap_parts (f := ClassPart.method?) (fun _ => rfl) (fun _ => rfl)
    fun _ => rfl
  rw [← hmethods]
  rfl

/-- Only the declaration itself says whether it is a protocol. -/
theorem ClassTrace.isProtocol_eq (h : ClassTrace decl around supertypes rows) :
    (classBuilder decl supertypes rows).isProtocol = (ClassSignature.ofDecl decl).isInterface := by
  have hrest : (supertypes ++ rows.flatten).filterMap ClassPart.flag? = [] := by
    refine List.filterMap_eq_nil_iff.2 fun part hpart => ?_
    rcases List.mem_append.1 hpart with hpart | hpart
    · obtain ⟨c, rfl | rfl⟩ := h.supertypes part hpart <;> rfl
    · obtain ⟨row, hrow, hpart⟩ := List.mem_flatten.1 hpart
      obtain ⟨_, -, hcontributes⟩ := exists_of_mem_forall₂ h.members hrow
      exact hcontributes.flag?_eq part hpart
  have hflags : (.protocolFlag (ClassSignature.ofDecl decl).isInterface ::
      (supertypes ++ rows.flatten)).filterMap ClassPart.flag? =
        [(ClassSignature.ofDecl decl).isInterface] := by
    rw [List.filterMap_cons, hrest]
    rfl
  simp only [classBuilder, ClassBuilder.gathered, ClassPart.isProtocol, hflags,
    List.getLast?_singleton, Option.getD_some]

end Traces

/-- A class that is generated is built from its supertypes and from the parts of its members. -/
theorem typeDeclaration_ok {decl : Node} (hnew : d.outcome = none)
    (h : result (typeDeclaration decl) around d = (.ok (), d')) :
    d'.outcome = none ∧ declaredName decl ≠ [] ∧ ∃ supertypes rows,
      ClassTrace decl (classSurroundings around decl d.imported) supertypes rows ∧
      d'.builder = some (classBuilder decl supertypes rows) := by
  unfold typeDeclaration at h
  dsimp only at h
  split at h
  · exact absurd h refuse_ok
  · next hname =>
    rw [ClassSignature.ofDecl_name, List.isEmpty_iff] at hname
    obtain ⟨_, d₁, hopen, hrest⟩ := bind_ok h
    obtain ⟨_, d₂, hsupertypes, hmembers⟩ := bind_ok hrest
    have hd₁ := modify_ok hopen
    obtain ⟨supertypes, hsupers, hfirst⟩ := supertypes_ok hsupertypes
    have haround : surroundings around d₂ = classSurroundings around decl d.imported := by
      rw [hfirst.surroundings_eq, hd₁]
      rfl
    have hmembers' : ∃ rows, List.Forall₂ (Contributes (ClassSignature.ofDecl decl).isInterface
        (classSurroundings around decl d.imported)) decl.members rows ∧
        Extends rows.flatten d₂ d' := by
      unfold Node.members
      cases hblock : decl.child? .block with
      | none =>
        rw [hblock] at hmembers
        exact ⟨[], .nil, (pure_ok hmembers).2 ▸ .refl d₂⟩
      | some block =>
        rw [hblock] at hmembers
        refine forM_ok (fun n d d' hd hmember => ?_) haround hmembers
        rw [← hd]
        exact member_ok hmember
    obtain ⟨rows, hrows, hextends⟩ := hmembers'
    have hall := hfirst.trans hextends
    have hbuilder : d₁.builder = some (.gathered (declaredName decl)
        [.protocolFlag (ClassSignature.ofDecl decl).isInterface]) := by
      rw [hd₁, ← ClassSignature.ofDecl_name]
      rfl
    refine ⟨?_, hname, supertypes, rows, ⟨hsupers, hrows⟩, ?_⟩
    · rw [hall.outcome_eq, hd₁]
      exact hnew
    · rw [hall.builder _ hbuilder rfl, ClassBuilder.foldl_addPart_gathered]
      rfl

/-- The name that a declaration at the top of a unit makes visible, if it does. -/
def importedName? (n : Node) : Option Text :=
  let marks := (n.childrenOf .identifier).map Node.literal
  if n.kind ≠ .importDecl then none
  else if marks.contains "static" || marks.contains "*" then none
  else some (simpleName (((n.child? .qualifiedName).map qualifiedText).getD []))

/-- A declaration at the top level imports at most one name. -/
theorem topLevel_imported {primary kept : Option Node}
    (h : result (topLevel primary n) around d = (.ok kept, d')) :
    d'.imported = d.imported ++ (importedName? n).toList := by
  unfold topLevel at h
  unfold importedName?
  cases hkind : n.kind with
  | packageDecl =>
    simp only [hkind] at h
    obtain ⟨_, d₁, hpackage, hpure⟩ := bind_ok h
    rw [← (pure_ok hpure).2, modify_ok hpackage]
    simp
  | importDecl =>
    simp only [hkind, importDeclaration] at h
    obtain ⟨_, d₁, himport, hpure⟩ := bind_ok h
    rw [← (pure_ok hpure).2]
    split at himport
    · next hmarks =>
      rw [← (pure_ok himport).2, if_neg (by simp), if_pos hmarks]
      simp
    · next hmarks =>
      obtain ⟨_, d₂, hvisible, hrefer⟩ := bind_ok himport
      have hrest : d₁.imported = d₂.imported := by
        split at hrefer
        · rw [(pure_ok hrefer).2]
        · exact (generate_extends hrefer).imported_eq
      rw [hrest, modify_ok hvisible, if_neg (by simp), if_neg hmarks]
      rfl
  | classDecl =>
    simp only [hkind] at h
    split at h
    · exact absurd h refuse_ok
    · rw [← (pure_ok h).2]
      simp
  | interfaceDecl =>
    simp only [hkind] at h
    split at h
    · exact absurd h refuse_ok
    · rw [← (pure_ok h).2]
      simp
  | emptyStmt =>
    simp only [hkind] at h
    rw [← (pure_ok h).2]
    simp
  | _ =>
    simp only [hkind] at h
    exact absurd h refuse_ok

/-- The names a unit imports, in their order. -/
theorem topLevels_imported {nodes : List Node} {primary kept : Option Node}
    (h : result (nodes.foldlM topLevel primary) around d = (.ok kept, d')) :
    d'.imported = d.imported ++ nodes.filterMap importedName? := by
  induction nodes generalizing primary d with
  | nil =>
    rw [← (pure_ok h).2]
    simp
  | cons n nodes ih =>
    rw [List.foldlM_cons] at h
    obtain ⟨_, d₁, hfirst, hrest⟩ := bind_ok h
    rw [ih hrest, topLevel_imported hfirst, List.append_assoc]
    cases himported : importedName? n <;> simp [himported]

end Lowering

/-- The class or interface that a unit holds first is the one that its signature is of. -/
theorem unitSignature?_of_declaresType {cu decl : Node} (h : primaryType? cu = some decl)
    (hdeclares : Lowering.declaresType decl) (hname : declaredName decl ≠ []) :
    Registry.unitSignature? cu = some (.ofDecl decl) := by
  have hdeclares' : decl.kind = .classDecl ∨ decl.kind = .interfaceDecl := hdeclares
  simp [Registry.unitSignature?, h, hdeclares', hname]

/-- The surroundings of the members of the class that a unit declares. -/
def Generator.memberSurroundings (g : Generator) (cu decl : Node) : Surroundings :=
  Lowering.classSurroundings g.surroundings decl (cu.children.filterMap Lowering.importedName?)

/-- A generated class is built from the parts of the class or interface that the unit declares. -/
theorem generateUnit_parts {g : Generator} {path : Text} {cu : Node} {unit : GeneratedUnit}
    (hkind : cu.kind = .compilationUnit) (hclean : cu.Clean)
    (h : g.generateUnit path cu = .ok unit) :
    ∃ decl supertypes rows imports, primaryType? cu = some decl ∧
      Registry.unitSignature? cu = some (.ofDecl decl) ∧
      decl ∈ cu.children ∧ Lowering.declaresType decl ∧
      Lowering.ClassTrace decl (g.memberSurroundings cu decl) supertypes rows ∧
      unit.model = (Lowering.classBuilder decl supertypes rows).model imports := by
  obtain ⟨d, hresult⟩ := generateUnit_ok hkind hclean h
  rw [generateUnit_eq hkind hclean, hresult] at h
  obtain ⟨kept, d₁, hkept, hrest⟩ := bind_ok hresult
  obtain ⟨hlist, hdeclares⟩ := Lowering.topLevels_keep _ _ _ _ _ _ trivial hkept
  have hfresh : Stage false { file := path } := ⟨rfl, rfl⟩
  obtain ⟨hstage, -⟩ := Lowering.topLevels_lead _ _ _ _ _ _ hfresh hkept
  rw [Option.toList_none, List.nil_append] at hlist
  cases kept with
  | none =>
    obtain rfl : d₁ = d := (pure_ok hrest).2
    simp only [unitOf, hstage.currentClass_error] at h
    cases h
  | some decl =>
    have hmem : decl ∈ cu.children.filter Node.isTypeDeclaration := by simp [← hlist]
    have hprimary : primaryType? cu = some decl := by
      have hhead := congrArg List.head? hlist
      rw [List.head?_filter] at hhead
      exact hhead.symm
    obtain ⟨hdecl, htype⟩ := List.mem_filter.1 hmem
    obtain ⟨hnew, hname, supertypes, rows, htrace, hbuilder⟩ :=
      Lowering.typeDeclaration_ok hstage.outcome hrest
    have hmodel : unit.model =
        (Lowering.classBuilder decl supertypes rows).model d.references.imports := by
      have hopen : (Lowering.classBuilder decl supertypes rows).isSealed = false := rfl
      have hclass : d.currentClass.1 =
          .ok ((Lowering.classBuilder decl supertypes rows).model d.references.imports) := by
        simp [currentClass, hnew, hbuilder, ClassBuilder.build?, hopen]
      simp only [unitOf, hclass] at h
      cases h
      rfl
    rw [Lowering.topLevels_imported hkept] at htrace
    have hdeclares' := hdeclares decl hdecl htype
    exact ⟨decl, supertypes, rows, _, hprimary,
      unitSignature?_of_declaresType hprimary hdeclares' hname, hdecl, hdeclares', htrace, hmodel⟩

/-- A generated class has the name of the unit's signature, and the methods that the members of
the unit's class stand for, without those that an earlier one excludes. -/
theorem generateUnit_methods {g : Generator} {path : Text} {cu : Node} {unit : GeneratedUnit}
    (hkind : cu.kind = .compilationUnit) (hclean : cu.Clean)
    (h : g.generateUnit path cu = .ok unit) :
    ∃ decl added, primaryType? cu = some decl ∧
      Registry.unitSignature? cu = some (.ofDecl decl) ∧
      decl ∈ cu.children ∧ Lowering.declaresType decl ∧
      unit.model.name = declaredName decl ∧
      unit.model.isProtocol = (ClassSignature.ofDecl decl).isInterface ∧
      List.Forall₂ (Lowering.Translates unit.model.isProtocol (g.memberSurroundings cu decl))
        (decl.members.filter Node.declaresMethod) added ∧
      unit.model.methods =
        firstPerKey ClassBuilder.messageKey (added.foldl addedTo []) := by
  obtain ⟨decl, supertypes, rows, imports, hprimary, hsignature, hdecl, hdeclares, htrace, hmodel⟩ :=
    generateUnit_parts hkind hclean h
  have hmethods : unit.model.methods = firstPerKey ClassBuilder.messageKey
      (firstBy TargetMethod.signature (rows.flatten.filterMap ClassPart.method?)) := by
    rw [hmodel, ← htrace.methods_eq]
    rfl
  have hprotocol : unit.model.isProtocol = (ClassSignature.ofDecl decl).isInterface := by
    rw [hmodel]
    exact htrace.isProtocol_eq
  rw [hprotocol, hmethods, ← foldl_addedTo_eq]
  exact ⟨decl, _, hprimary, hsignature, hdecl, hdeclares, by rw [hmodel]; rfl, rfl,
    Lowering.translates_of_contributes htrace.members, rfl⟩

/-- The methods of a generated class have the names, receivers and parameters that the members of
the unit's class declare. -/
theorem generateUnit_model {g : Generator} {path : Text} {cu : Node} {unit : GeneratedUnit}
    (hkind : cu.kind = .compilationUnit) (hclean : cu.Clean)
    (h : g.generateUnit path cu = .ok unit) :
    ∃ decl added, Registry.unitSignature? cu = some (.ofDecl decl) ∧
      decl ∈ cu.children ∧ Lowering.declaresType decl ∧
      unit.model.name = declaredName decl ∧
      List.Forall₂ (fun info m => TargetMethod.Reflects g.mapper g.registry info.1 info.2 m)
        (decl.members.filterMap (memberInfo? (declaredName decl))) added ∧
      unit.model.methods =
        firstPerKey ClassBuilder.messageKey (added.foldl addedTo []) := by
  obtain ⟨decl, added, -, hsignature, hdecl, hdeclares, hname, -, hadded, hmethods⟩ :=
    generateUnit_methods hkind hclean h
  exact ⟨decl, added, hsignature, hdecl, hdeclares, hname,
    Lowering.reflects_of_translates hadded, hmethods⟩

end JavaObjC
