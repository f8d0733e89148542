import JavaObjC.Proofs.Methods.Implementations

/-!
# The order of initialization

The initial values of fields and the initializer blocks of a class are parts of
its body in the order in which they are written. A class keeps its fields and its
blocks apart, so what runs are all initial values first and then all blocks: in
the class initializer for the class, and for the instances in every initializer
that does not hand over to another one of the class. This is the order of the
source exactly if no field with an initial value stands behind a block.
-/

namespace JavaObjC

open Generating

/-- Putting the items with a property in front changes nothing exactly if none of them stands
behind one without it. -/
theorem filter_append_filter_not_eq_iff {α : Type} {p : α → Bool} {l : List α} :
    l.filter p ++ l.filter (!p ·) = l ↔ l.Pairwise fun a b => p a = false → p b = false := by
  induction l with
  | nil => simp
  | cons a l ih =>
    rw [List.pairwise_cons]
    cases ha : p a with
    | true =>
      rw [List.filter_cons_of_pos ha, List.filter_cons_of_neg (by simp [ha]), List.cons_append,
        List.cons.injEq, ih]
      simp
    | false =>
      rw [List.filter_cons_of_neg (by simp [ha]), List.filter_cons_of_pos (by simp [ha])]
      constructor
      · intro heq
        -- the first item of the right side has not the property, so nothing on the left has it
        have hnone : l.filter p = [] := by
          cases hfirst : l.filter p with
          | nil => rfl
          | cons b rest =>
            rw [hfirst, List.cons_append, List.cons.injEq] at heq
            have hb : p b = true := (List.mem_filter.1 (hfirst ▸ List.mem_cons_self)).2
            rw [heq.1, ha] at hb
            cases hb
        rw [hnone, List.nil_append, List.cons.injEq] at heq
        have hall : ∀ b ∈ l, p b = false := by
          simpa [List.filter_eq_nil_iff] using hnone
        refine ⟨fun b hb _ => hall b hb, ih.1 ?_⟩
        rw [hnone, List.nil_append, heq.2]
      · rintro ⟨hafter, hpairwise⟩
        have hall : ∀ b ∈ l, p b = false := fun b hb => hafter b hb rfl
        have hnone : l.filter p = [] := List.filter_eq_nil_iff.2 (by simpa using hall)
        have hself : l.filter (!p ·) = l := List.filter_eq_self.2 (by simpa using hall)
        rw [hnone, List.nil_append, hself]

namespace ClassPart

variable {parts : List ClassPart} {forClass : Bool}

/-- Whether a part is a field. -/
@[simp] def isField : ClassPart → Bool
  | .field _ => true
  | _ => false

/-- Whether two parts are fields of one name. -/
def sameField : ClassPart → ClassPart → Bool
  | .field f, .field f' => f.name == f'.name
  | _, _ => false

/-- The parts without the fields of whose name an earlier one is there. -/
def kept (parts : List ClassPart) : List ClassPart := parts.eraseDupsBy sameField

/-- Whether a part runs when the class, or when an instance, is initialized: a field with an
initial value that is not stored as a constant, and a block. -/
def initializes (forClass : Bool) : ClassPart → Bool
  | .field f => f.isStatic == forClass && !(forClass && f.isConstant) && !f.init.isEmpty
  | .initializer _ isStatic => isStatic == forClass
  | _ => false

/-- The parts that run when the class, or when an instance, is initialized, in the order of the
source. -/
def steps (forClass : Bool) (parts : List ClassPart) : List ClassPart :=
  (kept parts).filter (initializes forClass)

/-- Parts with all fields in front. -/
def fieldsFirst (parts : List ClassPart) : List ClassPart :=
  parts.filter isField ++ parts.filter (!·.isField)

/-- What a part runs when the class is initialized. -/
def classCode (owner : Text) : ClassPart → List Stmt
  | .field f => [.expression (f.globalName owner ++ " = " ++ f.init)]
  | .initializer body _ => body
  | _ => []

/-- What a part runs when an instance is initialized. -/
def instanceCode (k : Nat) : ClassPart → Text
  | .field f => indented k (f.name ++ " = " ++ f.init ++ ";")
  | .initializer body _ => (Stmt.layout (.block body)).own k
  | _ => []

theorem kept_cons (part : ClassPart) (rest : List ClassPart) :
    kept (part :: rest) = part :: kept (rest.filter fun other => !sameField part other) := by
  have hcomm : ∀ a b : ClassPart, sameField a b = sameField b a := by
    intro a b
    cases a <;> cases b <;> simp [sameField, Bool.beq_comm]
  simp [kept, List.eraseDupsBy_cons, hcomm]

/-- What is no field is kept. -/
theorem filterMap_kept {β : Type} {f : ClassPart → Option β} (h : ∀ g, f (.field g) = none) :
    (kept parts).filterMap f = parts.filterMap f := by
  induction hlength : parts.length using Nat.strongRecOn generalizing parts with
  | _ n ih =>
    subst hlength
    cases parts with
    | nil => rfl
    | cons part rest =>
      have hshorter : (rest.filter fun other => !sameField part other).length <
          (part :: rest).length := Nat.lt_succ_of_le (List.length_filter_le ..)
      have hrest : (rest.filter fun other => !sameField part other).filterMap f =
          rest.filterMap f := by
        rw [List.filterMap_filter]
        refine List.filterMap_congr fun other _ => ?_
        cases part <;> cases other <;> simp [sameField, h]
      rw [kept_cons, List.filterMap_cons, List.filterMap_cons, ih _ hshorter rfl, hrest]

/-- Leaving out the fields of a name. -/
theorem filterMap_field?_filter (f : TargetField) (rest : List ClassPart) :
    (rest.filter fun other => !sameField (.field f) other).filterMap field? =
      (rest.filterMap field?).filter (·.name ≠ f.name) := by
  induction rest with
  | nil => rfl
  | cons other rest ih =>
    cases other with
    | field f' =>
      have hfield : ∀ l, (ClassPart.field f' :: l).filterMap field? = f' :: l.filterMap field? :=
        fun _ => rfl
      rw [hfield]
      by_cases hname : f'.name = f.name
      · rw [List.filter_cons_of_neg (by simp [sameField, hname]),
          List.filter_cons_of_neg (by simpa using hname), ih]
      · have hother : sameField (.field f) (.field f') = false := by
          simpa [sameField] using fun h => hname h.symm
        rw [List.filter_cons_of_pos (by simp [hother]),
          List.filter_cons_of_pos (by simpa using hname), hfield, ih]
    | _ => exact ih

/-- Of the fields the first of each name is kept. -/
theorem filterMap_field?_kept :
    (kept parts).filterMap field? = firstBy TargetField.name (parts.filterMap field?) := by
  induction hlength : parts.length using Nat.strongRecOn generalizing parts with
  | _ n ih =>
    subst hlength
    cases parts with
    | nil => rfl
    | cons part rest =>
      have hshorter : (rest.filter fun other => !sameField part other).length <
          (part :: rest).length := Nat.lt_succ_of_le (List.length_filter_le ..)
      rw [kept_cons, List.filterMap_cons, List.filterMap_cons, ih _ hshorter rfl]
      cases part with
      | field f => simp only [field?, firstBy_cons, filterMap_field?_filter]
      | _ => simp [sameField]

/-- The fields that run are the kept ones with an initial value that is not stored. -/
theorem filterMap_field?_steps :
    (steps forClass parts).filterMap field? =
      (firstBy TargetField.name (parts.filterMap field?)).filter fun f =>
        f.isStatic == forClass && !(forClass && f.isConstant) && !f.init.isEmpty := by
  rw [← filterMap_field?_kept, steps, List.filterMap_filter, List.filter_filterMap]
  refine List.filterMap_congr fun part _ => ?_
  cases part with
  | field f => simp [initializes, Option.filter]
  | _ => simp [initializes]

/-- The blocks that run are all those of the class, or of its instances. -/
theorem filterMap_block?_steps :
    (steps forClass parts).filterMap (block? forClass) = parts.filterMap (block? forClass) := by
  have hkept : (kept parts).filterMap (block? forClass) = parts.filterMap (block? forClass) :=
    filterMap_kept fun _ => rfl
  rw [← hkept, steps, List.filterMap_filter]
  refine List.filterMap_congr fun part _ => ?_
  cases part with
  | initializer body isStatic => cases isStatic <;> cases forClass <;> rfl
  | _ => simp

/-- What the fields among some parts run. -/
theorem flatMap_filter_isField {α : Type} (code : ClassPart → List α) (parts : List ClassPart) :
    (parts.filter isField).flatMap code =
      (parts.filterMap field?).flatMap fun f => code (.field f) := by
  induction parts with
  | nil => rfl
  | cons part parts ih =>
    cases part with
    | field f => exact congrArg (code (.field f) ++ ·) ih
    | _ => exact ih

/-- What the blocks among parts that initialize run. -/
theorem flatMap_filter_not_isField {α : Type} (code : ClassPart → List α)
    (h : ∀ part ∈ parts, initializes forClass part = true) :
    (parts.filter (!·.isField)).flatMap code =
      (parts.filterMap (block? forClass)).flatMap fun body =>
        code (.initializer body forClass) := by
  induction parts with
  | nil => rfl
  | cons part parts ih =>
    obtain ⟨hpart, hparts⟩ := List.forall_mem_cons.1 h
    cases part with
    | field f => exact ih hparts
    | initializer body isStatic =>
      obtain rfl : isStatic = forClass := by simpa [initializes] using hpart
      have hblock : block? isStatic (.initializer body isStatic) = some body := if_pos rfl
      rw [List.filterMap_cons_some hblock]
      exact congrArg (code (.initializer body isStatic) ++ ·) (ih hparts)
    | _ => cases hpart

/-- What all fields and then all blocks run. -/
theorem flatMap_fieldsFirst {α : Type} (code : ClassPart → List α) :
    (fieldsFirst (steps forClass parts)).flatMap code =
      (((firstBy TargetField.name (parts.filterMap field?)).filter fun f =>
          f.isStatic == forClass && !(forClass && f.isConstant) && !f.init.isEmpty).flatMap
        fun f => code (.field f)) ++
      (parts.filterMap (block? forClass)).flatMap fun body => code (.initializer body forClass) := by
  have hsteps : ∀ part ∈ steps forClass parts, initializes forClass part = true :=
    fun part hpart => (List.mem_filter.1 hpart).2
  rw [fieldsFirst, List.flatMap_append, flatMap_filter_isField, flatMap_filter_not_isField _ hsteps,
    filterMap_field?_steps, filterMap_block?_steps]

/-- Fields and blocks run in the order of the source exactly if no field stands behind a block. -/
theorem fieldsFirst_eq_iff :
    fieldsFirst parts = parts ↔ parts.Pairwise fun a b => a.isField = false → b.isField = false :=
  filter_append_filter_not_eq_iff

end ClassPart

/-- Whether a constructor hands over to another one of its class. -/
def Node.delegates (n : Node) : Bool :=
  ((n.child? .block).bind fun block => block.children.head?).any fun call =>
    call.kind = .constructorCall && (call.child? .thisRef).isSome

namespace Lowering

variable {isInterface : Bool} {around : Surroundings} {s s' : BodyState} {n block : Node}
  {m : TargetMethod} {receiver text : Text}

/-- A message starts with its receiver. -/
theorem startsWith_of_send? {keywords arguments : List Text}
    (h : send? receiver keywords arguments = some text) :
    ∃ rest, text = "[" ++ receiver ++ " " ++ rest := by
  unfold send? at h
  split at h
  · obtain ⟨selector, -, rfl⟩ := Option.map_eq_some_iff.1 h
    exact ⟨_, List.append_assoc ..⟩
  · split at h
    · cases h
    · obtain rfl := Option.some.inj h
      exact ⟨_, List.append_assoc ..⟩

/-- The message that a constructor starts with goes to the object itself exactly if it is written
with `this`. -/
theorem constructorCall_ok {call : Node}
    (h : result (constructorCall (attributed call).parts) around s = (.ok text, s')) :
    ∃ rest, text =
      (if (call.child? .thisRef).isSome then Text.ofString "[self " else "[super ") ++ rest := by
  have hthis : (Parts.first? (call.children.map attributed) .thisRef).isSome =
      (call.child? .thisRef).isSome := by
    rw [first?_map, Option.isSome_map]
    rfl
  have hsent : ∀ {receiver : Text} {owner : Option ClassSignature} {arguments : List Value}
      {t : BodyState}, result (sendInit receiver owner arguments []) around t = (.ok text, s') →
        ∃ rest, text = "[" ++ receiver ++ " " ++ rest := fun h => startsWith_of_send? (send_ok h)
  rw [attributed_parts, constructorCall] at h
  split at h
  · exact absurd h throw_ok
  · obtain ⟨arguments, s₁, -, h⟩ := bind_ok h
    obtain ⟨around', s₂, hread, h⟩ := bind_ok h
    obtain ⟨rfl, rfl⟩ := read_ok hread
    rw [hthis] at h
    split at h
    · next hself =>
      rw [if_pos hself]
      exact hsent h
    · next hself =>
      rw [if_neg hself]
      split at h
      · obtain ⟨rfl, -⟩ := pure_ok h
        exact ⟨_, by simp only [List.append_assoc]; rfl⟩
      · exact hsent h

/-- The initializer message and the body of a constructor. -/
theorem constructorBody_ok {parameters : List Parameter} {start : Text} {body : List Stmt}
    (h : result (constructorBody parameters block) around s = (.ok (start, body), s')) :
    (start = [] ∧ ∀ call ∈ block.children.head?, call.kind ≠ .constructorCall) ∨
      ∃ call rest, call ∈ block.children.head? ∧ call.kind = .constructorCall ∧
        start = (if (call.child? .thisRef).isSome then Text.ofString "[self " else "[super ") ++
          rest := by
  unfold constructorBody at h
  obtain ⟨_, s₁, -, h⟩ := bind_ok h
  rw [attributed_parts] at h
  cases hchildren : block.children with
  | nil =>
    rw [hchildren] at h
    obtain ⟨inner, s₂, -, h⟩ := bind_ok h
    obtain ⟨heq, -⟩ := pure_ok h
    exact .inl ⟨(Prod.mk.inj heq).1.symm, by simp⟩
  | cons first rest =>
    rw [hchildren] at h
    simp only [List.map_cons, attributed_kind] at h
    split at h
    · next hcall =>
      obtain ⟨message, s₂, hmessage, h⟩ := bind_ok h
      obtain ⟨inner, s₃, -, h⟩ := bind_ok h
      obtain ⟨heq, -⟩ := pure_ok h
      obtain ⟨tail, htail⟩ := constructorCall_ok hmessage
      exact .inr ⟨first, tail, rfl, hcall, (Prod.mk.inj heq).1.symm.trans htail⟩
    · next hcall =>
      obtain ⟨inner, s₂, -, h⟩ := bind_ok h
      obtain ⟨heq, -⟩ := pure_ok h
      exact .inl ⟨(Prod.mk.inj heq).1.symm, by simpa using hcall⟩

/-- An initializer leaves the instance to another one exactly if its constructor hands over. -/
theorem Translates.delegates (h : Translates isInterface around n m) (hm : m.isConstructor = true) :
    n.kind = .constructorDecl ∧
      Text.startsWith (ClassModel.initCallOf m) "[self " = n.delegates := by
  cases h with
  | method => cases hm
  | @constructor parameters block start body hkind hparameters hblock hbody =>
    refine ⟨hkind, ?_⟩
    have hnode : n.delegates = (block.children.head?).any fun call =>
        call.kind = .constructorCall && (call.child? .thisRef).isSome := by
      rw [Node.delegates, hblock]
      rfl
    have hrun : result (constructorBody (Parameter.ofDecl n) block)
        { around with isConstructor := true } { scopes := [[]] } = (.ok (start, body), _) :=
      Prod.ext hbody rfl
    rw [hnode]
    rcases constructorBody_ok hrun with ⟨rfl, hnone⟩ | ⟨call, rest, hhead, hcall, rfl⟩
    · have hany : (block.children.head?).any (fun call =>
          call.kind = .constructorCall && (call.child? .thisRef).isSome) = false := by
        rw [Option.any_eq_false]
        intro call hmem
        simp [hnone call hmem]
      rw [hany]
      rfl
    · rw [Option.mem_def.1 hhead, Option.any_some, hcall]
      cases (call.child? .thisRef).isSome <;> rfl

section Traces

variable {decl : Node} {supertypes : List ClassPart} {rows : List (List ClassPart)}

/-- The fields of a class are those of its members. -/
theorem ClassTrace.fields_eq (h : ClassTrace decl around supertypes rows) :
    (classBuilder decl supertypes rows).fields =
      firstBy TargetField.name (rows.flatten.filterMap ClassPart.field?) := by
  have hfields := h.filterMap_parts (f := ClassPart.field?) (fun _ => rfl) (fun _ => rfl)
    fun _ => rfl
  rw [← hfields]
  rfl

/-- The blocks of a class are those of its members. -/
theorem ClassTrace.blocks_eq (h : ClassTrace decl around supertypes rows) :
    (classBuilder decl supertypes rows).staticInit =
        rows.flatten.filterMap (ClassPart.block? true) ∧
      (classBuilder decl supertypes rows).instanceInit =
        rows.flatten.filterMap (ClassPart.block? false) := by
  have hblocks := fun forClass => h.filterMap_parts (f := ClassPart.block? forClass) (fun _ => rfl)
    (fun _ => rfl) fun _ => rfl
  exact ⟨hblocks true, hblocks false⟩

end Traces

end Lowering

namespace ClassModel

variable {m : ClassModel}

/-- What runs when the class is initialized stands in its class initializer. -/
theorem exists_classInitializer (h : m.classInitialization ≠ []) :
    ∃ f ∈ m.definedMethods, f.message = (true, Text.ofString "initialize") ∧
      f.body = some [.ifElse ("self == [" ++ m.name ++ " class]")
        (.block m.classInitialization) .nothing] := by
  have hsome : m.classInitialization.isEmpty = false := by simpa using h
  cases hinitializer : m.classInitializer? with
  | none => simp [classInitializer?, hsome] at hinitializer
  | some f =>
    refine ⟨f, by simp [definedMethods, hinitializer], classInitializer?_message hinitializer, ?_⟩
    simp only [classInitializer?, hsome, Bool.false_eq_true, if_false] at hinitializer
    obtain rfl := Option.some.inj hinitializer
    rfl

/-- An initializer that is defined is the made up one or a method of the class. -/
theorem eq_synthesizedInit_or_mem {f : TargetMethod} (hf : f ∈ m.definedMethods)
    (hconstructor : f.isConstructor = true) : f = synthesizedInit ∨ f ∈ m.methods := by
  unfold definedMethods at hf
  rcases List.mem_append.1 hf with hmade | hdeclared
  · rcases List.mem_append.1 hmade with hclass | hinit
    · have hbody : m.classInitializer? = some f := by simpa using hclass
      unfold classInitializer? at hbody
      dsimp only at hbody
      split at hbody
      · cases hbody
      · obtain rfl := Option.some.inj hbody
        cases hconstructor
    · split at hinit
      · exact .inl (List.mem_singleton.1 hinit)
      · cases hinit
  · exact .inr (List.mem_filter.1 hdeclared).1

end ClassModel

/-- A class whose fields and blocks are those among some parts. -/
structure ClassModel.Holds (m : ClassModel) (parts : List ClassPart) : Prop where
  fields : m.fields = firstBy TargetField.name (parts.filterMap ClassPart.field?)
  staticInit : m.staticInit = parts.filterMap (ClassPart.block? true)
  instanceInit : m.instanceInit = parts.filterMap (ClassPart.block? false)

namespace ClassModel.Holds

open ClassPart

variable {m : ClassModel} {parts : List ClassPart}

/-- When the class is initialized, its fields and then its blocks run, and last a method that it
calls `initialize` itself. -/
theorem classInitialization_eq (h : m.Holds parts) :
    m.classInitialization = (fieldsFirst (steps true parts)).flatMap (classCode m.name) ++
      (m.methods.filter (·.isClassInitializer)).flatMap fun f => f.body.getD [] := by
  have hassigned : (fun f : TargetField => f.isStatic && !f.isConstant && !f.init.isEmpty) =
      fun f => f.isStatic == true && !(true && f.isConstant) && !f.init.isEmpty := by
    funext f
    simp
  have hblocks : (parts.filterMap (block? true)).flatten =
      (parts.filterMap (block? true)).flatMap fun body =>
        classCode m.name (.initializer body true) := by
    rw [List.flatten_eq_flatMap]
    rfl
  rw [classInitialization, flatMap_fieldsFirst, h.fields, h.staticInit, hassigned, hblocks,
    List.map_eq_flatMap]
  rfl

/-- When an instance is initialized, its fields and then its blocks run. -/
theorem instanceInitialization_eq (h : m.Holds parts) (k : Nat) :
    m.instanceInitialization k = (fieldsFirst (steps false parts)).flatMap (instanceCode k) := by
  have hassigned : (fun f : TargetField => !f.isStatic && !f.init.isEmpty) =
      fun f => f.isStatic == false && !(false && f.isConstant) && !f.init.isEmpty := by
    funext f
    simp
  rw [instanceInitialization, flatMap_fieldsFirst, h.fields, h.instanceInit, hassigned]
  rfl

/-- A class without constructors has an initializer made up if its instances run anything. -/
theorem synthesizedInit_mem (h : m.Holds parts) (hsteps : steps false parts ≠ [])
    (hnone : ∀ f ∈ m.methods, f.isConstructor = false) : synthesizedInit ∈ m.definedMethods := by
  have hruns : m.instanceInit ≠ [] ∨ ∃ f ∈ m.fields, (!f.isStatic && !f.init.isEmpty) = true := by
    obtain ⟨part, hpart⟩ := List.exists_mem_of_ne_nil _ hsteps
    have hinitializes := (List.mem_filter.1 hpart).2
    cases part with
    | field f =>
      have hmem : f ∈ (steps false parts).filterMap field? :=
        List.mem_filterMap.2 ⟨_, hpart, rfl⟩
      rw [filterMap_field?_steps, ← h.fields] at hmem
      obtain ⟨hf, hcondition⟩ := List.mem_filter.1 hmem
      exact .inr ⟨f, hf, by simpa using hcondition⟩
    | initializer body isStatic =>
      obtain rfl : isStatic = false := by simpa [initializes] using hinitializes
      have hmem : body ∈ (steps false parts).filterMap (block? false) :=
        List.mem_filterMap.2 ⟨_, hpart, rfl⟩
      rw [filterMap_block?_steps, ← h.instanceInit] at hmem
      exact .inl (List.ne_nil_of_mem hmem)
    | _ => cases hinitializes
  have hneeds : m.needsInit = true := by
    have hconstructors : m.methods.any (·.isConstructor) = false := by simpa using hnone
    rw [needsInit, hconstructors]
    rcases hruns with hblocks | ⟨f, hf, hcondition⟩
    · simp [hblocks]
    · have hany : m.fields.any (fun f => !f.isStatic && !f.init.isEmpty) = true :=
        List.any_eq_true.2 ⟨f, hf, hcondition⟩
      simp [hany]
  simp [definedMethods, hneeds]

/-- An initializer runs the fields and then the blocks of the instance, unless it hands over to
another one. -/
theorem methodBody_eq (h : m.Holds parts) {f : TargetMethod} (hf : f.isConstructor = true) :
    m.methodBody f = indented 1 ("self = " ++ initCallOf f ++ ";") ++ indented 1 "if (self) \x7b" ++
      (if Text.startsWith (initCallOf f) "[self " then []
        else (fieldsFirst (steps false parts)).flatMap (instanceCode 2)) ++
      Stmt.lines (f.body.getD []) 2 ++ indented 1 "\x7d" ++ indented 1 "return self;" := by
  rw [methodBody, if_pos hf, constructorBody, h.instanceInitialization_eq]

end ClassModel.Holds

namespace Generator

open ClassPart ClassModel

/-- What a class and its instances run when they are initialized. Its members stand for parts in
the order of the source. When the class is initialized, those of its fields that are no constants
and have an initial value run, then the static blocks, and last a method that the class calls
`initialize` itself. An initializer of an instance runs its fields with an initial value and then
its blocks, unless its constructor hands over to another one. All this is in the order of the
source exactly if no field with an initial value stands behind a block. -/
theorem initialization_order {g : Generator} {path source : Text} {cu : Node}
    {unit : GeneratedUnit} {decl : Node} (hparsed : parseForGeneration path source = .ok cu)
    (hunit : g.generateUnit path cu = .ok unit) (hprimary : primaryType? cu = some decl)
    (hclass : (ClassSignature.ofDecl decl).isInterface = false) :
    ∃ rows, List.Forall₂ (Lowering.Contributes false (g.memberSurroundings cu decl))
        decl.members rows ∧
      unit.model.classInitialization =
        (fieldsFirst (steps true rows.flatten)).flatMap (classCode unit.model.name) ++
          (unit.model.methods.filter (·.isClassInitializer)).flatMap (fun f => f.body.getD []) ∧
      (unit.model.classInitialization ≠ [] → ∃ f ∈ unit.model.definedMethods,
        f.message = (true, Text.ofString "initialize") ∧
        f.body = some [.ifElse ("self == [" ++ unit.model.name ++ " class]")
          (.block unit.model.classInitialization) .nothing]) ∧
      (steps false rows.flatten ≠ [] → (∀ f ∈ unit.model.methods, f.isConstructor = false) →
        synthesizedInit ∈ unit.model.definedMethods) ∧
      (∀ f ∈ unit.model.definedMethods, f.isConstructor = true → ∃ handsOver : Bool,
        (f = synthesizedInit ∧ handsOver = false ∨ ∃ n ∈ decl.members,
          n.kind = .constructorDecl ∧
          Lowering.Translates false (g.memberSurroundings cu decl) n f ∧
          handsOver = n.delegates) ∧
        unit.model.methodBody f =
          indented 1 ("self = " ++ initCallOf f ++ ";") ++ indented 1 "if (self) \x7b" ++
            (if handsOver then []
              else (fieldsFirst (steps false rows.flatten)).flatMap (instanceCode 2)) ++
            Stmt.lines (f.body.getD []) 2 ++ indented 1 "\x7d" ++ indented 1 "return self;") ∧
      ∀ forClass, fieldsFirst (steps forClass rows.flatten) = steps forClass rows.flatten ↔
        (steps forClass rows.flatten).Pairwise fun a b => a.isField = false → b.isField = false := by
  obtain ⟨htree, hclean⟩ := derives_of_parseForGeneration hparsed
  have hkind := htree.unit_kind hclean
  obtain ⟨decl', supertypes, rows, imports, hprimary', -, -, -, htrace, hmodel⟩ :=
    generateUnit_parts hkind hclean hunit
  obtain rfl : decl = decl' := Option.some.inj (hprimary.symm.trans hprimary')
  have hmembers := htrace.members
  rw [hclass] at hmembers
  have hholds : unit.model.Holds rows.flatten := by
    rw [hmodel]
    exact ⟨htrace.fields_eq, htrace.blocks_eq.1, htrace.blocks_eq.2⟩
  have hmethods : unit.model.methods = firstPerKey ClassBuilder.messageKey
      (firstBy TargetMethod.signature (rows.flatten.filterMap method?)) := by
    rw [hmodel, ← htrace.methods_eq]
    rfl
  have hdeclared : ∀ f ∈ unit.model.methods, ∃ n ∈ decl.members,
      Lowering.Translates false (g.memberSurroundings cu decl) n f := by
    intro f hf
    rw [hmethods, firstPerKey_eq] at hf
    have hadded := (firstBy_sublist _ _).subset ((firstBy_sublist _ _).subset hf)
    obtain ⟨n, hn, htranslates⟩ :=
      exists_of_mem_forall₂ (Lowering.translates_of_contributes hmembers) hadded
    exact ⟨n, (List.mem_filter.1 hn).1, htranslates⟩
  refine ⟨rows, hmembers, hholds.classInitialization_eq, exists_classInitializer,
    hholds.synthesizedInit_mem, fun f hf hconstructor => ?_, fun _ => fieldsFirst_eq_iff⟩
  rw [hholds.methodBody_eq hconstructor]
  rcases eq_synthesizedInit_or_mem hf hconstructor with rfl | hmem
  · exact ⟨false, .inl ⟨rfl, rfl⟩, rfl⟩
  · obtain ⟨n, hn, htranslates⟩ := hdeclared f hmem
    obtain ⟨hkind, hdelegates⟩ := htranslates.delegates hconstructor
    exact ⟨n.delegates, .inr ⟨n, hn, hkind, htranslates, rfl⟩, by rw [hdelegates]⟩

/-- A class whose static field stands behind a static block. -/
def lateFieldSource : Text := "class A \x7b static \x7b int k = 1; \x7d static int b = 1 + 1; \x7d"

/-- The field is initialized before the block runs. -/
theorem initialization_order_late_field :
    ∃ unit decl rows, (ofOptions {}).generateUnit "A.java"
        (Entry.compilationUnit.read lateFieldSource).1 = .ok unit ∧
      primaryType? (Entry.compilationUnit.read lateFieldSource).1 = some decl ∧
      (ClassSignature.ofDecl decl).isInterface = false ∧
      unit.model.classInitialization =
        (fieldsFirst (steps true rows)).flatMap (classCode unit.model.name) ++
          (unit.model.methods.filter (·.isClassInitializer)).flatMap (fun f => f.body.getD []) ∧
      Stmt.lines unit.model.classInitialization 0 = "A_b = 1 + 1;\nint k = 1;\n" := by
  -- one evaluation, so that the source is read once
  obtain ⟨haccepted, hdeclared, hlines⟩ :
      (Parsed.ofSource .compilationUnit lateFieldSource).problems = [] ∧
      (primaryType? (Entry.compilationUnit.read lateFieldSource).1).map
        (fun decl => (ClassSignature.ofDecl decl).isInterface) = some false ∧
      ((ofOptions {}).generateUnit "A.java"
        (Entry.compilationUnit.read lateFieldSource).1).toOption.map
          (fun unit => Stmt.lines unit.model.classInitialization 0) =
        some (Text.ofString "A_b = 1 + 1;\nint k = 1;\n") := by decide +kernel
  have hparsed := parseForGeneration_of_accepted "A.java" haccepted
  obtain ⟨decl, hprimary, hclass⟩ := Option.map_eq_some_iff.1 hdeclared
  cases hunit : (ofOptions {}).generateUnit "A.java"
      (Entry.compilationUnit.read lateFieldSource).1 with
  | error f =>
    rw [hunit] at hlines
    cases hlines
  | ok unit =>
    rw [hunit] at hlines
    obtain ⟨rows, -, hinitialization, -⟩ :=
      initialization_order hparsed hunit hprimary hclass
    exact ⟨unit, decl, rows.flatten, rfl, hprimary, hclass, hinitialization,
      Option.some.inj hlines⟩

end Generator

end JavaObjC
