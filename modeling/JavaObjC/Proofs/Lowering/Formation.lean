import JavaObjC.Lowering.Members
import JavaObjC.Proofs.Lowering.Agreement
import JavaObjC.Proofs.Lowering.Lookups

/-!
# How actions on bodies are put together

The actions that generate code for a body are formed from few steps: they ask
their surroundings look-ups, record the class of a type or of a name, declare
and find locals, open scopes, and refuse. Nothing else touches the references or
the scopes, so what holds of these steps and of their composition holds of all
code generation, from the single expression to the whole body.
-/

namespace JavaObjC

open Generating

/-- Actions on bodies that are formed from the steps of code generation. What an action asks its
surroundings is the same in all that answer alike, and the classes it records by itself are
predefined. -/
inductive Lower.Formed : {α : Type} → Lower α → Prop where
  | pure {α : Type} (a : α) : Formed (Pure.pure a : Lower α)
  | refused {α : Type} (r : Refusal) : Formed (throw r : Lower α)
  | bind {α β : Type} {x : Lower α} {f : α → Lower β} (hx : Formed x) (hf : ∀ a, Formed (f a)) :
    Formed (x >>= f)
  | read {α : Type} {f : Surroundings → Lower α}
    (heq : ∀ around around', around.Alike around' → f around' = f around)
    (hf : ∀ around, Formed (f around)) : Formed (MonadReader.read >>= f)
  | mapType (t : JavaType) : Formed (Lower.mapType t)
  | classNamed (name : Text) : Formed (Lower.classNamed name)
  | refer {c : ClassRef} (h : ClassRef.predefined? c.name = some c) : Formed (Lower.refer c)
  | declareLocal (name : Text) (t : JavaType) : Formed (Lower.declareLocal name t)
  | localType? (name : Text) : Formed (Lower.localType? name)
  | withScope {α : Type} {x : Lower α} (hx : Formed x) : Formed (Lower.withScope x)

namespace Lower

variable {α β : Type}

namespace Formed

/-- Changing the answer of an action adds no step to it. -/
theorem map {x : Lower α} (hx : Formed x) (f : α → β) : Formed (f <$> x) := by
  rw [map_eq_pure_bind]
  exact hx.bind fun a => .pure (f a)

/-- A choice that the surroundings do not make is formed when both actions are. -/
theorem ite {x y : Lower α} {p : Prop} [Decidable p] (yes : Formed x) (no : Formed y) :
    Formed (if p then x else y) := by
  split
  · exact yes
  · exact no

/-- The same formed action for every member of a list. -/
theorem mapM {f : α → Lower β} {l : List α} (hf : ∀ a ∈ l, Formed (f a)) :
    Formed (l.mapM f) := by
  induction l with
  | nil => exact .pure []
  | cons a l ih =>
    rw [List.forall_mem_cons] at hf
    rw [List.mapM_cons]
    exact hf.1.bind fun b => (ih hf.2).bind fun bs => .pure _

/-- A formed action on a running value, member after member. -/
theorem foldlM {f : β → α → Lower β} {l : List α} (hf : ∀ b, ∀ a ∈ l, Formed (f b a))
    (b : β) : Formed (l.foldlM f b) := by
  induction l generalizing b with
  | nil => exact .pure b
  | cons a l ih =>
    rw [List.foldlM_cons]
    exact (hf b a (List.mem_cons_self ..)).bind fun c =>
      ih (fun b a ha => hf b a (List.mem_cons_of_mem _ ha)) c

/-- Formed actions in a row whose answers nobody reads. -/
theorem forM {f : α → Lower PUnit} {l : List α} (hf : ∀ a ∈ l, Formed (f a)) :
    Formed (l.forM f) := by
  induction l with
  | nil => exact .pure _
  | cons a l ih =>
    rw [List.forall_mem_cons] at hf
    exact hf.1.bind fun _ => ih hf.2

end Formed

theorem refuseKind_formed (n : Node) : Formed (refuseKind n : Lower α) := .refused _

/-- To require a part is to refuse or to answer, and either is a step. -/
theorem require_formed (part : Option α) : Formed (require part) := by
  cases part with
  | none => exact .refused _
  | some a => exact .pure a

/-- A part that is there is one of those that can be. -/
theorem require_bind_formed {part : Option α} {f : α → Lower β} (hf : ∀ a ∈ part, Formed (f a)) :
    Formed (require part >>= f) := by
  cases part with
  | none =>
    have hnone : (require none >>= f : Lower β) = throw .malformed := rfl
    rw [hnone]
    exact .refused _
  | some a => exact hf a rfl

end Lower

/-- Meanings that consist of formed actions. -/
structure Meaning.Formed (m : Meaning) : Prop where
  value : Lower.Formed m.value
  operands : Lower.Formed m.operands
  array : ∀ t, Lower.Formed (m.array t)
  statements : Lower.Formed m.statements

/-- Attributed trees all of whose meanings are formed. -/
inductive Attributed.Formed : Attributed → Prop where
  | intro {a : Attributed} (parts : ∀ b ∈ a.children, Formed b) (meaning : a.meaning.Formed) :
    Formed a

/-- Parts that are formed one by one. -/
abbrev Parts.Formed (parts : Parts) : Prop := ∀ a ∈ parts, a.Formed

namespace Attributed.Formed

variable {a : Attributed}

theorem parts (h : a.Formed) : Parts.Formed a.parts := by
  cases h
  assumption

theorem meaning (h : a.Formed) : a.meaning.Formed := by
  cases h
  assumption

theorem value (h : a.Formed) : Lower.Formed a.value := h.meaning.value

theorem statements (h : a.Formed) : Lower.Formed a.statements := h.meaning.statements

end Attributed.Formed

/-- A refusal at a node asks nothing of the surroundings. -/
theorem Attributed.refuse_formed {α : Type} (a : Attributed) (construct : Text) :
    Lower.Formed (a.refuse construct : Lower α) := .refused _

namespace Parts.Formed

variable {parts : Parts} {α : Type}

/-- What goes on with a child goes on with a formed tree; a missing child is refused. -/
theorem child (h : parts.Formed) (i : Nat) {f : Attributed → Lower α}
    (hf : ∀ a, a.Formed → Lower.Formed (f a)) :
    Lower.Formed (parts.child i >>= f) :=
  Lower.require_bind_formed fun a ha => hf a (h a (List.mem_of_getElem? ha))

/-- What goes on with the last child goes on with a formed tree. -/
theorem lastChild (h : parts.Formed) {f : Attributed → Lower α}
    (hf : ∀ a, a.Formed → Lower.Formed (f a)) :
    Lower.Formed (parts.lastChild >>= f) :=
  Lower.require_bind_formed fun a ha => hf a (h a (List.mem_of_getLast? ha))

/-- The value of a child is read by a formed action. -/
theorem valueAt (h : parts.Formed) (i : Nat) : Lower.Formed (parts.valueAt i) :=
  h.child i fun _ ha => ha.value

/-- The first part of a kind is one of the parts. -/
theorem first? (h : parts.Formed) (kind : NodeKind) : ∀ a ∈ parts.first? kind, a.Formed :=
  fun a ha => h a (List.mem_of_find?_eq_some ha)

/-- The parts of a kind are formed, being some of the parts. -/
theorem ofKind (h : parts.Formed) (kind : NodeKind) : Parts.Formed (parts.ofKind kind) :=
  fun a ha => h a (List.mem_of_mem_filter ha)

/-- The arguments of a call are read one after another; without a list there are none. -/
theorem arguments (h : parts.Formed) : Lower.Formed parts.arguments := by
  have hfirst := h.first? .parameters
  unfold Parts.arguments
  cases hlist : parts.first? .parameters with
  | none => exact .pure _
  | some list => exact .mapM fun a ha => ((hfirst list hlist).parts a ha).value

end Parts.Formed

namespace Lowering

open Lower

variable {n : Node} {parts : Parts} {part : Attributed}

section Names

/-- The text of a floating-point literal depends on its digits alone. -/
theorem floatLiteral_formed (digits : Text) : Formed (floatLiteral digits) :=
  (require_formed _).bind fun _ => .ite (.pure _) (.ite (.pure _) (.pure _))

/-- A literal depends on its own token and refuses when it has none. -/
theorem literal_formed (n : Node) : Formed (literal n) := by
  unfold literal
  cases n.token with
  | none => exact refuseKind_formed n
  | some t =>
    dsimp only
    split
    · exact .ite (refuseKind_formed n) (.pure _)
    all_goals first | exact .pure _ | exact floatLiteral_formed _ | exact .refused _

/-- A name is a local, a field or a class: of the field only the type and whether it is static are
read, and there alike surroundings agree. -/
theorem identifier_formed (name : Text) : Formed (identifier name) := by
  refine (Formed.localType? name).bind fun found => ?_
  cases found with
  | some t => exact .pure _
  | none =>
    refine .read (fun around around' h => ?_) fun around => ?_
    · have hfield := h.field name
      rw [h.isClassName_eq]
      generalize around.field? name = found at hfield ⊢
      generalize around'.field? name = found' at hfield ⊢
      cases found <;> cases found' <;> simp only [Option.map_none, Option.map_some, reduceCtorEq,
        Option.some.injEq, Prod.mk.injEq] at hfield
      · rfl
      · simp only [staticField, hfield]
    · cases around.field? name <;> exact .pure _

/-- A field of the class itself is read by its type and by whether it is static. -/
theorem ownField_formed (name : Text) : Formed (ownField name) := by
  refine .read (fun around around' h => ?_) fun around => ?_
  · have hfield := h.field name
    generalize around.field? name = found at hfield ⊢
    generalize around'.field? name = found' at hfield ⊢
    cases found <;> cases found' <;> simp only [Option.map_none, Option.map_some, reduceCtorEq,
      Option.some.injEq, Prod.mk.injEq] at hfield
    · rfl
    · simp only [staticField, hfield]
  · cases around.field? name <;> exact .pure _

/-- A field of a named class is a constant of the library, a declared field, or a plain member text.
-/
theorem fieldOfClass_formed (className name : Text) : Formed (fieldOfClass className name) := by
  unfold fieldOfClass
  cases LibraryCall.constant? className name with
  | some v => exact .pure _
  | none =>
    refine .read (fun around around' h => ?_) fun around => ?_
    · rw [h.members_name_eq, h.ownName_eq, h.declaredFieldType_eq]
    · exact .ite ((Formed.classNamed className).bind fun _ => .pure _) (.pure _)

/-- A field is looked up in the class of its receiver, or in the class that the receiver names. -/
theorem fieldOf_formed (receiver : Value) (name : Text) : Formed (fieldOf receiver name) := by
  unfold fieldOf
  cases receiver.className with
  | some className => exact .ite (.pure _) (fieldOfClass_formed className name)
  | none =>
    refine .ite (.pure _) (.read (fun around around' h => ?_) fun _ => .pure _)
    rw [h.declaredFieldType_eq]

/-- A field access evaluates at most its receiver. -/
theorem fieldAccess_formed (h : parts.Formed) : Formed (fieldAccess n parts) := by
  refine h.lastChild fun selected _ => .ite (.refused _) (.ite (.refused _) ?_)
  refine h.child 0 fun target htarget => .ite (ownField_formed _) ?_
  exact htarget.value.bind fun v => fieldOf_formed v _

end Names

section Messages

/-- A message fails only where keywords and arguments do not fit together. -/
theorem send_formed (receiver : Text) (keywords arguments : List Text) :
    Formed (send receiver keywords arguments) := require_formed _

/-- A message is built from the signature that was found, so nothing more is asked. -/
theorem sendMethod_formed (receiver name : Text) (method : Option MethodSignature)
    (arguments : List Value) : Formed (sendMethod receiver name method arguments) := by
  cases method <;> exact (send_formed _ _ _).bind fun _ => .pure _

/-- A call without receiver reads the method found in the hierarchy and the name of the class. -/
theorem unqualifiedCall_formed (name : Text) (arguments : List Value) :
    Formed (unqualifiedCall name arguments) := by
  refine .read (fun around around' h => ?_) fun around => ?_
  · simp only [h.method_eq, h.ownName_eq, h.isStatic_eq, h.resultType_eq]
  · exact (sendMethod_formed _ _ _ _).bind fun _ => .pure _

/-- A call on `super` reads the method found above the class. -/
theorem superCall_formed (name : Text) (arguments : List Value) :
    Formed (superCall name arguments) :=
  .read (fun around around' h => by rw [h.method_eq, h.baseName_eq]) fun _ =>
    sendMethod_formed _ _ _ _

/-- Calls of the known library classes are decided by names and arguments alone. -/
theorem staticLibraryCall_formed (n : Node) (className name : Text) (arguments : List Value) :
    Formed (staticLibraryCall n className name arguments) := by
  refine .ite ?_ (.ite ?_ (.ite (.pure _) (.ite (.pure _) (.ite (.pure _) (.pure _)))))
  · cases LibraryCall.onMath? (LibraryCall.word name) arguments with
    | some v => exact .pure _
    | none => exact .refused _
  · cases LibraryCall.onSystem? (LibraryCall.word name) arguments with
    | some v => exact .pure _
    | none => exact .refused _

/-- A static call that no library class answers asks for the method and records the class. -/
theorem staticCall_formed (n : Node) (className name : Text) (arguments : List Value) :
    Formed (staticCall n className name arguments) := by
  refine (staticLibraryCall_formed n className name arguments).bind fun found => ?_
  cases found with
  | some v => exact .pure _
  | none =>
    refine .read (fun around around' h => by rw [h.ownName_eq, h.method_eq]) fun around => ?_
    refine .ite ?_ ?_
    · exact .bind (.pure _) fun _ => sendMethod_formed _ _ _ _
    · exact ((Formed.classNamed className).map _).bind fun _ => sendMethod_formed _ _ _ _

/-- Alike surroundings agree on which calls the library answers and how. -/
theorem libraryCall_eq {around around' : Surroundings} (h : around.Alike around')
    (receiver : Value) (name : Text) (arguments : List Value) :
    libraryCall? around' receiver name arguments = libraryCall? around receiver name arguments := by
  simp only [libraryCall?, collectionCall?, h.resultType_eq, h.members_isSome_eq]

/-- A call on an object is the library's or a message to the method found. -/
theorem instanceCall_formed (receiver : Value) (name : Text) (arguments : List Value) :
    Formed (instanceCall receiver name arguments) := by
  refine .read (fun around around' h => by rw [libraryCall_eq h, h.method_eq]) fun around => ?_
  cases libraryCall? around receiver name arguments with
  | some v => exact .pure _
  | none => exact sendMethod_formed _ _ _ _

/-- A call on an output stream prints its first argument or refuses. -/
theorem streamCall_formed {list : Parts} (h : list.Formed) (name : Text) (arguments : List Value) :
    Formed (streamCall n name list arguments) := by
  have hprint : Formed (list.child 0 >>= printCall) :=
    h.child 0 fun a ha => ha.meaning.operands.bind fun _ => .pure _
  unfold streamCall
  split <;> first | exact .pure _ | exact hprint | exact .refused _

/-- A call with a receiver is one on `super`, on a stream, on a class or on an object. -/
theorem qualifiedCall_formed (h : parts.Formed) {target : Parts} (htarget : target.Formed)
    (arguments : List Value) : Formed (qualifiedCall n parts target arguments) := by
  refine htarget.lastChild fun selected _ => htarget.child 0 fun receiver hreceiver => ?_
  refine .ite (superCall_formed _ _) (hreceiver.value.bind fun v => .ite ?_ ?_)
  · refine streamCall_formed ?_ _ _
    have hfirst := h.first? .parameters
    cases hlist : parts.first? .parameters with
    | none => exact fun a ha => nomatch ha
    | some list => exact (hfirst list hlist).parts
  · cases v.className with
    | some className => exact staticCall_formed n className _ arguments
    | none => exact instanceCall_formed v _ arguments

/-- A call reads its arguments and then goes by the form of its target. -/
theorem call_formed (h : parts.Formed) : Formed (call n parts) := by
  refine h.child 0 fun target htarget => h.arguments.bind fun arguments => ?_
  refine .ite (unqualifiedCall_formed _ _) (.ite ?_ (target.refuse_formed _))
  exact qualifiedCall_formed h htarget.parts arguments

/-- An initializer is sent to the class whose signature was found before. -/
theorem sendInit_formed (receiver : Text) (owner : Option ClassSignature) (arguments : List Value)
    (types : List JavaType) : Formed (sendInit receiver owner arguments types) :=
  send_formed _ _ _

/-- The initializer of a class depends on its constructors alone. -/
theorem sendInit_eq {receiver : Text} {owner owner' : Option ClassSignature}
    {arguments : List Value}
    (h : (owner'.bind fun c => c.constructor? arguments.length) =
      owner.bind fun c => c.constructor? arguments.length) (types : List JavaType) :
    sendInit receiver owner' arguments types = sendInit receiver owner arguments types := by
  simp only [sendInit, h]

/-- Alike surroundings agree on the constructor of an arity. -/
theorem members_constructor_eq {around around' : Surroundings} (h : around.Alike around')
    (name : Text) (arity : Nat) :
    ((around'.members? name).bind fun c => c.constructor? arity) =
      (around.members? name).bind fun c => c.constructor? arity :=
  h.members_bind_eq name fun _ _ hc => hc.constructor_eq arity

/-- A new object is the library's or an initializer sent to the recorded class. -/
theorem newObject_formed (h : parts.Formed) : Formed (newObject n parts) := by
  refine h.child 0 fun typeNode _ => .ite (.refused _) ?_
  cases parts.first? .block with
  | some body => exact body.refuse_formed _
  | none =>
    refine h.arguments.bind fun arguments => .read (fun around around' ha => ?_) fun around => ?_
    · simp only [newLibraryObject?, ha.members_isSome_eq, ha.classOf_eq,
        members_constructor_eq ha, sendInit_eq (members_constructor_eq ha _ arguments.length)]
    · cases newLibraryObject? around typeNode.type arguments with
      | some v => exact .pure _
      | none =>
        refine (Formed.classNamed _).bind fun target => ?_
        exact (sendInit_formed _ _ _ _).bind fun _ => .pure _

end Messages

section Operators

/-- The operands of a sum are those on the left and the value on the right. -/
theorem sumOperands_formed (h : parts.Formed) : Formed (sumOperands parts) := by
  refine h.child 0 fun left hleft => hleft.meaning.operands.bind fun operands => ?_
  refine (h.valueAt 2).bind fun right => .ite (.pure _) ?_
  cases operands.1 with
  | nil => exact .refused _
  | cons first more => exact .pure _

/-- A binary operation reads its two sides and asks nothing itself. -/
theorem binary_formed (h : parts.Formed) : Formed (binary parts) := by
  refine h.child 1 fun op _ => .ite ?_ ?_
  · refine (sumOperands_formed h).bind fun operands => ?_
    split <;> exact .pure _
  · exact (h.valueAt 0).bind fun _ => (h.valueAt 2).bind fun _ => .pure _

/-- An element is read from an array and an index. -/
theorem arrayAccess_formed (h : parts.Formed) : Formed (arrayAccess parts) :=
  (h.valueAt 0).bind fun _ => (h.valueAt 1).bind fun _ => .pure _

/-- An increment or decrement writes its operand as a number, an element or a variable. -/
theorem step_formed (h : part.Formed) (op : Text) (isBefore : Bool) :
    Formed (step part op isBefore) := by
  refine (require_formed _).bind fun sign => .ite ?_ ?_
  · refine (h.parts.valueAt 0).bind fun _ => (h.parts.valueAt 1).bind fun _ => ?_
    exact .ite (part.refuse_formed _) (.pure _)
  · exact h.value.bind fun _ => .ite (.pure _) (.pure _)

/-- A prefix operator is a step or is written before its operand. -/
theorem unary_formed (h : parts.Formed) : Formed (unary parts) := by
  refine h.child 0 fun op _ => h.child 1 fun target htarget => ?_
  refine .ite (step_formed htarget _ true) (htarget.value.bind fun _ => ?_)
  exact .ite (.pure _) (.pure _)

/-- A postfix operator is a step. -/
theorem postfixOperator_formed (h : parts.Formed) : Formed (postfixOperator parts) :=
  h.child 0 fun _ htarget => h.child 1 fun _ _ => step_formed htarget _ false

/-- A choice reads its three parts. -/
theorem ternary_formed (h : parts.Formed) : Formed (ternary parts) :=
  (h.valueAt 0).bind fun _ => (h.valueAt 1).bind fun _ => (h.valueAt 2).bind fun _ => .pure _

/-- An assignment to an element reads the array, the index and the right side. -/
theorem assignElement_formed {left right : Attributed} (hleft : left.Formed)
    (hright : right.Formed) (op : Text) : Formed (assignElement left op right) := by
  refine (hleft.parts.valueAt 0).bind fun _ => (hleft.parts.valueAt 1).bind fun _ => ?_
  exact hright.value.bind fun _ => .ite (.pure _) (.ite (left.refuse_formed _) (.pure _))

/-- An assignment to a variable reads both sides, the right one as operands when it appends. -/
theorem assignVariable_formed {left right : Attributed} (hleft : left.Formed)
    (hright : right.Formed) (op : Text) : Formed (assignVariable left op right) := by
  refine hleft.value.bind fun _ => .ite ?_ ?_
  · exact hright.meaning.operands.bind fun _ => .pure _
  · exact hright.value.bind fun _ => .ite (.pure _) (.ite (.pure _) (.pure _))

/-- An assignment goes by the form of its left side. -/
theorem assign_formed (h : parts.Formed) : Formed (assign parts) := by
  refine h.child 0 fun left hleft => h.child 2 fun right hright => h.child 1 fun op _ => ?_
  exact .ite (assignElement_formed hleft hright _) (assignVariable_formed hleft hright _)

end Operators

section Arrays

/-- An element of an array literal is an array literal itself or a value. -/
theorem arrayElement_formed (h : part.Formed) (type : JavaType) :
    Formed (arrayElement type part) :=
  .ite ((h.meaning.array type).bind fun _ => .pure _) (h.value.bind fun _ => .pure _)

/-- An array literal records the predefined array class and reads its elements. -/
theorem arrayLiteral_formed (h : parts.Formed) (type : JavaType) :
    Formed (arrayLiteral parts type) := by
  refine (Formed.refer rfl).bind fun _ => .ite (.pure _) ?_
  exact (Formed.mapM fun a ha => arrayElement_formed (h a ha) _).bind fun _ => .pure _

/-- An initial value is an array literal of the declared type or a value. -/
theorem initialValue_formed (h : part.Formed) (type : JavaType) :
    Formed (initialValue part type) :=
  .ite (h.meaning.array type) (h.value.bind fun _ => .pure _)

/-- A new array needs its literal. -/
theorem newArray_formed (h : parts.Formed) : Formed (newArray n parts) := by
  have hfirst := h.first? .arrayInit
  unfold newArray
  cases hinit : parts.first? .arrayInit with
  | none => exact .refused _
  | some init => exact h.child 0 fun _ _ => (hfirst init hinit).meaning.array _

end Arrays

section Types

/-- A cast records the class of its type only where the text keeps the type. -/
theorem cast_formed (h : parts.Formed) : Formed (cast parts) := by
  refine h.child 0 fun target _ => (h.valueAt 1).bind fun v => ?_
  exact .ite (.pure _) (.ite (.pure _) ((Formed.mapType _).bind fun _ => .pure _))

/-- A type test records the class it tests for and refuses patterns. -/
theorem instanceTest_formed (h : parts.Formed) : Formed (instanceTest parts) := by
  unfold instanceTest
  cases parts[2]? with
  | some pattern => exact pattern.refuse_formed _
  | none =>
    refine (h.valueAt 0).bind fun v => h.child 1 fun typeNode _ => ?_
    refine (Formed.mapType _).bind fun ref => ?_
    cases ref with
    | scalar _ => exact typeNode.refuse_formed _
    | object c => exact .ite (typeNode.refuse_formed _) (.ite (.pure _) (.pure _))

/-- A class literal records its class and refuses primitive types. -/
theorem classLiteral_formed (h : parts.Formed) : Formed (classLiteral n parts) := by
  refine h.child 0 fun part _ => .bind ?_ fun target => (Formed.mapType target).bind fun ref => ?_
  · unfold classLiteralType
    split <;> first | exact .pure _ | exact part.refuse_formed _
  · cases ref with
    | scalar _ => exact .refused _
    | object c => exact .ite (.pure _) (.pure _)

end Types

/-- Every kind of expression is formed when the parts of the node are. -/
theorem expression_formed (h : parts.Formed) : Formed (expression n parts) := by
  unfold expression
  cases n.kind with
  | literal => exact literal_formed n
  | identifier => exact identifier_formed _
  | thisRef => exact .read (fun _ _ ha => by rw [ha.ownName_eq]) fun _ => .pure _
  | superRef => exact .read (fun _ _ ha => by rw [ha.baseName_eq]) fun _ => .pure _
  | parenExpr => exact (h.valueAt 0).bind fun _ => .pure _
  | fieldAccess => exact fieldAccess_formed h
  | callExpr => exact call_formed h
  | newExpr => exact newObject_formed h
  | newArrayExpr => exact newArray_formed h
  | arrayInit => exact arrayLiteral_formed h _
  | arrayAccess => exact arrayAccess_formed h
  | assignExpr => exact assign_formed h
  | ternaryExpr => exact ternary_formed h
  | binaryExpr => exact binary_formed h
  | unaryExpr => exact unary_formed h
  | postfixExpr => exact postfixOperator_formed h
  | castExpr => exact cast_formed h
  | instanceofExpr => exact instanceTest_formed h
  | classLiteral => exact classLiteral_formed h
  | _ => exact .refused _

/-- A node on the left of a sum gives its own operands when it is a sum, and itself otherwise. -/
theorem leftOperands_formed (h : parts.Formed) : Formed (leftOperands n parts) := by
  have hvalue : ∀ isSum : Bool, Formed (if isSum = true then sumOperands parts else do
      let v ← expression n parts
      return ([v], isStringType v.type) : Lower (List Value × Bool)) := fun _ =>
    .ite (sumOperands_formed h) ((expression_formed h).bind fun _ => .pure _)
  unfold leftOperands
  refine .ite (h.child 1 fun _ _ => .bind (.pure _) hvalue) ?_
  exact .bind (.pure _) hvalue

section Bodies

/-- The statements of a block run in a scope of their own. -/
theorem blockBody_formed (h : parts.Formed) : Formed (blockBody parts) :=
  Formed.withScope ((Formed.mapM fun a ha => (h a ha).statements).bind fun _ => .pure _)

/-- A body that is no block has a scope all the same. -/
theorem body_formed (h : part.Formed) : Formed (body part) := by
  refine .ite ((blockBody_formed h.parts).bind fun _ => .pure _) ?_
  refine (Formed.withScope h.statements).bind fun statements => ?_
  split <;> exact .pure _

theorem condition_formed (h : part.Formed) : Formed (condition part) :=
  h.value.bind fun _ => .pure _

/-- A local is declared after its type is recorded and its initial value is read. -/
theorem startedVariable_formed (declared : JavaType) (name : Text) (start : Option Value) :
    Formed (startedVariable declared name start) := by
  refine .bind (.ite (.pure _) ((Formed.mapType _).bind fun _ => .pure _)) fun _ => ?_
  exact (Formed.declareLocal _ _).bind fun _ => .pure _

/-- A declarator reads the value behind it, if there is one. -/
theorem localVariable_formed (h : part.Formed) (declared : JavaType) :
    Formed (localVariable declared part) := by
  have hdeclare := startedVariable_formed declared part.parts.name
  unfold localVariable
  cases hvalue : part.parts[1]? with
  | none => exact .bind (.pure _) hdeclare
  | some value =>
    have hstart := initialValue_formed (h.parts value (List.mem_of_getElem? hvalue)) declared
    exact (hstart.map some).bind hdeclare

/-- The declarators of a declaration come one after another. -/
theorem localVariables_formed (h : parts.Formed) : Formed (localVariables parts) :=
  h.child 1 fun _ _ => .mapM fun a ha => localVariable_formed (h.ofKind .varDeclarator a ha) _

end Bodies

section Loops

/-- A loop starts with a declaration or with an expression. -/
theorem loopStart_formed (h : part.Formed) : Formed (loopStart part) :=
  .ite ((localVariables_formed h.parts).bind fun _ => .pure _) (h.value.bind fun _ => .pure _)

/-- Each clause of a loop head is read in its place. -/
theorem loopClause_formed (h : part.Formed) (clauses : LoopClauses) :
    Formed (loopClause clauses part) := by
  unfold loopClause
  split
  · exact (Formed.mapM fun a ha => loopStart_formed (h.parts a ha)).bind fun _ => .pure _
  · exact (Formed.mapM fun a ha => (h.parts a ha).value).bind fun _ => .pure _
  · exact (condition_formed h).bind fun _ => .pure _

/-- The head and the body of a loop share one scope. -/
theorem forLoop_formed (h : parts.Formed) : Formed (forLoop parts) := by
  refine Formed.withScope (.bind (.foldlM (fun clauses a ha => ?_) _) fun clauses => ?_)
  · exact loopClause_formed (h a (List.dropLast_subset _ ha)) clauses
  · exact h.lastChild fun _ hinner => (body_formed hinner).bind fun _ => .pure _

/-- The collection of an enhanced loop is read outside the scope of its variable. -/
theorem forEach_formed (h : parts.Formed) : Formed (forEach parts) := by
  refine require_bind_formed fun collection hcollection => ?_
  have hcollection : collection.Formed :=
    h collection (List.dropLast_subset _ (List.mem_of_getLast? hcollection))
  refine hcollection.value.bind fun v => Formed.withScope ?_
  refine (Formed.declareLocal _ _).bind fun _ => h.lastChild fun inner hinner => ?_
  refine (body_formed hinner).bind fun loopBody => .ite ?_ ?_
  · exact (Formed.mapType _).bind fun _ => (Formed.refer rfl).bind fun _ => .pure _
  · exact (Formed.mapType _).bind fun _ => .pure _

end Loops

section Branches

/-- A group of a switch reads its labels and its statements in order. -/
theorem switchGroup_formed (h : part.Formed) : Formed (switchGroup part) := by
  refine .bind (.foldlM (fun group a ha => ?_) _) fun _ => .pure _
  have hpart := h.parts a ha
  refine .ite (.bind (.mapM fun label hlabel => ?_) fun _ => .pure _)
    (hpart.statements.bind fun _ => .pure _)
  exact (hpart.parts label hlabel).value.bind fun _ => .ite (label.refuse_formed _) (.pure _)

/-- The groups of a switch share one scope. -/
theorem switching_formed (h : parts.Formed) : Formed (switching parts) := by
  refine h.child 0 fun subject hsubject => hsubject.value.bind fun v => ?_
  refine .ite (subject.refuse_formed _)
    (Formed.withScope (.bind (.mapM fun a ha => ?_) fun _ => ?_))
  · exact switchGroup_formed (h.ofKind .switchCase a ha)
  · exact .pure _

/-- The branches of a conditional are bodies; the second may be missing. -/
theorem conditional_formed (h : parts.Formed) : Formed (conditional parts) := by
  refine h.child 0 fun test htest => (condition_formed htest).bind fun _ => ?_
  refine h.child 1 fun yes hyes => (body_formed hyes).bind fun _ => ?_
  cases hno : parts[2]? with
  | none => exact .pure _
  | some no => exact (body_formed (h no (List.mem_of_getElem? hno))).bind fun _ => .pure _

/-- A return reads whether the body is that of a constructor and the result type. -/
theorem returning_formed (h : parts.Formed) : Formed (returning parts) := by
  refine .read (fun around around' ha => by rw [ha.isConstructor_eq, ha.result_eq]) fun around => ?_
  cases parts with
  | nil => exact .pure _
  | cons part rest => exact (h part (List.mem_cons_self ..)).value.bind fun _ => .pure _

/-- A jump with a label is refused. -/
theorem jump_formed (n : Node) (parts : Parts) (construct : Text) (s : Stmt) :
    Formed (jump n parts construct s) := .ite (.pure _) (.refused _)

end Branches

section Exceptions

/-- Of several caught types the surroundings say which are the same. -/
theorem caughtType_formed (first : JavaType) (others : List JavaType) :
    Formed (caughtType first others) := by
  refine .read (fun around around' ha => by simp only [ha.isSameType_eq]) fun around => ?_
  refine (Formed.mapType first).bind fun ref => .foldlM (fun caught t _ => ?_) _
  exact (Formed.mapType t).bind fun _ => .pure _

/-- A catch clause declares its parameter in a scope around its block. -/
theorem catchClause_formed (h : part.Formed) : Formed (catchClause part) := by
  refine require_bind_formed fun group _ => ?_
  have hclause : ∀ caught : JavaType × TypeRef, Formed (Lower.withScope do
      Lower.declareLocal part.parts.name caught.1
      let inner ← blockBody (← Lower.require (part.parts.first? .block)).parts
      return (⟨caught.2.render, part.parts.name, inner⟩ : CatchClause)) := by
    intro caught
    refine Formed.withScope ((Formed.declareLocal _ _).bind fun _ => ?_)
    refine require_bind_formed fun block hblock => ?_
    exact (blockBody_formed (h.parts.first? .block block hblock).parts).bind fun _ => .pure _
  dsimp only
  split
  · exact (caughtType_formed _ _).bind hclause
  · exact (caughtType_formed _ _).bind hclause

/-- A part of a try statement is its block, a clause, the last block, or nothing. -/
theorem tryPart_formed (h : part.Formed) (s : TryParts) : Formed (tryPart s part) := by
  unfold tryPart
  split
  · exact (blockBody_formed h.parts).bind fun _ => .pure _
  · exact (catchClause_formed h).bind fun _ => .pure _
  · refine require_bind_formed fun inner hinner => ?_
    exact (blockBody_formed (h.parts.first? .block inner hinner).parts).bind fun _ => .pure _
  · exact .pure _

/-- A try statement refuses a declared resource and reads its other parts in order. -/
theorem trying_formed (h : parts.Formed) : Formed (trying parts) := by
  unfold trying
  cases parts.first? .localVarDecl with
  | some resource => exact resource.refuse_formed _
  | none =>
    refine .bind (.foldlM (fun s a ha => tryPart_formed (h a ha) s) _) fun s => ?_
    exact (require_formed _).bind fun _ => .pure _

end Exceptions

/-- Every kind of statement is formed when the parts of the node are. -/
theorem statement_formed (h : parts.Formed) : Formed (statement n parts) := by
  unfold statement
  cases n.kind with
  | block => exact (blockBody_formed h).map _
  | exprStmt => exact (h.valueAt 0).bind fun _ => .pure _
  | ifStmt => exact conditional_formed h
  | forStmt => exact forLoop_formed h
  | enhancedForStmt => exact forEach_formed h
  | whileStmt =>
    refine h.child 0 fun test htest => (condition_formed htest).bind fun _ => ?_
    exact h.child 1 fun inner hinner => (body_formed hinner).bind fun _ => .pure _
  | doStmt =>
    refine h.child 0 fun inner hinner => (body_formed hinner).bind fun _ => ?_
    exact h.child 1 fun test htest => (condition_formed htest).bind fun _ => .pure _
  | switchStmt => exact switching_formed h
  | returnStmt => exact returning_formed h
  | breakStmt => exact jump_formed n parts _ _
  | continueStmt => exact jump_formed n parts _ _
  | throwStmt => exact (h.valueAt 0).bind fun _ => .pure _
  | tryStmt => exact trying_formed h
  | synchronizedStmt =>
    refine (h.valueAt 0).bind fun lock => h.child 1 fun inner hinner => ?_
    exact (blockBody_formed hinner.parts).bind fun _ => .pure _
  | _ => exact .refused _

/-- A declaration gives statements for its locals, everything else one statement. -/
theorem statements_formed (h : parts.Formed) : Formed (statements n parts) := by
  unfold statements
  split
  · exact .pure _
  · exact (localVariables_formed h).bind fun _ => .pure _
  · exact (statement_formed h).bind fun _ => .pure _

/-- Every node with formed parts has a formed meaning. -/
theorem meaning_formed (h : parts.Formed) : (meaning n parts).Formed where
  value := expression_formed h
  operands := leftOperands_formed h
  array := arrayLiteral_formed h
  statements := statements_formed h

mutual

/-- Every tree is formed throughout. -/
theorem attributed_formed : ∀ n : Node, (attributed n).Formed
  | ⟨_, _, _, _, children⟩ =>
    .intro (attributedAll_formed children) (meaning_formed (attributedAll_formed children))

/-- The trees of a list are formed throughout. -/
theorem attributedAll_formed : ∀ nodes : List Node,
    Parts.Formed (Attributed.ofAll meaning nodes)
  | [] => fun _ ha => nomatch ha
  | n :: rest => List.forall_mem_cons.2 ⟨attributed_formed n, attributedAll_formed rest⟩

end

section Heads

/-- The types of parameters are recorded in order. -/
theorem targetParameters_formed (parameters : List Parameter) :
    Formed (targetParameters parameters) :=
  .mapM fun p _ => (Formed.mapType p.type).bind fun _ => .pure _

/-- The parameters of a body are declared in its outermost scope. -/
theorem declareParameters_formed (parameters : List Parameter) :
    Formed (declareParameters parameters) :=
  .forM fun p _ => Formed.declareLocal p.name p.type

/-- Alike surroundings agree on whether the class is an exception. -/
theorem extendsException_eq {around around' : Surroundings} (h : around.Alike around') :
    extendsException around' = extendsException around := by
  have hnone : ∀ o : Option ClassSignature, o.isNone = !o.isSome := fun o => by cases o <;> rfl
  simp only [extendsException, h.baseName_eq, h.classOf_eq, hnone, h.members_isSome_eq]

/-- An explicit constructor call reads the constructors of the class it calls. -/
theorem constructorCall_formed {parts : Parts} (h : parts.Formed) :
    Formed (constructorCall parts) := by
  unfold constructorCall
  cases parts.first? .typeArguments with
  | some list => exact list.refuse_formed _
  | none =>
    refine h.arguments.bind fun arguments => .read (fun around around' ha => ?_) fun around => ?_
    · rw [ha.unit_eq, extendsException_eq ha, ha.ownName_eq, ha.baseName_eq,
        sendInit_eq (members_constructor_eq ha _ arguments.length)]
    · exact .ite (sendInit_formed _ _ _ _) (.ite (.pure _) (sendInit_formed _ _ _ _))

/-- The body of a constructor may begin with the call of another one. -/
theorem constructorBody_formed (parameters : List Parameter) (block : Node) :
    Formed (constructorBody parameters block) := by
  refine (declareParameters_formed parameters).bind fun _ => ?_
  have hparts := (attributed_formed block).parts
  generalize (attributed block).parts = parts at hparts ⊢
  cases parts with
  | nil => exact (blockBody_formed hparts).bind fun _ => .pure _
  | cons first rest =>
    rw [Parts.Formed, List.forall_mem_cons] at hparts
    refine .ite ?_ ((blockBody_formed (List.forall_mem_cons.2 hparts)).bind fun _ => .pure _)
    refine (constructorCall_formed hparts.1.parts).bind fun _ => ?_
    exact (blockBody_formed hparts.2).bind fun _ => .pure _

end Heads

end Lowering

end JavaObjC
