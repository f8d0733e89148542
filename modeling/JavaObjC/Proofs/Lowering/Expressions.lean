import JavaObjC.Lowering.Operators
import JavaObjC.Proofs.Lowering.Attribution

/-!
# Expressions up to places

Every function that generates an expression agrees with itself on nodes that
differ in places only. A message always has a keyword for each argument: the
keywords of a known method are as many as its parameters, of which there are as
many as arguments, and those of an unknown one are made for the arguments.
-/

namespace JavaObjC

namespace Lowering

open Generating

variable {n m : Node} {parts parts' : Parts}

section Names

/-- A floating-point literal keeps a byte without its separators. -/
theorem floatLiteral_sound {digits : Text} (h : ∃ b ∈ digits, b ≠ Text.byte '_') :
    Sound (floatLiteral digits) := by
  have hne : Text.replaceByte (Text.byte '_') [] digits ≠ [] := by
    obtain ⟨b, hb, hne⟩ := h
    rw [Text.replaceByte, Ne, List.flatMap_eq_nil_iff]
    intro hall
    simpa [hne] using hall b hb
  obtain ⟨last, hlast⟩ := Option.isSome_iff_exists.1 (List.getLast?_isSome.2 hne)
  refine Agrees.bind_eq (Lower.require_agrees (R := Eq) ?_ (by rw [hlast]; rfl)) fun last => ?_
  · rw [hlast]
    exact .some rfl
  · exact .ite (fun _ => .pure rfl) fun _ => .ite (fun _ => .pure rfl) fun _ => .pure rfl

/-- The tokens of two leaves that differ in places only. -/
theorem token_eq (h : n.erase = m.erase) :
    n.token = none ∧ m.token = none ∨
      ∃ t u, n.token = some t ∧ m.token = some u ∧ u.kind = t.kind ∧ u.literal = t.literal := by
  have htoken : n.token.map Token.erase = m.token.map Token.erase := by
    rw [← Node.erase_token, h, Node.erase_token]
  cases hn : n.token with
  | none =>
    rw [hn, Option.map_none, eq_comm, Option.map_eq_none_iff] at htoken
    exact .inl ⟨rfl, htoken⟩
  | some t =>
    rw [hn, Option.map_some, eq_comm, Option.map_eq_some_iff] at htoken
    obtain ⟨u, hu, herase⟩ := htoken
    simp only [Token.erase, Token.mk.injEq] at herase
    exact .inr ⟨t, u, rfl, hu, herase.1, herase.2.2⟩

/-- A literal is read by the kind and the text of its token. -/
theorem literal_agrees (h : Pieces n m parts parts') :
    Agrees Eq (literal n) (literal m) := by
  rcases token_eq h.erase_eq with ⟨hn, hm⟩ | ⟨t, u, hn, hm, hkind, hliteral⟩
  · rw [literal, literal, hn, hm]
    exact h.refuseKind
  · have hdigits := h.fits.digits t hn
    rw [literal, literal, hn, hm]
    dsimp only
    rw [hkind, hliteral]
    cases hk : t.kind with
    | stringLiteral => exact .ite (fun _ => h.refuseKind) fun _ => .pure rfl
    | floatLiteral => exact floatLiteral_sound (hdigits hk)
    | textBlock => exact Pieces.refuse rfl
    | keyword word => cases word <;> first | exact .pure rfl | exact h.refuseKind
    | charLiteral => exact .pure rfl
    | intLiteral => exact .pure rfl
    | _ => exact h.refuseKind

/-- A name is never malformed. -/
theorem identifier_sound (name : Text) : Sound (identifier name) := by
  refine (Lower.localType?_sound name).bind_eq fun found => ?_
  cases found with
  | some t => exact .pure rfl
  | none =>
    refine Lower.read_sound.bind_eq fun around => ?_
    cases around.field? name with
    | some field => exact .pure rfl
    | none => exact .pure rfl

/-- A field of the class itself is never malformed. -/
theorem ownField_sound (name : Text) : Sound (ownField name) := by
  refine Lower.read_sound.bind_eq fun around => ?_
  cases around.field? name with
  | some field => exact .pure rfl
  | none => exact .pure rfl

/-- A field of a named class is never malformed. -/
theorem fieldOfClass_sound (className name : Text) : Sound (fieldOfClass className name) := by
  unfold fieldOfClass
  cases LibraryCall.constant? className name with
  | some v => exact .pure rfl
  | none =>
    refine Lower.read_sound.bind_eq fun around => ?_
    refine Agrees.ite (fun _ => ?_) fun _ => .pure rfl
    exact (Lower.classNamed_sound className).bind_eq fun _ => .pure rfl

/-- A field of a value is never malformed. -/
theorem fieldOf_sound (receiver : Value) (name : Text) : Sound (fieldOf receiver name) := by
  unfold fieldOf
  cases receiver.className with
  | some className => exact .ite (fun _ => .pure rfl) fun _ => fieldOfClass_sound className name
  | none =>
    refine Agrees.ite (fun _ => .pure rfl) fun _ => ?_
    exact Lower.read_sound.bind_eq fun _ => .pure rfl

/-- A field access has a receiver and a selected name. -/
theorem fieldAccess_agrees (h : Pieces n m parts parts') (hkind : n.kind = .fieldAccess) :
    Agrees Eq (fieldAccess n parts) (fieldAccess m parts') := by
  refine (h.lastChild hkind (by decide)).bind fun selected selected' hselected => ?_
  rw [hselected.kind_eq, hselected.literal_eq]
  refine .ite (fun _ => Pieces.refuse rfl) fun _ => .ite (fun _ => Pieces.refuse rfl) fun _ => ?_
  refine (h.child hkind 0 (by decide)).bind fun target target' htarget => ?_
  rw [htarget.kind_eq]
  refine .ite (fun _ => ownField_sound _) fun _ => ?_
  exact htarget.value.bind_eq fun v => fieldOf_sound v _

end Names

section Messages

/-- A known method has a keyword for each parameter, and always one. -/
theorem length_selectorKeywords (name : Text) (isConstructor : Bool) (parameters : List Text) :
    (selectorKeywords name isConstructor parameters).length = max 1 parameters.length := by
  cases parameters with
  | nil => rfl
  | cons first more =>
    simp only [selectorKeywords, List.length_cons]
    omega

/-- An unknown method has a keyword for each argument, and always one. -/
theorem length_genericKeywords (name : Text) (isConstructor : Bool) (arity : Nat) :
    (genericKeywords name isConstructor arity).length = max 1 arity := by
  simp only [genericKeywords, List.length_cons, List.length_replicate]
  omega

/-- Converting arguments loses none. -/
theorem length_coerceAll (arguments : List Value) (types : List JavaType) :
    (coerceAll arguments types).length = arguments.length := by
  fun_induction coerceAll arguments types with
  | case1 => rfl
  | case2 v rest ih => rw [List.length_cons, ih, List.length_cons]
  | case3 v rest t types ih => rw [List.length_cons, ih, List.length_cons]

/-- A message with a keyword for each argument, and at least one. -/
theorem send_sound {receiver : Text} {keywords arguments : List Text}
    (h : keywords.length = max 1 arguments.length) : Sound (send receiver keywords arguments) := by
  have hsome : (send? receiver keywords arguments).isSome := by
    cases arguments with
    | nil =>
      cases keywords with
      | nil => simp at h
      | cons keyword more => rfl
    | cons argument more =>
      have hlength : ¬ keywords.length < (argument :: more).length := by omega
      simp only [send?, if_neg hlength, Option.isSome_some]
  obtain ⟨text, htext⟩ := Option.isSome_iff_exists.1 hsome
  rw [send, htext]
  exact .pure rfl

/-- A message to a method with as many parameters as there are arguments is never malformed. -/
theorem sendMethod_sound (receiver name : Text) {method : Option MethodSignature}
    {arguments : List Value} (h : ∀ s ∈ method, s.arity = arguments.length) :
    Sound (sendMethod receiver name method arguments) := by
  cases method with
  | some s =>
    have harity : s.parameterNames.length = arguments.length := by
      rw [MethodSignature.parameterNames, List.length_map]
      exact h s rfl
    refine (send_sound ?_).bind_eq fun text => .pure rfl
    rw [length_selectorKeywords, harity, length_coerceAll]
  | none =>
    refine (send_sound ?_).bind_eq fun text => .pure rfl
    rw [length_genericKeywords, List.length_map]

/-- A method that is found has as many parameters as there are arguments. -/
theorem arity_of_method? {around : Surroundings} {className name : Text} {arity : Nat} :
    ∀ s ∈ around.method? className name arity, s.arity = arity := by
  intro s hs
  obtain ⟨c, -, hc⟩ := List.exists_of_findSome?_eq_some hs
  have hfound := List.find?_some hc
  simp only [Bool.and_eq_true, decide_eq_true_eq] at hfound
  exact hfound.2

/-- A method that is found fits the number of arguments, and for others keywords are made. -/
theorem unqualifiedCall_sound (name : Text) (arguments : List Value) :
    Sound (unqualifiedCall name arguments) := by
  refine Lower.read_sound.bind_eq fun around => ?_
  exact (sendMethod_sound _ name arity_of_method?).bind_eq fun v => .pure rfl

/-- The method above the class fits the number of arguments if it is found. -/
theorem superCall_sound (name : Text) (arguments : List Value) :
    Sound (superCall name arguments) :=
  Lower.read_sound.bind_eq fun _ => sendMethod_sound _ name arity_of_method?

/-- A call that the library does not know is refused by the same name on both sides. -/
theorem staticLibraryCall_agrees (className name : Text) (arguments : List Value) :
    Agrees Eq (staticLibraryCall n className name arguments)
      (staticLibraryCall m className name arguments) := by
  refine .ite (fun _ => ?_) fun _ => .ite (fun _ => ?_) fun _ => ?_
  · cases LibraryCall.onMath? (LibraryCall.word name) arguments with
    | some v => exact .pure rfl
    | none => exact Pieces.refuse rfl
  · cases LibraryCall.onSystem? (LibraryCall.word name) arguments with
    | some v => exact .pure rfl
    | none => exact Pieces.refuse rfl
  · refine .ite (fun _ => .pure rfl) fun _ => .ite (fun _ => .pure rfl) fun _ => ?_
    exact .ite (fun _ => .pure rfl) fun _ => .pure rfl

/-- A static call goes to the same library or class on both sides. -/
theorem staticCall_agrees (className name : Text) (arguments : List Value) :
    Agrees Eq (staticCall n className name arguments) (staticCall m className name arguments) := by
  refine (staticLibraryCall_agrees className name arguments).bind_eq fun found => ?_
  cases found with
  | some v => exact .pure rfl
  | none =>
    refine Lower.read_sound.bind_eq fun around => ?_
    have hsend : ∀ receiver : Text, Sound (sendMethod receiver name
        (around.method? className name arguments.length) arguments) :=
      fun receiver => sendMethod_sound receiver name arity_of_method?
    refine Agrees.ite (fun _ => .bind_eq (.pure rfl) hsend) fun _ => .bind_eq ?_ hsend
    exact (Lower.classNamed_sound className).map fun _ _ h => congrArg ClassRef.name h

/-- A call on an object is never malformed. -/
theorem instanceCall_sound (receiver : Value) (name : Text) (arguments : List Value) :
    Sound (instanceCall receiver name arguments) := by
  refine Lower.read_sound.bind_eq fun around => ?_
  cases libraryCall? around receiver name arguments with
  | some v => exact .pure rfl
  | none => exact sendMethod_sound _ name arity_of_method?

/-- A stream is printed to through the first part of the argument list, which is there
when there is an argument. -/
theorem printCall_agrees {argument argument' : Attributed} (h : argument.Alike argument') :
    Agrees Eq (printCall argument) (printCall argument') := by
  refine h.meaning.operands.bind ?_
  rintro operands _ ⟨rfl, -⟩
  exact .pure rfl

/-- Printing needs an argument, and calls with arguments have an argument list. -/
theorem streamCall_agrees {list list' : Parts} (hlist : Parts.Alike list list') (name : Text)
    {arguments : List Value} (hlength : arguments.length = list.length) :
    Agrees Eq (streamCall n name list arguments) (streamCall m name list' arguments) := by
  have hprint : arguments ≠ [] →
      Agrees Eq (list.child 0 >>= printCall) (list'.child 0 >>= printCall) := by
    intro hne
    have hpos : 0 < list.length := by
      rw [← hlength]
      exact List.length_pos_iff.2 hne
    exact (hlist.child hpos).bind fun _ _ hpart => printCall_agrees hpart
  unfold streamCall
  split
  · exact .pure rfl
  · exact .pure rfl
  · exact hprint (List.cons_ne_nil _ _)
  · exact hprint (List.cons_ne_nil _ _)
  · exact .pure rfl
  · exact .pure rfl
  · exact Pieces.refuse rfl

/-- The parts of the argument lists are alike. -/
theorem argumentParts_alike (h : Parts.Alike parts parts') :
    Parts.Alike (((parts.first? .parameters).map Attributed.parts).getD [])
      (((parts'.first? .parameters).map Attributed.parts).getD []) := by
  have hfirst := h.first? .parameters
  generalize parts.first? .parameters = a at hfirst ⊢
  generalize parts'.first? .parameters = b at hfirst ⊢
  cases hfirst with
  | none => exact .nil
  | some hab => exact hab.pieces.parts

/-- The target of such a call is a field access, which has a receiver and a name. -/
theorem qualifiedCall_agrees (h : Parts.Alike parts parts') {target target' : Attributed}
    (htarget : target.Alike target') (hkind : target.kind = .fieldAccess)
    {arguments : List Value}
    (hlength : arguments.length =
      (((parts.first? .parameters).map Attributed.parts).getD []).length) :
    Agrees Eq (qualifiedCall n parts target.parts arguments)
      (qualifiedCall m parts' target'.parts arguments) := by
  refine (htarget.pieces.lastChild hkind (by decide)).bind fun selected selected' hselected => ?_
  rw [hselected.literal_eq]
  refine (htarget.pieces.child hkind 0 (by decide)).bind fun receiver receiver' hreceiver => ?_
  rw [hreceiver.kind_eq]
  refine .ite (fun _ => superCall_sound _ _) fun _ => hreceiver.value.bind_eq fun v => ?_
  refine .ite (fun _ => streamCall_agrees (argumentParts_alike h) _ hlength) fun _ => ?_
  cases v.className with
  | some className => exact staticCall_agrees className _ arguments
  | none => exact instanceCall_sound v _ arguments

/-- A call has a target. -/
theorem call_agrees (h : Pieces n m parts parts') (hkind : n.kind = .callExpr) :
    Agrees Eq (call n parts) (call m parts') := by
  refine (h.child hkind 0 (by decide)).bind fun target target' htarget => ?_
  refine h.parts.arguments.bind ?_
  rintro arguments _ ⟨rfl, hlength⟩
  rw [htarget.kind_eq, htarget.literal_eq]
  refine .ite (fun _ => unqualifiedCall_sound _ _) fun _ => .ite (fun hfield => ?_) fun _ => ?_
  · exact qualifiedCall_agrees h.parts htarget hfield hlength
  · exact Attributed.Alike.refuse rfl

/-- An initializer is found for the number of its arguments, or made for them. -/
theorem sendInit_sound (receiver : Text) (owner : Option ClassSignature) (arguments : List Value)
    (types : List JavaType) : Sound (sendInit receiver owner arguments types) := by
  refine send_sound ?_
  rw [length_coerceAll]
  cases hfound : owner.bind fun c => c.constructor? arguments.length with
  | none => exact length_genericKeywords _ _ _
  | some s =>
    obtain ⟨c, -, hc⟩ := Option.bind_eq_some_iff.1 hfound
    have harity : s.arity = arguments.length := by simpa using List.find?_some hc
    dsimp only
    rw [length_selectorKeywords, MethodSignature.parameterNames, List.length_map, ← harity,
      MethodSignature.arity]

/-- An object creation has a type. -/
theorem newObject_agrees (h : Pieces n m parts parts') (hkind : n.kind = .newExpr) :
    Agrees Eq (newObject n parts) (newObject m parts') := by
  refine (h.child hkind 0 (by decide)).bind fun typeNode typeNode' htype => ?_
  rw [htype.kind_eq, htype.type_eq]
  refine .ite (fun _ => Pieces.refuse rfl) fun _ => ?_
  have hblock := h.parts.first? .block
  generalize parts.first? .block = body at hblock ⊢
  generalize parts'.first? .block = body' at hblock ⊢
  cases hblock with
  | some hbody => exact Attributed.Alike.refuse rfl
  | none =>
    refine h.parts.arguments.bind ?_
    rintro arguments _ ⟨rfl, -⟩
    refine Lower.read_sound.bind_eq fun around => ?_
    cases newLibraryObject? around typeNode.type arguments with
    | some v => exact .pure rfl
    | none =>
      refine (Lower.classNamed_sound _).bind_eq fun target => ?_
      exact (sendInit_sound _ _ arguments _).bind_eq fun text => .pure rfl

end Messages

section Operators

/-- A sum has two sides, and its operands are never none. -/
theorem sumOperands_agrees (h : Pieces n m parts parts') (hkind : n.kind = .binaryExpr) :
    Agrees (fun x y => x = y ∧ x.1 ≠ []) (sumOperands parts) (sumOperands parts') := by
  refine (h.child hkind 0 (by decide)).bind fun left left' hleft => ?_
  refine hleft.meaning.operands.bind ?_
  rintro ⟨operands, isString⟩ _ ⟨rfl, hne⟩
  refine (h.valueAt hkind 2 (by decide)).bind_eq fun right => ?_
  refine Agrees.ite (fun _ => .pure ⟨rfl, by simp⟩) fun _ => ?_
  cases operands with
  | nil => exact absurd rfl hne
  | cons first more => exact .pure ⟨rfl, by simp⟩

/-- A sum of strings or of numbers. -/
theorem sum_agrees (h : Pieces n m parts parts') (hkind : n.kind = .binaryExpr) :
    Agrees Eq (sum parts) (sum parts') := by
  refine (sumOperands_agrees h hkind).bind ?_
  rintro operands _ ⟨rfl, -⟩
  split <;> exact .pure rfl

/-- A binary operation has two sides and an operator between them. -/
theorem binary_agrees (h : Pieces n m parts parts') (hkind : n.kind = .binaryExpr) :
    Agrees Eq (binary parts) (binary parts') := by
  refine (h.child hkind 1 (by decide)).bind fun op op' hop => ?_
  rw [hop.literal_eq]
  refine .ite (fun _ => sum_agrees h hkind) fun _ => ?_
  refine (h.valueAt hkind 0 (by decide)).bind_eq fun l => ?_
  exact (h.valueAt hkind 2 (by decide)).bind_eq fun r => .pure rfl

/-- An element has an array and an index. -/
theorem arrayAccess_agrees (h : Pieces n m parts parts') (hkind : n.kind = .arrayAccess) :
    Agrees Eq (arrayAccess parts) (arrayAccess parts') := by
  refine (h.valueAt hkind 0 (by decide)).bind_eq fun array => ?_
  exact (h.valueAt hkind 1 (by decide)).bind_eq fun index => .pure rfl

/-- An increment or decrement whose operator is written with some byte. -/
theorem step_agrees {target target' : Attributed} (h : target.Alike target') {op : Text}
    (hop : op ≠ []) (isBefore : Bool) :
    Agrees Eq (step target op isBefore) (step target' op isBefore) := by
  obtain ⟨sign, rest, rfl⟩ := List.exists_cons_of_ne_nil hop
  refine Agrees.bind_eq (.pure rfl) fun sign => ?_
  rw [h.kind_eq]
  refine .ite (fun hkind => ?_) fun _ => ?_
  · refine (h.pieces.valueAt hkind 0 (by decide)).bind_eq fun array => ?_
    refine (h.pieces.valueAt hkind 1 (by decide)).bind_eq fun index => ?_
    exact .ite (fun _ => Attributed.Alike.refuse rfl) fun _ => .pure rfl
  · refine h.value.bind_eq fun operand => ?_
    exact Agrees.ite (fun _ => .pure rfl) fun _ => .pure rfl

/-- A prefix operation has an operator and an operand. -/
theorem unary_agrees (h : Pieces n m parts parts') (hkind : n.kind = .unaryExpr) :
    Agrees Eq (unary parts) (unary parts') := by
  refine (h.child hkind 0 (by decide)).bind fun op op' hop => ?_
  rw [hop.literal_eq]
  refine (h.child hkind 1 (by decide)).bind fun target target' htarget => ?_
  refine .ite (fun hstep => step_agrees htarget ?_ true) fun _ => ?_
  · rcases hstep with hstep | hstep <;> rw [hstep] <;> decide
  · refine htarget.value.bind_eq fun operand => ?_
    exact Agrees.ite (fun _ => .pure rfl) fun _ => .pure rfl

/-- The operator after an operand is written with some byte. -/
theorem postfixOperator_agrees (h : Pieces n m parts parts') (hkind : n.kind = .postfixExpr) :
    Agrees Eq (postfixOperator parts) (postfixOperator parts') := by
  have hoperator : ∀ op, parts[1]? = some op → op.literal ≠ [] := by
    intro op hop
    refine h.fits.operator hkind op.node ?_
    rw [← h.nodes, List.getElem?_map, hop, Option.map_some]
  refine (h.child hkind 0 (by decide)).bind fun target target' htarget => ?_
  have hsecond := h.parts.getElem? 1
  have hleast : 1 < parts.length := h.least hkind
  have hsome : parts[1]?.isSome := by simpa using hleast
  refine Agrees.bind (R := fun op op' => op.Alike op' ∧ op.literal ≠ [])
    (Lower.require_agrees ?_ hsome) fun op op' hop => ?_
  · generalize hfound : parts[1]? = op at hsecond hsome
    generalize parts'[1]? = op' at hsecond
    cases hsecond with
    | none => cases hsome
    | some hop => exact .some ⟨hop, hoperator _ hfound⟩
  · rw [hop.1.literal_eq]
    exact step_agrees htarget hop.2 false

/-- A choice has three parts. -/
theorem ternary_agrees (h : Pieces n m parts parts') (hkind : n.kind = .ternaryExpr) :
    Agrees Eq (ternary parts) (ternary parts') := by
  refine (h.valueAt hkind 0 (by decide)).bind_eq fun condition => ?_
  refine (h.valueAt hkind 1 (by decide)).bind_eq fun yes => ?_
  exact (h.valueAt hkind 2 (by decide)).bind_eq fun no => .pure rfl

/-- The left side is an element, so it has an array and an index. -/
theorem assignElement_agrees {left left' right right' : Attributed} (hleft : left.Alike left')
    (hkind : left.kind = .arrayAccess) (hright : right.Alike right') (op : Text) :
    Agrees Eq (assignElement left op right) (assignElement left' op right') := by
  refine (hleft.pieces.valueAt hkind 0 (by decide)).bind_eq fun array => ?_
  refine (hleft.pieces.valueAt hkind 1 (by decide)).bind_eq fun index => ?_
  refine hright.value.bind_eq fun v => Agrees.ite (fun _ => .pure rfl) fun _ => ?_
  exact .ite (fun _ => Attributed.Alike.refuse rfl) fun _ => .pure rfl

/-- An assignment to a variable reads both of its sides. -/
theorem assignVariable_agrees {left left' right right' : Attributed} (hleft : left.Alike left')
    (hright : right.Alike right') (op : Text) :
    Agrees Eq (assignVariable left op right) (assignVariable left' op right') := by
  refine hleft.value.bind_eq fun target => Agrees.ite (fun _ => ?_) fun _ => ?_
  · refine hright.meaning.operands.bind ?_
    rintro operands _ ⟨rfl, -⟩
    exact .pure rfl
  · refine hright.value.bind_eq fun v => Agrees.ite (fun _ => .pure rfl) fun _ => ?_
    exact Agrees.ite (fun _ => .pure rfl) fun _ => .pure rfl

/-- An assignment has two sides and an operator between them. -/
theorem assign_agrees (h : Pieces n m parts parts') (hkind : n.kind = .assignExpr) :
    Agrees Eq (assign parts) (assign parts') := by
  refine (h.child hkind 0 (by decide)).bind fun left left' hleft => ?_
  refine (h.child hkind 2 (by decide)).bind fun right right' hright => ?_
  refine (h.child hkind 1 (by decide)).bind fun op op' hop => ?_
  rw [hleft.kind_eq, hop.literal_eq]
  refine .ite (fun hkind => ?_) fun _ => assignVariable_agrees hleft hright _
  exact assignElement_agrees hleft hkind hright _

end Operators

section Arrays

/-- An element of an array literal is an array literal itself or a value. -/
theorem arrayElement_agrees {part part' : Attributed} (h : part.Alike part') (type : JavaType) :
    Agrees Eq (arrayElement type part) (arrayElement type part') := by
  unfold arrayElement
  rw [h.kind_eq]
  refine Agrees.ite (fun _ => ?_) fun _ => ?_
  · exact (h.meaning.array type).bind_eq fun v => .pure rfl
  · exact h.value.bind_eq fun v => .pure rfl

/-- The elements of an array literal correspond one by one. -/
theorem arrayLiteral_agrees (h : Parts.Alike parts parts') (type : JavaType) :
    Agrees Eq (arrayLiteral parts type) (arrayLiteral parts' type) := by
  refine (Lower.refer_sound _).bind_eq fun _ => ?_
  have hempty : parts'.isEmpty = parts.isEmpty := by
    cases h <;> rfl
  rw [hempty]
  refine Agrees.ite (fun _ => .pure rfl) fun _ => ?_
  refine (Agrees.mapM_eq h fun a b hab => arrayElement_agrees hab _).bind ?_
  rintro elements _ ⟨rfl, -⟩
  exact .pure rfl

/-- An initial value is an array literal or a value on both sides. -/
theorem initialValue_agrees {part part' : Attributed} (h : part.Alike part') (type : JavaType) :
    Agrees Eq (initialValue part type) (initialValue part' type) := by
  unfold initialValue
  rw [h.kind_eq]
  refine Agrees.ite (fun _ => h.meaning.array type) fun _ => ?_
  exact h.value.bind_eq fun v => .pure rfl

/-- A new array has the type of its elements. -/
theorem newArray_agrees (h : Pieces n m parts parts') (hkind : n.kind = .newArrayExpr) :
    Agrees Eq (newArray n parts) (newArray m parts') := by
  unfold newArray
  have hfirst := h.parts.first? .arrayInit
  generalize parts.first? .arrayInit = init at hfirst ⊢
  generalize parts'.first? .arrayInit = init' at hfirst ⊢
  cases hfirst with
  | none => exact Pieces.refuse rfl
  | some hinit =>
    refine (h.child hkind 0 (by decide)).bind fun element element' helement => ?_
    rw [helement.type_eq, h.literal_eq]
    exact hinit.meaning.array _

end Arrays

section Types

/-- A cast has a type and an operand. -/
theorem cast_agrees (h : Pieces n m parts parts') (hkind : n.kind = .castExpr) :
    Agrees Eq (cast parts) (cast parts') := by
  refine (h.child hkind 0 (by decide)).bind fun target target' htarget => ?_
  rw [htarget.type_eq]
  refine (h.valueAt hkind 1 (by decide)).bind_eq fun v => ?_
  refine Agrees.ite (fun _ => .pure rfl) fun _ => Agrees.ite (fun _ => .pure rfl) fun _ => ?_
  exact (Lower.mapType_sound _).bind_eq fun ref => .pure rfl

/-- A type test has an operand and a type. -/
theorem instanceTest_agrees (h : Pieces n m parts parts') (hkind : n.kind = .instanceofExpr) :
    Agrees Eq (instanceTest parts) (instanceTest parts') := by
  unfold instanceTest
  have hpattern := h.parts.getElem? 2
  generalize parts[2]? = pattern at hpattern ⊢
  generalize parts'[2]? = pattern' at hpattern ⊢
  cases hpattern with
  | some hpattern => exact Attributed.Alike.refuse rfl
  | none =>
    refine (h.valueAt hkind 0 (by decide)).bind_eq fun v => ?_
    refine (h.child hkind 1 (by decide)).bind fun typeNode typeNode' htype => ?_
    rw [htype.type_eq]
    refine (Lower.mapType_sound _).bind_eq fun ref => ?_
    cases ref with
    | scalar _ => exact Attributed.Alike.refuse rfl
    | object c =>
      refine .ite (fun _ => Attributed.Alike.refuse rfl) fun _ => ?_
      exact .ite (fun _ => .pure rfl) fun _ => .pure rfl

/-- The type a class literal is about is read by kind and text. -/
theorem classLiteralType_agrees {part part' : Attributed} (h : part.Alike part') :
    Agrees Eq (classLiteralType part) (classLiteralType part') := by
  unfold classLiteralType
  rw [h.kind_eq, h.type_eq, h.literal_eq]
  split
  · exact .pure rfl
  · exact .pure rfl
  · exact .pure rfl
  · exact Attributed.Alike.refuse rfl

/-- A class literal has the type it is about. -/
theorem classLiteral_agrees (h : Pieces n m parts parts') (hkind : n.kind = .classLiteral) :
    Agrees Eq (classLiteral n parts) (classLiteral m parts') := by
  refine (h.child hkind 0 (by decide)).bind fun part part' hpart => ?_
  refine (classLiteralType_agrees hpart).bind_eq fun target => ?_
  refine (Lower.mapType_sound target).bind_eq fun ref => ?_
  cases ref with
  | scalar _ => exact Pieces.refuse rfl
  | object c => exact Agrees.ite (fun _ => .pure rfl) fun _ => .pure rfl

end Types

/-- Every kind of expression, by the parts its kind promises. -/
theorem expression_agrees (h : Pieces n m parts parts') :
    Agrees Eq (expression n parts) (expression m parts') := by
  unfold expression
  rw [h.kind_eq, h.literal_eq]
  cases hkind : n.kind with
  | literal => exact literal_agrees h
  | identifier => exact identifier_sound _
  | thisRef => exact Lower.read_sound.bind_eq fun _ => .pure rfl
  | superRef => exact Lower.read_sound.bind_eq fun _ => .pure rfl
  | parenExpr => exact (h.valueAt hkind 0 (by decide)).bind_eq fun _ => .pure rfl
  | fieldAccess => exact fieldAccess_agrees h hkind
  | callExpr => exact call_agrees h hkind
  | newExpr => exact newObject_agrees h hkind
  | newArrayExpr => exact newArray_agrees h hkind
  | arrayInit => exact arrayLiteral_agrees h.parts _
  | arrayAccess => exact arrayAccess_agrees h hkind
  | assignExpr => exact assign_agrees h hkind
  | ternaryExpr => exact ternary_agrees h hkind
  | binaryExpr => exact binary_agrees h hkind
  | unaryExpr => exact unary_agrees h hkind
  | postfixExpr => exact postfixOperator_agrees h hkind
  | castExpr => exact cast_agrees h hkind
  | instanceofExpr => exact instanceTest_agrees h hkind
  | classLiteral => exact classLiteral_agrees h hkind
  | lambdaExpr => exact Pieces.refuse rfl
  | methodRef => exact Pieces.refuse rfl
  | _ => exact h.refuseKind

/-- The operands on the left of a sum agree and are never none. -/
theorem leftOperands_agrees (h : Pieces n m parts parts') :
    Agrees (fun x y => x = y ∧ x.1 ≠ []) (leftOperands n parts) (leftOperands m parts') := by
  have hvalue : Agrees (fun x y => x = y ∧ x.1 ≠ [])
      (do
        let v ← expression n parts
        return ([v], isStringType v.type) : Lower (List Value × Bool))
      (do
        let v ← expression m parts'
        return ([v], isStringType v.type)) :=
    (expression_agrees h).bind_eq fun v => .pure ⟨rfl, by simp⟩
  unfold leftOperands
  rw [h.kind_eq]
  refine Agrees.ite (fun hkind => ?_) fun _ => ?_
  · refine (h.child hkind 1 (by decide)).bind fun op op' hop => ?_
    rw [hop.literal_eq]
    refine Agrees.bind_eq (.pure rfl) fun isSum => ?_
    exact .ite (fun _ => sumOperands_agrees h hkind) fun _ => hvalue
  · rw [pure_bind, pure_bind]
    exact hvalue

end Lowering

end JavaObjC
