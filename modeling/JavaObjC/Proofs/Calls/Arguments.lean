import JavaObjC.Proofs.Dimensions.Declarations
import JavaObjC.Proofs.Links.Consistency

/-!
# The arguments of constructors

A new object and a constructor that begins with `this` or `super` send the same
initializer message for the constructor they found. They differ in the texts of
the arguments: for a new object every argument is boxed or read for the type of
its parameter, while a constructor hands its arguments on as they are. So both
send the same texts exactly if no argument has to be converted.
-/

namespace JavaObjC

open Generating Lowering

namespace Value

variable {v : Value} {t : JavaType}

/-- Whether a value where one of a type is wanted is boxed, or its number read. Nothing is when a
type is not known. -/
def isConverted (v : Value) (t : JavaType) : Bool :=
  !(t.isUnknown || t.isVar || t.isVoid || v.type.isUnknown) &&
    (!t.isPrimitive && v.type.isPrimitive || t.isPrimitive && isBoxed v.type)

/-- A message is longer than its receiver. -/
theorem message_ne (receiver selector : Text) : message receiver selector ≠ receiver := by
  intro h
  have hlength := congrArg List.length h
  simp only [message, List.length_append] at hlength
  have hopening : (Text.ofString "[").length = 1 := by decide
  omega

/-- A boxed text is longer than the text. -/
theorem boxed_ne (text : Text) : Text.ofString "@(" ++ text ++ ")" ≠ text := by
  intro h
  have hlength := congrArg List.length h
  simp only [List.length_append] at hlength
  have hopening : (Text.ofString "@(").length = 2 := by decide
  omega

/-- Converting a value changes its text exactly if it is boxed or read. -/
theorem coerce_eq_text_iff : v.coerce t = v.text ↔ v.isConverted t = false := by
  unfold coerce isConverted
  cases hunknown : (t.isUnknown || t.isVar || t.isVoid || v.type.isUnknown) with
  | true => simp
  | false =>
    cases hboxes : (!t.isPrimitive && v.type.isPrimitive) with
    | true =>
      have hprimitive : v.type.isPrimitive = true := (Bool.and_eq_true_iff.1 hboxes).2
      have hne : v.box ≠ v.text := by
        rw [box, if_pos hprimitive]
        exact boxed_ne v.text
      simpa using hne
    | false =>
      cases hreads : (t.isPrimitive && isBoxed v.type) with
      | true =>
        have hne : message v.text (unboxSelector t.name) ≠ v.text := message_ne _ _
        simpa using hne
      | false => simp

end Value

section Texts

variable {arguments : List Value} {types : List JavaType}

/-- Arguments for which no types are given keep their texts. -/
theorem coerceAll_nil (arguments : List Value) :
    coerceAll arguments [] = arguments.map Value.text := by
  induction arguments with
  | nil => rfl
  | cons v rest ih => rw [coerceAll, ih, List.map_cons]

/-- As many arguments as there are types are converted one by one. -/
theorem coerceAll_eq_zipWith (h : arguments.length = types.length) :
    coerceAll arguments types = List.zipWith Value.coerce arguments types := by
  induction arguments generalizing types with
  | nil => rfl
  | cons v rest ih =>
    cases types with
    | nil => cases h
    | cons t types => rw [coerceAll, ih (Nat.succ.inj h), List.zipWith_cons_cons]

/-- Converting arguments keeps all texts exactly if none of the arguments is converted. -/
theorem zipWith_coerce_eq_iff (h : arguments.length = types.length) :
    List.zipWith Value.coerce arguments types = arguments.map Value.text ↔
      ∀ p ∈ arguments.zip types, p.1.isConverted p.2 = false := by
  induction arguments generalizing types with
  | nil => simp
  | cons v rest ih =>
    cases types with
    | nil => cases h
    | cons t types =>
      rw [List.zipWith_cons_cons, List.map_cons, List.cons.injEq, List.zip_cons_cons,
        List.forall_mem_cons, ih (Nat.succ.inj h), Value.coerce_eq_text_iff]

end Texts

theorem MethodSignature.length_parameterTypes (m : MethodSignature) :
    m.parameterTypes.length = m.arity := List.length_map _

/-- The message that sends texts to a method, or to the initializer of a constructor, one for each
parameter. -/
def MethodSignature.message? (m : MethodSignature) (isConstructor : Bool) (name receiver : Text)
    (texts : List Text) : Option Text :=
  send? receiver (selectorKeywords name isConstructor m.parameterNames) texts

/-- There is such a message for as many texts as there are parameters. -/
theorem MethodSignature.message?_isSome {m : MethodSignature} (isConstructor : Bool)
    (name receiver : Text) {texts : List Text} (h : texts.length = m.arity) :
    (m.message? isConstructor name receiver texts).isSome := by
  have hkeywords := length_selectorKeywords name isConstructor m.parameterNames
  have hnames : m.parameterNames.length = m.arity := List.length_map _
  unfold message? send?
  cases texts with
  | nil =>
    rw [hnames, ← h] at hkeywords
    obtain ⟨keyword, hkeyword⟩ := List.length_eq_one_iff.1 hkeywords
    rw [hkeyword]
    rfl
  | cons text more =>
    have hshort : ¬ (selectorKeywords name isConstructor m.parameterNames).length <
        (text :: more).length := by omega
    rw [if_neg hshort]
    rfl

namespace Lowering

variable {around : Surroundings} {s s' : BodyState} {owner : Option ClassSignature}
  {arguments : List Value} {m : MethodSignature}

/-- A constructor that is found has as many parameters as there are arguments. -/
theorem arity_of_constructor? {arity : Nat}
    (h : (owner.bind fun c => c.constructor? arity) = some m) : m.arity = arity := by
  obtain ⟨c, -, hconstructor⟩ := Option.bind_eq_some_iff.1 h
  simpa using List.find?_some hconstructor

/-- The message for a constructor that is found. -/
theorem sendInit_known (receiver : Text) (types : List JavaType)
    (h : (owner.bind fun c => c.constructor? arguments.length) = some m) :
    ∃ text, m.message? true "init" receiver (coerceAll arguments types) = some text ∧
      sendInit receiver owner arguments types = pure text := by
  have hlength : (coerceAll arguments types).length = m.arity := by
    rw [length_coerceAll, arity_of_constructor? h]
  obtain ⟨text, htext⟩ :=
    Option.isSome_iff_exists.1 (MethodSignature.message?_isSome true "init" receiver hlength)
  refine ⟨text, htext, ?_⟩
  have hsent : send? receiver (selectorKeywords "init" true m.parameterNames)
      (coerceAll arguments types) = some text := htext
  simp only [sendInit, h, send, hsent]
  rfl

/-- The class that a name stands for where it is written: any object for a type parameter. -/
def namedClass (around : Surroundings) (name : Text) : ClassRef :=
  if around.isTypeParameter name then .id else around.classOf name

/-- Naming a class gives what the name stands for. -/
theorem classNamed_ok (name : Text) (around : Surroundings) (s : BodyState) :
    ∃ s', result (Lower.classNamed name) around s = (.ok (namedClass around name), s') := by
  unfold Lower.classNamed namedClass
  rw [read_result]
  split_ifs
  · exact ⟨s, rfl⟩
  · exact ⟨_, rfl⟩

section Paths

variable {call creation target typeNode list : Node}

/-- The parts of an explicit call of a constructor. -/
theorem constructorCall_parts (hcall : call.children = [target, list])
    (htarget : target.kind = .thisRef ∨ target.kind = .superRef) (hlist : list.kind = .parameters) :
    Parts.first? (attributed call).parts .typeArguments = none ∧
      (Parts.first? (attributed call).parts .thisRef).isSome = decide (target.kind = .thisRef) ∧
      Parts.arguments (attributed call).parts =
        list.children.mapM fun n => (attributed n).value := by
  have hparts : (attributed call).parts = [attributed target, attributed list] := by
    rw [attributed_parts, hcall]
    rfl
  rw [hparts]
  refine ⟨?_, ?_, arguments_pair ?_ hlist⟩
  · rcases htarget with h | h <;> simp [Parts.first?, h, hlist]
  · rcases htarget with h | h <;> simp [Parts.first?, h, hlist]
  · rcases htarget with h | h <;> simp [h]

/-- A constructor begins with a message that hands its arguments on as they are. -/
theorem constructorCall_known (hcall : call.children = [target, list])
    (htarget : target.kind = .thisRef ∨ target.kind = .superRef) (hlist : list.kind = .parameters)
    (hvalues : result (list.children.mapM fun n => (attributed n).value) around s =
      (.ok arguments, s'))
    (howner : (if target.kind = .thisRef then around.unit
      else around.members? around.baseName) = owner)
    (hknown : (owner.bind fun c => c.constructor? arguments.length) = some m) :
    ∃ text, result (constructorCall (attributed call).parts) around s = (.ok text, s') ∧
      m.message? true "init" (if target.kind = .thisRef then Text.ofString "self" else "super")
        (arguments.map Value.text) = some text := by
  obtain ⟨htyped, hself, harguments⟩ := constructorCall_parts hcall htarget hlist
  have hrun : ∀ f : List Value → Lower Text,
      result (Parts.arguments (attributed call).parts >>= f) around s =
        result (f arguments) around s' := by
    intro f
    rw [harguments, bind_result, hvalues]
  have hsent : ∀ receiver : Text, ∃ text,
      result (sendInit receiver owner arguments []) around s' = (.ok text, s') ∧
        m.message? true "init" receiver (arguments.map Value.text) = some text := by
    intro receiver
    obtain ⟨text, htext, hsend⟩ := sendInit_known receiver [] hknown
    rw [coerceAll_nil] at htext
    exact ⟨text, by rw [hsend]; rfl, htext⟩
  rw [constructorCall, htyped]
  dsimp only
  rw [hrun, read_result]
  by_cases hthis : target.kind = .thisRef
  · rw [if_pos hthis] at howner ⊢
    rw [if_pos (hself.trans (decide_eq_true hthis)), howner]
    exact hsent "self"
  · rw [if_neg hthis] at howner ⊢
    have hdeclared : (around.members? around.baseName).isSome = true := by
      rw [howner]
      cases owner with
      | none => cases hknown
      | some c => rfl
    have hexception : extendsException around = false := by
      simp [extendsException, Option.isNone_eq_false_iff.2 hdeclared]
    rw [if_neg (by rw [hself]; simpa using hthis), howner, if_neg (by simp [hexception])]
    exact hsent "super"

/-- A new object of a class whose constructor is known gets its arguments converted to the types of
the parameters. -/
theorem newObject_known {t : JavaType} (hkind : creation.kind = .newExpr)
    (hcreation : creation.children = [typeNode, list]) (htype : typeNode.kind = .type)
    (hlist : list.kind = .parameters) (ht : JavaType.ofNode typeNode = t)
    (hvalues : result (list.children.mapM fun n => (attributed n).value) around s =
      (.ok arguments, s'))
    (hknown : ((around.members? t.simple).bind fun c => c.constructor? arguments.length) = some m) :
    ∃ text s₁, result (attributed creation).value around s = (.ok (.typed text t), s₁) ∧
      m.message? true "init" (message (namedClass around t.name).name "alloc")
        (List.zipWith Value.coerce arguments m.parameterTypes) = some text := by
  have hlength : arguments.length = m.parameterTypes.length := by
    rw [m.length_parameterTypes, arity_of_constructor? hknown]
  have hdeclared : (around.members? t.simple).isSome = true := by
    cases hmembers : around.members? t.simple with
    | none =>
      rw [hmembers] at hknown
      cases hknown
    | some c => rfl
  have hlibrary : newLibraryObject? around t arguments = none := by
    rw [newLibraryObject?, if_pos hdeclared]
  have hblock : Parts.first? [attributed typeNode, attributed list] .block = none := by
    simp [Parts.first?, htype, hlist]
  obtain ⟨s₁, hclass⟩ := classNamed_ok t.name around s'
  obtain ⟨text, htext, hsend⟩ :=
    sendInit_known (message (namedClass around t.name).name "alloc") m.parameterTypes hknown
  rw [coerceAll_eq_zipWith hlength] at htext
  refine ⟨text, s₁, ?_, htext⟩
  rw [attributed_value, expression, hkind, hcreation]
  simp only [List.map_cons, List.map_nil]
  rw [newObject, child_zero, pure_bind, attributed_kind, if_neg (by simp [htype]), hblock]
  dsimp only
  rw [arguments_pair (by simp [htype] : typeNode.kind ≠ .parameters) hlist, bind_result, hvalues]
  dsimp only
  rw [read_result, attributed_type, ht, hlibrary]
  dsimp only
  rw [bind_result, hclass]
  dsimp only
  rw [hknown, Option.map_some, Option.getD_some, hsend]
  rfl

/-- How a constructor and a new object hand arguments to a constructor that is known. Take one list
of arguments whose values are given. A new object sends to the initializer of the constructor every
argument converted to the type of its parameter. A constructor that begins with `this`, or with
`super` for the superclass, sends to the same initializer the texts of the arguments as they are. So
they send the same texts exactly if no argument is boxed or read for its parameter. -/
theorem constructor_arguments {t : JavaType} (hkind : creation.kind = .newExpr)
    (hcreation : creation.children = [typeNode, list]) (htype : typeNode.kind = .type)
    (ht : JavaType.ofNode typeNode = t) (hlist : list.kind = .parameters)
    (hvalues : result (list.children.mapM fun n => (attributed n).value) around s =
      (.ok arguments, s'))
    (hknown : ((around.members? t.simple).bind fun c => c.constructor? arguments.length) = some m) :
    (∃ text s₁, result (attributed creation).value around s = (.ok (.typed text t), s₁) ∧
        m.message? true "init" (message (namedClass around t.name).name "alloc")
          (List.zipWith Value.coerce arguments m.parameterTypes) = some text) ∧
      (∀ call target, call.children = [target, list] →
        target.kind = .thisRef ∧ around.unit = around.members? t.simple ∨
          target.kind = .superRef ∧ around.members? around.baseName = around.members? t.simple →
        ∃ text, result (constructorCall (attributed call).parts) around s = (.ok text, s') ∧
          m.message? true "init" (if target.kind = .thisRef then Text.ofString "self" else "super")
            (arguments.map Value.text) = some text) ∧
      (List.zipWith Value.coerce arguments m.parameterTypes = arguments.map Value.text ↔
        ∀ p ∈ arguments.zip m.parameterTypes, p.1.isConverted p.2 = false) := by
  have hlength : arguments.length = m.parameterTypes.length := by
    rw [m.length_parameterTypes, arity_of_constructor? hknown]
  refine ⟨newObject_known hkind hcreation htype hlist ht hvalues hknown,
    fun call target hcall h => ?_, zipWith_coerce_eq_iff hlength⟩
  have htarget : target.kind = .thisRef ∨ target.kind = .superRef := h.imp And.left And.left
  have howner : (if target.kind = .thisRef then around.unit
      else around.members? around.baseName) = around.members? t.simple := by
    rcases h with ⟨hthis, howner⟩ | ⟨hsuper, howner⟩
    · rw [if_pos hthis, howner]
    · rw [if_neg (by simp [hsuper]), howner]
  exact constructorCall_known hcall htarget hlist hvalues howner hknown

end Paths

section Boxed

/-- A class with a constructor for a number as an object. -/
def boxingClass : ClassSignature where
  name := "A"
  isInterface := false
  constructors := [{ name := "A", parameters := [⟨"n", .named "Integer"⟩], result := .void }]

/-- What a constructor of the class is generated against. -/
def boxingSurroundings : Surroundings where
  unit := some boxingClass
  isConstructor := true

/-- A number as the only argument. -/
def numberList : Node :=
  ⟨.parameters, {}, none, none, [.ofToken .literal ⟨.intLiteral, {}, "1"⟩]⟩

/-- A new object of the class for the number. -/
def boxingCreation : Node :=
  ⟨.newExpr, {}, none, none,
    [⟨.type, {}, none, none, [.ofToken .identifier ⟨.identifier, {}, "A"⟩]⟩, numberList]⟩

/-- A constructor that hands the number on. -/
def handingCall : Node :=
  ⟨.constructorCall, {}, none, none,
    [.ofToken .thisRef ⟨.keyword .thisKw, {}, "this"⟩, numberList]⟩

/-- The number is boxed for a new object and handed on as it is by a constructor. -/
theorem constructor_arguments_boxed :
    (∃ text s, result (attributed boxingCreation).value boxingSurroundings {} =
        (.ok (.typed text (.named "A")), s) ∧ text = "[[A alloc] initWithN:@(1)]") ∧
      ∃ text s, result (constructorCall (attributed handingCall).parts) boxingSurroundings {} =
        (.ok text, s) ∧ text = "[self initWithN:1]" := by
  have hvalues : result (numberList.children.mapM fun n => (attributed n).value)
      boxingSurroundings {} = (.ok [.typed "1" .int], {}) := by rfl
  have hknown : ((boxingSurroundings.members? (JavaType.named "A").simple).bind fun c =>
      c.constructor? 1) =
        some { name := "A", parameters := [⟨"n", .named "Integer"⟩], result := .void } := by
    decide +kernel
  have hown : boxingSurroundings.unit =
      boxingSurroundings.members? (JavaType.named "A").simple := by decide +kernel
  have hkind : boxingCreation.kind = .newExpr := rfl
  obtain ⟨⟨text, s, hcreated, htext⟩, hcalls, -⟩ := constructor_arguments (t := .named "A") hkind
    rfl rfl (by decide +kernel) rfl hvalues hknown
  obtain ⟨handed, hhanded, hmessage⟩ := hcalls handingCall _ rfl (.inl ⟨rfl, hown⟩)
  refine ⟨⟨text, s, hcreated, ?_⟩, handed, _, hhanded, ?_⟩
  · exact (Option.some.inj (htext.symm.trans (by decide +kernel :
      MethodSignature.message? _ _ _ _ _ = some (Text.ofString "[[A alloc] initWithN:@(1)]"))))
  · exact (Option.some.inj (hmessage.symm.trans (by decide +kernel :
      MethodSignature.message? _ _ _ _ _ = some (Text.ofString "[self initWithN:1]"))))

end Boxed

end Lowering

end JavaObjC
