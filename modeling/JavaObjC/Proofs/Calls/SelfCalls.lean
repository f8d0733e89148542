import JavaObjC.Proofs.Calls.Arguments
import JavaObjC.Proofs.Effects.Chains

/-!
# Calls of the own methods

A call without a receiver looks for the method in the class first. The same
call through `this` is a call of a value whose type is the class, so a method
of the library of that name and number of arguments comes before a declared
one, and a static method is sent to the object. Both calls are written alike
exactly if neither makes a difference.
-/

namespace JavaObjC

open Generating Lowering

namespace Text

/-- Whether a byte stands in front of the arguments of a message to a name: it is a letter, a
digit, the opening bracket or a blank. -/
def isFront (b : UInt8) : Bool := Lexeme.isLetterOrDigit b || b == 91 || b == 32

/-- The word behind the receiver of a message to a name; nothing for other texts. -/
def addressed (t : Text) : Text := ((t.takeWhile isFront).dropWhile (· ≠ 32)).drop 1

/-- The word that a message to a name begins with is read again. -/
theorem addressed_of_front {receiver word rest : Text} (hreceiver : receiver.IsWord)
    (hword : word.IsWord) (hrest : ∀ b ∈ rest.head?, isFront b = false) :
    addressed (Text.ofString "[" ++ receiver ++ " " ++ word ++ rest) = word := by
  have hletters : ∀ {t : Text}, t.IsWord → ∀ b ∈ t, isFront b = true := fun ht b hb => by
    simp [isFront, ht.2 b hb]
  have hfront : ∀ b ∈ Text.ofString "[" ++ receiver ++ " " ++ word, isFront b = true := by
    intro b hb
    simp only [List.mem_append] at hb
    rcases hb with ((hb | hb) | hb) | hb
    · revert b hb
      decide +kernel
    · exact hletters hreceiver b hb
    · revert b hb
      decide +kernel
    · exact hletters hword b hb
  have htaken : (Text.ofString "[" ++ receiver ++ " " ++ word ++ rest).takeWhile isFront =
      Text.ofString "[" ++ receiver ++ " " ++ word := by
    rw [List.takeWhile_append_of_pos hfront]
    cases rest with
    | nil => simp
    | cons b rest => simp [hrest b rfl]
  have hmark : ∀ b ∈ Text.ofString "[", decide (b ≠ 32) = true := by
    decide +kernel
  have hopening : ∀ b ∈ Text.ofString "[" ++ receiver, decide (b ≠ 32) = true := by
    intro b hb
    rcases List.mem_append.1 hb with hb | hb
    · exact hmark b hb
    · have hblank : 32 ∉ receiver := hreceiver.notMem (by decide)
      simpa using fun heq : b = 32 => hblank (heq ▸ hb)
  rw [addressed, htaken, List.append_assoc (_ ++ _), List.dropWhile_append_of_pos hopening]
  rfl

end Text

/-- The object itself, as a value of its class. -/
def selfValue (around : Surroundings) : Value := .typed "self" (.named around.ownName)

/-- The methods that every object has in the library, with their numbers of arguments. Declared
objects compare themselves. -/
def objectMethods : List (String × Nat) :=
  [("equals", 1), ("hashCode", 0), ("toString", 0), ("getClass", 0)]

section Library

variable {around : Surroundings} {name : Text} {method : String} {arguments : List Value}
  {v : Value} {t : JavaType}

/-- A method of the library that every object has. -/
theorem onObject?_eq_none_iff (r : Text) : LibraryCall.onObject? r true method arguments = none ↔
    (method, arguments.length) ∉ objectMethods := by
  unfold LibraryCall.onObject?
  split
  case h_5 => simp [objectMethods]
  case h_6 hequals hhash htext hclass _ =>
    refine ⟨fun _ hmem => ?_, fun _ => rfl⟩
    simp only [objectMethods, List.mem_cons, Prod.mk.injEq, List.not_mem_nil, or_false] at hmem
    rcases hmem with ⟨rfl, hlength⟩ | ⟨rfl, hlength⟩ | ⟨rfl, hlength⟩ | ⟨rfl, hlength⟩
    · obtain ⟨v, rfl⟩ := List.length_eq_one_iff.1 hlength
      exact hequals v rfl rfl
    · exact hhash rfl (List.length_eq_zero_iff.1 hlength)
    · exact htext rfl (List.length_eq_zero_iff.1 hlength)
    · exact hclass rfl (List.length_eq_zero_iff.1 hlength)
  all_goals simp [objectMethods]

/-- None of them is a message that begins with the name of the method. -/
theorem onObject?_addressed (h : LibraryCall.onObject? "self" true method arguments = some v) :
    LibraryCall.word v.text.addressed ≠ method := by
  unfold LibraryCall.onObject? at h
  split at h
  case h_1 =>
    obtain rfl := Option.some.inj h
    change LibraryCall.word (Text.ofString "isEqual") ≠ "equals"
    decide
  case h_2 =>
    obtain rfl := Option.some.inj h
    change LibraryCall.word [] ≠ "hashCode"
    decide
  case h_3 =>
    obtain rfl := Option.some.inj h
    change LibraryCall.word (Text.ofString "description") ≠ "toString"
    decide
  case h_4 =>
    obtain rfl := Option.some.inj h
    change LibraryCall.word (Text.ofString "class") ≠ "getClass"
    decide
  case h_5 => cases h
  case h_6 => cases h

end Library

section Names

variable {name : Text}

/-- A name that is not in the library is none of the names that stand for a class. -/
theorem not_named_of_libraryClass? (h : libraryClass? name = none) {n : String}
    (hn : n ∈ libraryClasses.flatMap Prod.snd) : Text.ofString n ≠ simpleName name := by
  rw [libraryClass?, Option.map_eq_none_iff, List.find?_eq_none] at h
  obtain ⟨entry, hentry, hn⟩ := List.mem_flatMap.1 hn
  intro heq
  exact h entry hentry (List.any_eq_true.2 ⟨n, hn, by simp [heq]⟩)

/-- Values of a class that is not in the library are no strings, collections or numbers. -/
theorem libraryCall?_of_libraryClass? {around : Surroundings} {text : Text} {method : Text}
    {arguments : List Value} (h : libraryClass? name = none) :
    libraryCall? around (.typed text (.named name)) method arguments =
      LibraryCall.onObject? text (around.members? name).isSome (LibraryCall.word method)
        arguments := by
  have hstring : isStringType (.named name) = false := by
    have hstrings : ∀ n ∈ ["String", "CharSequence"], Text.ofString n ≠ simpleName name :=
      fun n hn => not_named_of_libraryClass? h (by revert n; decide)
    simp only [List.forall_mem_cons] at hstrings
    simp [isStringType, JavaType.simple, JavaType.named, Ne.symm hstrings.1,
      Ne.symm hstrings.2.1]
  have hcollection : CollectionKind.of? (.named name) = none := by
    have hdepth : (JavaType.named name).isArray = false := rfl
    rw [CollectionKind.of?, hdepth, if_neg (by simp)]
    exact congrArg (·.bind CollectionKind.ofClass?) h
  have hboxed : isBoxedName name = false := by
    have hkeys : ∀ entry ∈ boxedPrimitives, entry.1 ∈ libraryClasses.flatMap Prod.snd := by
      decide
    rw [isBoxedName, primitiveOf?, Option.isSome_map, Option.isSome_eq_false_iff,
      Option.isNone_iff_eq_none]
    cases hfound : Text.find? boxedPrimitives (simpleName name) with
    | none => rfl
    | some value =>
      obtain ⟨n, hentry, hn⟩ := Text.exists_of_find? hfound
      exact absurd hn (not_named_of_libraryClass? h (hkeys _ hentry))
  unfold libraryCall?
  dsimp only [Value.typed]
  rw [hstring, hcollection, show isBoxedName (JavaType.named name).name = false from hboxed]
  rfl

end Names

/-- The message to a method is its receiver, its name and the same rest for every receiver. -/
theorem MethodSignature.message?_parts {m : MethodSignature} (name : Text) {texts : List Text}
    (h : texts.length = m.arity) : ∃ rest, (∀ b ∈ rest.head?, Text.isFront b = false) ∧
      ∀ receiver, m.message? false name receiver texts =
        some (Text.ofString "[" ++ receiver ++ " " ++ name ++ rest) := by
  have hnames : m.parameterNames.length = texts.length := by
    rw [h]
    exact List.length_map _
  unfold message? send?
  cases texts with
  | nil =>
    rw [List.length_eq_zero_iff.1 hnames]
    exact ⟨Text.ofString "]", by decide +kernel, fun receiver => by
      simp [selectorKeywords, message]⟩
  | cons text texts =>
    obtain ⟨first, more, hfirst⟩ := List.exists_cons_of_length_eq_add_one hnames
    rw [hfirst] at hnames ⊢
    have hshort : ¬ (name :: more).length < (text :: texts).length := by
      simpa using Nat.le_of_eq hnames.symm
    simp only [selectorKeywords, Bool.false_eq_true, if_false, if_neg hshort, List.zip_cons_cons,
      List.map_cons]
    generalize (more.zip texts).map _ = parts
    have hjoin : ∃ tail, Text.join " " ((name ++ ":" ++ text) :: parts) =
        name ++ (Text.ofString ":" ++ tail) := by
      cases parts with
      | nil => exact ⟨text, List.append_assoc ..⟩
      | cons part parts =>
        exact ⟨text ++ " " ++ Text.join " " (part :: parts), by simp [Text.join]⟩
    obtain ⟨tail, htail⟩ := hjoin
    refine ⟨Text.ofString ":" ++ tail ++ "]", fun b hb => ?_, fun receiver => ?_⟩
    · obtain rfl : 58 = b := Option.some.inj hb
      decide
    · rw [htail]
      simp [message]

/-- A call of a method without a receiver. -/
structure Node.CallsOwn (n : Node) (name : Text) (list : Node) : Prop where
  isCall : n.kind = .callExpr
  shape : ∃ target, n.children = [target, list] ∧ target.kind = .identifier ∧
    target.literal = name
  isList : list.kind = .parameters

/-- A call of a method through `this`. -/
structure Node.CallsThis (n : Node) (name : Text) (list : Node) : Prop where
  isCall : n.kind = .callExpr
  shape : ∃ target this word, n.children = [target, list] ∧ target.kind = .fieldAccess ∧
    target.children = [this, word] ∧ this.kind = .thisRef ∧ word.literal = name
  isList : list.kind = .parameters

namespace Lowering

variable {around : Surroundings} {s s' : BodyState} {c : ClassSignature} {m : MethodSignature}
  {name : Text} {arguments : List Value}

/-- A method of a class that is found comes before those of its supertypes. -/
theorem method?_members {written : Text} {arity : Nat} (hwritten : written ≠ [])
    (hmembers : around.members? written = some c) (hmethod : c.method? name arity = some m) :
    around.method? written name arity = some m := by
  rw [Surroundings.method?, Surroundings.hierarchy_of_members hwritten hmembers,
    List.findSome?_cons, hmethod]

theorem ownName_of_unit (hunit : around.unit = some c) : around.ownName = c.name := by
  rw [Surroundings.ownName, hunit]
  rfl

/-- A method of the own class is known. -/
theorem method?_own {arity : Nat} (hunit : around.unit = some c) (hc : c.name.IsWord)
    (hmethod : c.method? name arity = some m) :
    around.method? around.ownName name arity = some m := by
  have hown := ownName_of_unit hunit
  refine method?_members (hown ▸ hc.1) ?_ hmethod
  rw [Surroundings.members?, hown, simpleName_of_isWord hc, hunit]
  exact if_pos rfl

/-- The message for a method that is known. -/
theorem sendMethod_known (receiver name : Text) (harity : m.arity = arguments.length) :
    ∃ text, m.message? false name receiver
        (List.zipWith Value.coerce arguments m.parameterTypes) = some text ∧
      sendMethod receiver name (some m) arguments = pure (.typed text m.result) := by
  have hlength : arguments.length = m.parameterTypes.length := by
    rw [m.length_parameterTypes, harity]
  have htexts : (coerceAll arguments m.parameterTypes).length = m.arity := by
    rw [length_coerceAll, harity]
  obtain ⟨text, htext⟩ := Option.isSome_iff_exists.1
    (MethodSignature.message?_isSome false name receiver htexts)
  have hsent : send? receiver (selectorKeywords name false m.parameterNames)
      (coerceAll arguments m.parameterTypes) = some text := htext
  rw [coerceAll_eq_zipWith hlength] at htext
  refine ⟨text, htext, ?_⟩
  simp only [sendMethod, send, hsent]
  rfl

section SelfCalls

variable {own through list : Node}

/-- A call without a receiver sends a message to the object, or to the class for a static method. -/
theorem ownCall_known (hunit : around.unit = some c) (hc : c.name.IsWord)
    (hmethod : c.method? name arguments.length = some m)
    (hvalues : result (list.children.mapM fun n => (attributed n).value) around s =
      (.ok arguments, s')) (hown : own.CallsOwn name list) :
    ∃ v, result (attributed own).value around s = (.ok v, s') ∧
      m.message? false name (if m.isStatic then c.name else Text.ofString "self")
        (List.zipWith Value.coerce arguments m.parameterTypes) = some v.text := by
  obtain ⟨target, hchildren, htarget, hliteral⟩ := hown.shape
  have hfound : around.method? around.ownName name arguments.length = some m :=
    method?_own hunit hc hmethod
  obtain ⟨text, htext, hsend⟩ := sendMethod_known
    (if m.isStatic then c.name else Text.ofString "self") name (arity_of_method? m hfound)
  refine ⟨{ Value.typed text m.result with type := around.resultType m.result }, ?_, htext⟩
  rw [attributed_value, expression]
  simp only [hown.isCall, call, hchildren, List.map_cons, List.map_nil, child_zero, pure_bind,
    attributed_kind, htarget, attributed_literal, hliteral,
    arguments_pair (by simp [htarget] : target.kind ≠ .parameters) hown.isList]
  rw [bind_result, hvalues]
  dsimp only
  rw [if_pos trivial, unqualifiedCall, read_result, hfound, ownName_of_unit hunit]
  dsimp only [Option.map_some, Option.getD_some]
  rw [hsend]
  rfl

/-- A call through `this` is a call of a value of the class. -/
theorem thisCall_value
    (hvalues : result (list.children.mapM fun n => (attributed n).value) around s =
      (.ok arguments, s')) (hthis : through.CallsThis name list) :
    result (attributed through).value around s =
      result (instanceCall (selfValue around) name arguments) around s' := by
  obtain ⟨target, this, word, hchildren, htarget, hparts, hkind, hliteral⟩ := hthis.shape
  have hself : result (attributed this).value around s' = (.ok (selfValue around), s') := by
    rw [attributed_value, expression, hkind]
    rfl
  rw [attributed_sent hthis.isCall hchildren htarget hparts hthis.isList (by simp [hkind]),
    bind_result, hvalues]
  dsimp only
  rw [bind_result, hself, hliteral]
  rfl

/-- A call through `this` sends a message to the object unless it is a call of the library. -/
theorem thisCall_known (hunit : around.unit = some c) (hc : c.name.IsWord)
    (hmethod : c.method? name arguments.length = some m)
    (hvalues : result (list.children.mapM fun n => (attributed n).value) around s =
      (.ok arguments, s')) (hthis : through.CallsThis name list) :
    ∃ w, result (attributed through).value around s = (.ok w, s') ∧
      (∀ u, libraryCall? around (selfValue around) name arguments = some u → w = u) ∧
      (libraryCall? around (selfValue around) name arguments = none →
        m.message? false name "self"
          (List.zipWith Value.coerce arguments m.parameterTypes) = some w.text) := by
  rw [thisCall_value hvalues hthis, instanceCall, read_result]
  cases hlibrary : libraryCall? around (selfValue around) name arguments with
  | some u =>
    refine ⟨u, rfl, fun _ => Option.some.inj, fun hnone => ?_⟩
    cases hnone
  | none =>
    have hfound : around.method? around.ownName name arguments.length = some m :=
      method?_own hunit hc hmethod
    obtain ⟨text, htext, hsend⟩ :=
      sendMethod_known "self" name (arity_of_method? m hfound)
    refine ⟨.typed text m.result, ?_, fun u hu => ?_, fun _ => htext⟩
    rotate_left
    · cases hu
    have hself : (selfValue around).text = Text.ofString "self" ∧
        (selfValue around).type.name = around.ownName := ⟨rfl, rfl⟩
    dsimp only
    rw [hself.1, hself.2, hfound, hsend]
    rfl

/-- A call of a declared method without a receiver and the same call through `this`. The first is a
message with the selector of the method and the arguments converted for it, to the class if the
method is static. The second is a call of the library if there is one for the class, the name and
the number of arguments, and else the same message, but always to the object. If the name of the
class is not in the library, both are written alike exactly if the method is not static and its
name is not one of the methods that every object has in the library. -/
theorem self_calls_agree_iff (hunit : around.unit = some c) (hc : c.name.IsWord)
    (hname : name.IsWord) (hmethod : c.method? name arguments.length = some m)
    (hvalues : result (list.children.mapM fun n => (attributed n).value) around s =
      (.ok arguments, s')) (hown : own.CallsOwn name list) (hthis : through.CallsThis name list) :
    ∃ v w, result (attributed own).value around s = (.ok v, s') ∧
      result (attributed through).value around s = (.ok w, s') ∧
      m.message? false name (if m.isStatic then c.name else Text.ofString "self")
        (List.zipWith Value.coerce arguments m.parameterTypes) = some v.text ∧
      (∀ u, libraryCall? around (selfValue around) name arguments = some u → w = u) ∧
      (libraryCall? around (selfValue around) name arguments = none →
        m.message? false name "self"
          (List.zipWith Value.coerce arguments m.parameterTypes) = some w.text ∧
        (w.text = v.text ↔ m.isStatic = false ∨ c.name = Text.ofString "self")) ∧
      (libraryClass? c.name = none → (w.text = v.text ↔
        (m.isStatic = false ∨ c.name = Text.ofString "self") ∧
          (LibraryCall.word name, arguments.length) ∉ objectMethods)) := by
  obtain ⟨v, hv, hvtext⟩ := ownCall_known hunit hc hmethod hvalues hown
  obtain ⟨w, hw, hcaught, hsent⟩ := thisCall_known hunit hc hmethod hvalues hthis
  have harity : arguments.length = m.arity :=
    (arity_of_method? m (method?_own hunit hc hmethod)).symm
  have htexts : (List.zipWith Value.coerce arguments m.parameterTypes).length = m.arity := by
    rw [List.length_zipWith, m.length_parameterTypes, harity, Nat.min_self]
  obtain ⟨rest, hrest, hmessage⟩ := MethodSignature.message?_parts name htexts
  have hvtext' := Option.some.inj (hvtext.symm.trans (hmessage _))
  have hplain : libraryCall? around (selfValue around) name arguments = none →
      (w.text = v.text ↔ m.isStatic = false ∨ c.name = Text.ofString "self") := by
    intro hnone
    rw [Option.some.inj ((hsent hnone).symm.trans (hmessage _)), hvtext']
    simp only [List.append_cancel_right_eq, List.append_cancel_left_eq]
    cases m.isStatic with
    | true => simp [eq_comm]
    | false => simp
  refine ⟨v, w, hv, hw, hvtext, hcaught, fun hnone => ⟨hsent hnone, hplain hnone⟩,
    fun hclass => ?_⟩
  have hdeclared : (around.members? c.name).isSome = true := by
    rw [Surroundings.members?, simpleName_of_isWord hc, hunit]
    simp
  have hlibrary : libraryCall? around (selfValue around) name arguments =
      LibraryCall.onObject? "self" true (LibraryCall.word name) arguments := by
    rw [selfValue, ownName_of_unit hunit, libraryCall?_of_libraryClass? hclass, hdeclared]
  cases hcall : libraryCall? around (selfValue around) name arguments with
  | none =>
    rw [hplain hcall, iff_self_and]
    exact fun _ => (onObject?_eq_none_iff _).1 (hlibrary.symm.trans hcall)
  | some u =>
    have hobject := hlibrary.symm.trans hcall
    have hne : w.text ≠ v.text := by
      intro heq
      have haddressed : v.text.addressed = name := by
        rw [hvtext']
        refine Text.addressed_of_front ?_ hname hrest
        split
        · exact hc
        · exact ⟨by decide, by decide +kernel⟩
      rw [hcaught u hcall] at heq
      exact onObject?_addressed hobject (by rw [heq, haddressed])
    refine iff_of_false hne fun h => ?_
    rw [(onObject?_eq_none_iff _).2 h.2] at hobject
    cases hobject

/-- A class with a static method and one that every object has in the library. -/
def callingClass : ClassSignature where
  name := "A"
  isInterface := false
  methods := [{ name := "m", parameters := [], result := .int, isStatic := true },
    { name := "toString", parameters := [], result := .string }]

/-- What a method of the class is generated against. -/
def callingSurroundings : Surroundings where
  unit := some callingClass

/-- An argument list without arguments. -/
def noArguments : Node := ⟨.parameters, {}, none, none, []⟩

/-- The call of a method without a receiver. -/
def ownCall (name : Text) : Node :=
  ⟨.callExpr, {}, none, none, [.ofToken .identifier ⟨.identifier, {}, name⟩, noArguments]⟩

/-- The call of a method through `this`. -/
def thisCall (name : Text) : Node :=
  ⟨.callExpr, {}, none, none,
    [⟨.fieldAccess, {}, none, none,
      [.ofToken .thisRef ⟨.keyword .thisKw, {}, "this"⟩,
        .ofToken .identifier ⟨.identifier, {}, name⟩]⟩, noArguments]⟩

/-- The static method is called on the object through `this`, and the other one is not called. -/
theorem self_calls_differ :
    (∃ v w, result (attributed (ownCall "m")).value callingSurroundings {} = (.ok v, {}) ∧
      result (attributed (thisCall "m")).value callingSurroundings {} = (.ok w, {}) ∧
      w.text ≠ v.text) ∧
    ∃ v w, result (attributed (ownCall "toString")).value callingSurroundings {} = (.ok v, {}) ∧
      result (attributed (thisCall "toString")).value callingSurroundings {} = (.ok w, {}) ∧
      w.text ≠ v.text := by
  have hown : ∀ name, (ownCall name).CallsOwn name noArguments := fun name =>
    ⟨rfl, ⟨_, rfl, rfl, rfl⟩, rfl⟩
  have hthis : ∀ name, (thisCall name).CallsThis name noArguments := fun name =>
    ⟨rfl, ⟨_, _, _, rfl, rfl, rfl, rfl, rfl⟩, rfl⟩
  have hc : callingClass.name.IsWord := ⟨by decide, by decide +kernel⟩
  have hclass : libraryClass? callingClass.name = none := by decide +kernel
  have hunit : callingSurroundings.unit = some callingClass := rfl
  have hm : callingClass.method? "m" ([] : List Value).length =
      some { name := "m", parameters := [], result := .int, isStatic := true } := by
    decide +kernel
  have htoString : callingClass.method? "toString" ([] : List Value).length =
      some { name := "toString", parameters := [], result := .string } := by
    decide +kernel
  obtain ⟨v, w, hv, hw, -, -, -, hagree⟩ := self_calls_agree_iff (s := {}) hunit hc
    ⟨by decide, by decide +kernel⟩ hm rfl (hown "m") (hthis "m")
  obtain ⟨v', w', hv', hw', -, -, -, hagree'⟩ := self_calls_agree_iff (s := {}) hunit hc
    ⟨by decide, by decide +kernel⟩ htoString rfl (hown "toString") (hthis "toString")
  refine ⟨⟨v, w, hv, hw, fun heq => ?_⟩, v', w', hv', hw', fun heq => ?_⟩
  · revert heq
    rw [hagree hclass]
    decide +kernel
  · revert heq
    rw [hagree' hclass]
    decide +kernel

end SelfCalls

end Lowering

end JavaObjC
