import JavaObjC.Proofs.Typing.Expressions

/-!
# Reading numbers

A boxed number is read by a message, and so are the elements of an array of
primitives. The selector is found by the name of a type as it is written. A
primitive type always has one, and a boxed class has the one of its primitive
type unless it is written with its package. So each number is read by a message
with a selector in every expression around which no boxed class is written with
its package: no value of an expression has a type that is not written there.

Generated code does not tell the messages that read numbers from others. So the
values are checked as they arise: an expression is translated a second time, and
refused as soon as a value cannot be read. That this changes nothing means that
all values can be read.
-/

namespace JavaObjC

open Generating Lower Lowering

section Names

variable {name : Text} {t : JavaType}

/-- Whether a name has no package if it is that of a boxed class. -/
def IsPlainName (name : Text) : Prop := isBoxedName name = true → simpleName name = name

theorem isPlainName_of_simple (h : simpleName name = name) : IsPlainName name := fun _ => h

/-- The plain names are a vocabulary: the generator makes up no other names of types. -/
theorem isVocabulary_isPlainName : IsVocabulary IsPlainName where
  given := by
    have hall : ∀ name ∈ givenNames, simpleName name = name := by decide
    exact fun name hname => isPlainName_of_simple (hall name hname)
  simple := fun name _ => isPlainName_of_simple (simpleName_simpleName name)

/-- A type that is known among plain names has a plain name or none. -/
theorem isPlainName_of_known (h : t.Known IsPlainName) : IsPlainName t.name := by
  rcases h with rfl | h
  · exact isPlainName_of_simple (by decide)
  · exact h.name

/-- A name with an accessor has no package. -/
theorem simpleName_of_unboxSelector (h : unboxSelector name ≠ []) : simpleName name = name := by
  have hkeys : ∀ entry ∈ unboxSelectors, simpleName entry.1 = Text.ofString entry.1 := by
    decide
  unfold unboxSelector at h
  cases hfound : Text.find? unboxSelectors name with
  | none =>
    rw [hfound] at h
    exact absurd rfl h
  | some selector =>
    obtain ⟨key, hmem, rfl⟩ := Text.exists_of_find? hfound
    exact hkeys _ hmem

/-- Primitive types have accessors. -/
theorem unboxSelector_of_isPrimitive (h : t.isPrimitive = true) : unboxSelector t.name ≠ [] := by
  have hall : ∀ name ∈ JavaType.primitiveNames, unboxSelector name ≠ [] := by decide
  exact hall t.name (JavaType.name_mem_of_isPrimitive h).1

/-- The accessor of a boxed class is that of its primitive type, but there is none for the class
written with its package. -/
theorem unboxSelector_of_boxed (h : isBoxedName name = true) :
    ∃ primitive, primitiveOf? name = some primitive ∧ unboxSelector primitive ≠ [] ∧
      unboxSelector name = if simpleName name = name then unboxSelector primitive else [] := by
  have htable : ∀ entry ∈ boxedPrimitives,
      unboxSelector entry.2 ≠ [] ∧ unboxSelector entry.1 = unboxSelector entry.2 := by
    decide
  obtain ⟨primitive, hprimitive⟩ := Option.isSome_iff_exists.1 h
  obtain ⟨found, hfound, rfl⟩ := Option.map_eq_some_iff.1 hprimitive
  obtain ⟨key, hmem, hkey⟩ := Text.exists_of_find? hfound
  obtain ⟨hselector, hsame⟩ := htable _ hmem
  refine ⟨_, hprimitive, hselector, ?_⟩
  split
  · next hsimple => rw [← hsame, ← hsimple, ← hkey]
  · next hpackage =>
    by_contra hne
    exact hpackage (simpleName_of_unboxSelector hne)

end Names

section Conversions

variable {v : Value} {receiver selector text : Text}

/-- A message with a selector that reads a number. -/
def IsReading (receiver text : Text) : Prop :=
  ∃ selector : Text, selector ≠ [] ∧ text = message receiver selector

/-- A message with a selector reads its receiver. -/
theorem isReading_message : IsReading receiver (message receiver selector) ↔ selector ≠ [] := by
  refine ⟨?_, fun h => ⟨selector, h, rfl⟩⟩
  rintro ⟨other, hne, hsame⟩
  have hselector : selector = other := by simpa [message] using hsame
  exact hselector ▸ hne

/-- A boxed value is read as a primitive by a message that has a selector exactly if its class is
written without its package. Other values stay as they are. -/
theorem Value.unboxed_cases (v : Value) :
    if isBoxed v.type then IsReading v.text v.unboxed ↔ simpleName v.type.name = v.type.name
    else v.unboxed = v.text := by
  unfold Value.unboxed
  split
  · next hboxed =>
    have hname : isBoxedName v.type.name = true := by
      rw [isBoxed, Bool.and_eq_true] at hboxed
      exact hboxed.1
    obtain ⟨primitive, -, hselector, hname⟩ := unboxSelector_of_boxed hname
    rw [isReading_message, hname]
    split
    · next hsimple => exact iff_of_true hselector hsimple
    · next hpackage => exact iff_of_false (fun h => h rfl) hpackage
  · rfl

/-- A value that is converted stays as it is, is boxed, or is read by a message with a selector. -/
theorem Value.coerce_cases (v : Value) (target : JavaType) :
    v.coerce target = v.text ∨ v.coerce target = v.box ∨ IsReading v.text (v.coerce target) := by
  unfold Value.coerce
  split_ifs with hleft hbox hread
  · exact .inl rfl
  · exact .inr (.inl rfl)
  · rw [Bool.and_eq_true] at hread
    exact .inr (.inr (isReading_message.2 (unboxSelector_of_isPrimitive hread.1)))
  · exact .inl rfl

end Conversions

/-- Whether a value is no boxed number, or one that is read by a message with a selector. -/
def Value.isReadable (v : Value) : Bool := !isBoxed v.type || !(unboxSelector v.type.name).isEmpty

namespace Lowering

/-- A value that can be read; others are refused. -/
def checked (v : Value) : Lower Value := if v.isReadable then pure v else throw .malformed

/-- What a node means if all values must be such that they can be read. -/
def checkedMeaning (n : Node) (parts : Parts) : Meaning where
  value := do checked (← expression n parts)
  operands := do
    let (operands, isString) ← leftOperands n parts
    return (← operands.mapM checked, isString)
  array := fun t => do checked (← arrayLiteral parts t)
  statements := statements n parts

/-- A tree each of whose values must be such that it can be read. -/
def checkedTree (n : Node) : Attributed := Attributed.ofNode checkedMeaning n

end Lowering

/-- Names that are plain are all that is kept. -/
def plainBounds : Bounds := .ofNames isVocabulary_isPlainName

section Checks

variable {v : Value} {env : List Scope} {n : Node}

/-- A value is readable when unboxing leaves its text or reads it by a selector. -/
theorem Value.isReadable_iff (v : Value) :
    v.isReadable = true ↔ v.unboxed = v.text ∨ IsReading v.text v.unboxed := by
  have hlonger : ∀ selector : Text, message v.text selector ≠ v.text := by
    intro selector h
    have hblank : (Text.ofString " ").length = 1 := by decide
    have hlength := congrArg List.length h
    simp only [message, List.length_append] at hlength
    omega
  unfold Value.isReadable Value.unboxed
  cases hboxed : isBoxed v.type with
  | false => simp
  | true => simp [hlonger, isReading_message]

/-- A value of a type with a plain name is readable. -/
theorem isReadable_of_over (h : v.Over IsPlainName) : v.isReadable = true := by
  rw [Value.isReadable_iff]
  have hcases := v.unboxed_cases
  split at hcases
  · next hboxed =>
    rw [isBoxed, Bool.and_eq_true] at hboxed
    exact .inr (hcases.2 (isPlainName_of_known h.type hboxed.1))
  · exact .inl hcases

theorem checked_eq (h : v.Over IsPlainName) : checked v = pure v := if_pos (isReadable_of_over h)

/-- Checking readable values lets them pass. -/
theorem mapM_checked {values : List Value} (h : ∀ v ∈ values, v.Over IsPlainName) :
    values.mapM checked = (pure values : Lower (List Value)) := by
  induction values with
  | nil => rfl
  | cons v values ih =>
    rw [List.forall_mem_cons] at h
    rw [List.mapM_cons, checked_eq h.1, ih h.2]
    rfl

/-- Checking the value of an action that gives values of plain types changes nothing. -/
theorem checked_ties {x y : Lower Value} (h : plainBounds.Ties env x y (Value.Over IsPlainName)) :
    plainBounds.Ties env x (do checked (← y)) (Value.Over IsPlainName) := by
  have hsame := h.bind (f := pure) (g := checked) (Q := Value.Over IsPlainName) fun v hv => by
    rw [checked_eq hv]
    exact .pure hv
  rwa [bind_pure] at hsame

/-- Where no boxed class is written with its package checking changes nothing. -/
theorem checkedTree_tied (hn : n.OverTree IsPlainName IsPlainName) :
    plainBounds.Tied env (attributed n) (checkedTree n) := by
  refine plainBounds.tied_ofNode (fun hover hnodes hparts => ?_) n hn
  have htied := plainBounds.meaning_tied hover hnodes hparts
  refine ⟨checked_ties htied.value, ?_, fun hkind t ht => checked_ties (htied.array hkind t ht)⟩
  have hsame := htied.operands.bind (f := pure) (g := fun p => do
    return (← p.1.mapM checked, p.2)) (Q := fun p => ∀ v ∈ p.1, v.Over IsPlainName) fun p hp => by
      rw [mapM_checked hp]
      exact .pure hp
  rwa [bind_pure] at hsame

/-- The sum `x + 1`. -/
def boxedSum : Node := ⟨.binaryExpr, {}, none, none,
  [.ofToken .identifier ⟨.identifier, {}, "x"⟩, operatorLeaf .plus {},
    .ofToken .literal ⟨.intLiteral, {}, "1"⟩]⟩

/-- A body with a variable `x` of a class. -/
def boxedState (className : Text) : BodyState := { scopes := [[("x", .named className)]] }

/-- The sum uses plain names only. -/
theorem boxedSum_overTree : boxedSum.OverTree IsPlainName IsPlainName := by
  refine .intro (.of_untyped nofun (by decide) rfl) fun _ m hm => ?_
  have hleaf : m.kind ∉ [.type, .parameter, .enhancedForStmt, .methodDecl, .classLiteral] ∧
      m.kind.typePlace? = none ∧
      m.children = [] ∧ simpleName m.literal = m.literal := by
    revert m
    decide
  refine .intro (.of_untyped (fun _ => isPlainName_of_simple hleaf.2.2.2) hleaf.1 hleaf.2.1) ?_
  simp [hleaf.2.2.1]

/-- The same sum of a class that is written with its package. -/
example : Generating.result (attributed boxedSum).value {} (boxedState "java.lang.Integer") =
    (.ok (.typed "[x ] + 1" .int), boxedState "java.lang.Integer") := rfl

end Checks

end JavaObjC
