import JavaObjC.Proofs.Effects.Trees
import JavaObjC.Proofs.Links.Names
import JavaObjC.Proofs.Lowering.Agreement
import JavaObjC.Proofs.Numerals.Digits

/-!
# Generated expressions are written

Every expression that is generated has a text: it is not empty. Most forms of
expressions have a fragment of the generator in them, and then there is nothing
to show of their parts. The others stand for one of their parts, for a name, or
for a literal, so the tree has to have names and literals as a source has them.
-/

namespace JavaObjC

open Generating Lower Lowering

namespace Text

/-- Only the empty string constant is the empty text. -/
theorem ofString_eq_nil {s : String} : ofString s = [] ↔ s = "" := by
  have hencode : ∀ c : Char, String.utf8EncodeChar c ≠ [] := fun c h => by
    have hlength := congrArg List.length h
    rw [String.length_utf8EncodeChar] at hlength
    exact absurd hlength (Nat.ne_of_gt c.utf8Size_pos)
  rw [ofString, List.flatMap_eq_nil_iff]
  constructor
  · intro h
    refine String.toList_inj.1 (List.eq_nil_iff_forall_not_mem.2 fun c hc => hencode c (h c hc))
  · rintro rfl
    simp

end Text

/-- An expression with a text. -/
def Value.IsWritten (v : Value) : Prop := v.text ≠ []

/-- Expressions that all have a text. -/
def Value.AreWritten (vs : List Value) : Prop := ∀ v ∈ vs, v.IsWritten

/-- An action that gives nothing but expressions with a text. -/
abbrev Lower.Writes (x : Lower Value) : Prop := Generating.Answers (fun _ => True) x Value.IsWritten

/-- One expression with a text makes a list of them. -/
theorem Value.AreWritten.singleton {v : Value} (h : v.IsWritten) : Value.AreWritten [v] :=
  List.forall_mem_singleton.2 h

section Texts

variable {v : Value} {t : Text}

/-- Whether an expression is written depends on its text only. -/
@[simp] theorem isWritten_mk {type : JavaType} {content className builder : Option Text}
    {isStream : Bool} :
    Value.IsWritten ⟨t, type, content, className, isStream, builder⟩ ↔ t ≠ [] := Iff.rfl

@[simp] theorem isWritten_typed {type : JavaType} : (Value.typed t type).IsWritten ↔ t ≠ [] :=
  Iff.rfl

/-- A message has its brackets. -/
@[simp] theorem message_ne_nil (receiver selector : Text) : message receiver selector ≠ [] := by
  simp [message, Text.ofString_eq_nil]

/-- An infix expression has its blanks. -/
@[simp] theorem infixText_ne_nil (left op right : Text) :
    Lowering.infixText left op right ≠ [] := by
  simp [Lowering.infixText, Text.ofString_eq_nil]

/-- A call of a function has its parentheses. -/
@[simp] theorem functionCall_ne_nil (name : Text) (arguments : List Text) :
    functionCall name arguments ≠ [] := by
  simp [functionCall, Text.ofString_eq_nil]

/-- A string constant has its quotes. -/
@[simp] theorem stringConstant_ne_nil (content : Text) : stringConstant content ≠ [] := by
  simp [stringConstant, Text.ofString_eq_nil]

/-- A formatted string is a message. -/
@[simp] theorem formattedString_ne_nil (format : Text) (arguments : List Text) :
    formattedString format arguments ≠ [] := by
  simp [formattedString, Text.ofString_eq_nil]

/-- An unsigned shift has its casts. -/
@[simp] theorem unsignedShift_ne_nil (left right : Value) : unsignedShift left right ≠ [] := by
  unfold unsignedShift
  split <;> simp [Text.ofString_eq_nil]

/-- A concatenation is a string constant or a formatted string, also of no operands. -/
@[simp] theorem concatenation_isWritten (parts : List Value) : (concatenation parts).IsWritten := by
  unfold concatenation
  dsimp only
  split
  · split_ifs <;> simp
  · simp
  · simp

/-- Unboxing writes a message around a text or leaves the text as it is. -/
theorem Value.IsWritten.unboxed (h : v.IsWritten) : v.unboxed ≠ [] := by
  unfold Value.unboxed
  split
  · simp
  · exact h

/-- Coercing boxes a text, unboxes it or leaves it as it is. -/
theorem Value.IsWritten.coerce (h : v.IsWritten) (target : JavaType) : v.coerce target ≠ [] := by
  unfold Value.coerce Value.box
  split_ifs
  · exact h
  · simp [Text.ofString_eq_nil]
  · exact h
  · simp
  · exact h

/-- A message that is sent has a text. -/
theorem send?_ne_nil {receiver text : Text} {keywords arguments : List Text}
    (h : send? receiver keywords arguments = some text) : text ≠ [] := by
  unfold send? at h
  split at h
  · obtain ⟨keyword, -, rfl⟩ := Option.map_eq_some_iff.1 h
    exact message_ne_nil _ _
  · split at h
    · cases h
    · obtain rfl := Option.some.inj h
      exact message_ne_nil _ _

end Texts

namespace LibraryCall

variable {receiver v : Value} {r name text : Text} {method : String} {arguments : List Value}

@[simp] theorem answer_isWritten (receiver selector : Text) (type : JavaType) :
    (answer receiver selector type).IsWritten := message_ne_nil _ _

@[simp] theorem asInt_isWritten (text : Text) : (asInt text).IsWritten := by
  simp [asInt, Text.ofString_eq_nil]

@[simp] theorem comparison_isWritten (text : Text) : (comparison text).IsWritten := by
  simp [comparison, Text.ofString_eq_nil]

@[simp] theorem size_isWritten (receiver : Text) : (size receiver).IsWritten := asInt_isWritten _

/-- A library function is written as a call. -/
@[simp] theorem functionOf_isWritten (name : Text) (arguments : List Value) (type : JavaType) :
    (functionOf name arguments type).IsWritten := functionCall_ne_nil _ _

/-- Appending to a builder is a message. -/
@[simp] theorem appending_ne_nil (target : Text) (v : Value) : appending target v ≠ [] := by
  unfold appending
  split <;> simp

/-- A string itself is what its text is; every other method is a message. -/
theorem onString?_isWritten (hreceiver : receiver.IsWritten)
    (h : onString? receiver method arguments = some v) : v.IsWritten := by
  unfold onString? at h
  split at h
  all_goals try split_ifs at h
  all_goals cases h
  all_goals first | exact hreceiver | simp

/-- Every answer of a list has a text, and likewise below for each library class in turn. -/
theorem onList?_isWritten {element : JavaType}
    (h : onList? r element method arguments = some v) : v.IsWritten := by
  unfold onList? at h
  split at h
  all_goals try split_ifs at h
  all_goals cases h
  all_goals simp

theorem onMap?_isWritten {key element : JavaType}
    (h : onMap? r key element method arguments = some v) : v.IsWritten := by
  unfold onMap? at h
  split at h <;> cases h
  all_goals simp [Text.ofString_eq_nil]

theorem onSet?_isWritten (h : onSet? r method arguments = some v) : v.IsWritten := by
  unfold onSet? at h
  split at h <;> cases h
  all_goals simp

theorem onBuilder?_isWritten (h : onBuilder? receiver method arguments = some v) :
    v.IsWritten := by
  unfold onBuilder? at h
  dsimp only at h
  split at h
  · cases h
    rw [isWritten_mk]
    split <;> simp
  · split at h <;> cases h <;> simp [Text.ofString_eq_nil]
  · cases h
    simp
  · cases h

/-- What collections answer, whichever kind they are of. -/
theorem onCollection?_isWritten (h : onCollection? r method arguments = some v) :
    v.IsWritten := by
  unfold onCollection? at h
  split at h <;> cases h
  all_goals simp

theorem onBoxed?_isWritten (h : onBoxed? r name arguments = some v) : v.IsWritten := by
  unfold onBoxed? at h
  dsimp only at h
  split_ifs at h
  cases h
  simp

/-- The methods that every object has are messages. -/
theorem onObject?_isWritten {isDeclared : Bool}
    (h : onObject? r isDeclared method arguments = some v) : v.IsWritten := by
  unfold onObject? at h
  split at h
  all_goals try split_ifs at h
  all_goals cases h
  all_goals simp

/-- Mathematical functions are calls of C functions. -/
theorem onMath?_isWritten (h : onMath? method arguments = some v) : v.IsWritten := by
  unfold onMath? at h
  split at h
  all_goals try dsimp only at h
  all_goals try split_ifs at h
  all_goals cases h
  all_goals simp [Text.ofString_eq_nil]

theorem onSystem?_isWritten (h : onSystem? method arguments = some v) : v.IsWritten := by
  unfold onSystem? at h
  split at h <;> cases h
  all_goals simp [timeSince1970, Text.ofString_eq_nil]

theorem onStringClass?_isWritten (h : onStringClass? method arguments = some v) :
    v.IsWritten := by
  unfold onStringClass? at h
  split at h <;> cases h
  all_goals simp

theorem onThread?_isWritten (h : onThread? method arguments = some v) : v.IsWritten := by
  unfold onThread? at h
  split at h <;> cases h
  simp [Text.ofString_eq_nil]

theorem onBoxedClass?_isWritten {className : Text}
    (h : onBoxedClass? className name arguments = some v) : v.IsWritten := by
  unfold onBoxedClass? at h
  dsimp only at h
  split at h
  · split_ifs at h <;> cases h
    all_goals simp [Text.ofString_eq_nil]
  · cases h

/-- The constants of the library have names. -/
theorem constant?_isWritten {className : Text} (h : constant? className name = some v) :
    v.IsWritten := by
  have hlisted : ∀ entry ∈ constants.map Prod.snd, entry.1 ≠ "" := by simp [constants]
  obtain ⟨entry, hfound, rfl⟩ := Option.map_eq_some_iff.1 h
  exact fun hnil => hlisted entry (Text.mem_of_find? hfound) (Text.ofString_eq_nil.1 hnil)

/-- A new collection is a message to its class. -/
theorem newCollection?_ne_nil {kind : CollectionKind}
    (h : newCollection? kind arguments = some text) : text ≠ [] := by
  unfold newCollection? at h
  split at h <;> cases h
  all_goals simp [Text.ofString_eq_nil]

/-- A new object of the library is written whatever its class. -/
theorem newFoundation?_isWritten {target : ClassRef} {type : JavaType}
    (h : newFoundation? target type arguments = some v) : v.IsWritten := by
  unfold newFoundation? newFoundation?.raised at h
  split at h
  · split_ifs at h <;> cases h
    all_goals simp [Text.ofString_eq_nil]
  · split_ifs at h <;> cases h
    all_goals simp [Text.ofString_eq_nil]
  · cases h

end LibraryCall

/-- A node with a name, or a literal, as sources have them. -/
structure Node.Legible (n : Node) : Prop where
  name : n.kind = .identifier → n.literal ≠ []
  literal : n.kind = .literal → ∀ t ∈ n.token, t.Formed

/-- Meanings that give nothing but expressions with a text. -/
structure Meaning.Writes (m : Meaning) : Prop where
  value : Lower.Writes m.value
  operands : Generating.Answers (fun _ => True) m.operands fun p => Value.AreWritten p.1
  array : ∀ t, Lower.Writes (m.array t)

/-- Attributed trees all of whose meanings give nothing but expressions with a text. -/
inductive Attributed.Writes : Attributed → Prop where
  | intro {a : Attributed} (parts : ∀ b ∈ a.children, Writes b) (meaning : a.meaning.Writes) :
    Writes a

/-- Parts that give expressions with a text one by one. -/
abbrev Parts.Writes (parts : Parts) : Prop := ∀ a ∈ parts, a.Writes

namespace Attributed.Writes

variable {a : Attributed}

theorem parts (h : a.Writes) : Parts.Writes a.parts := by
  cases h
  assumption

theorem meaning (h : a.Writes) : a.meaning.Writes := by
  cases h
  assumption

theorem value (h : a.Writes) : Lower.Writes a.value := h.meaning.value

end Attributed.Writes

namespace Parts.Writes

variable {parts : Parts}

/-- A child that is there is one of the parts. -/
theorem child (h : parts.Writes) (i : Nat) :
    Generating.Answers (fun _ => True) (parts.child i) Attributed.Writes :=
  .require fun a ha => h a (List.mem_of_getElem? ha)

/-- The value of a child has a text. -/
theorem valueAt (h : parts.Writes) (i : Nat) : Lower.Writes (parts.valueAt i) :=
  (h.child i).bind fun _ ha => ha.value

/-- The first part of a kind is one of the parts. -/
theorem first? (h : parts.Writes) (kind : NodeKind) : ∀ a ∈ parts.first? kind, a.Writes :=
  fun a ha => h a (List.mem_of_find?_eq_some ha)

end Parts.Writes

section Literals

variable {t : Token} {digits : Text}

/-- Whether a text begins as numbers do. -/
abbrev isNumberFront (t : Text) : Bool := Lexeme.frontIs (fun b => Lexeme.isDigit b || b == 46) t

/-- A floating-point literal as an expression: its separators and the mark of a `double` are left
out. -/
def floatValue (digits : Text) : Value :=
  let last := (unseparated digits).getLast?
  if last = some (Text.byte 'f') ∨ last = some (Text.byte 'F') then
    .typed (unseparated digits) .float
  else if last = some (Text.byte 'd') ∨ last = some (Text.byte 'D') then
    .typed (unseparated digits).dropLast .double
  else .typed (unseparated digits) .double

/-- The expressions that literals stand for. -/
inductive IsLiteralValue (t : Token) : Value → Prop where
  | string (h : t.kind = .stringLiteral) :
    IsLiteralValue t
      { text := "@" ++ t.literal, type := .string, content := some (t.literal.drop 1).dropLast }
  | character (h : t.kind = .charLiteral) : IsLiteralValue t (.typed t.literal .char)
  | yes (h : t.kind = .keyword .trueKw) : IsLiteralValue t (.typed "YES" .boolean)
  | no (h : t.kind = .keyword .falseKw) : IsLiteralValue t (.typed "NO" .boolean)
  | null (h : t.kind = .keyword .nullKw) : IsLiteralValue t (.typed "nil" .null)
  | integer (h : t.kind = .intLiteral) : IsLiteralValue t (integerLiteral t.literal)
  | floating (h : t.kind = .floatLiteral) : IsLiteralValue t (floatValue t.literal)

/-- A floating-point literal without any digit is refused. -/
theorem floatLiteral_eq (digits : Text) : floatLiteral digits = (do
    let _ ← Lower.require (unseparated digits).getLast?
    return floatValue digits) := by
  have hrequire : ∀ b : UInt8, Lower.require (some b) = pure b := fun _ => rfl
  unfold floatLiteral floatValue unseparated
  dsimp only
  cases (Text.replaceByte (Text.byte '_') [] digits).getLast? with
  | none => rfl
  | some last =>
    simp only [hrequire, pure_bind, Option.some_inj]
    split_ifs <;> rfl

/-- A floating-point literal that is not refused is the value of its digits. -/
theorem floatLiteral_answers (digits : Text) :
    Generating.Answers (fun _ => True) (floatLiteral digits) fun v => v = floatValue digits := by
  rw [floatLiteral_eq]
  exact .after fun _ => .pure rfl

/-- A literal stands for an expression of its own. -/
theorem literal_answers (n : Node) :
    Generating.Answers (fun _ => True) (literal n) fun v => ∃ t ∈ n.token, IsLiteralValue t v := by
  unfold literal
  cases n.token with
  | none => exact .refuse _ _
  | some t =>
    dsimp only
    split
    · next h => exact .ite (fun _ => .refuse _ _) fun _ => .pure ⟨t, rfl, .string h⟩
    · next h => exact .pure ⟨t, rfl, .character h⟩
    · next h => exact .pure ⟨t, rfl, .yes h⟩
    · next h => exact .pure ⟨t, rfl, .no h⟩
    · next h => exact .pure ⟨t, rfl, .null h⟩
    · next h => exact .pure ⟨t, rfl, .integer h⟩
    · next h => exact (floatLiteral_answers _).mono fun v hv => ⟨t, rfl, hv ▸ .floating h⟩
    · exact .refuse _ _
    · exact .refuse _ _

/-- Text behind a number does not change how it begins. -/
theorem isNumberFront_append (h : isNumberFront digits = true) (u : Text) :
    isNumberFront (digits ++ u) = true := by
  cases digits with
  | nil => cases h
  | cons b rest => exact h

/-- The separators of a number are not in front. -/
theorem isNumberFront_unseparated (h : isNumberFront digits = true) :
    isNumberFront (unseparated digits) = true := by
  cases digits with
  | nil => cases h
  | cons b rest =>
    have hb : b ≠ Text.byte '_' := by
      intro hb
      subst hb
      exact absurd h Bool.false_ne_true
    rw [unseparated, Text.replaceByte, List.flatMap_cons, if_neg hb]
    exact h

/-- Without the mark it ends with, a number begins as before. -/
theorem isNumberFront_dropLast {last : UInt8} (h : isNumberFront digits = true)
    (hlast : digits.getLast? = some last) (hmark : isNumberFront [last] = false) :
    isNumberFront digits.dropLast = true := by
  match digits with
  | [] => cases h
  | [b] =>
    obtain rfl : b = last := by simpa using hlast
    exact absurd (h.symm.trans hmark) Bool.true_eq_false.mp
  | b :: c :: rest => exact h

/-- The text of an integer begins as a number does. -/
theorem isNumberFront_integer (h : isNumberFront digits = true) :
    isNumberFront (integerLiteral digits).text = true := by
  have hfront := isNumberFront_unseparated h
  unfold integerLiteral
  dsimp only
  split
  · next hmark =>
    have hlast : (unseparated digits).getLast? = some (Text.byte 'l') ∨
        (unseparated digits).getLast? = some (Text.byte 'L') := by
      have hl : Text.endsWith (unseparated digits) "l" =
        ((unseparated digits).getLast? == some (Text.byte 'l')) := endsWith_byte _ _
      have hL : Text.endsWith (unseparated digits) "L" =
        ((unseparated digits).getLast? == some (Text.byte 'L')) := endsWith_byte _ _
      rw [Bool.or_eq_true] at hmark
      exact hmark.imp (fun h => beq_iff_eq.1 (hl.symm.trans h)) fun h =>
        beq_iff_eq.1 (hL.symm.trans h)
    have hrest : isNumberFront (unseparated digits).dropLast = true := by
      rcases hlast with hlast | hlast <;> exact isNumberFront_dropLast hfront hlast rfl
    exact isNumberFront_append hrest _
  · exact hfront

/-- The text of a floating-point number begins as a number does. -/
theorem isNumberFront_floating (h : isNumberFront digits = true) :
    isNumberFront (floatValue digits).text = true := by
  have hfront := isNumberFront_unseparated h
  unfold floatValue
  dsimp only
  split_ifs with hsingle hdouble
  · exact hfront
  · rcases hdouble with hlast | hlast <;> exact isNumberFront_dropLast hfront hlast rfl
  · exact hfront

/-- A literal of a source has a text. -/
theorem IsLiteralValue.isWritten {v : Value} (h : IsLiteralValue t v) (hformed : t.Formed) :
    v.IsWritten := by
  have hnumber : ∀ {u : Text}, isNumberFront u = true → u ≠ [] := by
    rintro _ hfront rfl
    cases hfront
  unfold Token.Formed at hformed
  cases h with
  | character hkind =>
    rw [hkind] at hformed
    obtain ⟨content, -, hliteral⟩ := hformed
    simp [hliteral]
  | integer hkind =>
    rw [hkind] at hformed
    exact hnumber (isNumberFront_integer hformed)
  | floating hkind =>
    rw [hkind] at hformed
    exact hnumber (isNumberFront_floating hformed)
  | _ => simp [Text.ofString_eq_nil]

end Literals

namespace Lowering

variable {n : Node} {parts : Parts} {part : Attributed} {v : Value}

section Names

/-- A literal is written with what its token says, and a token of a source says something. -/
theorem literal_writes (h : ∀ t ∈ n.token, t.Formed) : Writes (literal n) :=
  (literal_answers n).mono fun _ ⟨t, ht, hv⟩ => hv.isWritten (h t ht)

/-- A static variable is named after its class. -/
theorem staticField_isWritten (f : FieldSignature) (owner : ClassSignature) :
    (staticField f owner).IsWritten := by
  simp [staticField, Text.ofString_eq_nil]

/-- A name is written as it is, as a member of the object, or as a static variable. -/
theorem identifier_writes {name : Text} (h : name ≠ []) : Writes (identifier name) := by
  refine .after fun found => ?_
  cases found with
  | some t => exact .pure h
  | none =>
    refine .after fun around => ?_
    cases around.field? name with
    | some field =>
      refine .pure ?_
      split
      · exact staticField_isWritten _ _
      · exact h
    | none => exact .pure h

/-- A field of the class itself is a member of the object or a static variable. -/
theorem ownField_writes (name : Text) : Writes (ownField name) := by
  refine .after fun around => ?_
  cases around.field? name with
  | some field =>
    refine .pure ?_
    split
    · exact staticField_isWritten _ _
    · simp [Text.ofString_eq_nil]
  | none => exact .pure (by simp [Text.ofString_eq_nil])

/-- A field of a named class has the name of the class in it. -/
theorem fieldOfClass_writes (className name : Text) : Writes (fieldOfClass className name) := by
  unfold fieldOfClass
  cases hconstant : LibraryCall.constant? className name with
  | some v => exact .pure (LibraryCall.constant?_isWritten hconstant)
  | none =>
    refine .after fun around => ?_
    have hpure : Writes (pure (.typed (simpleName className ++ "_" ++ name)
        (around.declaredFieldType className name))) := .pure (by simp [Text.ofString_eq_nil])
    exact .ite (fun _ => .after fun _ => hpure) fun _ => hpure

/-- A field is written behind its receiver. -/
theorem fieldOf_writes (receiver : Value) (name : Text) : Writes (fieldOf receiver name) := by
  unfold fieldOf
  cases receiver.className with
  | some className =>
    exact .ite (fun _ => .pure (by simp [Text.ofString_eq_nil]))
      fun _ => fieldOfClass_writes _ _
  | none =>
    exact .ite (fun _ => .pure (LibraryCall.size_isWritten _))
      fun _ => .after fun _ => .pure (by simp [Text.ofString_eq_nil])

/-- A field access is written even where the field has no name. -/
theorem fieldAccess_writes (n : Node) (parts : Parts) : Writes (fieldAccess n parts) := by
  refine .after fun selected => .ite (fun _ => .refuse _ _) fun _ => ?_
  refine .ite (fun _ => .refuse _ _) fun _ => .after fun target => ?_
  exact .ite (fun _ => ownField_writes _) fun _ => .after fun _ => fieldOf_writes _ _

end Names

section Messages

/-- A message that succeeds has a text. -/
theorem send_ne_nil (receiver : Text) (keywords arguments : List Text) :
    Generating.Answers (fun _ => True) (send receiver keywords arguments) (· ≠ []) :=
  .require fun _ ha => send?_ne_nil ha

/-- A message to a method is written whether or not the method is known. -/
theorem sendMethod_writes (receiver name : Text) (method : Option MethodSignature)
    (arguments : List Value) : Writes (sendMethod receiver name method arguments) := by
  cases method <;> exact (send_ne_nil _ _ _).bind fun _ htext => .pure htext

/-- A call without receiver is a message to the object or to its class. -/
theorem unqualifiedCall_writes (name : Text) (arguments : List Value) :
    Writes (unqualifiedCall name arguments) :=
  .after fun _ => (sendMethod_writes _ _ _ _).bind fun _ hv => .pure hv

/-- A call on `super` is a message. -/
theorem superCall_writes (name : Text) (arguments : List Value) :
    Writes (superCall name arguments) := .after fun _ => sendMethod_writes _ _ _ _

/-- What a library class answers to a static call is written. -/
theorem staticLibraryCall_writes (n : Node) (className name : Text) (arguments : List Value) :
    Generating.Answers (fun _ => True) (staticLibraryCall n className name arguments)
      fun found => ∀ v ∈ found, v.IsWritten := by
  refine .ite (fun _ => ?_) fun _ => .ite (fun _ => ?_) fun _ => .ite (fun _ => ?_) fun _ =>
    .ite (fun _ => ?_) fun _ => .ite (fun _ => ?_) fun _ => ?_
  · cases hcall : LibraryCall.onMath? (LibraryCall.word name) arguments with
    | some v => exact .pure fun w hw => LibraryCall.onMath?_isWritten (hcall.trans hw)
    | none => exact .refuse _ _
  · cases hcall : LibraryCall.onSystem? (LibraryCall.word name) arguments with
    | some v => exact .pure fun w hw => LibraryCall.onSystem?_isWritten (hcall.trans hw)
    | none => exact .refuse _ _
  · exact .pure fun v hv => LibraryCall.onStringClass?_isWritten hv
  · exact .pure fun v hv => LibraryCall.onThread?_isWritten hv
  · exact .pure fun v hv => LibraryCall.onBoxedClass?_isWritten hv
  · exact .pure fun v hv => nomatch hv

/-- A static call is the library's or a message to the class. -/
theorem staticCall_writes (n : Node) (className name : Text) (arguments : List Value) :
    Writes (staticCall n className name arguments) := by
  refine (staticLibraryCall_writes n className name arguments).bind fun found hfound => ?_
  cases found with
  | some v => exact .pure (hfound v rfl)
  | none =>
    refine .after fun around => .ite (fun _ => ?_) fun _ => ?_
    · exact .after fun _ => sendMethod_writes _ _ _ _
    · exact .after fun _ => sendMethod_writes _ _ _ _

/-- The library may hand the receiver back, which has a text by assumption. -/
theorem libraryCall?_isWritten {around : Surroundings} {receiver : Value} {name : Text}
    {arguments : List Value} (hreceiver : receiver.IsWritten)
    (h : libraryCall? around receiver name arguments = some v) : v.IsWritten := by
  simp only [libraryCall?, Option.or_eq_some_iff] at h
  rcases h with h | ⟨-, h | ⟨-, h | ⟨-, h⟩⟩⟩
  · split at h
    · exact LibraryCall.onString?_isWritten hreceiver h
    · cases h
  · obtain ⟨kind, -, hcall⟩ := Option.bind_eq_some_iff.1 h
    simp only [collectionCall?, Option.or_eq_some_iff] at hcall
    rcases hcall with hcall | ⟨-, hcall⟩
    · cases kind with
      | list => exact LibraryCall.onList?_isWritten hcall
      | map => exact LibraryCall.onMap?_isWritten hcall
      | set => exact LibraryCall.onSet?_isWritten hcall
      | builder => exact LibraryCall.onBuilder?_isWritten hcall
      | array => cases hcall
    · exact LibraryCall.onCollection?_isWritten hcall
  · split at h
    · exact LibraryCall.onBoxed?_isWritten h
    · cases h
  · exact LibraryCall.onObject?_isWritten h

/-- A call on an object is the library's or a message. -/
theorem instanceCall_writes {receiver : Value} (hreceiver : receiver.IsWritten) (name : Text)
    (arguments : List Value) : Writes (instanceCall receiver name arguments) := by
  refine .after fun around => ?_
  cases hcall : libraryCall? around receiver name arguments with
  | some v => exact .pure (libraryCall?_isWritten hreceiver hcall)
  | none => exact sendMethod_writes _ _ _ _

/-- Printing is a call of a function. -/
theorem streamCall_writes (n : Node) (name : Text) (list : Parts) (arguments : List Value) :
    Writes (streamCall n name list arguments) := by
  have hlog : ∀ format printed, (logCall format printed).IsWritten := fun _ _ =>
    functionCall_ne_nil _ _
  unfold streamCall
  split
  · exact .pure (hlog _ _)
  · exact .pure (hlog _ _)
  · exact .after fun _ => .after fun _ => .pure (hlog _ _)
  · exact .after fun _ => .after fun _ => .pure (hlog _ _)
  · exact .pure (hlog _ _)
  · exact .pure (hlog _ _)
  · exact .refuse _ _

/-- A call is written if its receiver is. -/
theorem call_writes (h : parts.Writes) : Writes (call n parts) := by
  refine (h.child 0).bind fun target htarget => .after fun arguments => ?_
  refine .ite (fun _ => unqualifiedCall_writes _ _) fun _ => .ite (fun _ => ?_) fun _ =>
    .refuse _ _
  have hparts : target.parts.Writes := htarget.parts
  refine .after fun selected => (hparts.child 0).bind fun receiver hreceiver => ?_
  refine .ite (fun _ => superCall_writes _ _) fun _ => hreceiver.value.bind fun v hv => ?_
  refine .ite (fun _ => streamCall_writes _ _ _ _) fun _ => ?_
  cases v.className with
  | some className => exact staticCall_writes _ _ _ _
  | none => exact instanceCall_writes hv _ _

/-- A new object is a message, whatever its arguments. -/
theorem newObject_writes (n : Node) (parts : Parts) : Writes (newObject n parts) := by
  refine .after fun typeNode => .ite (fun _ => .refuse _ _) fun _ => ?_
  cases parts.first? .block with
  | some body => exact .refuse _ _
  | none =>
    refine .after fun arguments => .after fun around => ?_
    cases hlibrary : newLibraryObject? around typeNode.type arguments with
    | some v =>
      refine .pure ?_
      unfold newLibraryObject? at hlibrary
      split at hlibrary
      · cases hlibrary
      · rcases Option.or_eq_some_iff.1 hlibrary with h | ⟨-, h⟩
        · obtain ⟨kind, -, hnew⟩ := Option.bind_eq_some_iff.1 h
          obtain ⟨text, htext, rfl⟩ := Option.map_eq_some_iff.1 hnew
          exact LibraryCall.newCollection?_ne_nil htext
        · exact LibraryCall.newFoundation?_isWritten h
    | none => exact .after fun _ => (send_ne_nil _ _ _).bind fun _ htext => .pure htext

end Messages

section Operators

/-- The operands of a sum that is written are. -/
theorem sumOperands_writes (h : parts.Writes) :
    Generating.Answers (fun _ => True) (sumOperands parts) fun p => Value.AreWritten p.1 := by
  refine (h.child 0).bind fun left hleft => hleft.meaning.operands.bind fun operands hoperands => ?_
  refine (h.valueAt 2).bind fun right hright => .ite (fun _ => .pure ?_) fun _ => ?_
  · exact List.forall_mem_append.2 ⟨hoperands, Value.AreWritten.singleton hright⟩
  · cases operands.1 with
    | nil => rintro around s a s' - ⟨⟩
    | cons first more =>
      exact .pure (Value.AreWritten.singleton (by simp [Text.ofString_eq_nil]))

/-- A sum is a concatenation or an infix expression. -/
theorem sum_writes (h : parts.Writes) : Writes (sum parts) := by
  refine (sumOperands_writes h).bind fun operands hoperands => ?_
  split
  · exact .pure (List.forall_mem_singleton.1 hoperands)
  · exact .pure (concatenation_isWritten _)

/-- An operator stands between its operands. -/
theorem applyOperator_isWritten (op : Text) (l r : Value) : (applyOperator op l r).IsWritten := by
  unfold applyOperator
  dsimp only
  split
  all_goals try split
  all_goals simp

/-- A binary operation is a sum or has its operator. -/
theorem binary_writes (h : parts.Writes) : Writes (binary parts) :=
  .after fun _ => .ite (fun _ => sum_writes h) fun _ => .after fun _ => .after fun _ =>
    .pure (applyOperator_isWritten _ _ _)

theorem arrayAccess_writes (parts : Parts) : Writes (arrayAccess parts) := by
  refine .after fun array => .after fun index => .pure ?_
  rw [isWritten_typed]
  split
  · exact message_ne_nil _ _
  · simp [slot, Text.ofString_eq_nil]

/-- A step has its sign. -/
theorem step_writes (part : Attributed) (op : Text) (isBefore : Bool) :
    Writes (step part op isBefore) := by
  refine .bind (.require (P := fun b => op.head? = some b) fun _ hb => hb) fun sign hsign => ?_
  have hop : op ≠ [] := by
    rintro rfl
    cases hsign
  refine .ite (fun _ => .after fun _ => .after fun _ => .ite (fun _ => .refuse _ _) fun _ => ?_)
    fun _ => .after fun operand => .ite (fun _ => ?_) fun _ => .pure ?_
  · exact .pure (by simp [Text.ofString_eq_nil])
  · exact .pure (by simp [Text.ofString_eq_nil])
  · cases isBefore <;> simp [hop]

/-- A prefix operator stands before an operand that has a text. -/
theorem unary_writes (h : parts.Writes) : Writes (unary parts) := by
  refine .after fun op => (h.child 1).bind fun target htarget => ?_
  refine .ite (fun _ => step_writes target _ true) fun _ => htarget.value.bind fun v hv => ?_
  refine .ite (fun _ => .pure ?_) fun _ => .pure ?_
  · simp [Text.ofString_eq_nil]
  · simp [hv.unboxed]

theorem postfixOperator_writes (parts : Parts) : Writes (postfixOperator parts) :=
  .after fun target => .after fun _ => step_writes target _ false

theorem ternary_writes (parts : Parts) : Writes (ternary parts) :=
  .after fun _ => .after fun _ => .after fun _ => .pure (by simp [Text.ofString_eq_nil])

/-- An assignment has its operator. -/
theorem assign_writes (parts : Parts) : Writes (assign parts) := by
  refine .after fun left => .after fun right => .after fun op => .ite (fun _ => ?_) fun _ => ?_
  · refine .after fun _ => .after fun _ => .after fun _ => .ite (fun _ => .pure ?_) fun _ =>
      .ite (fun _ => .refuse _ _) fun _ => .pure ?_
    all_goals simp [Text.ofString_eq_nil]
  · refine .after fun _ => .ite (fun _ => .after fun _ => .pure ?_) fun _ => .after fun _ =>
      .ite (fun _ => .pure ?_) fun _ => .ite (fun _ => .pure ?_) fun _ => .pure ?_
    all_goals simp [Text.ofString_eq_nil]

end Operators

section Types

/-- An array literal has its brackets. -/
theorem arrayLiteral_writes (parts : Parts) (type : JavaType) :
    Writes (arrayLiteral parts type) := by
  refine .after fun _ => .ite (fun _ => .pure ?_) fun _ => .after fun _ => .pure ?_
  all_goals simp [Text.ofString_eq_nil]

/-- What a declaration starts with is written. -/
theorem initialValue_writes (h : part.Writes) (type : JavaType) :
    Writes (initialValue part type) :=
  .ite (fun _ => h.meaning.array type) fun _ => h.value.bind fun _ hv => .pure (hv.coerce type)

theorem newArray_writes (h : parts.Writes) : Writes (newArray n parts) := by
  have hfirst := h.first? .arrayInit
  unfold newArray
  cases hinit : parts.first? .arrayInit with
  | none => exact .refuse _ _
  | some init => exact .after fun _ => (hfirst init hinit).meaning.array _

/-- A cast is a message or has its parentheses. -/
theorem cast_writes (parts : Parts) : Writes (cast parts) := by
  refine .after fun part => .after fun v => .ite (fun _ => .pure ?_) fun _ =>
    .ite (fun hbox => .pure ?_) fun _ => .after fun _ => .pure ?_
  · simp
  · have hprimitive : v.type.isPrimitive = true := by
      rw [Bool.and_eq_true] at hbox
      exact hbox.2
    simp [Value.box, hprimitive, Text.ofString_eq_nil]
  · simp [Text.ofString_eq_nil]

theorem instanceTest_writes (parts : Parts) : Writes (instanceTest parts) := by
  unfold instanceTest
  cases parts[2]? with
  | some pattern => exact .refuse _ _
  | none =>
    refine .after fun _ => .after fun _ => .after fun ref => ?_
    cases ref with
    | scalar _ => exact .refuse _ _
    | object c =>
      exact .ite (fun _ => .refuse _ _) fun _ => .ite (fun _ => .pure (by simp))
        fun _ => .pure (by simp)

theorem classLiteral_writes (n : Node) (parts : Parts) : Writes (classLiteral n parts) := by
  refine .after fun _ => .after fun _ => .after fun ref => ?_
  cases ref with
  | scalar _ => exact .refuse _ _
  | object c =>
    exact .ite (fun _ => .pure (by simp [Text.ofString_eq_nil])) fun _ => .pure (by simp)

end Types

/-- Only names, literals and the forms that stand for a part need the tree to be legible. -/
theorem expression_writes (hn : n.Legible) (h : parts.Writes) : Writes (expression n parts) := by
  unfold expression
  cases hkind : n.kind with
  | literal => exact literal_writes (hn.literal hkind)
  | identifier => exact identifier_writes (hn.name hkind)
  | thisRef => exact .after fun _ => .pure (by simp [Text.ofString_eq_nil])
  | superRef => exact .after fun _ => .pure (by simp [Text.ofString_eq_nil])
  | parenExpr => exact .after fun _ => .pure (by simp [Text.ofString_eq_nil])
  | fieldAccess => exact fieldAccess_writes n parts
  | callExpr => exact call_writes h
  | newExpr => exact newObject_writes n parts
  | newArrayExpr => exact newArray_writes h
  | arrayInit => exact arrayLiteral_writes parts _
  | arrayAccess => exact arrayAccess_writes parts
  | assignExpr => exact assign_writes parts
  | ternaryExpr => exact ternary_writes parts
  | binaryExpr => exact binary_writes h
  | unaryExpr => exact unary_writes h
  | postfixExpr => exact postfixOperator_writes parts
  | castExpr => exact cast_writes parts
  | instanceofExpr => exact instanceTest_writes parts
  | classLiteral => exact classLiteral_writes n parts
  | _ => exact .refuse _ _

/-- The operands on the left of a sum are written. -/
theorem leftOperands_writes (hn : n.Legible) (h : parts.Writes) :
    Generating.Answers (fun _ => True) (leftOperands n parts) fun p => Value.AreWritten p.1 := by
  have hvalue : ∀ isSum : Bool, Generating.Answers (fun _ => True)
      (if isSum = true then sumOperands parts
        else do
          let v ← expression n parts
          return ([v], isStringType v.type)) fun p => Value.AreWritten p.1 := fun isSum =>
    .ite (fun _ => sumOperands_writes h) fun _ =>
      (expression_writes hn h).bind fun v hv => .pure (Value.AreWritten.singleton hv)
  unfold leftOperands
  exact .ite (fun _ => .after fun _ => .after hvalue) fun _ => .after hvalue

/-- A legible node gives expressions with a text if its parts do. -/
theorem meaning_writes (hn : n.Legible) (h : parts.Writes) : (meaning n parts).Writes where
  value := expression_writes hn h
  operands := leftOperands_writes hn h
  array := arrayLiteral_writes parts

/-- Every tree of legible nodes gives expressions with a text. -/
theorem attributed_writes (n : Node) : (∀ m ∈ n.walk, m.Legible) → (attributed n).Writes := by
  induction n using Node.induction with
  | h n ih =>
    intro h
    rw [attributed_eq]
    have hparts : Parts.Writes (n.children.map attributed) := by
      intro a ha
      obtain ⟨m, hm, rfl⟩ := List.mem_map.1 ha
      exact ih m hm fun o ho => h o (Node.mem_walk_of_child hm ho)
    exact .intro hparts (meaning_writes (h n (Node.mem_walk n)) hparts)

end Lowering

end JavaObjC
