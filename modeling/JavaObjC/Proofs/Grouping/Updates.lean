import JavaObjC.Proofs.Arithmetic
import JavaObjC.Proofs.Grouping.Texts
import JavaObjC.Proofs.Links.Names

/-!
# Updates of boxed storage

Elements of arrays of primitives are stored boxed. An update reads the element,
applies an operator, and stores a boxed value again. Nothing is put in
parentheses, so that the operand on the right side is taken as a whole only if
it binds more tightly than the operator. The main statement says so for every
operator and operand, and that steps of elements are the updates by one.

Boxed variables are stored again by steps only. An update of one assigns to the
variable itself, as the last part of the main statement says.
-/

namespace JavaObjC

open C Lowering

/-- The operators of updates. -/
def updateOperators : List String := ["+", "-", "*", "/", "%", "&", "|", "^", "<<", ">>"]

/-- What stores a boxed value. -/
def boxedStore (stored content : Text) : Text := stored ++ " = @(" ++ content ++ ")"

/-- What a boxed store is read as. -/
def C.storeExpr (stored content : Expr) : Expr := .operation "=" stored (.sign "@" (.group content))

section Texts

variable {op : String} {stored current content t : Text} {e l : Expr}

/-- How the operators of updates are read and written. -/
theorem updateOperator_spec : ∀ op ∈ updateOperators,
    back op = .operator (precedence op) ∧
      words (" " ++ Text.ofString op ++ " ") = some [Text.ofString op] ∧
      (Pending.nothing.after (" " ++ Text.ofString op ++ " ")).isFree = true ∧
      choiceLevel < precedence op ∧ precedence op < 14 ∧
      Text.dropTail (Text.ofString op ++ "=") "=" = Text.ofString op ∧
      Text.ofString op ≠ ">>>" := by
  decide

/-- An operator between two texts. -/
theorem read_infixText (hop : op ∈ updateOperators) (hl : read current = some l)
    (hprimary : l.isPrimary = true) (ht : read t = some e) :
    read (infixText current op t) = some ((Frame.operation l op).plug e) := by
  obtain ⟨hback, hwords, hfree, -⟩ := updateOperator_spec op hop
  have hfirm : l.isFirm (precedence op) = true := by cases l <;> first | rfl | cases hprimary
  have htext : infixText current op t = current ++ (" " ++ Text.ofString op ++ " ") ++ t := by
    simp [infixText]
  rw [htext]
  exact read_operation hl hfirm hwords hback ⟨⟨32, rfl, rfl⟩, hfree⟩ ht

/-- What stores a boxed value is read as such. -/
theorem read_boxedStore (hs : read stored = some l) (hfirm : l.isFirm assignmentLevel = true)
    (hc : read content = some e) : read (boxedStore stored content) = some (storeExpr l e) := by
  have hmark : words "@" = some [Text.ofString "@"] := by decide
  have hbox : read (Text.ofString "@" ++ ("(" ++ content ++ ")")) = some (.sign "@" (.group e)) :=
    read_behind (f := .sign "@") hmark rfl rfl (Pending.parts_of_free (by decide))
      (read_group hc)
  have hequals : words " = " = some [Text.ofString "="] := by decide
  have hback : back "=" = .operator assignmentLevel := by decide
  have hstore := read_operation hs hfirm hequals hback ⟨⟨32, rfl, rfl⟩, by decide⟩ hbox
  have htext : boxedStore stored content =
      stored ++ " = " ++ (Text.ofString "@" ++ ("(" ++ content ++ ")")) := by
    have hopen : Text.ofString " = @(" = Text.ofString " = " ++ "@" ++ "(" := rfl
    simp only [boxedStore, hopen, List.append_assoc]
  rw [htext]
  exact hstore

/-- The marks of updates: assignments, and not those that are done in another way. -/
theorem updateMark_spec : ∀ op ∈ updateOperators,
    back (Text.ofString op ++ "=") = .operator assignmentLevel ∧
      precedence (Text.ofString op ++ "=") = assignmentLevel ∧
      words (" " ++ (Text.ofString op ++ "=") ++ " ") = some [Text.ofString op ++ "="] ∧
      (Pending.nothing.after (" " ++ (Text.ofString op ++ "=") ++ " ")).isFree = true ∧
      Text.ofString op ++ "=" ≠ Text.ofString "=" ∧
      Text.ofString op ++ "=" ≠ Text.ofString ">>>=" := by
  decide

end Texts

/-- An element of an array of primitives: what its array and its index are. -/
structure IsElement (around : Surroundings) (s : BodyState) (target : Attributed)
    (array index : Value) (s' : BodyState) : Prop where
  kind : target.kind = .arrayAccess
  parts : ∃ s₁, (target.parts.valueAt 0).run' around s = (.ok array, s₁) ∧
    (target.parts.valueAt 1).run' around s₁ = (.ok index, s')
  primitive : array.type.element.isPrimitive = true

/-- A variable or a field of a boxed type that is written without its package. -/
structure IsBoxedVariable (around : Surroundings) (s : BodyState) (target : Attributed) (x : Value)
    (s' : BodyState) : Prop where
  kind : target.kind ≠ .arrayAccess
  value : target.value.run' around s = (.ok x, s')
  boxed : isBoxed x.type = true
  simple : simpleName x.type.name = x.type.name

/-- An element as it is read. -/
def elementText (array index : Value) : Text := readSlot (slot array index) array.type.element

/-- The store of an element with an operator applied to it and an operand. -/
def elementUpdate (array index : Value) (op operand : Text) : Value :=
  .typed (boxedStore (slot array index) (infixText (elementText array index) op operand))
    array.type.element

section Runs

variable {around : Surroundings} {s s₁ s' : BodyState} {target mark right : Attributed}
  {array index x v : Value} {op : String}

/-- An assignment to an element of an array. -/
theorem assign_of_element (h : target.kind = .arrayAccess) :
    assign [target, mark, right] = assignElement target mark.literal right := by
  change (if target.kind = .arrayAccess then assignElement target mark.literal right
    else assignVariable target mark.literal right) = _
  rw [if_pos h]

/-- An assignment to a variable. -/
theorem assign_of_variable (h : target.kind ≠ .arrayAccess) :
    assign [target, mark, right] = assignVariable target mark.literal right := by
  change (if target.kind = .arrayAccess then assignElement target mark.literal right
    else assignVariable target mark.literal right) = _
  rw [if_neg h]

/-- An update of an element. -/
theorem IsElement.assign_run (h : IsElement around s target array index s₁)
    (hop : op ∈ updateOperators) (hmark : mark.literal = Text.ofString op ++ "=")
    (hright : right.value.run' around s₁ = (.ok v, s')) :
    (assign [target, mark, right]).run' around s =
      (.ok (elementUpdate array index op v.unboxed), s') := by
  obtain ⟨s₂, harray, hindex⟩ := h.parts
  obtain ⟨-, -, -, -, -, hoperator, hshift⟩ := updateOperator_spec op hop
  obtain ⟨-, -, -, -, hequals, -⟩ := updateMark_spec op hop
  rw [assign_of_element h.kind, assignElement, run'_bind harray, run'_bind hindex, run'_bind hright,
    hmark]
  dsimp only
  rw [if_neg hequals, h.primitive, hoperator, if_neg hshift]
  rfl

/-- A step of an element. -/
theorem IsElement.step_run (h : IsElement around s target array index s₁) (hop : op ∈ ["+", "-"])
    (isBefore : Bool) :
    (step target (Text.ofString op ++ op) isBefore).run' around s =
      (.ok (elementUpdate array index op "1"), s₁) := by
  obtain ⟨s₂, harray, hindex⟩ := h.parts
  obtain ⟨sign, hsign⟩ : ∃ sign, Text.ofString op = [sign] := by
    simp only [List.mem_cons, List.not_mem_nil, or_false] at hop
    rcases hop with rfl | rfl <;> exact ⟨_, rfl⟩
  have hdelta : ∀ stored : Text, stored ++ " " ++ ([sign] ++ Text.ofString " 1") =
      infixText stored [sign] "1" := fun stored => by
    have hone : Text.ofString " 1" = Text.ofString " " ++ "1" := rfl
    simp only [infixText, hone, List.append_assoc]
  rw [step, hsign]
  change (Lower.run' (if target.kind = .arrayAccess then _ else _) around s) = _
  rw [if_pos h.kind, run'_bind harray, run'_bind hindex]
  dsimp only
  rw [h.primitive, elementUpdate, boxedStore, ← hdelta]
  simp only [List.append_assoc]
  rfl

/-- A step of a boxed variable. -/
theorem IsBoxedVariable.step_run (h : IsBoxedVariable around s target x s') (hop : op ∈ ["+", "-"])
    (isBefore : Bool) :
    (step target (Text.ofString op ++ op) isBefore).run' around s =
      (.ok (.typed (boxedStore x.text (infixText x.unboxed op "1")) x.type), s') := by
  obtain ⟨sign, hsign⟩ : ∃ sign, Text.ofString op = [sign] := by
    simp only [List.mem_cons, List.not_mem_nil, or_false] at hop
    rcases hop with rfl | rfl <;> exact ⟨_, rfl⟩
  have hone : Text.ofString " 1" = Text.ofString " " ++ "1" := rfl
  rw [step, hsign]
  change (Lower.run' (if target.kind = .arrayAccess then _ else _) around s) = _
  rw [if_neg h.kind, run'_bind h.value, if_pos h.boxed, boxedStore, infixText, hone]
  simp only [List.append_assoc]
  rfl

/-- An update of a boxed variable assigns to the variable itself. -/
theorem IsBoxedVariable.assign_run (h : IsBoxedVariable around s target x s₁)
    (hop : op ∈ updateOperators) (hmark : mark.literal = Text.ofString op ++ "=")
    (hright : right.value.run' around s₁ = (.ok v, s')) :
    (assign [target, mark, right]).run' around s =
      (.ok (.typed (infixText x.text (Text.ofString op ++ "=") v.unboxed) x.type), s') := by
  have hstring : isStringType x.type = false := by
    rw [← Bool.not_eq_true]
    intro hstring
    have hboxed := h.boxed
    simp [isBoxed, isBoxedName, primitiveOf?_of_isStringType hstring] at hboxed
  obtain ⟨-, -, -, -, hequals, hshift⟩ := updateMark_spec op hop
  rw [assign_of_variable h.kind, assignVariable, run'_bind h.value, hstring, hmark,
    if_neg (by simp), run'_bind hright, if_neg hequals, if_neg hshift]
  rfl

/-- A mark of a step in front of a target or behind it. -/
theorem stepMark_run (hop : op ∈ ["+", "-"]) (hmark : mark.literal = Text.ofString op ++ op) :
    unary [mark, target] = step target (Text.ofString op ++ op) true ∧
      postfixOperator [target, mark] = step target (Text.ofString op ++ op) false := by
  have hsteps : ∀ op ∈ ["+", "-"], Text.ofString op ++ op = Text.ofString "++" ∨
      Text.ofString op ++ op = Text.ofString "--" := by decide
  refine ⟨?_, ?_⟩
  · change (if mark.literal = Text.ofString "++" ∨ mark.literal = Text.ofString "--"
      then _ else _) = _
    rw [hmark, if_pos (hsteps op hop)]
  · change step target mark.literal false = _
    rw [hmark]

end Runs

section Readings

variable {around : Surroundings} {s s₁ : BodyState} {target : Attributed} {array index x v : Value}
  {op : String} {t e : Expr}

/-- The names of the primitive types and of the boxed classes have accessors. -/
theorem isSelector_unboxSelector : ∀ name ∈ JavaType.primitiveNames ++
    boxedPrimitives.map (fun entry => Text.ofString entry.1), IsSelector (unboxSelector name) := by
  decide

/-- What an element is read as. -/
theorem IsElement.read_elementText (h : IsElement around s target array index s₁)
    (ht : read (slot array index) = some t) : ∃ ws,
      read (elementText array index) = some (.bracketed ws) := by
  obtain ⟨ws, -, hread⟩ := read_message ht (isSelector_unboxSelector _
    (List.mem_append_left _ (JavaType.name_mem_of_isPrimitive h.primitive).1))
  exact ⟨_, hread⟩

/-- What a boxed variable is read as, as an operand. -/
theorem IsBoxedVariable.read_unboxed (h : IsBoxedVariable around s target x s₁)
    (ht : read x.text = some t) : ∃ ws, read x.unboxed = some (.bracketed ws) := by
  obtain ⟨hname, -⟩ : isBoxedName x.type.name = true ∧ x.type.isArray = false := by
    simpa [isBoxed] using h.boxed
  obtain ⟨primitive, hprimitive⟩ := Option.isSome_iff_exists.1 hname
  obtain ⟨found, hfound, -⟩ := Option.map_eq_some_iff.1 hprimitive
  rw [h.simple] at hfound
  obtain ⟨key, hmem, hkey⟩ := Text.exists_of_find? hfound
  have hselector : IsSelector (unboxSelector x.type.name) := by
    rw [← hkey]
    exact isSelector_unboxSelector _ (List.mem_append_right _ (List.mem_map_of_mem hmem))
  obtain ⟨ws, -, hread⟩ := read_message ht hselector
  rw [Value.unboxed, if_pos h.boxed]
  exact ⟨_, hread⟩

/-- An assignment to a variable. -/
theorem read_assignment (hop : op ∈ updateOperators) (hx : read x.text = some t)
    (hfirm : t.isFirm assignmentLevel = true) (hv : read v.unboxed = some e) (he : 1 < e.level) :
    read (infixText x.text (Text.ofString op ++ "=") v.unboxed) =
      some (.operation (Text.ofString op ++ "=") t e) := by
  obtain ⟨hback, hlevel, hwords, hfree, -⟩ := updateMark_spec op hop
  have htext : infixText x.text (Text.ofString op ++ "=") v.unboxed =
      x.text ++ (" " ++ (Text.ofString op ++ "=") ++ " ") ++ v.unboxed := by
    simp [infixText]
  rw [htext, read_operation hx hfirm hwords hback ⟨⟨32, rfl, rfl⟩, hfree⟩ hv,
    plug_assignment hlevel he]

end Readings

section Updates

/-- Updates of boxed storage, for every operator and operand. An update of an element of an array of
primitives stores a boxed value whose content is what is read in C behind the element and the
operator: the operand is taken as a whole exactly when it binds more tightly than the operator.
Steps of an element in front of it or behind it are its update by one. Steps of a boxed variable
store a boxed value, too. An update of a boxed variable assigns to the variable itself, and stores
no boxed value. -/
theorem boxed_updates (op : String) (hop : op ∈ updateOperators) (around : Surroundings)
    (s : BodyState) (target mark : Attributed) (hmark : mark.literal = Text.ofString op ++ "=") :
    (∀ array index s₁ right v s', IsElement around s target array index s₁ →
      right.value.run' around s₁ = (.ok v, s') →
      (assign [target, mark, right]).run' around s =
          (.ok (elementUpdate array index op v.unboxed), s') ∧
        ∀ t e, read (slot array index) = some t → t.isFirm assignmentLevel = true →
          read v.unboxed = some e →
          ∃ current, read (elementText array index) = some current ∧
            read (elementUpdate array index op v.unboxed).text =
              some (storeExpr t ((Frame.operation current op).plug e)) ∧
            ((Frame.operation current op).plug e = .operation op current e ↔
              precedence op < e.level)) ∧
      (∀ array index s₁ one stepMark, IsElement around s target array index s₁ →
        op ∈ ["+", "-"] → one.value.run' around s₁ = (.ok (.typed "1" .int), s₁) →
        stepMark.literal = Text.ofString op ++ op →
        (unary [stepMark, target]).run' around s = (assign [target, mark, one]).run' around s ∧
          (postfixOperator [target, stepMark]).run' around s =
            (assign [target, mark, one]).run' around s ∧
          (assign [target, mark, one]).run' around s =
            (.ok (elementUpdate array index op "1"), s₁)) ∧
      (∀ x s₁ stepMark, IsBoxedVariable around s target x s₁ → op ∈ ["+", "-"] →
        stepMark.literal = Text.ofString op ++ op →
        (unary [stepMark, target]).run' around s =
            (.ok (.typed (boxedStore x.text (infixText x.unboxed op "1")) x.type), s₁) ∧
          (postfixOperator [target, stepMark]).run' around s =
            (.ok (.typed (boxedStore x.text (infixText x.unboxed op "1")) x.type), s₁) ∧
          ∀ t, read x.text = some t → t.isFirm assignmentLevel = true →
            ∃ current, read x.unboxed = some current ∧
              read (boxedStore x.text (infixText x.unboxed op "1")) =
                some (storeExpr t (.operation op current (.word "1")))) ∧
      (∀ x s₁ right v s', IsBoxedVariable around s target x s₁ →
        right.value.run' around s₁ = (.ok v, s') →
        (assign [target, mark, right]).run' around s =
            (.ok (.typed (infixText x.text (Text.ofString op ++ "=") v.unboxed) x.type), s') ∧
          ∀ t e, read x.text = some t → t.isFirm assignmentLevel = true →
            read v.unboxed = some e → 1 < e.level →
            read (infixText x.text (Text.ofString op ++ "=") v.unboxed) =
              some (.operation (Text.ofString op ++ "=") t e)) := by
  obtain ⟨-, -, -, hlow, hhigh, -⟩ := updateOperator_spec op hop
  have hone : read "1" = some (.word "1") := by decide +kernel
  refine ⟨?_, ?_, ?_, ?_⟩
  · intro array index s₁ right v s' h hright
    refine ⟨h.assign_run hop hmark hright, fun t e ht hfirm he => ?_⟩
    obtain ⟨ws, hcurrent⟩ := h.read_elementText ht
    exact ⟨_, hcurrent, read_boxedStore ht hfirm (read_infixText hop hcurrent rfl he),
      plug_operation_iff hlow hhigh⟩
  · intro array index s₁ one stepMark h hstep hvalue hliteral
    obtain ⟨hunary, hpostfix⟩ : unary [stepMark, target] = step target _ true ∧
      postfixOperator [target, stepMark] = step target _ false := stepMark_run hstep hliteral
    have hnumber : (Value.typed "1" .int).unboxed = Text.ofString "1" :=
      unboxed_of_isPrimitive int_isPrimitive
    have hassign := h.assign_run hop hmark hvalue
    rw [hnumber] at hassign
    rw [hunary, hpostfix, hassign, h.step_run hstep, h.step_run hstep]
    exact ⟨rfl, rfl, rfl⟩
  · intro x s₁ stepMark h hstep hliteral
    obtain ⟨hunary, hpostfix⟩ : unary [stepMark, target] = step target _ true ∧
      postfixOperator [target, stepMark] = step target _ false := stepMark_run hstep hliteral
    rw [hunary, hpostfix]
    refine ⟨h.step_run hstep true, h.step_run hstep false, fun t ht hfirm => ?_⟩
    obtain ⟨ws, hcurrent⟩ := h.read_unboxed ht
    exact ⟨_, hcurrent, read_boxedStore ht hfirm (read_infixText hop hcurrent rfl hone)⟩
  · intro x s₁ right v s' h hright
    exact ⟨h.assign_run hop hmark hright, fun t e => read_assignment hop⟩

/-- A body with an array of integers, a place in it and a boxed counter. -/
def counterState : BodyState :=
  { scopes := [[("a", { name := "int", depth := 1 }), ("i", .int), ("count", .named "Integer")]] }

/-- A name in the body. -/
def counterName (word : Text) : Node := .ofToken .identifier ⟨.identifier, {}, word⟩

/-- The element `a[i]`. -/
def counterElement : Node := ⟨.arrayAccess, {}, none, none, [counterName "a", counterName "i"]⟩

/-- The mark of a product. -/
def productMark : Node := operatorLeaf .starAssign {}

/-- The sum `i + i`. -/
def counterSum : Node :=
  ⟨.binaryExpr, {}, none, none, [counterName "i", operatorLeaf .plus {}, counterName "i"]⟩

/-- The array, the place and the sum as they are written. -/
def counterArray : Value := .typed "a" { name := "int", depth := 1 }
def counterIndex : Value := .typed "i" .int
def counterOperand : Value := .typed "i + i" .int

/-- An update of the element by a product with the sum: the sum is not put in parentheses, and only
its first operand is multiplied. -/
theorem boxed_updates_product :
    "*" ∈ updateOperators ∧ (attributed productMark).literal = Text.ofString "*" ++ "=" ∧
      IsElement {} counterState (attributed counterElement) counterArray counterIndex counterState ∧
      (assign [attributed counterElement, attributed productMark, attributed counterSum]).run' {}
          counterState =
        (.ok (elementUpdate counterArray counterIndex "*" counterOperand.unboxed), counterState) ∧
      (elementUpdate counterArray counterIndex "*" counterOperand.unboxed).text =
        "a[i] = @([a[i] intValue] * i + i)" ∧
      ∃ t current, read (elementUpdate counterArray counterIndex "*" counterOperand.unboxed).text =
        some (storeExpr t (.operation "+" (.operation "*" current (.word "i")) (.word "i"))) := by
  have helement : IsElement {} counterState (attributed counterElement) counterArray counterIndex
      counterState := ⟨rfl, ⟨counterState, rfl, rfl⟩, by decide +kernel⟩
  have hslot : read (slot counterArray counterIndex) =
      some (.suffixed (.word "a") (["[", "i", "]"].map Text.ofString)) := by decide +kernel
  have hsum : read counterOperand.unboxed =
      some (.operation "+" (.word "i") (.word "i")) := by decide +kernel
  obtain ⟨hrun, hread⟩ := (boxed_updates "*" (by decide) {} counterState (attributed counterElement)
    (attributed productMark) rfl).1 counterArray counterIndex counterState (attributed counterSum)
      counterOperand counterState helement rfl
  obtain ⟨current, -, hstore, -⟩ := hread _ _ hslot rfl hsum
  exact ⟨by decide, rfl, helement, hrun, by decide +kernel, _, current, hstore⟩

end Updates

end JavaObjC
