import JavaObjC.Proofs.Generation
import JavaObjC.Proofs.Initialization
import JavaObjC.Proofs.Methods.Implementations
import JavaObjC.Proofs.Numerals.Rendering
import JavaObjC.Proofs.Statics.Texts

/-!
# What initializes static variables

A static variable whose initial value is a literal, possibly signed or in
parentheses, has the value in its storage, and any other one is assigned its value
before it is used. The text in the storage is a constant of C unless the value is
boxed, because the literal is primitive and the type of the variable is not, or the
literal itself is no constant of C. Every static variable with an initial value is
initialized in exactly one of the two places.
-/

namespace JavaObjC

open Generating Lowering

section Constants

variable {t : Text} {b : UInt8} {rest : Text}

/-- The texts that may stand in static storage: constants of C, strings and named values, possibly
signed or in parentheses. -/
inductive IsStaticConstant : Text → Prop where
  | number {t : Text} (h : (Constant.read? t).isSome = true) : IsStaticConstant t
  | character {content : Text} (hcontent : content ≠ []) (h : Text.encloses 39 false content = true) :
    IsStaticConstant (39 :: (content ++ [39]))
  | string {content : Text} (h : Text.encloses 34 false content = true) :
    IsStaticConstant (stringConstant content)
  | yes : IsStaticConstant "YES"
  | no : IsStaticConstant "NO"
  | null : IsStaticConstant "nil"
  | signed {sign t : Text} (hsign : sign = "-" ∨ sign = "+") (h : IsStaticConstant t) :
    IsStaticConstant (sign ++ t)
  | grouped {t : Text} (h : IsStaticConstant t) : IsStaticConstant ("(" ++ t ++ ")")

/-- A number begins with a digit or a point. -/
theorem isNumberFront_of_read? (h : (Constant.read? t).isSome = true) : isNumberFront t = true := by
  cases t with
  | nil => cases h
  | cons b rest =>
    by_contra hfront
    obtain ⟨hdigit, hpoint⟩ : Lexeme.isDigit b = false ∧ b ≠ 46 := by
      simpa [isNumberFront, Lexeme.frontIs] using hfront
    have hdigit' : ¬ Text.isDigit b = true := Bool.eq_false_iff.1 hdigit
    have hradix : ¬ (Text.digitIn? 10 b).isSome = true := fun hsome =>
      hdigit' (isDigit_of_digit (Nat.le_refl 10) hsome)
    have hzero : b ≠ 48 := by
      rintro rfl
      cases hdigit
    have hinteger : Constant.integer? 10 (b :: rest) = none := by
      have hdigits := List.takeWhile_cons_of_neg
        (p := fun b => (Text.digitIn? 10 b).isSome) (l := rest) hradix
      rw [Constant.integer?, hdigits]
      rfl
    have hnone : Constant.decimal? (b :: rest) = none := by
      simp only [Constant.decimal?, List.takeWhile_cons_of_neg hdigit',
        List.dropWhile_cons_of_neg hdigit', List.head?_cons, Option.some_inj, if_neg hzero, hinteger]
      split
      · next heq => exact absurd (List.cons.inj heq).1 hpoint
      · split
        · rfl
        · rfl
    have hmark : hasRadixMark (b :: rest) = false := by
      unfold hasRadixMark
      split
      · next heq => exact absurd (List.cons.inj heq).1 hzero
      · rfl
    rw [Constant.read?_eq_decimal? hmark, hnone] at h
    cases h

/-- A number that can be stored is one that C reads. -/
theorem isStaticConstant_iff_of_number (h : isNumberFront t = true) :
    IsStaticConstant t ↔ (Constant.read? t).isSome = true := by
  refine ⟨fun hconstant => ?_, .number⟩
  cases hconstant with
  | number hread => exact hread
  | signed hsign _ => rcases hsign with rfl | rfl <;> exact absurd h Bool.false_ne_true
  | _ => exact absurd h Bool.false_ne_true

/-- A character that can be stored is not empty. -/
theorem isStaticConstant_character {content : Text}
    (h : Text.encloses 39 false content = true) :
    IsStaticConstant (39 :: (content ++ [39])) ↔ content ≠ [] := by
  refine ⟨?_, fun hcontent => .character hcontent h⟩
  generalize ht : (39 :: (content ++ [39]) : Text) = t
  intro hconstant
  cases hconstant with
  | number hread =>
    subst ht
    exact absurd (isNumberFront_of_read? hread) Bool.false_ne_true
  | @character inner hinner _ =>
    obtain rfl : content = inner := List.append_cancel_right (List.cons.inj ht).2
    exact hinner
  | signed hsign _ => rcases hsign with rfl | rfl <;> cases ht
  | _ => cases ht

/-- A sign does not matter. -/
theorem isStaticConstant_signed {sign : Text} (hsign : sign = "-" ∨ sign = "+") :
    IsStaticConstant (sign ++ t) ↔ IsStaticConstant t := by
  refine ⟨?_, .signed hsign⟩
  generalize hu : sign ++ t = u
  intro hconstant
  cases hconstant with
  | number hread =>
    subst hu
    rcases hsign with rfl | rfl <;>
      exact absurd (isNumberFront_of_read? hread) Bool.false_ne_true
  | signed hsign' h =>
    rcases hsign with rfl | rfl <;> rcases hsign' with rfl | rfl <;> first
      | exact List.append_cancel_left hu ▸ h
      | cases hu
  | _ => rcases hsign with rfl | rfl <;> cases hu

/-- Parentheses do not matter. -/
theorem isStaticConstant_grouped :
    IsStaticConstant ("(" ++ t ++ ")") ↔ IsStaticConstant t := by
  refine ⟨?_, .grouped⟩
  generalize hu : (Text.ofString "(" ++ t ++ ")" : Text) = u
  intro hconstant
  cases hconstant with
  | number hread =>
    subst hu
    exact absurd (isNumberFront_of_read? hread) Bool.false_ne_true
  | grouped h =>
    exact List.append_cancel_left (List.append_cancel_right hu) ▸ h
  | signed hsign' h => rcases hsign' with rfl | rfl <;> cases hu
  | _ => cases hu

/-- A boxed value is no constant. -/
theorem not_isStaticConstant_boxed : ¬ IsStaticConstant ("@(" ++ t ++ ")") := by
  generalize hu : (Text.ofString "@(" ++ t ++ ")" : Text) = u
  intro hconstant
  cases hconstant with
  | number hread =>
    subst hu
    exact absurd (isNumberFront_of_read? hread) Bool.false_ne_true
  | signed hsign' h => rcases hsign' with rfl | rfl <;> cases hu
  | _ => cases hu

end Constants

/-- The literal that an expression is, possibly signed or in parentheses. -/
inductive IsLiteralIn (m : Node) : Node → Prop where
  | self (hkind : m.kind = .literal) : IsLiteralIn m m
  | signed {n sign : Node} (hkind : n.kind = .unaryExpr) (hchildren : n.children = [sign, m])
    (hsign : sign.literal = "-" ∨ sign.literal = "+") (hoperand : m.kind = .literal) :
    IsLiteralIn m n
  | grouped {n inner : Node} {others : List Node} (hkind : n.kind = .parenExpr)
    (hchildren : n.children = inner :: others) (hinner : IsLiteralIn m inner) : IsLiteralIn m n

/-- A literal inside a node is a literal. -/
theorem IsLiteralIn.kind_eq {m n : Node} (h : IsLiteralIn m n) : m.kind = .literal := by
  induction h with
  | self hkind => exact hkind
  | signed _ _ _ hoperand => exact hoperand
  | grouped _ _ _ ih => exact ih

/-- An initial value is a literal exactly if there is one in it. -/
theorem isLiteral_iff (n : Node) : isLiteral n = true ↔ ∃ m, IsLiteralIn m n := by
  constructor
  · induction n using Node.induction with
    | h n ih =>
      intro h
      unfold isLiteral at h
      split at h
      · exact ⟨_, .self rfl⟩
      · next inner others =>
        obtain ⟨m, hm⟩ := ih inner List.mem_cons_self h
        exact ⟨m, .grouped rfl rfl hm⟩
      · next sign operand =>
        simp only [Bool.and_eq_true, Bool.or_eq_true, decide_eq_true_eq, beq_iff_eq] at h
        exact ⟨operand, .signed rfl rfl h.2 h.1⟩
      · cases h
  · rintro ⟨m, h⟩
    induction h with
    | self hkind =>
      obtain ⟨kind, span, token, problem, children⟩ := m
      obtain rfl : kind = .literal := hkind
      rw [isLiteral]
    | @signed n sign hkind hchildren hsign hoperand =>
      obtain ⟨kind, span, token, problem, children⟩ := n
      obtain rfl : kind = .unaryExpr := hkind
      obtain rfl : children = [sign, m] := hchildren
      simpa [isLiteral, hoperand] using hsign
    | @grouped n inner others hkind hchildren _ ih =>
      obtain ⟨kind, span, token, problem, children⟩ := n
      obtain rfl : kind = .parenExpr := hkind
      obtain rfl : children = inner :: others := hchildren
      rw [isLiteral]
      exact ih

section Values

variable {t : Token} {v w : Value}

namespace Token

/-- Whether a literal may stand in static storage by itself: a character that is not empty, a
number that C reads, or any other one. -/
def IsStorable (t : Token) : Prop :=
  match t.kind with
  | .charLiteral => t.literal ≠ [39, 39]
  | .intLiteral => (Constant.read? (integerLiteral t.literal).text).isSome = true
  | .floatLiteral => (Constant.read? (floatValue t.literal).text).isSome = true
  | _ => True

/-- Whether a literal has a primitive type. -/
def isPrimitive (t : Token) : Bool :=
  t.kind ∈ [.intLiteral, .floatLiteral, .charLiteral, .keyword .trueKw, .keyword .falseKw]

end Token

/-- A type of literals: it is known, it is no boxed one, and it is primitive or not. -/
structure JavaType.IsLiteralType (isPrimitive : Bool) (t : JavaType) : Prop where
  known : t.isUnknown = false
  boxes : primitiveOf? t.name = none
  primitive : t.isPrimitive = isPrimitive

/-- The types of literals, and whether they are primitive. -/
def literalTypes : List (JavaType × Bool) :=
  [(.string, false), (.null, false), (.boolean, true), (.char, true), (.int, true), (.long, true),
   (.float, true), (.double, true)]

/-- The listed types are types of literals. -/
theorem isLiteralType_of_mem {type : JavaType} {isPrimitive : Bool}
    (h : (type, isPrimitive) ∈ literalTypes) : type.IsLiteralType isPrimitive := by
  have hall : ∀ entry ∈ literalTypes, entry.1.isUnknown = false ∧
      primitiveOf? entry.1.name = none ∧ entry.1.isPrimitive = entry.2 := by decide +kernel
  obtain ⟨hknown, hboxes, hprimitive⟩ := hall _ h
  exact ⟨hknown, hboxes, hprimitive⟩

/-- The value of a literal has a type of literals. -/
theorem IsLiteralValue.isLiteralType (h : IsLiteralValue t v) :
    v.type.IsLiteralType t.isPrimitive := by
  unfold Token.isPrimitive
  cases h with
  | integer hkind =>
    rw [hkind]
    unfold integerLiteral
    dsimp only
    split <;> exact isLiteralType_of_mem (by simp [literalTypes, Value.typed])
  | floating hkind =>
    rw [hkind]
    unfold floatValue
    dsimp only
    split_ifs <;> exact isLiteralType_of_mem (by simp [literalTypes, Value.typed])
  | _ hkind =>
    rw [hkind]
    exact isLiteralType_of_mem (by simp [literalTypes, Value.typed])

/-- A literal can be stored by itself exactly if it is storable. -/
theorem IsLiteralValue.isStaticConstant_iff (h : IsLiteralValue t v) (hformed : t.Formed) :
    IsStaticConstant v.text ↔ t.IsStorable := by
  unfold Token.Formed at hformed
  unfold Token.IsStorable
  cases h with
  | string hkind =>
    rw [hkind] at hformed ⊢
    obtain ⟨content, hencloses, hliteral⟩ := hformed
    rw [iff_true, hliteral]
    exact .string hencloses
  | character hkind =>
    rw [hkind] at hformed ⊢
    obtain ⟨content, hencloses, hliteral⟩ := hformed
    dsimp only [Value.typed]
    rw [hliteral, isStaticConstant_character hencloses]
    simp
  | yes hkind =>
    rw [hkind]
    exact iff_of_true .yes trivial
  | no hkind =>
    rw [hkind]
    exact iff_of_true .no trivial
  | null hkind =>
    rw [hkind]
    exact iff_of_true .null trivial
  | integer hkind =>
    rw [hkind] at hformed ⊢
    exact isStaticConstant_iff_of_number (isNumberFront_integer hformed)
  | floating hkind =>
    rw [hkind] at hformed ⊢
    exact isStaticConstant_iff_of_number (isNumberFront_floating hformed)

/-- What the literal in a node and the node itself have in common as expressions. -/
structure Value.Wraps (v w : Value) : Prop where
  type_eq : v.type = w.type
  isStaticConstant_iff : IsStaticConstant v.text ↔ IsStaticConstant w.text

/-- A literal, signed or in parentheses, is an expression that wraps the one of the literal. -/
theorem IsLiteralIn.answers {m n : Node} (h : IsLiteralIn m n) :
    Generating.Answers (fun _ => True) (attributed n).value fun v =>
      ∃ t ∈ m.token, ∃ w, IsLiteralValue t w ∧ v.Wraps w := by
  have hself : m.kind = .literal → Generating.Answers (fun _ => True) (attributed m).value fun v =>
      ∃ t ∈ m.token, IsLiteralValue t v := fun hkind => by
    rw [attributed_value, expression, hkind]
    exact literal_answers m
  induction h with
  | self hkind =>
    refine (hself hkind).mono fun v hv => ?_
    obtain ⟨t, ht, hv⟩ := hv
    exact ⟨t, ht, v, hv, rfl, .rfl⟩
  | @signed n sign hkind hchildren hsign hoperand =>
    have hneither : sign.literal ≠ "++" ∧ sign.literal ≠ "--" ∧ sign.literal ≠ "!" := by
      rcases hsign with hsign | hsign <;> rw [hsign] <;> decide
    rw [attributed_value, expression, hkind, hchildren]
    dsimp only
    refine .bind (P := (· = attributed sign)) (.pure rfl) ?_
    rintro _ rfl
    refine .bind (P := (· = attributed m)) (.pure rfl) ?_
    rintro _ rfl
    rw [attributed_literal]
    refine .ite (fun h => absurd h (by simp [hneither])) fun _ => ?_
    refine (hself hoperand).bind fun w hw => ?_
    obtain ⟨t, ht, hw⟩ := hw
    refine .ite (fun h => absurd h hneither.2.2) fun _ => .pure ⟨t, ht, w, hw, ?_, ?_⟩
    · simp [Value.typed, numericType, hw.isLiteralType.boxes]
    · have hboxed : isBoxed w.type = false := by
        simp [isBoxed, isBoxedName, hw.isLiteralType.boxes]
      simp only [Value.typed, Value.unboxed, hboxed, Bool.false_eq_true, if_false]
      exact isStaticConstant_signed hsign
  | @grouped n inner others hkind hchildren _ ih =>
    rw [attributed_value, expression, hkind, hchildren]
    dsimp only
    have hinner : Generating.Answers (fun _ => True)
        (Parts.valueAt ((inner :: others).map attributed) 0) _ := ih
    refine hinner.bind fun v hv => .pure ?_
    obtain ⟨t, ht, w, hw, htype, hconstant⟩ := hv
    exact ⟨t, ht, w, hw, htype, isStaticConstant_grouped.trans hconstant⟩

/-- Whether primitive values become objects for variables of a type. -/
def JavaType.takesObjects (t : JavaType) : Bool :=
  !(t.isUnknown || t.isVar || t.isVoid || t.isPrimitive)

/-- A literal for a variable is a constant of C unless it is none by itself or is boxed. -/
theorem Value.Wraps.coerce_iff {type : JavaType} (h : v.Wraps w) (hw : IsLiteralValue t w)
    (hformed : t.Formed) : IsStaticConstant (v.coerce type) ↔
      t.IsStorable ∧ ¬ (t.isPrimitive = true ∧ type.takesObjects = true) := by
  have hliteral := hw.isLiteralType
  rw [← h.type_eq] at hliteral
  have hboxed : isBoxed v.type = false := by simp [isBoxed, isBoxedName, hliteral.boxes]
  have htext := h.isStaticConstant_iff.trans (hw.isStaticConstant_iff hformed)
  have hboxes : v.coerce type = if t.isPrimitive = true ∧ type.takesObjects = true
      then Text.ofString "@(" ++ v.text ++ ")" else v.text := by
    unfold Value.coerce Value.box JavaType.takesObjects
    rw [hliteral.known, hliteral.primitive, hboxed]
    cases type.isUnknown <;> cases type.isVar <;> cases type.isVoid <;>
      cases type.isPrimitive <;> cases t.isPrimitive <;> rfl
  rw [hboxes]
  split
  · next hboth => exact iff_of_false not_isStaticConstant_boxed fun hright => hright.2 hboth
  · next hnot => rw [htext, and_iff_left hnot]

/-- The initial value of a variable that is a literal is a constant of C unless the literal is none
by itself or is boxed. -/
theorem IsLiteralIn.initialValue_answers {m n : Node} (h : IsLiteralIn m n)
    (hformed : ∀ t ∈ m.token, t.Formed) (type : JavaType) :
    Generating.Answers (fun _ => True) (initialValue (attributed n) type) fun v =>
      ∃ t ∈ m.token, IsStaticConstant v.text ↔
        t.IsStorable ∧ ¬ (t.isPrimitive = true ∧ type.takesObjects = true) := by
  have hkind : n.kind ≠ .arrayInit := by
    cases h with
    | self hkind => simp [hkind]
    | signed hkind => simp [hkind]
    | grouped hkind => simp [hkind]
  refine .ite (fun harray => absurd harray (by simpa using hkind)) fun _ => ?_
  refine h.answers.bind fun v ⟨t, ht, w, hw, hwraps⟩ => .pure ⟨t, ht, ?_⟩
  exact hwraps.coerce_iff hw (hformed t ht)

end Values

namespace Node

variable {m n : Node}

/-- A literal in a node is one of its parts. -/
theorem mem_walk_of_literal (h : IsLiteralIn m n) : m ∈ n.walk := by
  induction h with
  | self => exact mem_walk m
  | signed _ hchildren => exact mem_walk_of_child (by simp [hchildren]) (mem_walk m)
  | grouped _ hchildren _ ih => exact mem_walk_of_child (by simp [hchildren]) ih

/-- The walk of a member is part of that of its declaration. -/
theorem mem_walk_of_member (hn : n ∈ m.members) {o : Node} (ho : o ∈ n.walk) : o ∈ m.walk := by
  unfold members at hn
  cases hblock : m.child? .block with
  | none =>
    rw [hblock] at hn
    cases hn
  | some block =>
    rw [hblock] at hn
    exact mem_walk_of_child (List.mem_of_find?_eq_some hblock) (mem_walk_of_child hn ho)

end Node

/-- In the tree of a source without problems, names and literals are legible. -/
theorem legible_of_parseForGeneration {path source : Text} {cu : Node}
    (h : parseForGeneration path source = .ok cu) : ∀ m ∈ cu.walk, m.Legible := by
  obtain ⟨htree, hclean⟩ := derives_of_parseForGeneration h
  have hlexed : ∀ m ∈ cu.walk, m.Lexed := by
    obtain ⟨-, rfl⟩ := read_of_parseForGeneration h
    exact Entry.read_lexed .compilationUnit source
  intro m hm
  obtain ⟨hclean', c, hderives⟩ := htree.of_mem_walk cu hclean m hm
  obtain ⟨f, hf, hkind, htoken, -⟩ := hderives.form hclean'
  refine ⟨fun hname => ?_, (hlexed m hm).literal⟩
  have hpresent : ∀ f ∈ c.forms, f.kind = .identifier → f.token ≠ .absent := by
    cases c <;> decide
  obtain ⟨t, ht⟩ : ∃ t, m.token = some t := by
    cases hrole : f.token with
    | absent => exact absurd hrole (hpresent f hf (hkind.symm.trans hname))
    | present =>
      rw [hrole] at htoken
      exact Option.isSome_iff_exists.1 htoken
    | word =>
      rw [hrole] at htoken
      exact htoken.imp fun _ h => h.1
  have hliteral : m.literal = t.literal := by simp [Node.literal, ht]
  rw [hliteral]
  exact (hlexed m hm).identifier hname t ht

namespace ClassModel

variable {m : ClassModel} {f : TargetField}

/-- The storage of a static variable: a constant after a protocol, or a variable of a class. -/
def storageOf (m : ClassModel) (f : TargetField) : Text :=
  if m.isProtocol then m.constantLine f else m.storageLine f

/-- The static variables that are assigned their initial values: by the constructor function of a
protocol, or when a class is initialized. -/
def assigned (m : ClassModel) : List TargetField :=
  if m.isProtocol then m.fields.filter (!·.isConstant)
  else m.fields.filter fun f => f.isStatic && !f.isConstant && !f.init.isEmpty

/-- The assignment of the initial value of a static variable. -/
def assignment (m : ClassModel) (f : TargetField) : Text := f.globalName m.name ++ " = " ++ f.init

/-- A static variable whose storage has its initial value, and which is not assigned. -/
structure Stores (m : ClassModel) (f : TargetField) : Prop where
  storage : ∃ front : Text, m.storageOf f = line (front ++ " = " ++ f.init ++ ";")
  unassigned : ∀ f' ∈ m.assigned, f'.name ≠ f.name

/-- What initializes the static variables of a class or protocol: code that begins with the
assignments, or consists of them. -/
def RunsAssignments (m : ClassModel) : Prop :=
  if m.isProtocol then
    ∃ front : Text, m.protocolDefinition = front ++
      (m.assigned.flatMap fun f => indented 1 (m.assignment f ++ ";")) ++ line "\x7d"
  else
    ∃ blocks : List Stmt, ∃ i ∈ m.definedMethods, i.message = (true, Text.ofString "initialize") ∧
      i.body = some [.ifElse ("self == [" ++ m.name ++ " class]")
        (.block ((m.assigned.map fun f => .expression (m.assignment f)) ++ blocks)) .nothing]

/-- A static variable that is assigned its initial value once, and whose storage does not have it. -/
structure Assigns (m : ClassModel) (f : TargetField) : Prop where
  runs : m.RunsAssignments
  storage : ∃ front : Text, m.storageOf f = line (if m.isProtocol then "extern " ++ front ++ ";"
    else front ++ " = " ++ f.type.zeroValue ++ ";")
  once : m.assigned.filter (·.name = f.name) = [f]

/-- The storage of a variable of a class, whatever its visibility. -/
theorem storageLine_eq (m : ClassModel) (f : TargetField) : ∃ front : Text, m.storageLine f =
    line (front ++ " = " ++ (if f.isConstant then f.init else f.type.zeroValue) ++ ";") := by
  unfold storageLine
  by_cases hprivate : f.visibility = .privateAccess
  · refine ⟨"static " ++ f.type.declare (f.globalName m.name), ?_⟩
    simp only [if_pos hprivate, List.append_assoc]
  · exact ⟨f.type.declare (f.globalName m.name), by simp only [if_neg hprivate]⟩

/-- A constant is stored with its initial text. -/
theorem storageOf_constant (hconstant : f.isConstant = true) :
    ∃ front : Text, m.storageOf f = line (front ++ " = " ++ f.init ++ ";") := by
  unfold storageOf
  split
  · exact ⟨"static " ++ f.type.render ++ " const " ++ f.globalName m.name, if_pos hconstant⟩
  · simpa only [hconstant, if_true] using m.storageLine_eq f

/-- What is no constant is stored as zero, or declared only by a protocol. -/
theorem storageOf_dynamic (hdynamic : f.isConstant = false) :
    ∃ front : Text, m.storageOf f = line (if m.isProtocol then "extern " ++ front ++ ";"
      else front ++ " = " ++ f.type.zeroValue ++ ";") := by
  unfold storageOf
  split
  · exact ⟨f.type.declare (f.globalName m.name), if_neg (Bool.eq_false_iff.1 hdynamic)⟩
  · simpa only [hdynamic, Bool.false_eq_true, if_false] using m.storageLine_eq f

/-- Assignments run if there are any. -/
theorem runsAssignments (h : m.assigned ≠ []) : m.RunsAssignments := by
  unfold RunsAssignments
  split
  · next hprotocol =>
    rw [assigned, if_pos hprotocol] at h ⊢
    have hdynamic : (m.fields.filter (!·.isConstant)).isEmpty = false := by simpa using h
    rw [protocolDefinition, hdynamic]
    exact ⟨_, rfl⟩
  · next hclass =>
    have hcode : m.classInitialization =
        (m.assigned.map fun f => .expression (m.assignment f)) ++ (m.staticInit.flatten ++
          (m.methods.filter (·.isClassInitializer)).flatMap fun f => f.body.getD []) := by
      rw [assigned, if_neg hclass, classInitialization, List.append_assoc]
      rfl
    have hruns : m.classInitialization ≠ [] := by
      rw [hcode]
      simp [h]
    exact ⟨_, hcode ▸ exists_classInitializer hruns⟩

/-- A static variable with an initial value is stored or assigned, whichever its flag says. -/
theorem stores_or_assigns (hnodup : (m.fields.map TargetField.name).Nodup) (hf : f ∈ m.fields)
    (hstatic : f.isStatic = true) (hinit : f.init ≠ []) :
    if f.isConstant then m.Stores f else m.Assigns f := by
  have hdynamic : ∀ f' ∈ m.assigned, f' ∈ m.fields ∧ f'.isConstant = false := by
    intro f' hf'
    unfold assigned at hf'
    split at hf' <;> simp_all
  split
  · next hconstant =>
    refine ⟨storageOf_constant hconstant, fun f' hf' hname => ?_⟩
    obtain ⟨hmem, hnot⟩ := hdynamic f' hf'
    rw [List.inj_on_of_nodup_map hnodup hmem hf hname, hconstant] at hnot
    cases hnot
  · next hnot =>
    rw [Bool.not_eq_true] at hnot
    have hassigned : f ∈ m.assigned := by
      unfold assigned
      split <;> simp_all
    have hsublist : (m.assigned.map TargetField.name).Sublist (m.fields.map TargetField.name) := by
      unfold assigned
      split <;> exact List.filter_sublist.map _
    exact ⟨runsAssignments (List.ne_nil_of_mem hassigned), storageOf_dynamic hnot,
      filter_key_of_nodup (hnodup.sublist hsublist) hassigned⟩

end ClassModel

/-- What a declared variable says about its field. -/
structure DeclaresField (declared : Node) (isStatic : Bool) (type : JavaType) (f : TargetField) :
    Prop where
  name : f.name = declaredName declared
  isStatic : f.isStatic = isStatic
  plain : declaredValue declared = none → f.init = [] ∧ f.isConstant = false
  started : ∀ value ∈ declaredValue declared,
    f.init ≠ [] ∧ f.isConstant = (f.isStatic && isLiteral value)
  constant : ∀ value ∈ declaredValue declared, isLiteral value = true →
    ∃ m, IsLiteralIn m value ∧ ∃ t ∈ m.token, (IsStaticConstant f.init ↔
      t.IsStorable ∧ ¬ (t.isPrimitive = true ∧ type.takesObjects = true))

/-- A field is what the variable of a legible declaration says. -/
theorem declaresField_of_fieldOf {around : Surroundings} {isInterface : Bool} {mods : Modifiers}
    {ref : TypeRef} {type : JavaType} {declared : Node} {f : TargetField}
    (h : FieldOf around (fieldShape isInterface mods ref) type declared f)
    (hlegible : ∀ m ∈ declared.walk, m.Legible) :
    DeclaresField declared (isInterface || mods.isStatic) type f := by
  cases h with
  | plain hnone =>
    have hany : ∀ value, value ∉ declaredValue declared := fun value h => by
      rw [hnone] at h
      cases h
    exact ⟨rfl, rfl, fun _ => ⟨rfl, rfl⟩, fun value h => absurd h (hany value),
      fun value h => absurd h (hany value)⟩
  | @started value start hsome hstart =>
    have hchild : value ∈ declared.children := List.mem_of_getElem? hsome
    have hlegible' : ∀ m ∈ value.walk, m.Legible := fun m hm =>
      hlegible m (Node.mem_walk_of_child hchild hm)
    have hrun : result (initialValue (attributed value) type) _ { scopes := [[]] } =
        (.ok start, _) := Prod.ext hstart rfl
    have honly : ∀ v ∈ declaredValue declared, v = value := fun v hv =>
      Option.some.inj (hv.symm.trans hsome)
    refine ⟨rfl, rfl, fun h => ?_, fun v hv => ?_, fun v hv hliteral => ?_⟩
    · rw [hsome] at h
      cases h
    · obtain rfl := honly v hv
      exact ⟨initialValue_writes (attributed_writes v hlegible') type _ _ _ _ trivial hrun, rfl⟩
    · obtain rfl := honly v hv
      obtain ⟨m, hm⟩ := (isLiteral_iff v).1 hliteral
      have hformed := (hlegible' m (Node.mem_walk_of_literal hm)).literal hm.kind_eq
      exact ⟨m, hm, hm.initialValue_answers hformed type _ _ _ _ trivial hrun⟩

namespace Generator

open ClassPart

/-- Where the fields of a class or interface are initialized. Each of them is a declared variable. One
without an initial value starts with none, and any other one has a text to start with. If it is
static, then it is stored with this text if the value is a literal, possibly signed or in parentheses,
and otherwise it is assigned the text, once, when the class or protocol is initialized. What is
stored is a constant of C exactly if the literal is one by itself and is not boxed, because it is
primitive and the type of the variable takes objects. -/
theorem static_initialization {g : Generator} {path source : Text} {cu : Node}
    {unit : GeneratedUnit} {decl : Node} (hparsed : parseForGeneration path source = .ok cu)
    (hunit : g.generateUnit path cu = .ok unit) (hprimary : primaryType? cu = some decl) :
    ∀ f ∈ unit.model.fields, ∃ n ∈ decl.members, ∃ type ∈ n.children[1]?,
      ∃ declared ∈ n.childrenOf .varDeclarator, n.kind = .fieldDecl ∧
        DeclaresField declared ((ClassSignature.ofDecl decl).isInterface ||
          (Modifiers.ofDecl n).isStatic) (JavaType.ofNode type) f ∧
        (f.isStatic = true → (declaredValue declared).isSome = true →
          if f.isConstant then unit.model.Stores f else unit.model.Assigns f) := by
  obtain ⟨htree, hclean⟩ := derives_of_parseForGeneration hparsed
  have hkind := htree.unit_kind hclean
  obtain ⟨decl', supertypes, rows, imports, hprimary', -, hdecl, -, htrace, hmodel⟩ :=
    generateUnit_parts hkind hclean hunit
  obtain rfl : decl = decl' := Option.some.inj (hprimary.symm.trans hprimary')
  have hfields : unit.model.fields =
      firstBy TargetField.name (rows.flatten.filterMap field?) := by
    rw [hmodel]
    exact htrace.fields_eq
  have hnodup : (unit.model.fields.map TargetField.name).Nodup := by
    rw [hfields]
    exact firstBy_keys_nodup _ _
  intro f hf
  have hadded := (firstBy_sublist _ _).subset (hfields ▸ hf)
  obtain ⟨part, hpart, hfield⟩ := List.mem_filterMap.1 hadded
  obtain ⟨row, hrow, hpart⟩ := List.mem_flatten.1 hpart
  obtain ⟨n, hn, hcontributes⟩ := exists_of_mem_forall₂ htrace.members hrow
  cases hcontributes with
  | @fields type ref fields hkind htype href hall =>
    obtain ⟨f', hf', rfl⟩ := List.mem_map.1 hpart
    obtain rfl : f' = f := Option.some.inj hfield
    obtain ⟨declared, hdeclared, hfieldOf⟩ := exists_of_mem_forall₂ hall hf'
    have hchild : declared ∈ n.children := (List.mem_filter.1 hdeclared).1
    have hlegible : ∀ m ∈ declared.walk, m.Legible := fun m hm =>
      legible_of_parseForGeneration hparsed m <| Node.mem_walk_of_child hdecl <|
        Node.mem_walk_of_member hn <| Node.mem_walk_of_child hchild hm
    have hdeclares := declaresField_of_fieldOf hfieldOf hlegible
    refine ⟨n, hn, type, htype, declared, hdeclared, hkind, hdeclares, fun hstatic hsome => ?_⟩
    obtain ⟨value, hvalue⟩ := Option.isSome_iff_exists.1 hsome
    exact ClassModel.stores_or_assigns hnodup hf hstatic (hdeclares.started value hvalue).1
  | method =>
    obtain rfl := List.mem_singleton.1 hpart
    cases hfield
  | block =>
    obtain rfl := List.mem_singleton.1 hpart
    cases hfield
  | empty => cases hpart

/-- A class with a boxed static field. -/
def boxedFieldSource : Text := "class A \x7b static Integer x = 5; \x7d"

/-- The boxed value is stored, though it is no constant of C. -/
theorem static_initialization_boxed :
    ∃ unit decl f, (ofOptions {}).generateUnit "A.java"
        (Entry.compilationUnit.read boxedFieldSource).1 = .ok unit ∧
      primaryType? (Entry.compilationUnit.read boxedFieldSource).1 = some decl ∧
      f ∈ unit.model.fields ∧ unit.model.Stores f ∧ f.init = "@(5)" ∧
      ¬ IsStaticConstant f.init := by
  -- one evaluation, so that the source is read once
  obtain ⟨haccepted, hdeclared, hfields⟩ :
      (Parsed.ofSource .compilationUnit boxedFieldSource).problems = [] ∧
      (primaryType? (Entry.compilationUnit.read boxedFieldSource).1).isSome = true ∧
      ((ofOptions {}).generateUnit "A.java"
        (Entry.compilationUnit.read boxedFieldSource).1).toOption.map
          (fun unit => unit.model.fields.map fun f => (f.init, f.isStatic, f.isConstant)) =
        some [(Text.ofString "@(5)", true, true)] := by decide +kernel
  have hparsed := parseForGeneration_of_accepted "A.java" haccepted
  obtain ⟨decl, hprimary⟩ := Option.isSome_iff_exists.1 hdeclared
  cases hunit : (ofOptions {}).generateUnit "A.java"
      (Entry.compilationUnit.read boxedFieldSource).1 with
  | error f =>
    rw [hunit] at hfields
    cases hfields
  | ok unit =>
    rw [hunit] at hfields
    have hlisted : (Text.ofString "@(5)", true, true) ∈
        unit.model.fields.map fun f => (f.init, f.isStatic, f.isConstant) := by
      rw [show unit.model.fields.map (fun f => (f.init, f.isStatic, f.isConstant)) = _ from
        Option.some.inj hfields]
      exact List.mem_singleton.2 rfl
    obtain ⟨f, hf, hfacts⟩ := List.mem_map.1 hlisted
    simp only [Prod.mk.injEq] at hfacts
    obtain ⟨hinit, hstatic, hconstant⟩ := hfacts
    obtain ⟨n, -, type, -, declared, -, -, hdeclares, hplace⟩ :=
      static_initialization hparsed hunit hprimary f hf
    have hsome : (declaredValue declared).isSome = true := by
      rw [Option.isSome_iff_ne_none]
      intro hnone
      have hempty := (hdeclares.plain hnone).1
      rw [hinit] at hempty
      cases hempty
    have hstores := hplace hstatic hsome
    rw [if_pos hconstant] at hstores
    refine ⟨unit, decl, f, rfl, hprimary, hf, hstores, hinit, ?_⟩
    rw [hinit]
    exact not_isStaticConstant_boxed (t := Text.ofString "5")

end Generator

end JavaObjC
