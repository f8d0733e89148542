import JavaObjC.Proofs.Arithmetic
import JavaObjC.Proofs.Shifts.Numbers

/-!
# Integer expressions

Expressions that are built from operands of integer types with parentheses,
signs and operators, grouped as Java groups them. What an operand is made of
does not matter: it is any expression with an integer type, boxed or not, that
is read as one operand.

The code for such an expression is always generated, and it is read with the
operands of the expression in place. In front of an unsigned shift stands a
cast, and it takes as much of the left operand as binds more tightly.
-/

namespace JavaObjC

open C Lowering

/-- An action that gives a value whenever some scopes are open, and leaves them open. -/
def Renders {α : Type} (around : Surroundings) (scopes : List Scope) (x : Lower α) (a : α) : Prop :=
  ∀ s : BodyState, s.scopes = scopes → ∃ s', s'.scopes = scopes ∧ x.run' around s = (.ok a, s')

namespace Renders

variable {α β : Type} {around : Surroundings} {scopes : List Scope}

theorem pure (a : α) : Renders around scopes (Pure.pure a) a := fun s hs => ⟨s, hs, rfl⟩

theorem bind {x : Lower α} {f : α → Lower β} {a : α} {b : β} (hx : Renders around scopes x a)
    (hf : Renders around scopes (f a) b) : Renders around scopes (x >>= f) b := by
  intro s hs
  obtain ⟨s₁, hs₁, hrun⟩ := hx s hs
  obtain ⟨s₂, hs₂, hrest⟩ := hf s₁ hs₁
  exact ⟨s₂, hs₂, (run'_bind hrun).trans hrest⟩

end Renders

/-- An operand: the expression, the code for it, how that is read, and its width. -/
structure Operand where
  node : Node
  value : Value
  expr : Expr
  width : Width

/-- The signs in front of an integer. -/
inductive IntegerSign where
  | plus | minus | complement
  deriving DecidableEq

namespace IntegerSign

/-- How a sign is written. -/
def symbol : IntegerSign → Symbol
  | plus => .plus
  | minus => .minus
  | complement => .bitNot

def spelling (mark : IntegerSign) : Text := mark.symbol.spelling

/-- What a sign makes of an integer without bounds. -/
def unbounded : IntegerSign → Int → Int
  | plus, x => x
  | minus, x => -x
  | complement, x => -x - 1

end IntegerSign

/-- How tightly Java binds an operator: its place among the levels of the grammar. -/
def Operator.level (op : Operator) : Nat :=
  4 + Grammar.binaryLevels.findIdx (·.contains (.symbol op.symbol))

/-- The code for an operator between two values. -/
def Operator.code (op : Operator) (l r : Value) : Value :=
  if op = add then .typed (l.unboxed ++ " + " ++ r.unboxed) (promote l.type r.type)
  else applyOperator op.spelling l r

/-- Integer expressions. -/
inductive Term where
  | operand (o : Operand)
  | group (span : Span) (t : Term)
  | sign (mark : IntegerSign) (span place : Span) (t : Term)
  | operation (op : Operator) (span place : Span) (l r : Term)

namespace Term

/-- The tree of an expression. -/
def node : Term → Node
  | operand o => o.node
  | group span t => ⟨.parenExpr, span, none, none, [t.node]⟩
  | sign mark span place t =>
    ⟨.unaryExpr, span, none, none, [operatorLeaf mark.symbol place, t.node]⟩
  | operation op span place l r =>
    ⟨.binaryExpr, span, none, none, [l.node, operatorLeaf op.symbol place, r.node]⟩

/-- The code for an expression. -/
def code : Term → Value
  | operand o => o.value
  | group _ t =>
    { text := "(" ++ t.code.text ++ ")", type := t.code.type, className := t.code.className }
  | sign mark _ _ t => .typed (mark.spelling ++ t.code.unboxed) (numericType t.code.type)
  | operation op _ _ l r => op.code l.code r.code

/-- How tightly Java binds the outermost operator of an expression. -/
def level : Term → Nat
  | operation op _ _ _ _ => op.level
  | _ => 14

/-- The width of an expression. -/
def width : Term → Width
  | operand o => o.width
  | group _ t => t.width
  | sign _ _ _ t => t.width
  | operation op _ _ l r => op.resultWidth l.width r.width

end Term

/-- An operand whose code is generated, has an integer type and is read as one operand. -/
structure Operand.Stands (around : Surroundings) (scopes : List Scope) (o : Operand) : Prop where
  kind : o.node.kind ≠ .binaryExpr
  value : Renders around scopes (attributed o.node).value o.value
  width : Width.ofType? o.value.type = some o.width
  read : C.read o.value.unboxed = some o.expr
  unary : o.expr.isUnary = true

/-- An expression that Java groups as it is built. A boxed operand in parentheses is an operand by
itself. What stands behind a sign does not make another mark with it. -/
def Term.Stands (around : Surroundings) (scopes : List Scope) : Term → Prop
  | .operand o => o.Stands around scopes
  | .group _ t => t.Stands around scopes ∧ isBoxed t.code.type = false
  | .sign mark _ _ t => t.Stands around scopes ∧ t.level = 14 ∧
      (Pending.word mark.spelling).Parts t.code.unboxed
  | .operation op _ _ l r => l.Stands around scopes ∧ r.Stands around scopes ∧
      op.level ≤ l.level ∧ op.level < r.level

section Types

variable {t u : JavaType} {v w : Width}

/-- The types of integers. -/
theorem ofType?_eq_some (h : Width.ofType? t = some w) :
    (numericType t).isPrimitive = true ∧ (numericType t).isArray = false ∧
      (numericType t).name ∈ ["byte", "short", "char", "int", "long"].map Text.ofString ∧
      ((numericType t).name = Text.ofString "long" ↔ w = .long) := by
  have hnames : ∀ name ∈ ["byte", "short", "char", "int", "long"].map Text.ofString,
      name ∈ JavaType.primitiveNames := by decide
  have hshort : ∀ name ∈ ["byte", "short", "char", "int"].map Text.ofString,
      name ≠ Text.ofString "long" := by decide
  unfold Width.ofType? at h
  dsimp only at h
  generalize numericType t = t at h ⊢
  obtain ⟨harray, h⟩ := Option.ite_none_left_eq_some.1 h
  have harray : t.isArray = false := by simpa using harray
  have hmem : t.name ∈ ["byte", "short", "char", "int", "long"].map Text.ofString ∧
      (t.name = Text.ofString "long" ↔ w = .long) := by
    split at h
    · next hname =>
      have hname : t.name ∈ ["byte", "short", "char", "int"].map Text.ofString := by
        simpa using hname
      obtain rfl := Option.some.inj h
      refine ⟨?_, iff_of_false (hshort _ hname) (by decide)⟩
      simp only [List.map_cons, List.map_nil, List.mem_cons, List.not_mem_nil, or_false] at hname ⊢
      tauto
    · obtain ⟨hlong, h⟩ := Option.ite_none_right_eq_some.1 h
      obtain rfl := Option.some.inj h
      exact ⟨by simp [hlong], iff_of_true hlong rfl⟩
  refine ⟨?_, harray, hmem⟩
  rw [JavaType.isPrimitive, harray, Bool.not_false, Bool.true_and, List.contains_iff_mem]
  exact hnames _ hmem.1

/-- The width of a type is that of its numbers. -/
theorem ofType?_numericType (h : Width.ofType? t = some w) :
    Width.ofType? (numericType t) = some w := by
  have hnumeric := numericType_of_isPrimitive (ofType?_eq_some h).1
  unfold Width.ofType? at h ⊢
  rwa [hnumeric]

/-- Two integers are computed with in the wider type. -/
theorem promote_of_ofType? (ht : Width.ofType? t = some v) (hu : Width.ofType? u = some w) :
    promote t u = if v.join w = .long then .long else .int := by
  obtain ⟨hprimitive, -, hmem, hlong⟩ := ofType?_eq_some ht
  obtain ⟨-, -, hmem', hlong'⟩ := ofType?_eq_some hu
  have hnames : ∀ name ∈ ["byte", "short", "char", "int", "long"].map Text.ofString,
      name ≠ Text.ofString "double" ∧ name ≠ Text.ofString "float" := by decide
  obtain ⟨hdouble, hfloat⟩ := hnames _ hmem
  obtain ⟨hdouble', hfloat'⟩ := hnames _ hmem'
  have hjoin : v.join w = .long ↔ v = .long ∨ w = .long := by
    cases v <;> cases w <;> decide
  unfold promote
  dsimp only
  simp only [List.map_cons, List.map_nil, List.find?_cons, hdouble, hdouble', hfloat, hfloat',
    decide_false, Bool.or_self, List.find?_nil, hprimitive, Bool.true_or, if_true, hjoin]
  by_cases hwide : v = .long ∨ w = .long
  · have hname : (decide ((numericType t).name = Text.ofString "long") ||
        decide ((numericType u).name = Text.ofString "long")) = true := by
      simpa [hlong, hlong'] using hwide
    rw [hname, if_pos hwide]
    rfl
  · have hname : (decide ((numericType t).name = Text.ofString "long") ||
        decide ((numericType u).name = Text.ofString "long")) = false := by
      simpa [hlong, hlong'] using hwide
    rw [hname, if_neg hwide]

/-- An integer is no string. -/
theorem isStringType_of_ofType? (h : Width.ofType? t = some w) : isStringType t = false := by
  rw [← Bool.not_eq_true]
  intro hstring
  have hnumeric : numericType t = t := by rw [numericType, primitiveOf?_of_isStringType hstring]
  have hprimitive := (ofType?_eq_some h).1
  rw [hnumeric] at hprimitive
  rw [(primitiveOf?_of_isPrimitive hprimitive).2] at hstring
  cases hstring

end Types

/-- The words of the type without a sign that an unsigned shift casts to. -/
def unsignedWords : Width → List Text
  | .int => ["unsigned", "int"].map Text.ofString
  | .long => ["unsigned", "long", "long"].map Text.ofString

/-- The words of the type that an unsigned shift casts back to. -/
def signedWords : Width → List Text
  | .int => ["int"].map Text.ofString
  | .long => ["long", "long"].map Text.ofString

/-- What an unsigned shift is read as: the cast in front of the left operand takes as much of it as
binds more tightly. -/
def shiftExpr (w : Width) (l r : Expr) : Expr :=
  .cast (signedWords w) (.group (.operation ">>" ((Frame.cast (unsignedWords w)).plug l) r))

/-- What an expression is read as. -/
def Term.expr : Term → Expr
  | operand o => o.expr
  | group _ t => .group t.expr
  | sign mark _ _ t => .sign mark.spelling t.expr
  | operation op _ _ l r =>
    if op = .ushr then shiftExpr l.width l.expr r.expr else .operation op.spelling l.expr r.expr

section Code

variable {op : Operator} {l r : Value} {v w : Width} {a b : Expr}

/-- An operator between two integers: its text and its type. -/
theorem Operator.code_eq (hl : Width.ofType? l.type = some v) : op.code l r =
    .typed (if op = ushr then unsignedShift l r else infixText l.unboxed op.spelling r.unboxed)
      (if op.isShift then numericType l.type else promote l.type r.type) := by
  have hboolean : (numericType l.type).name ≠ Text.ofString "boolean" := fun hname => by
    have hnames :
        Text.ofString "boolean" ∉ ["byte", "short", "char", "int", "long"].map Text.ofString := by
      decide
    exact hnames (hname ▸ (ofType?_eq_some hl).2.2.1)
  cases op with
  | add =>
    have hplus : Text.ofString " + " = Text.ofString " " ++ "+" ++ " " := rfl
    have htext :
        l.unboxed ++ " + " ++ r.unboxed = infixText l.unboxed (spelling add) r.unboxed := by
      rw [infixText, hplus]
      simp only [List.append_assoc]
      rfl
    exact congrArg (Value.typed · (promote l.type r.type)) htext
  | and | xor | or => exact congrArg (Value.typed _) (if_neg hboolean)
  | sub | mul | div | rem | shl | shr | ushr => rfl

/-- The width of what an operator gives. -/
theorem Operator.ofType?_code (hl : Width.ofType? l.type = some v)
    (hr : Width.ofType? r.type = some w) :
    Width.ofType? (op.code l r).type = some (op.resultWidth v w) := by
  have hint : Width.ofType? .int = some .int := by decide
  have hlong : Width.ofType? .long = some .long := by decide
  rw [code_eq hl, Operator.resultWidth]
  dsimp only [Value.typed]
  by_cases hshift : op.isShift = true
  · rw [if_pos hshift, if_pos hshift]
    exact ofType?_numericType hl
  · rw [if_neg hshift, if_neg hshift, promote_of_ofType? hl hr]
    cases v.join w with
    | int => exact hint
    | long => exact hlong

/-- What an operator gives is a primitive. -/
theorem Operator.code_isPrimitive (hl : Width.ofType? l.type = some v)
    (hr : Width.ofType? r.type = some w) : (op.code l r).type.isPrimitive = true := by
  rw [code_eq hl]
  dsimp only [Value.typed]
  split
  · exact (ofType?_eq_some hl).1
  · rw [promote_of_ofType? hl hr]
    split <;> decide

/-- How operators are read and written. -/
theorem Operator.spec : ∀ op : Operator, choiceLevel < op.level ∧ op.level < 14 ∧
    (op ≠ ushr → back op.spelling = .operator op.level ∧ precedence op.spelling = op.level ∧
      words (" " ++ op.spelling ++ " ") = some [op.spelling] ∧
      (Pending.nothing.after (" " ++ op.spelling ++ " ")).isFree = true) := by
  intro op
  cases op <;> decide

/-- Two operands with an operator between them are read as such. -/
theorem read_operator (hop : op ≠ .ushr) (hl : read l.unboxed = some a) (ha : op.level ≤ a.level)
    (hr : read r.unboxed = some b) (hb : op.level < b.level) :
    read (infixText l.unboxed op.spelling r.unboxed) = some (.operation op.spelling a b) := by
  obtain ⟨hlow, hhigh, hspec⟩ := op.spec
  obtain ⟨hback, hlevel, hwords, hfree⟩ := hspec hop
  have htext : infixText l.unboxed op.spelling r.unboxed =
      l.unboxed ++ (" " ++ op.spelling ++ " ") ++ r.unboxed := by
    simp [infixText]
  rw [htext, read_operation hl (isFirm_of_le hlow ha) hwords hback ⟨⟨32, rfl, rfl⟩, hfree⟩ hr]
  exact congrArg some ((plug_operation_iff (hlevel ▸ hlow) (hlevel ▸ hhigh)).2 (hlevel ▸ hb))

/-- A cast in front of a text that is read. -/
theorem read_cast {c t : Text} {ws : List Text}
    (hc : words c = some (Text.ofString "(" :: ws ++ [Text.ofString ")"]))
    (hopen : (State.open []).readAll (Text.ofString "(" :: ws ++ [Text.ofString ")"]) =
      some (.open [.cast ws])) (hfree : (Pending.nothing.after c).isFree = true)
    (ht : read t = some a) : read (c ++ t) = some ((Frame.cast ws).plug a) :=
  read_behind hc hopen rfl (Pending.parts_of_free hfree) ht

/-- An unsigned shift is read as such. -/
theorem read_unsignedShift (hw : Width.ofType? l.type = some v) (hl : read l.unboxed = some a)
    (ha : Operator.level .ushr ≤ a.level) (hr : read r.unboxed = some b)
    (hb : Operator.level .ushr < b.level) : read (unsignedShift l r) = some (shiftExpr v a b) := by
  have hshift : ∀ (signedCast unsignedCast : Text),
      words signedCast = some (Text.ofString "(" :: signedWords v ++ [Text.ofString ")"]) →
      (Pending.nothing.after signedCast).isFree = true →
      words unsignedCast = some (Text.ofString "(" :: unsignedWords v ++ [Text.ofString ")"]) →
      (Pending.nothing.after unsignedCast).isFree = true →
      read (signedCast ++ ("(" ++ (unsignedCast ++ l.unboxed ++ " >> " ++ r.unboxed) ++ ")")) =
        some (shiftExpr v a b) := by
    intro signedCast unsignedCast hsigned hfree hunsigned hfree'
    have hleft : read (unsignedCast ++ l.unboxed) = some ((Frame.cast (unsignedWords v)).plug a) :=
      read_cast hunsigned (by cases v <;> rfl) hfree' hl
    have hlevel : Operator.level .ushr ≤ ((Frame.cast (unsignedWords v)).plug a).level :=
      level_plug_cast.symm ▸ ha
    have hlow : choiceLevel < Operator.level .ushr := (Operator.spec .ushr).1
    have hback : back ">>" = .operator (Operator.level .ushr) := by decide
    have hmark : words " >> " = some [Text.ofString ">>"] := by decide
    have hboth := read_operation hleft (isFirm_of_le hlow hlevel) hmark hback
      ⟨⟨32, rfl, rfl⟩, by decide⟩ hr
    have hprecedence : precedence ">>" = Operator.level .ushr := by decide
    have hwhole : (Frame.operation ((Frame.cast (unsignedWords v)).plug a) ">>").plug b =
        .operation ">>" ((Frame.cast (unsignedWords v)).plug a) b :=
      (plug_operation_iff (hprecedence ▸ hlow) (hprecedence ▸ (Operator.spec .ushr).2.1)).2
        (hprecedence ▸ hb)
    rw [hwhole] at hboth
    exact read_cast hsigned (by cases v <;> rfl) hfree (read_group hboth)
  obtain ⟨-, -, -, hlong⟩ := ofType?_eq_some hw
  cases v with
  | long =>
    have htext : unsignedShift l r = Text.ofString "(long long)" ++ ("(" ++
        (Text.ofString "(unsigned long long)" ++ l.unboxed ++ " >> " ++ r.unboxed) ++ ")") := by
      have hcasts : Text.ofString "(long long)((unsigned long long)" =
          Text.ofString "(long long)" ++ ("(" ++ Text.ofString "(unsigned long long)") := rfl
      rw [unsignedShift, if_pos (hlong.2 rfl), hcasts]
      simp only [List.append_assoc]
    rw [htext]
    exact hshift _ _ (by decide) (by decide) (by decide) (by decide)
  | int =>
    have htext : unsignedShift l r = Text.ofString "(int)" ++ ("(" ++
        (Text.ofString "(unsigned int)" ++ l.unboxed ++ " >> " ++ r.unboxed) ++ ")") := by
      have hcasts : Text.ofString "(int)((unsigned int)" =
          Text.ofString "(int)" ++ ("(" ++ Text.ofString "(unsigned int)") := rfl
      rw [unsignedShift, if_neg (fun h => by cases hlong.1 h), hcasts]
      simp only [List.append_assoc]
    rw [htext]
    exact hshift _ _ (by decide) (by decide) (by decide) (by decide)

end Code

namespace Term

variable {around : Surroundings} {scopes : List Scope} {t : Term}

/-- An expression has the type of its width, and other than an operand it is a primitive. -/
theorem Stands.ofType? (h : t.Stands around scopes) : Width.ofType? t.code.type = some t.width := by
  induction t with
  | operand o => exact h.width
  | group span t ih => exact ih h.1
  | sign mark span place t ih => exact ofType?_numericType (ih h.1)
  | operation op span place l r ihl ihr => exact Operator.ofType?_code (ihl h.1) (ihr h.2.1)

/-- An expression is read as something that binds as tightly as Java binds it, or more so. -/
theorem Stands.level_le (h : t.Stands around scopes) : t.level ≤ t.expr.level := by
  cases t with
  | operand o => exact (level_of_isUnary h.unary).ge
  | group span t => exact le_rfl
  | sign mark span place t => exact le_rfl
  | operation op span place l r =>
    obtain ⟨-, hhigh, hspec⟩ := op.spec
    change op.level ≤ (ite _ _ _ : Expr).level
    split
    · exact hhigh.le
    · next hop => exact (hspec hop).2.1.ge

/-- An expression without an operator between operands at its top is read as one. -/
theorem Stands.isUnary (h : t.Stands around scopes) (hlevel : t.level = 14) :
    t.expr.isUnary = true := by
  cases t with
  | operand o => exact h.unary
  | group span t => rfl
  | sign mark span place t => rfl
  | operation op span place l r => exact absurd hlevel (Nat.ne_of_lt op.spec.2.1)

/-- How signs are read. -/
theorem sign_spec (mark : IntegerSign) : words mark.spelling = some [mark.spelling] ∧
    (State.open []).readAll [mark.spelling] = some (.open [.sign mark.spelling]) ∧
    Pending.nothing.after mark.spelling = .word mark.spelling := by
  cases mark <;> exact ⟨by decide, rfl, rfl⟩

/-- The code for an expression is read with the operands in place. -/
theorem Stands.read (h : t.Stands around scopes) : C.read t.code.unboxed = some t.expr := by
  induction t with
  | operand o => exact Operand.Stands.read h
  | group span t ih =>
    obtain ⟨ht, hboxed⟩ := h
    have hinner : t.code.unboxed = t.code.text := if_neg (by simp [hboxed])
    have houter : (group span t).code.unboxed = "(" ++ t.code.text ++ ")" :=
      if_neg (by simp [code, hboxed])
    rw [houter, ← hinner]
    exact read_group (ih ht)
  | sign mark span place t ih =>
    obtain ⟨ht, hlevel, hparts⟩ := h
    obtain ⟨hwords, hopen, hafter⟩ := sign_spec mark
    have houter : (sign mark span place t).code.unboxed = mark.spelling ++ t.code.unboxed :=
      unboxed_of_isPrimitive (ofType?_eq_some ht.ofType?).1
    have hfill : (Frame.sign mark.spelling).plug t.expr = .sign mark.spelling t.expr :=
      plug_of_isUnary (ht.isUnary hlevel)
    rw [houter]
    exact (read_behind hwords hopen rfl (hafter.symm ▸ hparts) (ih ht)).trans (congrArg some hfill)
  | operation op span place l r ihl ihr =>
    obtain ⟨hl, hr, hleft, hright⟩ := h
    have houter : (operation op span place l r).code.unboxed =
        if op = .ushr then unsignedShift l.code r.code
        else infixText l.code.unboxed op.spelling r.code.unboxed := by
      have hprimitive : (operation op span place l r).code.type.isPrimitive = true :=
        Operator.code_isPrimitive hl.ofType? hr.ofType?
      rw [unboxed_of_isPrimitive hprimitive]
      exact congrArg Value.text (Operator.code_eq hl.ofType?)
    have ha := hleft.trans hl.level_le
    have hb := hright.trans_le hr.level_le
    rw [houter, expr]
    by_cases hop : op = .ushr
    · rw [if_pos hop, if_pos hop]
      exact read_unsignedShift hl.ofType? (ihl hl) (hop ▸ ha) (ihr hr) (hop ▸ hb)
    · rw [if_neg hop, if_neg hop]
      exact read_operator hop (ihl hl) ha (ihr hr) hb

/-- At the left end of a sum what is no sum stands for itself. -/
theorem renders_operands {n : Node} {v : Value} {w : Width} (hn : n.kind ≠ .binaryExpr)
    (hv : Width.ofType? v.type = some w) (hvalue : Renders around scopes (attributed n).value v) :
    Renders around scopes (attributed n).meaning.operands ([v], false) := by
  rw [attributed_operands, leftOperands, if_neg hn, pure_bind]
  have hstring : ([v], isStringType v.type) = ([v], false) := by rw [isStringType_of_ofType? hv]
  rw [attributed_value] at hvalue
  exact hvalue.bind (hstring ▸ .pure _)

/-- An operator between two expressions. -/
theorem renders_operation {op : Operator} {span place : Span} {n m : Node} {l r : Value}
    {v w : Width} (hlw : Width.ofType? l.type = some v) (hrw : Width.ofType? r.type = some w)
    (hl : Renders around scopes (attributed n).value l)
    (hleft : Renders around scopes (attributed n).meaning.operands ([l], false))
    (hr : Renders around scopes (attributed m).value r) :
    Renders around scopes
        (attributed ⟨.binaryExpr, span, none, none, [n, operatorLeaf op.symbol place, m]⟩).value
        (op.code l r) ∧
      Renders around scopes
        (attributed
          ⟨.binaryExpr, span, none, none, [n, operatorLeaf op.symbol place, m]⟩).meaning.operands
        ([op.code l r], false) := by
  have hparts : [n, operatorLeaf op.symbol place, m].map attributed =
      [attributed n, attributed (operatorLeaf op.symbol place), attributed m] := rfl
  have hplus : ∀ op : Operator,
      Text.ofString op.symbol.spelling = Text.ofString "+" ↔ op = .add := by
    intro op
    cases op <;> decide
  have hbinary : binary ([n, operatorLeaf op.symbol place, m].map attributed) =
      if op = .add then Lowering.sum ([n, operatorLeaf op.symbol place, m].map attributed)
      else do
        let l ← (attributed n).value
        let r ← (attributed m).value
        return applyOperator op.spelling l r := by
    simp only [hparts, binary, Parts.valueAt, child_zero, child_succ, pure_bind, attributed_literal,
      operatorLeaf_literal, hplus]
    rfl
  rw [attributed_value, attributed_operands]
  change Renders around scopes (binary ([n, operatorLeaf op.symbol place, m].map attributed)) _ ∧
    Renders around scopes (leftOperands _ ([n, operatorLeaf op.symbol place, m].map attributed)) _
  rw [leftOperands, if_pos rfl]
  by_cases hop : op = .add
  · have hsum : Renders around scopes
        (sumOperands ([n, operatorLeaf op.symbol place, m].map attributed))
        ([op.code l r], false) := by
      simp only [hparts, sumOperands, Parts.valueAt, child_zero, child_succ, pure_bind]
      refine hleft.bind (hr.bind ?_)
      simp only [isStringType_of_ofType? hrw, Bool.or_false, Bool.false_eq_true, if_false]
      rw [Operator.code, if_pos hop]
      exact .pure _
    rw [hbinary, if_pos hop, Lowering.sum]
    refine ⟨hsum.bind (.pure _), ?_⟩
    simp only [hparts, child_zero, child_succ, pure_bind, attributed_literal, operatorLeaf_literal,
      (hplus op).2 hop, beq_self_eq_true, if_true]
    exact hsum
  · have hvalue : Renders around scopes
        (binary ([n, operatorLeaf op.symbol place, m].map attributed)) (op.code l r) := by
      rw [hbinary, if_neg hop]
      refine hl.bind (hr.bind ?_)
      rw [Operator.code, if_neg hop]
      exact .pure _
    have hother : (Text.ofString op.symbol.spelling == Text.ofString "+") = false := by
      rw [← Bool.not_eq_true, beq_iff_eq, hplus]
      exact hop
    refine ⟨hvalue, ?_⟩
    simp only [hparts, child_zero, child_succ, pure_bind, attributed_literal, operatorLeaf_literal,
      hother, Bool.false_eq_true, if_false]
    refine Renders.bind hvalue ?_
    rw [isStringType_of_ofType? (Operator.ofType?_code hlw hrw)]
    exact .pure _

/-- Code is generated for an expression, also at the left end of a sum. -/
theorem Stands.renders (h : t.Stands around scopes) :
    Renders around scopes (attributed t.node).value t.code ∧
      Renders around scopes (attributed t.node).meaning.operands ([t.code], false) := by
  induction t with
  | operand o => exact ⟨h.value, renders_operands h.kind h.width h.value⟩
  | group span t ih =>
    have hvalue :
        Renders around scopes (attributed (group span t).node).value (group span t).code := by
      rw [attributed_value]
      exact (ih h.1).1.bind (.pure _)
    exact ⟨hvalue, renders_operands (by simp [node]) h.ofType? hvalue⟩
  | sign mark span place t ih =>
    have hmarks : ∀ mark : IntegerSign, ¬(Text.ofString mark.symbol.spelling = Text.ofString "++" ∨
        Text.ofString mark.symbol.spelling = Text.ofString "--") ∧
        Text.ofString mark.symbol.spelling ≠ Text.ofString "!" := by
      intro mark
      cases mark <;> decide
    obtain ⟨hstep, hbang⟩ := hmarks mark
    have hvalue : Renders around scopes (attributed (sign mark span place t).node).value
        (sign mark span place t).code := by
      rw [attributed_value]
      change Renders around scopes (unary [attributed (operatorLeaf mark.symbol place),
        attributed t.node]) _
      simp only [unary, child_zero, child_succ, pure_bind, attributed_literal, operatorLeaf_literal,
        if_neg hstep]
      refine (ih h.1).1.bind ?_
      rw [if_neg hbang]
      exact .pure _
    exact ⟨hvalue, renders_operands (by simp [node]) h.ofType? hvalue⟩
  | operation op span place l r ihl ihr =>
    obtain ⟨hl, hr, -⟩ := h
    exact renders_operation hl.ofType? hr.ofType? (ihl hl).1 (ihl hl).2 (ihr hr).1

end Term

end JavaObjC
