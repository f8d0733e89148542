import JavaObjC.Proofs.Grouping.Updates
import JavaObjC.Proofs.Shifts.Terms

/-!
# The value of an unsigned shift

An unsigned shift casts its left operand to a type without a sign, shifts it,
and casts the result back. The cast is not put around the operand: it stands in
front of its text. The main statement says that the code nonetheless has the
value of the Java expression, as long as no more stands between the cast and
the shift than sums, differences, products and shifts to the left of the same
width, which give the same bits with a sign and without one. A quotient, a
remainder or a signed shift there is computed without a sign.
-/

namespace JavaObjC

open C Lowering

namespace Term

/-- The value of an expression in Java, given what its operands are; dividing by zero gives none. -/
def number? (env : Operand → Int) : Term → Option Int
  | operand o => some (env o)
  | group _ t => t.number? env
  | sign mark _ _ t => (t.number? env).map fun x => t.width.signed (mark.unbounded x)
  | operation op _ _ l r => (l.number? env).bind fun x => (r.number? env).bind fun y =>
    op.result? l.width r.width x y

/-- The operands have the same numbers in the code, in the range of their widths. -/
def Agrees (given : Expr → Option Number) (env : Operand → Int) : Term → Prop
  | operand o => o.expr.number? given = some ⟨⟨o.width, true⟩, env o⟩ ∧ o.width.Holds (env o)
  | group _ t => t.Agrees given env
  | sign _ _ _ t => t.Agrees given env
  | operation _ _ _ l r => l.Agrees given env ∧ r.Agrees given env

/-- Every shift has a count in the range of its width. -/
def CountsFit (env : Operand → Int) : Term → Prop
  | operand _ => True
  | group _ t => t.CountsFit env
  | sign _ _ _ t => t.CountsFit env
  | operation op _ _ l r => l.CountsFit env ∧ r.CountsFit env ∧
    (op.isShift = true → ∀ y ∈ r.number? env, 0 ≤ y ∧ y < l.width.bits)

/-- Whether a cast in front of an expression to a type of some width without a sign leaves its bits
as they are: it is put in front of a single operand, or of operations that wrap, of this width. -/
def wraps (w : Width) : Term → Bool
  | operation op _ _ l r =>
    op == .ushr || (op.wraps && op.resultWidth l.width r.width == w && l.wraps w)
  | _ => true

/-- Whether every unsigned shift has a left operand whose bits the cast leaves as they are. -/
def isSafe : Term → Bool
  | operand _ => true
  | group _ t => t.isSafe
  | sign _ _ _ t => t.isSafe
  | operation op _ _ l r => l.isSafe && r.isSafe && (op != .ushr || l.wraps l.width)

section Values

variable {around : Surroundings} {scopes : List Scope} {given : Expr → Option Number}
  {env : Operand → Int} {t : Term} {x : Int}

/-- The value of an expression is in the range of its width. -/
theorem Agrees.holds (h : t.Agrees given env) (hx : t.number? env = some x) : t.width.Holds x := by
  induction t generalizing x with
  | operand o => exact Option.some.inj hx ▸ h.2
  | group span t ih => exact ih h hx
  | sign mark span place t ih =>
    obtain ⟨y, -, rfl⟩ := Option.map_eq_some_iff.1 hx
    exact Width.holds_signed _
  | operation op span place l r ihl ihr =>
    obtain ⟨y, -, hx⟩ := Option.bind_eq_some_iff.1 hx
    obtain ⟨z, -, hx⟩ := Option.bind_eq_some_iff.1 hx
    exact Operator.holds_of_result? hx

/-- How the operators of integers are found, and how the casts are read. -/
theorem operators_spec : (∀ op : Operator, op ≠ .ushr →
      Text.find? operators op.spelling = some op) ∧
    Text.find? operators ">>" = some .shr ∧
    ∀ w : Width, IntType.ofWords? (signedWords w) = some ⟨w, true⟩ ∧
      IntType.ofWords? (unsignedWords w) = some ⟨w, false⟩ := by
  refine ⟨fun op => ?_, by decide, fun w => ?_⟩
  · cases op <;> decide
  · cases w <;> decide

/-- A sign gives in the code what it gives in Java. -/
theorem applySign?_spelling (mark : IntegerSign) (x : Int) :
    applySign? mark.spelling x = some (mark.unbounded x) := by
  cases mark <;> rfl

/-- An operator between two expressions with the values of two expressions. -/
theorem number?_operation {op : Operator} {a b : Expr} (hop : op ≠ .ushr) :
    (Expr.operation op.spelling a b).number? given =
      (a.number? given).bind fun n => (b.number? given).bind fun m => Number.apply op n m := by
  rw [Expr.number?, operators_spec.1 op hop]

/-- A cast that a shift puts in front of an expression. -/
theorem number?_cast {w : Width} {e : Expr} :
    (Expr.cast (unsignedWords w) e).number? given =
        (e.number? given).map (Number.convert ⟨w, false⟩) ∧
      (Expr.cast (signedWords w) e).number? given =
        (e.number? given).map (Number.convert ⟨w, true⟩) := by
  obtain ⟨hsigned, hunsigned⟩ := operators_spec.2.2 w
  constructor
  · rw [Expr.number?, hunsigned]
  · rw [Expr.number?, hsigned]

/-- What an expression gives with a cast in front of it to a type without a sign. -/
def GivesUnsigned (given : Expr → Option Number) (env : Operand → Int) (t : Term) (w : Width) :
    Prop :=
  ((Frame.cast (unsignedWords w)).plug t.expr).number? given =
    (t.number? env).map fun x => ⟨⟨w, false⟩, w.unsigned x⟩

/-- What an expression gives. -/
def GivesSigned (given : Expr → Option Number) (env : Operand → Int) (t : Term) : Prop :=
  t.expr.number? given = (t.number? env).map (⟨⟨t.width, true⟩, ·⟩)

/-- A cast in front of a single operand. -/
theorem GivesSigned.unsigned {w : Width} (h : GivesSigned given env t)
    (hunary : t.expr.isUnary = true) : GivesUnsigned given env t w := by
  have hplug : (Frame.cast (unsignedWords w)).plug t.expr = .cast (unsignedWords w) t.expr :=
    plug_of_isUnary hunary
  rw [GivesUnsigned, hplug, number?_cast.1, h, Option.map_map]
  rfl

/-- What a value and another one make of an operator that is not defined for all of them. -/
theorem bind_bind_congr {α β γ δ : Type} {o : Option α} {o' : Option β} {f : α → β → Option γ}
    {g : α → β → Option δ} {k : γ → δ} (h : ∀ a ∈ o, ∀ b ∈ o', g a b = (f a b).map k) :
    (o.bind fun a => o'.bind fun b => g a b) = (o.bind fun a => o'.bind fun b => f a b).map k := by
  cases o with
  | none => rfl
  | some a =>
    cases o' with
    | none => rfl
    | some b => exact h a rfl b rfl

/-- An operation of two expressions gives what it gives in Java. -/
theorem GivesSigned.operation {op : Operator} {span place : Span} {l r : Term} (hop : op ≠ .ushr)
    (hl : GivesSigned given env l) (hr : GivesSigned given env r) (hleft : l.Agrees given env)
    (hright : r.Agrees given env)
    (hcount : op.isShift = true → ∀ y ∈ r.number? env, 0 ≤ y ∧ y < l.width.bits) :
    GivesSigned given env (.operation op span place l r) := by
  have hexpr : (Term.operation op span place l r).expr = .operation op.spelling l.expr r.expr :=
    if_neg hop
  rw [GivesSigned, hexpr, number?_operation hop, hl, hr, Option.bind_map]
  simp only [Option.bind_map, Function.comp_def]
  exact bind_bind_congr fun x hx y hy => Number.apply_signed hop (hleft.holds hx) (hright.holds hy)
    fun hshift => hcount hshift y hy

/-- An unsigned shift gives what it gives in Java, if the cast leaves the bits of its left operand
as they are. -/
theorem GivesSigned.ushr {span place : Span} {l r : Term} (hl : GivesUnsigned given env l l.width)
    (hr : GivesSigned given env r) (hcount : ∀ y ∈ r.number? env, 0 ≤ y ∧ y < l.width.bits) :
    GivesSigned given env (.operation .ushr span place l r) := by
  have hshr : ∀ a b : Expr, (Expr.operation ">>" a b).number? given =
      (a.number? given).bind fun n => (b.number? given).bind fun m => Number.apply .shr n m :=
    fun a b => by rw [Expr.number?, operators_spec.2.1]
  change (shiftExpr l.width l.expr r.expr).number? given = _
  rw [shiftExpr, number?_cast.2, Expr.number?, hshr, hl, hr, Option.bind_map, Option.map_bind]
  simp only [Option.bind_map, Option.map_bind, Function.comp_def]
  exact bind_bind_congr fun x _ y hy => Number.apply_ushr (hcount y hy)

/-- A cast in front of an operation that wraps is a cast in front of its left operand. -/
theorem GivesUnsigned.operation {op : Operator} {span place : Span} {l r : Term}
    (hop : op.wraps = true) (hl : GivesUnsigned given env l (op.resultWidth l.width r.width))
    (hr : GivesSigned given env r)
    (hcount : op.isShift = true → ∀ y ∈ r.number? env, 0 ≤ y ∧ y < l.width.bits) :
    GivesUnsigned given env (.operation op span place l r) (op.resultWidth l.width r.width) := by
  have hne : op ≠ .ushr := fun h => by rw [h] at hop; cases hop
  have hexpr : (Term.operation op span place l r).expr = .operation op.spelling l.expr r.expr :=
    if_neg hne
  have hplug : ∀ ws : List Text, (Frame.cast ws).plug (.operation op.spelling l.expr r.expr) =
      .operation op.spelling ((Frame.cast ws).plug l.expr) r.expr := fun ws => if_pos rfl
  rw [GivesUnsigned, hexpr, hplug, number?_operation hne, hl, hr, Option.bind_map]
  simp only [Option.bind_map, Function.comp_def]
  exact bind_bind_congr fun x _ y hy => Number.apply_unsigned hop fun hshift => hcount hshift y hy

/-- What an expression gives in the code, alone and with a cast in front of it. -/
theorem Stands.gives (h : t.Stands around scopes) (hsafe : t.isSafe = true)
    (hagrees : t.Agrees given env) (hcounts : t.CountsFit env) :
    GivesSigned given env t ∧ ∀ w, t.wraps w = true → GivesUnsigned given env t w := by
  induction t with
  | operand o =>
    have hsigned : GivesSigned given env (.operand o) := hagrees.1
    exact ⟨hsigned, fun w _ => hsigned.unsigned h.unary⟩
  | group span t ih =>
    have hsigned : GivesSigned given env (.group span t) := (ih h.1 hsafe hagrees hcounts).1
    exact ⟨hsigned, fun w _ => hsigned.unsigned rfl⟩
  | sign mark span place t ih =>
    have hinner : GivesSigned given env t := (ih h.1 hsafe hagrees hcounts).1
    have hsigned : GivesSigned given env (.sign mark span place t) := by
      change (Expr.sign mark.spelling t.expr).number? given = ((t.number? env).map _).map _
      rw [Expr.number?, hinner]
      simp only [Option.bind_map, Function.comp_def, applySign?_spelling, Option.map_some,
        Option.map_map]
      cases t.number? env <;> rfl
    exact ⟨hsigned, fun w _ => hsigned.unsigned rfl⟩
  | operation op span place l r ihl ihr =>
    obtain ⟨hl, hr, -⟩ := h
    obtain ⟨hboth, hshift⟩ := Bool.and_eq_true_iff.1 hsafe
    obtain ⟨hlsafe, hrsafe⟩ := Bool.and_eq_true_iff.1 hboth
    obtain ⟨hlsigned, hlunsigned⟩ := ihl hl hlsafe hagrees.1 hcounts.1
    have hrsigned := (ihr hr hrsafe hagrees.2 hcounts.2.1).1
    have hcount := hcounts.2.2
    by_cases hop : op = .ushr
    · subst hop
      have hsigned : GivesSigned given env (.operation .ushr span place l r) :=
        .ushr (hlunsigned l.width hshift) hrsigned (hcount rfl)
      exact ⟨hsigned, fun w _ => hsigned.unsigned rfl⟩
    · refine ⟨.operation hop hlsigned hrsigned hagrees.1 hagrees.2 hcount, fun w hw => ?_⟩
      have hw : (op.wraps && op.resultWidth l.width r.width == w && l.wraps w) = true := by
        simpa [wraps, hop] using hw
      obtain ⟨hboth, hlw⟩ := Bool.and_eq_true_iff.1 hw
      obtain ⟨hwraps, hwidth⟩ := Bool.and_eq_true_iff.1 hboth
      obtain rfl := beq_iff_eq.1 hwidth
      exact .operation hwraps (hlunsigned _ hlw) hrsigned hcount

end Values

section Assignments

variable {around : Surroundings} {scopes : List Scope} {x : Operand} {r : Term} {span place : Span}
  {mark : Attributed} {array index : Value}

/-- The code for an unsigned shift. -/
theorem code_ushr (h : (operation .ushr span place (.operand x) r).Stands around scopes) :
    (operation .ushr span place (.operand x) r).code.text = unsignedShift x.value r.code :=
  congrArg Value.text (Operator.code_eq h.1.width)

/-- An unsigned shift of a variable by an assignment. -/
theorem renders_assignVariable
    (h : (operation .ushr span place (.operand x) r).Stands around scopes)
    (hmark : mark.literal = Text.ofString ">>>=") (hkind : x.node.kind ≠ .arrayAccess) :
    Renders around scopes (assign [attributed x.node, mark, attributed r.node])
      (.typed (x.value.text ++ " = " ++ (operation .ushr span place (.operand x) r).code.text)
        x.value.type) := by
  have htarget : (attributed x.node).kind ≠ .arrayAccess := by rwa [attributed_kind]
  have hstring : isStringType x.value.type = false := isStringType_of_ofType? h.1.width
  rw [assign_of_variable htarget, assignVariable, hmark, code_ushr h]
  refine h.1.value.bind ?_
  rw [hstring, if_neg (by simp)]
  exact h.2.1.renders.1.bind (.pure _)

/-- An unsigned shift of an element of an array by an assignment. -/
theorem renders_assignElement (h : (operation .ushr span place (.operand x) r).Stands around scopes)
    (hmark : mark.literal = Text.ofString ">>>=") (hkind : x.node.kind = .arrayAccess)
    (harray : Renders around scopes ((attributed x.node).parts.valueAt 0) array)
    (hindex : Renders around scopes ((attributed x.node).parts.valueAt 1) index)
    (hprimitive : array.type.element.isPrimitive = true)
    (hvalue : x.value = .typed (elementText array index) array.type.element) :
    Renders around scopes (assign [attributed x.node, mark, attributed r.node])
      (.typed (boxedStore (slot array index) (operation .ushr span place (.operand x) r).code.text)
        array.type.element) := by
  have htarget : (attributed x.node).kind = .arrayAccess := by rwa [attributed_kind]
  have hequals : Text.ofString ">>>=" ≠ Text.ofString "=" := by decide
  have hshift : Text.dropTail ">>>=" "=" = Text.ofString ">>>" := by decide
  rw [assign_of_element htarget, assignElement, hmark, code_ushr h, hvalue]
  refine harray.bind (hindex.bind (h.2.1.renders.1.bind ?_))
  dsimp only
  rw [if_neg hequals, hprimitive, hshift, if_pos rfl]
  exact .pure _

end Assignments

end Term

/-- Unsigned shifts keep their value. Code is generated for every integer expression, it is read as
one expression, and with the same numbers for the operands that has the value of the Java
expression, whatever they are, as long as the counts of shifts are in the range of the width. The
condition is on what stands between a cast and its shift: operations that give the same bits with
a sign and without one. An assignment with an unsigned shift stores the same code. -/
theorem unsigned_shift_keeps_value (around : Surroundings) (scopes : List Scope) (t : Term)
    (h : t.Stands around scopes) (hsafe : t.isSafe = true) :
    Renders around scopes (attributed t.node).value t.code ∧
      (∃ e, read t.code.unboxed = some e ∧ ∀ given env, t.Agrees given env → t.CountsFit env →
        e.number? given = (t.number? env).map (⟨⟨t.width, true⟩, ·⟩)) ∧
      ∀ x r span place mark, t = .operation .ushr span place (.operand x) r →
        mark.literal = Text.ofString ">>>=" →
        (x.node.kind ≠ .arrayAccess →
          Renders around scopes (assign [attributed x.node, mark, attributed r.node])
            (.typed (x.value.text ++ " = " ++ t.code.text) x.value.type)) ∧
        ∀ array index, x.node.kind = .arrayAccess →
          Renders around scopes ((attributed x.node).parts.valueAt 0) array →
          Renders around scopes ((attributed x.node).parts.valueAt 1) index →
          array.type.element.isPrimitive = true →
          x.value = .typed (elementText array index) array.type.element →
          Renders around scopes (assign [attributed x.node, mark, attributed r.node])
            (.typed (boxedStore (slot array index) t.code.text) array.type.element) := by
  refine ⟨h.renders.1, ⟨t.expr, h.read, fun given env hagrees hcounts => ?_⟩, ?_⟩
  · exact (h.gives hsafe hagrees hcounts).1
  · rintro x r span place mark rfl hmark
    exact ⟨Term.renders_assignVariable h hmark, fun array index hkind =>
      Term.renders_assignElement h hmark hkind⟩

/-- A local as an operand. -/
def localOperand (name : Text) (type : JavaType) (w : Width) : Operand where
  node := .ofToken .identifier ⟨.identifier, {}, name⟩
  value := .typed name type
  expr := .word name
  width := w

/-- A local of an integer type is an operand. -/
theorem localOperand_stands {around : Surroundings} {scopes : List Scope} {name : Text}
    {type : JavaType} {w : Width} (hlocal : Lower.findLocal? name scopes = some type)
    (hprimitive : type.isPrimitive = true) (hwidth : Width.ofType? type = some w)
    (hread : read name = some (.word name)) : (localOperand name type w).Stands around scopes where
  kind := by simp [localOperand, Node.ofToken]
  value := by
    rintro s rfl
    have hlook : (Lower.localType? name).run' around s = (.ok (some type), s) := by
      rw [← hlocal]
      rfl
    exact ⟨s, rfl, by rw [attributed_value]; exact run'_bind hlook⟩
  width := hwidth
  read := by
    have hunboxed : (localOperand name type w).value.unboxed = name :=
      unboxed_of_isPrimitive hprimitive
    rw [hunboxed]
    exact hread
  unary := rfl

/-- The unsigned shift of a difference: `a - b >>> c`. -/
def differenceTerm : Term :=
  .operation .ushr {} {}
    (.operation .sub {} {} (.operand (localOperand "a" .int .int))
      (.operand (localOperand "b" .int .int)))
    (.operand (localOperand "c" .int .int))

/-- The locals of the difference. -/
def differenceScopes : List Scope := [[("a", .int), ("b", .int), ("c", .int)]]

/-- Numbers for the locals: the difference is negative. -/
def differenceNumber (e : Expr) : Option Number :=
  if e = .word "a" then some ⟨⟨.int, true⟩, -8⟩
  else if e = .word "b" then some ⟨⟨.int, true⟩, 1⟩
  else if e = .word "c" then some ⟨⟨.int, true⟩, 28⟩
  else none

/-- The same numbers for the operands. -/
def differenceEnv (o : Operand) : Int := ((differenceNumber o.expr).map Number.value).getD 0

/-- The code for the shift of the difference has the value that Java gives it. -/
theorem unsigned_shift_keeps_value_difference :
    differenceTerm.Stands {} differenceScopes ∧ differenceTerm.isSafe = true ∧
      differenceTerm.Agrees differenceNumber differenceEnv ∧
      differenceTerm.CountsFit differenceEnv ∧
      differenceTerm.code.unboxed = "(int)((unsigned int)a - b >> c)" ∧
      ∃ e, read differenceTerm.code.unboxed = some e ∧
        e.number? differenceNumber = some ⟨⟨.int, true⟩, 15⟩ := by
  have hlocal : ∀ name ∈ ["a", "b", "c"].map Text.ofString,
      (localOperand name .int .int).Stands {} differenceScopes := fun name hname => by
    have hfacts : ∀ name ∈ ["a", "b", "c"].map Text.ofString,
        Lower.findLocal? name differenceScopes = some .int ∧ read name = some (.word name) := by
      decide +kernel
    obtain ⟨hfound, hread⟩ := hfacts name hname
    exact localOperand_stands hfound int_isPrimitive (by decide +kernel) hread
  have hstands : differenceTerm.Stands {} differenceScopes :=
    ⟨⟨hlocal "a" (by decide), hlocal "b" (by decide), by decide +kernel, by decide +kernel⟩,
      hlocal "c" (by decide), by decide +kernel, by decide +kernel⟩
  have hagrees : differenceTerm.Agrees differenceNumber differenceEnv := by
    refine ⟨⟨⟨rfl, ?_⟩, ⟨rfl, ?_⟩⟩, ⟨rfl, ?_⟩⟩ <;> rw [Width.Holds] <;> decide +kernel
  have hcounts : differenceTerm.CountsFit differenceEnv := by
    refine ⟨⟨trivial, trivial, fun h => by cases h⟩, trivial, fun _ y hy => ?_⟩
    obtain rfl : (28 : Int) = y := Option.some.inj hy
    decide
  obtain ⟨-, ⟨e, hread, hvalue⟩, -⟩ :=
    unsigned_shift_keeps_value {} differenceScopes differenceTerm hstands (by decide)
  refine ⟨hstands, by decide, hagrees, hcounts, by decide +kernel, e, hread, ?_⟩
  rw [hvalue differenceNumber differenceEnv hagrees hcounts]
  decide +kernel

end JavaObjC
