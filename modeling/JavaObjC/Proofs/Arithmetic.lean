import JavaObjC.Proofs.Coverage.Expressions
import JavaObjC.Proofs.Generation
import JavaObjC.Proofs.Wording

/-!
# Arithmetic on primitive locals

Expressions over locals of primitive types and plain numbers, built with
parentheses and operators. Every value in such an expression is primitive, so
nothing is boxed, read from a box or printed into a string, and each construct
puts together the texts of its parts with blanks around its operator. The main
statement says that code for such an expression is always generated and says
the same words as the source, so that it is read with the same operands for
every operator.
-/

namespace JavaObjC

open Lexeme (Said Says saidMark followers isLetter isLetterOrDigit isDigit wordKind)

section Primitives

variable {t t' : JavaType}

/-- A primitive type has one of their names and no dimension. -/
theorem JavaType.name_mem_of_isPrimitive (h : t.isPrimitive = true) :
    t.name ∈ JavaType.primitiveNames ∧ t.isArray = false := by
  simpa [isPrimitive, and_comm] using h

/-- A primitive type is neither boxed, a string, left open nor unknown. -/
theorem primitiveOf?_of_isPrimitive (h : t.isPrimitive = true) :
    primitiveOf? t.name = none ∧ isStringType t = false := by
  obtain ⟨hname, harray⟩ := JavaType.name_mem_of_isPrimitive h
  have hnames : ∀ name ∈ JavaType.primitiveNames, primitiveOf? name = none ∧
      simpleName name ≠ Text.ofString "String" ∧ simpleName name ≠ Text.ofString "CharSequence" := by
    decide
  obtain ⟨hboxed, hstring, hchars⟩ := hnames t.name hname
  exact ⟨hboxed, by simp [isStringType, JavaType.simple, hstring, hchars]⟩

/-- A string type is not boxed. -/
theorem primitiveOf?_of_isStringType (h : isStringType t = true) : primitiveOf? t.name = none := by
  have hsimple : t.simple = Text.ofString "String" ∨ t.simple = Text.ofString "CharSequence" := by
    simpa [isStringType] using (Bool.and_eq_true_iff.1 h).2
  have hnames : ∀ name ∈ [Text.ofString "String", Text.ofString "CharSequence"],
      Text.find? boxedPrimitives name = none := by decide
  rw [primitiveOf?, show simpleName t.name = t.simple from rfl, hnames _ (by simpa using hsimple)]
  rfl

/-- A primitive type is known. -/
theorem known_of_isPrimitive (h : t.isPrimitive = true) :
    ¬ (t.name = Text.ofString "null" ∨ t.isUnknown = true) := by
  have hnames : ∀ name ∈ JavaType.primitiveNames,
      ¬ (name = Text.ofString "null" ∨ name.isEmpty = true) := by decide
  exact hnames t.name (JavaType.name_mem_of_isPrimitive h).1

/-- A primitive type is not boxed. -/
theorem isBoxed_of_isPrimitive (h : t.isPrimitive = true) : isBoxed t = false := by
  simp [isBoxed, isBoxedName, (primitiveOf?_of_isPrimitive h).1]

/-- A primitive type is its own numeric type. -/
theorem numericType_of_isPrimitive (h : t.isPrimitive = true) : numericType t = t := by
  simp [numericType, (primitiveOf?_of_isPrimitive h).1]

/-- Only a boxed type stands for another one in arithmetic. -/
theorem numericType_of_isBoxed_eq_false (h : isBoxed t = false) : numericType t = t := by
  unfold numericType
  split
  · next hsome =>
    have harray : t.isArray = true := by simpa [isBoxed, isBoxedName, hsome] using h
    exact if_pos harray
  · rfl

/-- Arithmetic on primitive types gives a primitive type. -/
theorem promote_isPrimitive (h : t.isPrimitive = true) (h' : t'.isPrimitive = true) :
    (promote t t').isPrimitive = true := by
  simp only [promote, numericType_of_isPrimitive h, numericType_of_isPrimitive h', h, Bool.true_or,
    if_true]
  split
  · rename_i name hname
    have hwide : ∀ name ∈ ["double", "float", "long"].map Text.ofString,
        (JavaType.named name).isPrimitive = true := by decide
    exact hwide name (List.mem_of_find?_eq_some hname)
  · decide

theorem int_isPrimitive : JavaType.int.isPrimitive = true := by decide

theorem boolean_isPrimitive : JavaType.boolean.isPrimitive = true := by decide

variable {v : Value}

/-- A primitive value is written as it is. -/
theorem unboxed_of_isPrimitive (h : v.type.isPrimitive = true) : v.unboxed = v.text := by
  simp [Value.unboxed, isBoxed_of_isPrimitive h]

/-- Between primitive types nothing is converted. -/
theorem coerce_of_isPrimitive (h : v.type.isPrimitive = true) (ht : t.isPrimitive = true) :
    v.coerce t = v.text := by
  simp [Value.coerce, ht, isBoxed_of_isPrimitive h]

end Primitives

namespace Lowering

/-- What follows an action that gives a result. -/
theorem run'_bind {α β : Type} {x : Lower α} {f : α → Lower β} {a : α} {around : Surroundings}
    {s s' : BodyState} (h : x.run' around s = (.ok a, s')) :
    (x >>= f).run' around s = (f a).run' around s' := by
  have hbind : (x >>= f).run' around s = _ := Generating.bind_result x f around s
  have hx : Generating.result x around s = (.ok a, s') := h
  rw [hbind, hx]
  rfl

/-- An action that gives a value and changes nothing whenever some scopes are open. -/
def Gives {α : Type} (scopes : List Scope) (x : Lower α) (a : α) : Prop :=
  ∀ (around : Surroundings) (s : BodyState), s.scopes = scopes → x.run' around s = (.ok a, s)

namespace Gives

variable {α β : Type} {scopes : List Scope}

theorem pure (a : α) : Gives scopes (Pure.pure a) a := fun _ _ _ => rfl

/-- Two actions in a row give what the second one does. -/
theorem bind {x : Lower α} {f : α → Lower β} {a : α} {b : β} (hx : Gives scopes x a)
    (hf : Gives scopes (f a) b) : Gives scopes (x >>= f) b := fun around s hs =>
  (run'_bind (hx around s hs)).trans (hf around s hs)

end Gives

/-- A token of letters and digits as a source is split into. -/
structure IsWordToken (t : Token) : Prop where
  front : Lexeme.frontIs isLetter t.literal = true
  inner : ∀ b ∈ t.literal, isLetterOrDigit b = true
  kind : t.kind = wordKind t.literal

namespace IsWordToken

variable {t : Token}

/-- The first letter of such a token and what it goes on with. -/
theorem exists_cons (h : IsWordToken t) : ∃ b front, t.literal = b :: front ∧
    isLetter b = true ∧ ∀ c ∈ front, isLetterOrDigit c = true := by
  obtain ⟨hfront, hinner, -⟩ := h
  cases hliteral : t.literal with
  | nil =>
    rw [hliteral] at hfront
    cases hfront
  | cons b front =>
    rw [hliteral] at hfront hinner
    exact ⟨b, front, rfl, hfront, fun c hc => hinner c (List.mem_cons_of_mem b hc)⟩

/-- Such a token says itself. -/
theorem spoken (h : IsWordToken t) : Says t.literal [(t.kind, t.literal)] := by
  obtain ⟨b, front, hliteral, hb, hfront⟩ := h.exists_cons
  rw [h.kind, hliteral]
  exact .word hb hfront

/-- Such a token is read where neither a letter nor a digit follows it. -/
theorem reads (h : IsWordToken t) {rest : Text} (hrest : Lexeme.frontIs isLetterOrDigit rest = false) :
    Lexeme.wording (t.literal ++ rest) = [(t.kind, t.literal)] ++ Lexeme.wording rest := by
  obtain ⟨b, front, hliteral, hb, hfront⟩ := h.exists_cons
  rw [h.kind, hliteral]
  exact Lexeme.wording_word hb hfront hrest

end IsWordToken

/-- The leaf of an operator. -/
def operatorLeaf (mark : Symbol) (place : Span) : Node :=
  .ofToken .identifier ⟨.symbol mark, place, mark.spelling⟩

/-- The leaf of an operator has its spelling. -/
@[simp] theorem operatorLeaf_literal (mark : Symbol) (place : Span) :
    (operatorLeaf mark place).literal = mark.spelling := rfl

/-- The byte that some words begin with. -/
def firstByte (words : List Said) : Option UInt8 := words.head?.bind (·.2.head?)

/-- A name of a primitive local. -/
structure IsPrimitiveLocal (scopes : List Scope) (t : Token) : Prop where
  word : IsWordToken t
  declared : ∃ type, Lower.findLocal? t.literal scopes = some type ∧ type.isPrimitive = true

/-- Expressions over primitive locals and plain numbers, with the words they are written
with. The operand of a sign does not begin with the same sign, as the two would make
another mark. -/
inductive Arithmetic (scopes : List Scope) : Node → List Said → Prop where
  | name {t : Token} (h : IsPrimitiveLocal scopes t) :
    Arithmetic scopes (.ofToken .identifier t) [(t.kind, t.literal)]
  | number {t : Token} (hkind : t.kind = .intLiteral) (hne : t.literal ≠ [])
    (hdigits : ∀ b ∈ t.literal, isDigit b = true) :
    Arithmetic scopes (.ofToken .literal t) [(t.kind, t.literal)]
  | paren {n : Node} {words : List Said} (span : Span) (h : Arithmetic scopes n words) :
    Arithmetic scopes ⟨.parenExpr, span, none, none, [n]⟩
      (saidMark .lparen :: (words ++ [saidMark .rparen]))
  | signed (mark : Symbol) (span place : Span) {n : Node} {words : List Said}
    (hmark : mark ∈ [.plus, .minus, .bang, .bitNot]) (h : Arithmetic scopes n words)
    (hfront : mark ∈ [.plus, .minus] →
      firstByte words ≠ (Text.ofString mark.spelling).head?) :
    Arithmetic scopes ⟨.unaryExpr, span, none, none, [operatorLeaf mark place, n]⟩
      (saidMark mark :: words)
  | stepBefore (mark : Symbol) (span place : Span) {t : Token}
    (hmark : mark ∈ [.increment, .decrement]) (h : IsPrimitiveLocal scopes t) :
    Arithmetic scopes
      ⟨.unaryExpr, span, none, none, [operatorLeaf mark place, .ofToken .identifier t]⟩
      [saidMark mark, (t.kind, t.literal)]
  | stepAfter (mark : Symbol) (span place : Span) {t : Token}
    (hmark : mark ∈ [.increment, .decrement]) (h : IsPrimitiveLocal scopes t) :
    Arithmetic scopes
      ⟨.postfixExpr, span, none, none, [.ofToken .identifier t, operatorLeaf mark place]⟩
      [(t.kind, t.literal), saidMark mark]
  | operation (mark : Symbol) (span place : Span) {l r : Node} {words more : List Said}
    (hmark : .symbol mark ∈ Grammar.binaryLevels.flatten) (hshift : mark ≠ .ushr)
    (hl : Arithmetic scopes l words) (hr : Arithmetic scopes r more) :
    Arithmetic scopes ⟨.binaryExpr, span, none, none, [l, operatorLeaf mark place, r]⟩
      (words ++ saidMark mark :: more)
  | conditional {c l r : Node} {words yes no : List Said} (span : Span)
    (hc : Arithmetic scopes c words) (hl : Arithmetic scopes l yes)
    (hr : Arithmetic scopes r no) :
    Arithmetic scopes ⟨.ternaryExpr, span, none, none, [c, l, r]⟩
      (words ++ saidMark .question :: (yes ++ saidMark .colon :: no))
  | assignment (mark : Symbol) (span place : Span) {l r : Node} {words more : List Said}
    (hmark : .symbol mark ∈ Grammar.assignOperators) (hshift : mark ≠ .ushrAssign)
    (hl : Arithmetic scopes l words) (hr : Arithmetic scopes r more) :
    Arithmetic scopes ⟨.assignExpr, span, none, none, [l, operatorLeaf mark place, r]⟩
      (words ++ saidMark mark :: more)

/-- A plain number is written as it is. -/
theorem integerLiteral_of_digits {digits : Text} (h : ∀ b ∈ digits, isDigit b = true) :
    integerLiteral digits = .typed digits .int := by
  have hnone : ∀ b, isDigit b = false → b ∉ digits := fun b hb hmem =>
    absurd (h b hmem) (by simp [hb])
  have hsame : Text.replaceByte (Text.byte '_') [] digits = digits := by
    have heach : ∀ b ∈ digits, (if b = Text.byte '_' then [] else [b]) = [b] := fun b hb =>
      if_neg fun heq => hnone _ (by decide) (heq ▸ hb)
    rw [Text.replaceByte, List.flatMap_congr heach, List.flatMap_singleton']
  have hends : ∀ mark : Char, isDigit (Text.byte mark) = false →
      Text.endsWith digits [Text.byte mark] = false := fun mark hmark => by
    rw [Text.endsWith, ← Bool.not_eq_true, List.isSuffixOf_iff_suffix]
    exact fun hsuffix => hnone _ hmark (hsuffix.subset (List.mem_singleton_self _))
  have hl : Text.endsWith digits "l" = false := hends 'l' (by decide)
  have hL : Text.endsWith digits "L" = false := hends 'L' (by decide)
  simp [integerLiteral, hsame, hl, hL]

section Signs

variable {mark : Symbol}

/-- A sign may begin an expression. -/
theorem opens_of_sign (h : mark ∈ [.plus, .minus, .bang, .bitNot]) :
    (Text.ofString mark.spelling).head?.all (Lexeme.openers.contains ·) := by
  revert mark
  decide

/-- A sign is no step. -/
theorem ne_step_of_sign (h : mark ∈ [.plus, .minus, .bang, .bitNot]) :
    ¬ (Text.ofString mark.spelling = Text.ofString "++" ∨
      Text.ofString mark.spelling = Text.ofString "--") := by
  revert mark
  decide

/-- What an expression begins with makes nothing else of a sign than a step. -/
theorem notMem_followers_of_sign (h : mark ∈ [.plus, .minus, .bang, .bitNot]) {b : UInt8}
    (hb : isLetterOrDigit b = true ∨ b ∈ Lexeme.openers)
    (hfront : mark ∈ [.plus, .minus] → some b ≠ (Text.ofString mark.spelling).head?) :
    b ∉ followers mark := by
  have hall : ∀ mark ∈ [Symbol.plus, .minus, .bang, .bitNot], ∀ c ∈ followers mark,
      isLetterOrDigit c = false ∧ (c ∈ Lexeme.openers →
        mark ∈ [Symbol.plus, .minus] ∧ some c = (Text.ofString mark.spelling).head?) := by
    decide +kernel
  intro hmem
  obtain ⟨hletter, hsame⟩ := hall mark h b hmem
  rcases hb with hb | hb
  · exact absurd hb (by simp [hletter])
  · exact hfront (hsame hb).1 (hsame hb).2

/-- A step may begin an expression, and nothing makes anything else of it. -/
theorem step_facts (h : mark ∈ [.increment, .decrement]) :
    (Text.ofString mark.spelling = Text.ofString "++" ∨
      Text.ofString mark.spelling = Text.ofString "--") ∧
    (Text.ofString mark.spelling).head?.all (Lexeme.openers.contains ·) ∧ followers mark = [] ∧
    ∀ rest, Lexeme.frontIs isLetterOrDigit (Text.ofString mark.spelling ++ rest) = false := by
  have hboth : mark = .increment ∨ mark = .decrement := by simpa using h
  rcases hboth with rfl | rfl
  · exact ⟨.inl rfl, by decide, by decide, fun _ => rfl⟩
  · exact ⟨.inr rfl, by decide, by decide, fun _ => rfl⟩

end Signs

/-- A node that gives a primitive value, alone and at the left end of a sum, whose text says
some words. -/
structure Denotes (scopes : List Scope) (n : Node) (words : List Said) (v : Value) : Prop where
  value : Gives scopes (attributed n).value v
  operands : Gives scopes (attributed n).meaning.operands ([v], false)
  primitive : v.type.isPrimitive = true
  spoken : Says v.text words

namespace Denotes

variable {scopes : List Scope} {n l r : Node} {words more : List Said} {v u : Value}

/-- At the left end of a sum a node that is no sum stands for itself. -/
theorem of_value (hn : n.kind ≠ .binaryExpr) (hvalue : Gives scopes (attributed n).value v)
    (hprimitive : v.type.isPrimitive = true) (hspoken : Says v.text words) :
    Denotes scopes n words v where
  value := hvalue
  operands := by
    rw [attributed_operands, leftOperands, if_neg hn, pure_bind]
    have hsum : ([v], isStringType v.type) = ([v], false) := by
      rw [(primitiveOf?_of_isPrimitive hprimitive).2]
    rw [attributed_value] at hvalue
    exact hvalue.bind (hsum ▸ .pure _)
  primitive := hprimitive
  spoken := hspoken

/-- A name of a primitive local stands for itself. -/
theorem name {t : Token} (h : IsPrimitiveLocal scopes t) :
    ∃ type, Denotes scopes (.ofToken .identifier t) [(t.kind, t.literal)]
      (.typed t.literal type) := by
  obtain ⟨type, hlocal, htype⟩ := h.declared
  refine ⟨type, .of_value (by simp [Node.ofToken]) ?_ htype h.word.spoken⟩
  have hlook : Gives scopes (Lower.localType? t.literal) (some type) := by
    rintro around s rfl
    rw [← hlocal]
    rfl
  rw [attributed_value]
  exact hlook.bind (.pure _)

/-- A plain number stands for itself. -/
theorem number {t : Token} (hkind : t.kind = .intLiteral) (hne : t.literal ≠ [])
    (hdigits : ∀ b ∈ t.literal, isDigit b = true) :
    Denotes scopes (.ofToken .literal t) [(t.kind, t.literal)] (.typed t.literal .int) := by
  refine .of_value (by simp [Node.ofToken]) ?_ int_isPrimitive ?_
  · rw [attributed_value]
    change Gives scopes (literal (.ofToken .literal t)) _
    simp only [literal, Node.ofToken, hkind, integerLiteral_of_digits hdigits]
    exact .pure _
  · rw [hkind]
    cases hliteral : t.literal with
    | nil => exact absurd hliteral hne
    | cons b front => exact .digits (hliteral ▸ hdigits)

/-- An expression in parentheses. -/
theorem paren (h : Denotes scopes n words v) (span : Span) :
    ∃ u, Denotes scopes ⟨.parenExpr, span, none, none, [n]⟩
      (saidMark .lparen :: (words ++ [saidMark .rparen])) u := by
  refine ⟨{ text := "(" ++ v.text ++ ")", type := v.type, className := v.className },
    .of_value (by simp) ?_ h.primitive h.spoken.paren⟩
  rw [attributed_value]
  exact h.value.bind (.pure _)

/-- An operator in front of its operand, other than a step. -/
theorem signed {mark : Symbol} (h : Denotes scopes n words v) (span place : Span)
    (hmark : mark ∈ [.plus, .minus, .bang, .bitNot])
    (hfront : mark ∈ [.plus, .minus] → firstByte words ≠ (Text.ofString mark.spelling).head?) :
    ∃ u, Denotes scopes ⟨.unaryExpr, span, none, none, [operatorLeaf mark place, n]⟩
      (saidMark mark :: words) u := by
  have hspoken : Says (Text.ofString mark.spelling ++ v.text) (saidMark mark :: words) :=
    h.spoken.after mark (opens_of_sign hmark) fun b hb =>
      notMem_followers_of_sign hmark (h.spoken.opens hb) fun hsign => by
        rw [← hb]
        exact hfront hsign
  have hstep := ne_step_of_sign hmark
  have hvalue : ∃ type : JavaType, type.isPrimitive = true ∧
      Gives scopes (unary [attributed (operatorLeaf mark place), attributed n])
        (.typed (Text.ofString mark.spelling ++ v.text) type) := by
    simp only [unary, child_zero, child_succ, pure_bind, attributed_literal, operatorLeaf_literal,
      if_neg hstep]
    by_cases hbang : Text.ofString mark.spelling = Text.ofString "!"
    · refine ⟨.boolean, boolean_isPrimitive, h.value.bind ?_⟩
      rw [if_pos hbang, ← hbang, unboxed_of_isPrimitive h.primitive]
      exact .pure _
    · refine ⟨v.type, h.primitive, h.value.bind ?_⟩
      rw [if_neg hbang, unboxed_of_isPrimitive h.primitive, numericType_of_isPrimitive h.primitive]
      exact .pure _
  obtain ⟨type, htype, hgives⟩ := hvalue
  refine ⟨.typed (Text.ofString mark.spelling ++ v.text) type, .of_value (by simp) ?_ htype hspoken⟩
  rw [attributed_value]
  exact hgives

/-- A step of a local, before or after its name. -/
theorem step_gives {t : Token} {type : JavaType} (mark : Symbol)
    (h : Denotes scopes (.ofToken .identifier t) words (.typed t.literal type)) (isBefore : Bool) :
    Gives scopes (step (attributed (.ofToken .identifier t)) mark.spelling isBefore)
      (.typed (if isBefore then Text.ofString mark.spelling ++ t.literal
        else t.literal ++ Text.ofString mark.spelling) type) := by
  obtain ⟨b, front, hspelling, -⟩ := Lexeme.spelling_front mark
  have hkind : ¬ (attributed (.ofToken .identifier t)).kind = .arrayAccess := by
    simp [Node.ofToken]
  have hplain : ¬ isBoxed (Value.typed t.literal type).type = true := by
    rw [isBoxed_of_isPrimitive h.primitive]
    exact Bool.false_ne_true
  simp only [step, hspelling, List.head?_cons, Lower.require, pure_bind, if_neg hkind]
  refine h.value.bind ?_
  rw [if_neg hplain]
  exact .pure _

/-- A step in front of a local. -/
theorem stepBefore {t : Token} {mark : Symbol} (hmark : mark ∈ [.increment, .decrement])
    (h : IsPrimitiveLocal scopes t) (span place : Span) :
    ∃ u, Denotes scopes
      ⟨.unaryExpr, span, none, none, [operatorLeaf mark place, .ofToken .identifier t]⟩
      [saidMark mark, (t.kind, t.literal)] u := by
  obtain ⟨type, htarget⟩ := name h
  obtain ⟨hstep, hopens, hfollowers, -⟩ := step_facts hmark
  have hspoken : Says (Text.ofString mark.spelling ++ t.literal)
      [saidMark mark, (t.kind, t.literal)] :=
    h.word.spoken.after mark hopens (by simp [hfollowers])
  refine ⟨.typed (Text.ofString mark.spelling ++ t.literal) type,
    .of_value (by simp) ?_ htarget.primitive hspoken⟩
  rw [attributed_value]
  change Gives scopes (unary [attributed (operatorLeaf mark place), attributed _]) _
  simp only [unary, child_zero, child_succ, pure_bind, attributed_literal, operatorLeaf_literal,
    if_pos hstep]
  exact step_gives mark htarget true

/-- A step after a local. -/
theorem stepAfter {t : Token} {mark : Symbol} (hmark : mark ∈ [.increment, .decrement])
    (h : IsPrimitiveLocal scopes t) (span place : Span) :
    ∃ u, Denotes scopes
      ⟨.postfixExpr, span, none, none, [.ofToken .identifier t, operatorLeaf mark place]⟩
      [(t.kind, t.literal), saidMark mark] u := by
  obtain ⟨type, htarget⟩ := name h
  obtain ⟨-, -, -, hends⟩ := step_facts hmark
  have hspoken : Says (t.literal ++ Text.ofString mark.spelling)
      [(t.kind, t.literal), saidMark mark] :=
    .before (fun rest => h.word.reads (hends rest)) h.word.spoken
  refine ⟨.typed (t.literal ++ Text.ofString mark.spelling) type,
    .of_value (by simp) ?_ htarget.primitive hspoken⟩
  rw [attributed_value]
  change Gives scopes (postfixOperator [attributed _, attributed (operatorLeaf mark place)]) _
  simp only [postfixOperator, child_zero, child_succ, pure_bind, attributed_literal,
    operatorLeaf_literal]
  exact step_gives mark htarget false

/-- A choice between two values. -/
theorem conditional {c : Node} {yes no : List Said} {w : Value} (hc : Denotes scopes c words w)
    (hl : Denotes scopes l yes v) (hr : Denotes scopes r no u) (span : Span) :
    ∃ u', Denotes scopes ⟨.ternaryExpr, span, none, none, [c, l, r]⟩
      (words ++ saidMark .question :: (yes ++ saidMark .colon :: no)) u' := by
  have hspoken : Says (w.text ++ " ? " ++ v.text ++ " : " ++ u.text)
      (words ++ saidMark .question :: (yes ++ saidMark .colon :: no)) := by
    have hboth := hc.spoken.between (hl.spoken.between hr.spoken .colon) .question
    have hquestion : Text.ofString " ? " = Text.ofString " " ++ Text.ofString "?" ++ Text.ofString " " := by
      decide
    have hcolon : Text.ofString " : " = Text.ofString " " ++ Text.ofString ":" ++ Text.ofString " " := by
      decide
    simpa [hquestion, hcolon, Symbol.spelling] using hboth
  have hknown := known_of_isPrimitive hl.primitive
  refine ⟨.typed (w.text ++ " ? " ++ v.text ++ " : " ++ u.text) v.type,
    .of_value (by simp) ?_ hl.primitive hspoken⟩
  rw [attributed_value]
  refine hc.value.bind (hl.value.bind (hr.value.bind ?_))
  rw [if_neg hknown, unboxed_of_isPrimitive hc.primitive]
  exact .pure _

/-- A sum of two primitive values. -/
theorem sum_gives (hl : Denotes scopes l words v) (hr : Denotes scopes r more u) (op : Attributed) :
    Gives scopes (sumOperands [attributed l, op, attributed r])
      ([.typed (v.text ++ " + " ++ u.text) (promote v.type u.type)], false) := by
  simp only [sumOperands, Parts.valueAt, child_zero, child_succ, pure_bind]
  refine hl.operands.bind (hr.value.bind ?_)
  simp only [(primitiveOf?_of_isPrimitive hr.primitive).2, Bool.or_false, Bool.false_eq_true,
    if_false, unboxed_of_isPrimitive hl.primitive, unboxed_of_isPrimitive hr.primitive]
  exact .pure _

/-- An operator other than an unsigned shift on two primitive values. -/
theorem applyOperator_typed (hv : v.type.isPrimitive = true) (hu : u.type.isPrimitive = true)
    {mark : Symbol} (hshift : mark ≠ .ushr) :
    ∃ type : JavaType, type.isPrimitive = true ∧ applyOperator mark.spelling v u =
      .typed (infixText v.text mark.spelling u.text) type := by
  have hwords : ∀ mark ∈ Symbol.all, mark ≠ .ushr →
      LibraryCall.word (Text.ofString mark.spelling) ≠ ">>>" := by decide
  have hpromote := promote_isPrimitive hv hu
  have hnumeric : (numericType v.type).isPrimitive = true := by
    rwa [numericType_of_isPrimitive hv]
  unfold applyOperator
  rw [unboxed_of_isPrimitive hv, unboxed_of_isPrimitive hu]
  -- one case for each group of operators, in the order of the definition
  split
  · exact absurd ‹_› (hwords mark (Lexeme.mem_all mark) hshift)
  · exact ⟨.boolean, boolean_isPrimitive, by rw [hv]; rfl⟩
  · exact ⟨.boolean, boolean_isPrimitive, by rw [hv]; rfl⟩
  iterate 6 exact ⟨.boolean, boolean_isPrimitive, rfl⟩
  iterate 3
    refine ⟨_, ?_, rfl⟩
    split
    · exact boolean_isPrimitive
    · exact hpromote
  iterate 2 exact ⟨_, hnumeric, rfl⟩
  exact ⟨_, hpromote, rfl⟩

/-- Two operands with an operator between them. -/
theorem operation {mark : Symbol} (hl : Denotes scopes l words v) (hr : Denotes scopes r more u)
    (span place : Span) (hshift : mark ≠ .ushr) :
    ∃ w, Denotes scopes ⟨.binaryExpr, span, none, none, [l, operatorLeaf mark place, r]⟩
      (words ++ saidMark mark :: more) w := by
  have hspoken := hl.spoken.between hr.spoken mark
  have hparts : [l, operatorLeaf mark place, r].map attributed =
      [attributed l, attributed (operatorLeaf mark place), attributed r] := rfl
  by_cases hplus : Text.ofString mark.spelling = Text.ofString "+"
  · have hsum := sum_gives hl hr (attributed (operatorLeaf mark place))
    have htext : v.text ++ " " ++ Text.ofString mark.spelling ++ " " ++ u.text =
        v.text ++ " + " ++ u.text := by
      rw [hplus]
      simp [Text.ofString, String.utf8EncodeChar]
    rw [htext] at hspoken
    refine ⟨.typed (v.text ++ " + " ++ u.text) (promote v.type u.type), ?_, ?_,
      promote_isPrimitive hl.primitive hr.primitive, hspoken⟩
    · rw [attributed_value]
      change Gives scopes (binary ([l, operatorLeaf mark place, r].map attributed)) _
      simp only [hparts, binary, child_zero, child_succ, pure_bind, attributed_literal,
        operatorLeaf_literal, if_pos hplus, sum]
      exact hsum.bind (.pure _)
    · rw [attributed_operands]
      simp only [hparts, leftOperands, if_true, child_zero, child_succ, pure_bind,
        attributed_literal, operatorLeaf_literal, hplus, beq_self_eq_true]
      exact hsum
  · obtain ⟨type, htype, happlied⟩ := applyOperator_typed hl.primitive hr.primitive hshift
    have hvalue : Gives scopes (binary [attributed l, attributed (operatorLeaf mark place),
        attributed r]) (.typed (infixText v.text mark.spelling u.text) type) := by
      simp only [binary, Parts.valueAt, child_zero, child_succ, pure_bind, attributed_literal,
        operatorLeaf_literal, if_neg hplus]
      refine hl.value.bind (hr.value.bind ?_)
      rw [happlied]
      exact .pure _
    refine ⟨.typed (infixText v.text mark.spelling u.text) type, ?_, ?_, htype, hspoken⟩
    · rw [attributed_value]
      exact hvalue
    · have hoperator : (Text.ofString mark.spelling == Text.ofString "+") = false := by
        simpa using hplus
      rw [attributed_operands]
      simp only [hparts, leftOperands, if_true, child_zero, child_succ, pure_bind,
        attributed_literal, operatorLeaf_literal, hoperator, Bool.false_eq_true, if_false]
      have hstring := (primitiveOf?_of_isPrimitive htype).2
      refine Gives.bind hvalue ?_
      simp only [Value.typed, hstring]
      exact .pure _

/-- An assignment to a primitive variable. -/
theorem assignment {mark : Symbol} (hl : Denotes scopes l words v) (hr : Denotes scopes r more u)
    (span place : Span) (hl' : l.kind ≠ .arrayAccess) (hshift : mark ≠ .ushrAssign) :
    ∃ w, Denotes scopes ⟨.assignExpr, span, none, none, [l, operatorLeaf mark place, r]⟩
      (words ++ saidMark mark :: more) w := by
  have hspoken := hl.spoken.between hr.spoken mark
  have hwords : ∀ mark ∈ Symbol.all, mark ≠ .ushrAssign →
      Text.ofString mark.spelling ≠ Text.ofString ">>>=" := by decide
  have hunsigned := hwords mark (Lexeme.mem_all mark) hshift
  have hstring : ¬ (Text.ofString mark.spelling = Text.ofString "+=" ∧
      isStringType v.type = true) := by
    simp [(primitiveOf?_of_isPrimitive hl.primitive).2]
  have hvalue : Gives scopes (assign [attributed l, attributed (operatorLeaf mark place),
      attributed r]) (.typed (infixText v.text mark.spelling u.text) v.type) := by
    simp only [assign, child_zero, child_succ, pure_bind, attributed_literal, attributed_kind,
      operatorLeaf_literal, if_neg hl', assignVariable]
    refine hl.value.bind ?_
    rw [if_neg hstring]
    refine hr.value.bind ?_
    by_cases hassign : Text.ofString mark.spelling = Text.ofString "="
    · have htext : v.text ++ " = " ++ u.coerce v.type = infixText v.text mark.spelling u.text := by
        rw [coerce_of_isPrimitive hr.primitive hl.primitive, hassign]
        simp [infixText, Text.ofString, String.utf8EncodeChar]
      rw [if_pos hassign, htext]
      exact .pure _
    · rw [if_neg hassign, if_neg hunsigned, unboxed_of_isPrimitive hr.primitive]
      exact .pure _
  refine ⟨.typed (infixText v.text mark.spelling u.text) v.type,
    .of_value (by simp) ?_ hl.primitive hspoken⟩
  rw [attributed_value]
  exact hvalue

end Denotes

variable {scopes : List Scope} {n : Node} {words : List Said}

/-- An expression over primitive locals is no element of an array. -/
theorem Arithmetic.kind_ne (h : Arithmetic scopes n words) : n.kind ≠ .arrayAccess := by
  cases h <;> simp [Node.ofToken]

/-- Every expression over primitive locals and plain numbers gives a primitive value that says
its words. -/
theorem Arithmetic.denotes (h : Arithmetic scopes n words) : ∃ v, Denotes scopes n words v := by
  induction h with
  | name h =>
    obtain ⟨type, hname⟩ := Denotes.name h
    exact ⟨_, hname⟩
  | number hkind hne hdigits => exact ⟨_, .number hkind hne hdigits⟩
  | paren span _ ih =>
    obtain ⟨v, hv⟩ := ih
    exact hv.paren span
  | signed mark span place hmark _ hfront ih =>
    obtain ⟨v, hv⟩ := ih
    exact hv.signed span place hmark hfront
  | stepBefore mark span place hmark h => exact Denotes.stepBefore hmark h span place
  | stepAfter mark span place hmark h => exact Denotes.stepAfter hmark h span place
  | operation mark span place _ hshift _ _ ihl ihr =>
    obtain ⟨v, hv⟩ := ihl
    obtain ⟨u, hu⟩ := ihr
    exact hv.operation hu span place hshift
  | conditional span _ _ _ ihc ihl ihr =>
    obtain ⟨w, hw⟩ := ihc
    obtain ⟨v, hv⟩ := ihl
    obtain ⟨u, hu⟩ := ihr
    exact hw.conditional hv hu span
  | assignment mark span place _ hshift hl _ ihl ihr =>
    obtain ⟨v, hv⟩ := ihl
    obtain ⟨u, hu⟩ := ihr
    exact hv.assignment hu span place hl.kind_ne hshift

/-- Code for every expression over primitive locals and plain numbers is generated, without
changing anything, and keeps its words: the text says what the expression is written with, so
that it is read like every source that says so, with the same tree but for places and the same
problems. -/
theorem arithmetic_keeps_wording {s : BodyState} (h : Arithmetic s.scopes n words)
    (around : Surroundings) :
    ∃ v, (attributed n).value.run' around s = (.ok v, s) ∧
      Lexeme.wording v.text = words ++ [(.eof, [])] ∧
      ∀ source, Lexeme.wording source = words ++ [(.eof, [])] →
        (Parsed.ofSource .expression v.text).tree.erase =
            (Parsed.ofSource .expression source).tree.erase ∧
          (Parsed.ofSource .expression v.text).problems.map Problem.message =
            (Parsed.ofSource .expression source).problems.map Problem.message := by
  obtain ⟨v, hv⟩ := h.denotes
  refine ⟨v, hv.value around s rfl, hv.spoken.wording_eq, fun source hsource => ?_⟩
  obtain ⟨r, htokens⟩ :=
    Lexeme.exists_pairing_of_wording_eq (hv.spoken.wording_eq.trans hsource.symm)
  exact ⟨(Entry.read_alike htokens .expression).1.erase_eq,
    Problem.map_message_eq (Parsed.problems_alike htokens .expression)⟩

/-- A choice between an assignment and a step, by a comparison. -/
def choiceSource : Text := "-(-a + 1)*b++ > ~c ? a += 2 : --b"

/-- Locals for the choice. -/
def choiceScopes : List Scope := [[("a", .int), ("b", .long)], [("c", .int)]]

/-- A name in the choice. -/
def choiceName (name : Text) : Token := ⟨.identifier, {}, name⟩

/-- A number in the choice. -/
def choiceNumber (digits : Text) : Token := ⟨.intLiteral, {}, digits⟩

/-- An inner node of the choice. -/
def choiceNode (kind : NodeKind) (children : List Node) : Node := ⟨kind, {}, none, none, children⟩

/-- The tree of the choice without its places. -/
def choiceTree : Node :=
  let name := fun word => Node.ofToken .identifier (choiceName word)
  let number := fun digits => Node.ofToken .literal (choiceNumber digits)
  let op := fun mark => operatorLeaf mark {}
  let sum := choiceNode .binaryExpr
    [choiceNode .unaryExpr [op .minus, name "a"], op .plus, number "1"]
  let product := choiceNode .binaryExpr
    [choiceNode .unaryExpr [op .minus, choiceNode .parenExpr [sum]], op .star,
      choiceNode .postfixExpr [name "b", op .increment]]
  choiceNode .ternaryExpr
    [choiceNode .binaryExpr [product, op .gt, choiceNode .unaryExpr [op .bitNot, name "c"]],
      choiceNode .assignExpr [name "a", op .plusAssign, number "2"],
      choiceNode .unaryExpr [op .decrement, name "b"]]

/-- The choice is read as its tree, and so is the code for it. -/
theorem arithmetic_keeps_wording_choice :
    (∃ words, Arithmetic choiceScopes choiceTree words ∧
      Lexeme.wording choiceSource = words ++ [(.eof, [])]) ∧
    (Parsed.ofSource .expression choiceSource).tree.listing none 0 = choiceTree.listing none 0 ∧
    ∀ around : Surroundings, ∃ v,
      ((attributed choiceTree).value.run' around { scopes := choiceScopes }).1 = .ok v ∧
        Lexeme.wording v.text = Lexeme.wording choiceSource ∧
        (Parsed.ofSource .expression v.text).tree.erase =
          (Parsed.ofSource .expression choiceSource).tree.erase := by
  have hlocal : ∀ word ∈ ["a", "b", "c"].map Text.ofString,
      IsPrimitiveLocal choiceScopes (choiceName word) := by
    intro word hword
    have hall : ∀ word ∈ ["a", "b", "c"].map Text.ofString, Lexeme.frontIs isLetter word = true ∧
        word.all isLetterOrDigit = true ∧ TokenKind.identifier = wordKind word ∧
        Lower.findLocal? word choiceScopes ∈ [some .int, some .long] := by decide +kernel
    obtain ⟨hfront, hinner, hkind, hdeclared⟩ := hall word hword
    refine ⟨⟨hfront, List.all_eq_true.1 hinner, hkind⟩, ?_⟩
    simp only [List.mem_cons, List.not_mem_nil, or_false] at hdeclared
    rcases hdeclared with hint | hlong
    · exact ⟨.int, hint, int_isPrimitive⟩
    · exact ⟨.long, hlong, by decide +kernel⟩
  have hnumber : ∀ digits ∈ ["1", "2"].map Text.ofString,
      Arithmetic choiceScopes (.ofToken .literal (choiceNumber digits)) [(.intLiteral, digits)] := by
    intro digits hdigits
    have hall : ∀ digits ∈ ["1", "2"].map Text.ofString,
        digits ≠ [] ∧ digits.all isDigit = true := by decide +kernel
    exact .number rfl (hall digits hdigits).1
      (List.all_eq_true.1 (hall digits hdigits).2)
  have hname := fun word hword => Arithmetic.name (hlocal word hword)
  have hsum := Arithmetic.operation .plus {} {} (by decide) (by decide)
    (.signed .minus {} {} (by decide) (hname "a" (by decide)) (by decide))
    (hnumber "1" (by decide))
  have hproduct := Arithmetic.operation .star {} {} (by decide) (by decide)
    (.signed .minus {} {} (by decide) (hsum.paren {}) (by decide))
    (.stepAfter .increment {} {} (by decide) (hlocal "b" (by decide)))
  have hcondition := Arithmetic.operation .gt {} {} (by decide) (by decide) hproduct
    (.signed .bitNot {} {} (by decide) (hname "c" (by decide)) (by decide))
  have hchoice := Arithmetic.conditional {} hcondition
    (.assignment .plusAssign {} {} (by decide) (by decide) (hname "a" (by decide))
      (hnumber "2" (by decide)))
    (.stepBefore .decrement {} {} (by decide) (hlocal "b" (by decide)))
  obtain ⟨words, hchoice, hsource, htree⟩ : ∃ words, Arithmetic choiceScopes choiceTree words ∧
      Lexeme.wording choiceSource = words ++ [(.eof, [])] ∧
      (Parsed.ofSource .expression choiceSource).tree.listing none 0 =
        choiceTree.listing none 0 := ⟨_, hchoice, by decide +kernel⟩
  refine ⟨⟨words, hchoice, hsource⟩, htree, fun around => ?_⟩
  let s : BodyState := { scopes := choiceScopes }
  have hscopes : Arithmetic s.scopes choiceTree words := hchoice
  obtain ⟨v, hv, hwording, hread⟩ := arithmetic_keeps_wording hscopes around
  exact ⟨v, congrArg Prod.fst hv, hwording.trans hsource.symm, (hread _ hsource).1⟩

end Lowering

end JavaObjC
