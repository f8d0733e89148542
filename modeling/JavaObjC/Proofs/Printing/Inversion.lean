import JavaObjC.Proofs.Printing.Productions
import JavaObjC.Proofs.Reading.Units

/-!
# Reading an expression inverts writing it

The parser of each level reads an expression of that level as its tree and
stands right after its last token. The statement that carries the induction
speaks about a parser that goes on with the tree: it holds for the left operand
of an operator as well as for a whole expression, after which there is nothing
to go on with.
-/

namespace JavaObjC

open Cursor Grammar JavaObjC.Parser

/-- The parser of its level reads an expression and goes on with its tree, if phrases may be
nested as deep as the expression has tokens. -/
def Expression.Readable {l : Level} (e : Expression l) : Prop :=
  ∀ ⦃fuel : Nat⦄ ⦃rest : List Token⦄ ⦃c : Cursor⦄ ⦃out : Node × Cursor⦄, l.Regular →
    e.tokens.length ≤ fuel → Ahead l.Admits rest → c.rest = e.tokens ++ rest →
    l.Resumes (parse fuel) e.tree (c.past e.tokens rest) out → (l.parser (parse fuel)).run c = out

/-- Arguments are read up to the parenthesis that closes them. -/
def Arguments.Readable (items : Arguments) : Prop :=
  ∀ ⦃fuel bound : Nat⦄ ⦃closing : Token⦄ ⦃rest : List Token⦄, items.tokens.length < fuel →
    items.tokens.length < bound → closing.kind = Symbol.rparen → Calm (closing :: rest) →
    ReadsAs (commaListUpTo Symbol.rparen (parse fuel .expression) bound) items.tokens items.trees
      (closing :: rest)

namespace Expression.Readable

variable {fuel : Nat} {rest : List Token}

/-- An expression is read as a whole in front of a token that ends it. -/
theorem reads {l : Level} {e : Expression l} (h : e.Readable) (hl : l.Regular)
    (hfuel : e.tokens.length ≤ fuel) (hrest : Ahead l.Ends rest) :
    ReadsAs (l.parser (parse fuel)) e.tokens e.tree rest := by
  intro c hc
  obtain ⟨t, ts, rfl, ht⟩ := hrest.head
  exact h hl hfuel (hrest.imp Level.Ends.admits) hc (Level.resumes_self rfl ht)

/-- What is written at the level of assignments is read there. -/
theorem reads_expression {e : Expression .assignment} (h : e.Readable)
    (hfuel : e.tokens.length < fuel) (hrest : Ahead Level.assignment.Ends rest) :
    ReadsAs (parse fuel .expression) e.tokens e.tree rest := by
  cases fuel with
  | zero => exact absurd hfuel (Nat.not_lt_zero _)
  | succ fuel => exact h.reads trivial (Nat.le_of_lt_succ hfuel) hrest

/-- What is written at the level of choices is read there. -/
theorem reads_ternary {e : Expression .ternary} (h : e.Readable)
    (hfuel : e.tokens.length < fuel) (hrest : Ahead Level.ternary.Ends rest) :
    ReadsAs (parse fuel .ternary) e.tokens e.tree rest := by
  cases fuel with
  | zero => exact absurd hfuel (Nat.not_lt_zero _)
  | succ fuel => exact h.reads trivial (Nat.le_of_lt_succ hfuel) hrest

/-- What is written at the level of prefix operators is read there. -/
theorem reads_unary {e : Expression (.binary [])} (h : e.Readable)
    (hfuel : e.tokens.length < fuel) (hrest : Ahead (Level.binary []).Ends rest) :
    ReadsAs (parse fuel .unary) e.tokens e.tree rest := by
  cases fuel with
  | zero => exact absurd hfuel (Nat.not_lt_zero _)
  | succ fuel => exact h.reads List.nil_suffix (Nat.le_of_lt_succ hfuel) hrest

section Levels

variable {operators : List TokenKind} {tighter : List (List TokenKind)}

/-- An assignment is read back when both of its sides are: the right side is read as far as it goes.
-/
theorem assign {left : Expression .ternary} {operator : Token.Among assignOperators}
    {right : Expression .assignment} (hleft : left.Readable) (hright : right.Readable) :
    (Expression.assign left operator right).Readable := by
  intro fuel rest c out _ hfuel hrest hc hout
  have hlambda := (Expression.assign left operator right).startsLambda_run trivial hrest hc
  obtain rfl : out = _ := hout
  simp only [tokens, List.append_assoc, List.cons_append, List.length_append, List.length_cons]
    at hc hfuel
  have hoperator : Ahead Level.ternary.Ends (operator.1 :: (right.tokens ++ rest)) :=
    ⟨List.mem_append_right _ operator.2,
      operator.calm (by decide) (right.calm trivial hrest.calm)⟩
  exact expression_assign hc hlambda left.tokens_ne_nil left.tree_span operator.2
    (hleft.reads trivial (by omega) hoperator) (hright.reads_expression (by omega) hrest)

/-- A choice or less is read as an assignment without operator. -/
theorem ofTernary {e : Expression .ternary} (h : e.Readable) :
    (Expression.ofTernary e).Readable := by
  intro fuel rest c out _ hfuel hrest hc hout
  have hends : Ahead Level.ternary.Ends rest := hrest.imp Level.ends_ternary
  have hlambda := e.startsLambda_run trivial hends hc
  obtain rfl : out = _ := hout
  have hread := h.reads trivial hfuel hends
  obtain ⟨t, ts, rfl, ht⟩ := hrest.head
  exact expression_plain hc hlambda ((by decide : ∀ k ∈ closers, k ∉ assignOperators) _ ht) hread

/-- A choice is read back when its three parts are. -/
theorem conditional {condition : Expression (.binary binaryLevels)}
    {question : Token.Among [Symbol.question]} {yes : Expression .assignment}
    {colon : Token.Among [Symbol.colon]} {no : Expression .ternary}
    (hcondition : condition.Readable) (hyes : yes.Readable) (hno : no.Readable) :
    (Expression.conditional condition question yes colon no).Readable := by
  intro fuel rest c out _ hfuel hrest hc hout
  obtain rfl : out = _ := hout
  simp only [tokens, List.append_assoc, List.cons_append, List.length_append, List.length_cons]
    at hc hfuel
  have hcolon : Ahead Level.assignment.Ends (colon.1 :: (no.tokens ++ rest)) :=
    ⟨colon.kind_mem (by decide), colon.calm (by decide) (no.calm trivial hrest.calm)⟩
  have hquestion : Ahead (Level.binary binaryLevels).Ends
      (question.1 :: (yes.tokens ++ colon.1 :: (no.tokens ++ rest))) :=
    ⟨by rw [question.kind_eq]; exact Level.ends_question,
      question.calm (by decide) (yes.calm trivial hcolon.calm)⟩
  exact ternary_conditional hc condition.tokens_ne_nil condition.tree_span question.kind_eq
    colon.kind_eq (hcondition.reads (List.suffix_refl _) (by omega) hquestion)
    (hyes.reads_expression (by omega) hcolon) (fun c hc => no.startsLambda_run trivial hrest hc)
    (hno.reads_ternary (by omega) hrest)

/-- An operation or less is read as a choice without a question mark. -/
theorem ofBinary {e : Expression (.binary binaryLevels)} (h : e.Readable) :
    (Expression.ofBinary e).Readable := by
  intro fuel rest c out _ hfuel hrest hc hout
  obtain rfl : out = _ := hout
  have hread := h.reads (List.suffix_refl _) hfuel (hrest.imp Level.ends_binary)
  obtain ⟨t, ts, rfl, ht⟩ := hrest.head
  exact ternary_plain hc
    ((by decide : ∀ k ∈ closers ++ assignOperators, k ≠ Symbol.question) _ ht) hread

/-- An operation is read back by the loop over the operators of its level. -/
theorem operation {left : Expression (.binary (operators :: tighter))}
    {operator : Token.Among (operators.filter (· ≠ Keyword.instanceofKw))}
    {right : Expression (.binary tighter)} (hleft : left.Readable) (hright : right.Readable) :
    (Expression.operation left operator right).Readable := by
  intro fuel rest c out hl hfuel hrest hc hout
  have hoperator := List.mem_of_mem_filter operator.2
  have hword : operator.1.kind ≠ Keyword.instanceofKw := by
    simpa using (List.mem_filter.1 operator.2).2
  have hbinary := (hl.operator hoperator).1
  simp only [tokens, List.append_assoc, List.cons_append, List.length_append, List.length_cons]
    at hc hfuel
  have hread : ReadsAs (Grammar.binary (parse fuel) tighter) right.tokens right.tree rest :=
    hright.reads hl.tighter (by omega) (hrest.imp Level.ends_tighter)
  have hafter : Ahead (Level.binary (operators :: tighter)).Admits
      (operator.1 :: (right.tokens ++ rest)) :=
    ⟨Level.admits_operator hl hoperator,
      right.calm_operator (right.calm hl.tighter hrest.calm) hbinary⟩
  refine hleft hl (by omega) hafter hc (.go (binaryStep_past left.tokens_ne_nil
    left.tree_span hoperator hword (ne_eof_of_mem hbinary (by decide)) hread) ?_ hout)
  simp only [past_rest, List.length_cons, List.length_append]
  omega

/-- What binds tighter is read at a level whose loop does not start. -/
theorem ofTighter {e : Expression (.binary tighter)} (h : e.Readable) :
    (.ofTighter e : Expression (.binary (operators :: tighter))).Readable := by
  intro fuel rest c out hl hfuel hrest hc hout
  have hread := h.reads hl.tighter hfuel (hrest.imp Level.ends_tighter)
  rw [Level.parser, Grammar.binary]
  exact (bind_of_run (hread c hc)).trans hout.loop_run

/-- A prefix operator is read before its operand. -/
theorem signed {operator : Token.Among prefixOperators} {operand : Expression (.binary [])}
    (h : operand.Readable) : (Expression.signed operator operand).Readable := by
  intro fuel rest c out hl hfuel hrest hc hout
  obtain rfl : out = _ := hout
  simp only [tokens, List.length_cons] at hfuel
  exact unary_signed hc operator.2 (h.reads_unary hfuel hrest)

/-- An expression with suffixes is read where no prefix operator or cast begins. -/
theorem ofSuffixed {e : Expression .suffixed} (h : e.Readable) :
    (Expression.ofSuffixed e).Readable := by
  intro fuel rest c out _ hfuel hrest hc hout
  obtain rfl : out = _ := hout
  have hends : Ahead Level.suffixed.Ends rest := hrest.imp Level.ends_suffixed
  have hread := h.reads trivial hfuel hends
  have hcast := e.startsCast_run trivial (hends.imp Level.Ends.admits) hc
  obtain ⟨t, ts, htokens, ht, -⟩ := e.head_append rest
  have hprefix := (by decide : ∀ k ∈ primaryStarts, k ∉ prefixOperators) t.kind ht
  exact (unary_plain (hc.trans htokens) hprefix hcast).trans (hread c hc)

end Levels

section Suffixes

variable {target : Expression .suffixed}

/-- An increment or decrement is read as a suffix. -/
theorem counted {operator : Token.Among [Symbol.increment, Symbol.decrement]}
    (h : target.Readable) : (Expression.counted target operator).Readable := by
  intro fuel rest c out _ hfuel hrest hc hout
  simp only [tokens, List.append_assoc, List.length_append] at hc hfuel
  have hoperator : Ahead Level.suffixed.Admits (operator.1 :: rest) :=
    ⟨Level.admits_suffix (operator.kind_mem (by decide)), operator.calm (by decide) hrest.calm⟩
  refine h trivial (by omega) hoperator hc
    (.go (suffix_counted target.tokens_ne_nil target.tree_span operator.2) ?_ hout)
  exact Nat.lt_succ_self _

/-- An index in brackets is read as a suffix. -/
theorem index {opening : Token.Among [Symbol.lbracket]} {place : Expression .assignment}
    {closing : Token.Among [Symbol.rbracket]} (h : target.Readable) (hplace : place.Readable) :
    (Expression.index target opening place closing).Readable := by
  intro fuel rest c out _ hfuel hrest hc hout
  simp only [tokens, List.append_assoc, List.cons_append, List.nil_append, List.length_append,
    List.length_cons] at hc hfuel
  have hclosing : Ahead Level.assignment.Ends (closing.1 :: rest) :=
    ⟨closing.kind_mem (by decide), closing.calm (by decide) hrest.calm⟩
  have hopening : Ahead Level.suffixed.Admits
      (opening.1 :: (place.tokens ++ closing.1 :: rest)) :=
    ⟨Level.admits_suffix (opening.kind_mem (by decide)),
      opening.calm (by decide) (place.calm trivial hclosing.calm)⟩
  obtain ⟨u, us, hplace', hu⟩ := place.front
  have hunclosed := (by decide : ∀ k ∈ operandStarts, k ≠ Symbol.rbracket) u.kind hu
  refine h trivial (by omega) hopening hc (.go (suffix_index target.tokens_ne_nil
    target.tree_span opening.kind_eq closing.kind_eq hplace' hunclosed
    (hplace.reads_expression (by omega) hclosing)) ?_ hout)
  simp only [past_rest, List.length_cons, List.length_append]
  omega

/-- Arguments in parentheses are read as a suffix. -/
theorem call {target : Expression .callee} {opening : Token.Among [Symbol.lparen]}
    {items : Arguments} {closing : Token.Among [Symbol.rparen]} (h : target.Readable)
    (hitems : items.Readable) : (Expression.call target opening items closing).Readable := by
  intro fuel rest c out _ hfuel hrest hc hout
  simp only [tokens, List.append_assoc, List.cons_append, List.nil_append, List.length_append,
    List.length_cons] at hc hfuel
  have hclosing : Calm (closing.1 :: rest) := closing.calm (by decide) hrest.calm
  have hopening : Ahead Level.callee.Admits (opening.1 :: (items.tokens ++ closing.1 :: rest)) :=
    ⟨by rw [opening.kind_eq]; exact Level.admits_opening,
      opening.calm (by decide) (items.calm hclosing)⟩
  have hread : ReadsAs (commaListBefore Symbol.rparen (parse fuel .expression)) items.tokens
      items.trees (closing.1 :: rest) := by
    intro c hc
    refine hitems (by omega) ?_ closing.kind_eq hclosing c hc
    rw [hc, List.length_append]
    omega
  refine h trivial (by omega) hopening hc (.go (suffix_call target.tokens_ne_nil
    target.tree_span opening.kind_eq closing.kind_eq hread) ?_ hout)
  simp only [past_rest, List.length_cons, List.length_append]
  omega

/-- A member behind a dot is read as a suffix. -/
theorem field {dot : Token.Among [Symbol.dot]}
    {label : Token.Among [.identifier, Keyword.varKw, Keyword.thisKw]} (h : target.Readable) :
    (Expression.field target dot label).Readable := by
  intro fuel rest c out _ hfuel hrest hc hout
  simp only [tokens, List.append_assoc, List.length_append, List.length_cons] at hc hfuel
  have hdot : Ahead Level.suffixed.Admits (dot.1 :: label.1 :: rest) :=
    ⟨Level.admits_suffix (dot.kind_mem (by decide)),
      dot.calm (by decide) (label.calm (by decide) hrest.calm)⟩
  refine h trivial (by omega) hdot hc
    (.go (suffix_field target.tokens_ne_nil target.tree_span dot.kind_eq label.2) ?_ hout)
  simp only [past_rest, List.length_cons]
  omega

/-- A callee is an expression with suffixes. -/
theorem ofCallee {e : Expression .callee} (h : e.Readable) : (Expression.ofCallee e).Readable := by
  intro fuel rest c out _ hfuel hrest hc hout
  exact h trivial hfuel (hrest.imp Level.admits_callee) hc hout

end Suffixes

section Primaries

/-- An expression in parentheses is read where no cast or lambda begins. -/
theorem paren {opening : Token.Among [Symbol.lparen]} {inner : Expression .assignment}
    {closing : Token.Among [Symbol.rparen]} (h : inner.Readable) :
    (Expression.paren opening inner closing).Readable := by
  intro fuel rest c out _ hfuel hrest hc hout
  simp only [tokens, List.append_assoc, List.cons_append, List.nil_append, List.length_append,
    List.length_cons] at hc hfuel
  have hclosing : Ahead Level.assignment.Ends (closing.1 :: rest) :=
    ⟨closing.kind_mem (by decide), closing.calm (by decide) hrest.calm⟩
  exact postfixed_past (primary_paren hc opening.kind_eq closing.kind_eq
    (h.reads_expression (by omega) hclosing)) hout

/-- A literal is read as a leaf. -/
theorem literal (t : Token.Among literalKinds) : (Expression.literal t).Readable := by
  intro fuel rest c out _ _ _ hc hout
  exact postfixed_past (primary_literal hc t.2) hout

/-- The object itself is read as a leaf. -/
theorem this (t : Token.Among [Keyword.thisKw]) : (Expression.this t).Readable := by
  intro fuel rest c out _ _ _ hc hout
  exact postfixed_past (primary_this hc t.kind_eq) hout

/-- A name is read as a leaf where no lambda begins. -/
theorem name (t : Token.Among [.identifier, Keyword.varKw]) : (Expression.name t).Readable := by
  intro fuel rest c out _ _ _ hc hout
  exact postfixed_past (primary_name hc t.2) hout

end Primaries

end Expression.Readable

namespace Arguments.Readable

/-- An empty list of arguments is read back. -/
theorem none : Arguments.none.Readable := by
  intro fuel bound closing rest _ hbound hclosing _
  obtain ⟨bound, rfl⟩ : ∃ m, bound = m + 1 := ⟨bound - 1, by omega⟩
  exact commaListUpTo_nil hclosing

/-- The front of an argument is neither the end of file nor the closing parenthesis. -/
theorem front_open (e : Expression .assignment) :
    ∃ u us, e.tokens = u :: us ∧ u.kind ∉ [.eof, .symbol .rparen] := by
  obtain ⟨u, us, htokens, hu⟩ := e.front
  exact ⟨u, us, htokens,
    (by decide : ∀ k ∈ operandStarts, k ∉ [.eof, TokenKind.symbol .rparen]) u.kind hu⟩

/-- The last argument is read up to the parenthesis. -/
theorem last {e : Expression .assignment} (h : e.Readable) : (Arguments.last e).Readable := by
  intro fuel bound closing rest hfuel hbound hclosing hcalm
  obtain ⟨bound, rfl⟩ : ∃ m, bound = m + 1 := ⟨bound - 1, by omega⟩
  obtain ⟨u, us, htokens, hu⟩ := front_open e
  have hends : Ahead Level.assignment.Ends (closing :: rest) :=
    ⟨by rw [hclosing]; exact List.mem_cons_self, hcalm⟩
  exact commaListUpTo_last htokens hu (by rw [hclosing]; decide) (h.reads_expression hfuel hends)

/-- An argument is read up to its comma, then the others are. -/
theorem more {e : Expression .assignment} {comma : Token.Among [Symbol.comma]}
    {items : Arguments} (h : e.Readable) (hitems : items.Readable) :
    (Arguments.more e comma items).Readable := by
  intro fuel bound closing rest hfuel hbound hclosing hcalm
  obtain ⟨bound, rfl⟩ : ∃ m, bound = m + 1 := ⟨bound - 1, by omega⟩
  simp only [tokens, List.length_append, List.length_cons] at hfuel hbound
  obtain ⟨u, us, htokens, hu⟩ := front_open e
  have hcomma : Ahead Level.assignment.Ends (comma.1 :: (items.tokens ++ closing :: rest)) :=
    ⟨comma.kind_mem (by decide), comma.calm (by decide) (items.calm hcalm)⟩
  exact commaListUpTo_more htokens hu comma.kind_eq (h.reads_expression (by omega) hcomma)
    (hitems (by omega) (by omega) hclosing hcalm)

end Arguments.Readable

mutual

/-- Every expression is read as it is written. -/
theorem Expression.readable : ∀ {l : Level} (e : Expression l), e.Readable
  | _, .assign left _ right => .assign left.readable right.readable
  | _, .ofTernary e => .ofTernary e.readable
  | _, .conditional condition _ yes _ no =>
    .conditional condition.readable yes.readable no.readable
  | _, .ofBinary e => .ofBinary e.readable
  | _, .operation left _ right => .operation left.readable right.readable
  | _, .ofTighter e => .ofTighter e.readable
  | _, .signed _ operand => .signed operand.readable
  | _, .ofSuffixed e => .ofSuffixed e.readable
  | _, .counted target _ => .counted target.readable
  | _, .index target _ place _ => .index target.readable place.readable
  | _, .call target _ items _ => .call target.readable items.readable
  | _, .paren _ inner _ => .paren inner.readable
  | _, .literal t => .literal t
  | _, .this t => .this t
  | _, .ofCallee e => .ofCallee e.readable
  | _, .name t => .name t
  | _, .field target _ _ => .field target.readable

/-- All arguments are read as they are written. -/
theorem Arguments.readable : ∀ items : Arguments, items.Readable
  | .none => .none
  | .last e => .last e.readable
  | .more e _ items => .more e.readable items.readable

end

/-- The end of file ends every expression. -/
theorem ahead_eof {eof : Token} (h : eof.kind = .eof) : Ahead Level.assignment.Ends [eof] :=
  ⟨by rw [h]; exact (by decide : TokenKind.eof ∈ closers), Calm.nil.cons_barrier (by rw [h]; decide)⟩

/-- Reading an expression inverts writing it. From the tokens of an expression in order, with
the end of file after them, the parser for expressions gives the tree of the expression, in
which every node covers its tokens, and takes exactly these tokens without meeting a problem;
and so it does for every source whose significant tokens they are. -/
theorem Expression.reading_inverts_writing (e : Expression .assignment) (eof : Token)
    (heof : eof.kind = .eof) :
    (Entry.expression.parser (e.tokens.length + 1)).run
        { consumed := [], rest := e.tokens ++ [eof] } =
      (e.tree, { consumed := e.tokens.reverse, rest := [eof] }) ∧
    ∀ source : Text, Lexeme.significant source = e.tokens ++ [eof] →
      Entry.expression.read source =
          (e.tree, { consumed := e.tokens.reverse, rest := [eof] }) ∧
        (Parsed.ofSource .expression source).problems = [] := by
  have hread : (Entry.expression.parser (e.tokens.length + 1)).run
      { consumed := [], rest := e.tokens ++ [eof] } =
        (e.tree, { consumed := e.tokens.reverse, rest := [eof] }) := by
    have hrun := e.readable.reads trivial (Nat.le_succ _) (ahead_eof heof)
      { consumed := [], rest := e.tokens ++ [eof] } rfl
    rw [past, List.append_nil] at hrun
    exact hrun
  refine ⟨hread, fun source hsource => ?_⟩
  have hwhole : Entry.expression.read source =
      (e.tree, { consumed := e.tokens.reverse, rest := [eof] }) := by
    have hcursor : ofTokens (Lexeme.tokens source) =
        { consumed := [], rest := e.tokens ++ [eof] } := by
      rw [← hsource]
      rfl
    rw [Entry.read, hcursor, List.length_append]
    exact hread
  refine ⟨hwhole, Parsed.problems_eq_nil_of_raised ?_⟩
  rw [hwhole]

/-- An assignment of a condition on two comparisons in parentheses, which look like type
arguments, with a call and a negated array element in its cases. -/
def comparisonSource : Text := "x = (a < b) == (c > d) ? f(-y[1]++) : this.z"

/-- A token of the comparison. -/
def comparisonToken (n : Nat) : Token := (Lexeme.significant comparisonSource).getD n ⟨.eof, {}, []⟩

/-- The kinds of the tokens of the comparison. -/
def comparisonKinds : List TokenKind :=
  [.identifier, Symbol.assign, Symbol.lparen, .identifier, Symbol.lt, .identifier, Symbol.rparen,
   Symbol.eq, Symbol.lparen, .identifier, Symbol.gt, .identifier, Symbol.rparen, Symbol.question,
   .identifier, Symbol.lparen, Symbol.minus, .identifier, Symbol.lbracket, .intLiteral,
   Symbol.rbracket, Symbol.increment, Symbol.rparen, Symbol.colon, Keyword.thisKw, Symbol.dot,
   .identifier, .eof]

/-- The tokens of the comparison, as kinds. -/
theorem comparison_kinds :
    (Lexeme.significant comparisonSource).map Token.kind = comparisonKinds := by decide +kernel

/-- Whether a token of the comparison is of one of some kinds is seen from the list of kinds. -/
theorem comparison_among (n : Nat) {kinds : List TokenKind}
    (h : comparisonKinds.getD n .eof ∈ kinds) : (comparisonToken n).kind ∈ kinds := by
  rw [← comparison_kinds, List.getD_eq_getElem?_getD, List.getElem?_map] at h
  rw [comparisonToken, List.getD_eq_getElem?_getD]
  cases hget : (Lexeme.significant comparisonSource)[n]? with
  | none => simpa [hget] using h
  | some t => simpa [hget] using h

/-- A name in the comparison, with what follows from its kind. -/
def comparisonName (n : Nat) (h : (comparisonToken n).kind ∈ [.identifier, .keyword .varKw]) :
    Expression .suffixed := .ofCallee (.name ⟨comparisonToken n, h⟩)

/-- The comparison as an expression. -/
def comparison : Expression .assignment :=
  let operand (e : Expression .suffixed) (levels : List (List TokenKind)) :
      Expression (.binary (levels ++ [])) := (Expression.ofSuffixed e).raise levels
  let compare (first second : Expression .suffixed) (operator : Token.Among
      [Symbol.lt, Symbol.le, Symbol.gt, Symbol.ge]) : Expression .assignment :=
    .ofTernary (.ofBinary (Expression.raise
      (.operation (operand first (binaryLevels.drop 6)) operator
        (operand second (binaryLevels.drop 7))) (binaryLevels.take 6)))
  let less := compare (comparisonName 3 (comparison_among 3 (by decide)))
    (comparisonName 5 (comparison_among 5 (by decide))) ⟨comparisonToken 4, comparison_among 4 (by decide)⟩
  let greater := compare (comparisonName 9 (comparison_among 9 (by decide)))
    (comparisonName 11 (comparison_among 11 (by decide)))
    ⟨comparisonToken 10, comparison_among 10 (by decide)⟩
  let equal : Expression (.binary (binaryLevels.drop 5)) :=
    .operation
      (operand (.paren ⟨comparisonToken 2, comparison_among 2 (by decide)⟩ less
        ⟨comparisonToken 6, comparison_among 6 (by decide)⟩) (binaryLevels.drop 5))
      ⟨comparisonToken 7, comparison_among 7 (by decide)⟩
      (operand (.paren ⟨comparisonToken 8, comparison_among 8 (by decide)⟩ greater
        ⟨comparisonToken 12, comparison_among 12 (by decide)⟩) (binaryLevels.drop 6))
  let element : Expression .suffixed :=
    .index (comparisonName 17 (comparison_among 17 (by decide)))
      ⟨comparisonToken 18, comparison_among 18 (by decide)⟩
      (.ofPrimary (.literal ⟨comparisonToken 19, comparison_among 19 (by decide)⟩))
      ⟨comparisonToken 20, comparison_among 20 (by decide)⟩
  let negated : Expression (.binary []) :=
    .signed ⟨comparisonToken 16, comparison_among 16 (by decide)⟩
      (.ofSuffixed (.counted element ⟨comparisonToken 21, comparison_among 21 (by decide)⟩))
  let yes : Expression .suffixed :=
    .call (.name ⟨comparisonToken 14, comparison_among 14 (by decide)⟩)
      ⟨comparisonToken 15, comparison_among 15 (by decide)⟩
      (.last (.ofTernary (.ofBinary (negated.raise binaryLevels))))
      ⟨comparisonToken 22, comparison_among 22 (by decide)⟩
  let no : Expression .suffixed :=
    .ofCallee (.field (.this ⟨comparisonToken 24, comparison_among 24 (by decide)⟩)
      ⟨comparisonToken 25, comparison_among 25 (by decide)⟩
      ⟨comparisonToken 26, comparison_among 26 (by decide)⟩)
  .assign (.ofBinary (operand (comparisonName 0 (comparison_among 0 (by decide))) binaryLevels))
    ⟨comparisonToken 1, comparison_among 1 (by decide)⟩
    (.ofTernary (.conditional (equal.raise (binaryLevels.take 5))
      ⟨comparisonToken 13, comparison_among 13 (by decide)⟩ (.ofPrimary yes)
      ⟨comparisonToken 23, comparison_among 23 (by decide)⟩ (.ofBinary (operand no binaryLevels))))

/-- The comparison is read as it is written. -/
theorem reading_inverts_writing_comparison :
    Lexeme.significant comparisonSource = comparison.tokens ++ [comparisonToken 27] ∧
      Entry.expression.read comparisonSource =
        (comparison.tree, { consumed := comparison.tokens.reverse,
                            rest := [comparisonToken 27] }) := by
  have htokens : Lexeme.significant comparisonSource =
      comparison.tokens ++ [comparisonToken 27] := by decide +kernel
  have heof : (comparisonToken 27).kind = .eof :=
    List.mem_singleton.1 (comparison_among 27 (by decide))
  exact ⟨htokens, ((comparison.reading_inverts_writing _ heof).2 comparisonSource htokens).1⟩

end JavaObjC
