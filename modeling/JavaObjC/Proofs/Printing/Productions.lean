import JavaObjC.Proofs.Printing.Operands

/-!
# Productions with known tokens ahead

What each production for expressions does when the tokens of its phrase are
ahead and the parsers for the phrases inside it read exactly their tokens. The
parser of a level is stated together with what it does next with a tree of the
level: levels that associate to the left are loops, which take the tree as the
left operand of an operator or of a suffix.
-/

namespace JavaObjC

open Cursor Grammar JavaObjC.Parser

/-- The tree of an expression covers its tokens. -/
theorem Expression.tree_span : ∀ {l : Level} (e : Expression l), e.tree.span = .cover e.tokens
  | _, .assign _ _ _ => rfl
  | _, .ofTernary e => e.tree_span
  | _, .conditional _ _ _ _ _ => rfl
  | _, .ofBinary e => e.tree_span
  | _, .operation _ _ _ => rfl
  | _, .ofTighter e => e.tree_span
  | _, .signed _ _ => rfl
  | _, .ofSuffixed e => e.tree_span
  | _, .counted _ _ => rfl
  | _, .index _ _ _ _ => rfl
  | _, .call _ _ _ _ => rfl
  | _, .paren _ _ _ => rfl
  | _, .literal _ => rfl
  | _, .this _ => rfl
  | _, .ofCallee e => e.tree_span
  | _, .name _ => rfl
  | _, .field _ _ _ => rfl

namespace Level

variable {rule : Rules}

/-- The parser of a level. -/
def parser (rule : Rules) : Level → Parser Node
  | .assignment => expression rule
  | .ternary => Grammar.ternary rule
  | .binary levels => Grammar.binary rule levels
  | .suffixed | .callee => postfixed rule

/-- What the parser of a level does when it has read an expression of the level: it may go on
with it as a left operand. -/
def Resumes (rule : Rules) : Level → Node → Cursor → Node × Cursor → Prop
  | .binary (operators :: tighter) => Loops (binaryStep? rule operators (Grammar.binary rule tighter))
  | .suffixed | .callee => Loops (suffix? rule)
  | _ => fun n c out => out = (n, c)

end Level

section Steps

variable {rule : Rules} {c : Cursor} {t : Token} {front ts rest : List Token} {target : Node}

/-- A suffix does not change where an expression begins. -/
theorem cover_extend (hfront : front ≠ []) (hspan : target.span = .cover front)
    (ts : List Token) : target.span.start = (Span.cover (front ++ ts)).start := by
  rw [hspan, Span.cover_start_append hfront]

/-- An operator and its right operand extend the left one. -/
theorem binaryStep_past {operators : List TokenKind} {operand : Parser Node} {right : Node}
    (hfront : front ≠ []) (hspan : target.span = .cover front) (ht : t.kind ∈ operators)
    (hword : t.kind ≠ Keyword.instanceofKw) (heof : t.kind ≠ .eof)
    (hright : ReadsAs operand ts right rest) :
    (binaryStep? rule operators operand target).run (c.past front (t :: (ts ++ rest))) =
      (some (.over .binaryExpr (front ++ t :: ts) [target, .ofToken .identifier t, right]),
        c.past (front ++ t :: ts) rest) := by
  rw [binaryStep?, ifCheckAny_pos rfl ht, bind_of_run (skip_stays rfl hword),
    if_neg Bool.false_ne_true, bind_of_run (leaf_past rfl heof), bind_of_run (hright _ rfl)]
  simp only [past_past, List.append_assoc, List.singleton_append]
  rw [bind_of_run (finish_past (by simp) (cover_extend hfront hspan _))]
  rfl

/-- A suffix is not read where none begins. -/
theorem suffix_stops (hc : c.rest = t :: rest) (ht : t.kind ∈ continuations) :
    (suffix? rule target).run c = (none, c) := by
  rw [suffix?, kindAt_bind hc]
  split
  case h_7 => rfl
  all_goals
    rename_i hk
    rw [hk] at ht
    exact absurd ht (by decide)

/-- An operator behind its operand. -/
theorem suffix_counted (hfront : front ≠ []) (hspan : target.span = .cover front)
    (ht : t.kind ∈ [TokenKind.symbol .increment, .symbol .decrement]) :
    (suffix? rule target).run (c.past front (t :: rest)) =
      (some (.over .postfixExpr (front ++ [t]) [target, .ofToken .identifier t]),
        c.past (front ++ [t]) rest) := by
  have heof : t.kind ≠ .eof := ne_eof_of_mem ht (by decide)
  have hrun : (suffix? rule target).run (c.past front (t :: rest)) =
      (leaf .identifier >>= fun operator =>
        finish .postfixExpr target.span.start [target, operator] >>= fun n =>
          Pure.pure (some n)).run (c.past front (t :: rest)) := by
    rw [suffix?, kindAt_bind (past_rest _ _ _)]
    rcases List.mem_cons.1 ht with hk | hk
    · rw [hk]
    · rw [List.mem_singleton.1 hk]
  rw [hrun, bind_of_run (leaf_past (past_rest _ _ _) heof), past_past,
    bind_of_run (finish_past (by simp) (cover_extend hfront hspan _))]
  rfl

/-- An index behind an array. -/
theorem suffix_index {opening closing u : Token} {us : List Token} {place : Node}
    (hfront : front ≠ []) (hspan : target.span = .cover front)
    (hopening : opening.kind = Symbol.lbracket) (hclosing : closing.kind = Symbol.rbracket)
    (hts : ts = u :: us) (hu : u.kind ≠ Symbol.rbracket)
    (hplace : ReadsAs (rule .expression) ts place (closing :: rest)) :
    (suffix? rule target).run (c.past front (opening :: (ts ++ closing :: rest))) =
      (some (.over .arrayAccess (front ++ opening :: (ts ++ [closing])) [target, place]),
        c.past (front ++ opening :: (ts ++ [closing])) rest) := by
  have hliteral : (bracketsLiteral? target).run (c.past front (opening :: (ts ++ closing :: rest))) =
      (none, c.past front (opening :: (ts ++ closing :: rest))) := by
    have hnext : (kindAt 1).run (c.past front (opening :: (ts ++ closing :: rest))) =
        (u.kind, c.past front (opening :: (ts ++ closing :: rest))) := by
      rw [hts]
      rfl
    rw [bracketsLiteral?, bind_of_run hnext, if_neg (by simpa using hu)]
    rfl
  have haccess : (arrayAccess rule target).run
      (c.past front (opening :: (ts ++ closing :: rest))) =
      (.over .arrayAccess (front ++ opening :: (ts ++ [closing])) [target, place],
        c.past (front ++ opening :: (ts ++ [closing])) rest) := by
    rw [arrayAccess, bind_of_run (advance_past rfl (ne_eof_of_eq hopening)),
      bind_of_run (hplace _ rfl), bind_of_run (need_past rfl hclosing)]
    simp only [past_past, List.append_assoc, List.singleton_append]
    exact finish_past (by simp) (cover_extend hfront hspan _)
  have hsuffix : (bracketSuffix rule target).run
      (c.past front (opening :: (ts ++ closing :: rest))) =
      (.over .arrayAccess (front ++ opening :: (ts ++ [closing])) [target, place],
        c.past (front ++ opening :: (ts ++ [closing])) rest) := by
    rw [bracketSuffix, bind_of_run hliteral]
    exact haccess
  rw [suffix?, kindAt_bind (past_rest _ _ _), hopening]
  exact (bind_of_run hsuffix).trans rfl

/-- A call. -/
theorem suffix_call {opening closing : Token} {items : List Node} (hfront : front ≠ [])
    (hspan : target.span = .cover front) (hopening : opening.kind = Symbol.lparen)
    (hclosing : closing.kind = Symbol.rparen)
    (hitems : ReadsAs (commaListBefore Symbol.rparen (rule .expression)) ts items
      (closing :: rest)) :
    (suffix? rule target).run (c.past front (opening :: (ts ++ closing :: rest))) =
      (some (.over .callExpr (front ++ opening :: (ts ++ [closing]))
          [target, .over .parameters (opening :: (ts ++ [closing])) items]),
        c.past (front ++ opening :: (ts ++ [closing])) rest) := by
  have hgiven : (arguments rule).run (c.past front (opening :: (ts ++ closing :: rest))) =
      (.over .parameters (opening :: (ts ++ [closing])) items,
        (c.past front (opening :: (ts ++ closing :: rest))).past
          (opening :: (ts ++ [closing])) rest) := by
    rw [arguments, here_bind (past_rest _ _ _), bind_of_run (need_past rfl hopening),
      bind_of_run (hitems _ rfl), bind_of_run (need_past rfl hclosing),
      past_past, past_past]
    exact finish_past (by simp) rfl
  have hcall : (callExpr rule target).run (c.past front (opening :: (ts ++ closing :: rest))) =
      (.over .callExpr (front ++ opening :: (ts ++ [closing]))
          [target, .over .parameters (opening :: (ts ++ [closing])) items],
        c.past (front ++ opening :: (ts ++ [closing])) rest) := by
    rw [callExpr, bind_of_run hgiven, past_past]
    exact finish_past (by simp) (cover_extend hfront hspan _)
  rw [suffix?, kindAt_bind (past_rest _ _ _), hopening]
  exact (bind_of_run hcall).trans rfl

/-- A member of an object. -/
theorem suffix_field {dot label : Token} (hfront : front ≠ [])
    (hspan : target.span = .cover front) (hdot : dot.kind = Symbol.dot)
    (hlabel : label.kind ∈ [TokenKind.identifier, .keyword .varKw, .keyword .thisKw]) :
    (suffix? rule target).run (c.past front (dot :: label :: rest)) =
      (some (.over .fieldAccess (front ++ [dot, label]) [target, .ofLabel label]),
        c.past (front ++ [dot, label]) rest) := by
  have heof : label.kind ≠ .eof := ne_eof_of_mem hlabel (by decide)
  have haccess : (memberAccess rule target).run (c.past (front ++ [dot]) (label :: rest)) =
      (.over .fieldAccess (front ++ [dot, label]) [target, .ofLabel label],
        c.past (front ++ [dot, label]) rest) := by
    have hrun : (memberAccess rule target).run (c.past (front ++ [dot]) (label :: rest)) =
        (leaf (if label.kind = Keyword.thisKw then .thisRef else .identifier) >>= fun word =>
          finish .fieldAccess target.span.start [target, word]).run
            (c.past (front ++ [dot]) (label :: rest)) := by
      rw [memberAccess, kindAt_bind (past_rest _ _ _)]
      simp only [List.mem_cons, List.not_mem_nil, or_false] at hlabel
      rcases hlabel with hk | hk | hk
      all_goals
        rw [hk]
        rfl
    rw [hrun, bind_of_run (leaf_past (past_rest _ _ _) heof), past_past, List.append_assoc,
      List.singleton_append]
    exact finish_past (by simp) (cover_extend hfront hspan _)
  rw [suffix?, kindAt_bind (past_rest _ _ _), hdot]
  refine (bind_of_run (advance_past rfl (ne_eof_of_eq hdot))).trans ?_
  rw [past_past]
  exact (bind_of_run haccess).trans rfl

/-- A level has nothing to go on with in front of a token that ends it. -/
theorem Level.resumes_self {l : Level} {n : Node} (hc : c.rest = t :: rest) (ht : l.Ends t.kind) :
    l.Resumes rule n c (n, c) := by
  cases l with
  | assignment => exact rfl
  | ternary => exact rfl
  | binary levels =>
    cases levels with
    | nil => exact rfl
    | cons operators tighter =>
      have hstep : (binaryStep? rule operators (Grammar.binary rule tighter) n).run c =
          (none, c) := by
        rw [binaryStep?, ifCheckAny_neg hc]
        · rfl
        · exact fun hmem => ht.2 (List.mem_append_left _ hmem)
      exact .stop hstep
  | suffixed => exact .stop (suffix_stops hc ht)
  | callee => exact .stop (suffix_stops hc ht)

/-- Where no lambda begins the other parser runs. -/
theorem lambdaOr_past {other : Parser Node} (h : startsLambda.run c = (false, c)) :
    (lambdaOr rule other).run c = other.run c := by
  rw [lambdaOr, bind_of_run h, if_neg Bool.false_ne_true]

/-- An assignment. -/
theorem expression_assign {us : List Token} {left right : Node}
    (hc : c.rest = front ++ t :: (us ++ rest)) (hlambda : startsLambda.run c = (false, c))
    (hfront : front ≠ []) (hspan : left.span = .cover front) (ht : t.kind ∈ assignOperators)
    (hleft : ReadsAs (Grammar.ternary rule) front left (t :: (us ++ rest)))
    (hright : ReadsAs (rule .expression) us right rest) :
    (expression rule).run c =
      (.over .assignExpr (front ++ t :: us) [left, .ofToken .identifier t, right],
        c.past (front ++ t :: us) rest) := by
  rw [expression, lambdaOr_past hlambda, bind_of_run (hleft c hc), ifCheckAny_pos rfl ht,
    bind_of_run (leaf_past rfl (ne_eof_of_mem ht (by decide))), bind_of_run (hright _ rfl)]
  simp only [past_past, List.append_assoc, List.singleton_append]
  exact finish_past (by simp) (cover_extend hfront hspan _)

/-- An expression that assigns nothing. -/
theorem expression_plain {n : Node} (hc : c.rest = ts ++ t :: rest)
    (hlambda : startsLambda.run c = (false, c)) (ht : t.kind ∉ assignOperators)
    (h : ReadsAs (Grammar.ternary rule) ts n (t :: rest)) :
    (expression rule).run c = (n, c.past ts (t :: rest)) := by
  rw [expression, lambdaOr_past hlambda, bind_of_run (h c hc), ifCheckAny_neg rfl ht]
  rfl

/-- A condition with its two cases. -/
theorem ternary_conditional {question colon : Token} {us vs : List Token} {condition yes no : Node}
    (hc : c.rest = front ++ question :: (us ++ colon :: (vs ++ rest))) (hfront : front ≠ [])
    (hspan : condition.span = .cover front) (hquestion : question.kind = Symbol.question)
    (hcolon : colon.kind = Symbol.colon)
    (hcondition : ReadsAs (Grammar.binary rule binaryLevels) front condition
      (question :: (us ++ colon :: (vs ++ rest))))
    (hyes : ReadsAs (rule .expression) us yes (colon :: (vs ++ rest)))
    (hlambda : ∀ c : Cursor, c.rest = vs ++ rest → startsLambda.run c = (false, c))
    (hno : ReadsAs (rule .ternary) vs no rest) :
    (Grammar.ternary rule).run c =
      (.over .ternaryExpr (front ++ question :: (us ++ colon :: vs)) [condition, yes, no],
        c.past (front ++ question :: (us ++ colon :: vs)) rest) := by
  rw [Grammar.ternary, bind_of_run (hcondition c hc),
    bind_of_run (skip_past rfl hquestion), if_pos rfl, bind_of_run (hyes _ rfl),
    bind_of_run (need_past rfl hcolon),
    bind_of_run ((lambdaOr_past (hlambda _ rfl)).trans (hno _ rfl))]
  simp only [past_past, List.append_assoc, List.cons_append]
  exact finish_past (by simp) (cover_extend hfront hspan _)

/-- An expression without a condition. -/
theorem ternary_plain {n : Node} (hc : c.rest = ts ++ t :: rest) (ht : t.kind ≠ Symbol.question)
    (h : ReadsAs (Grammar.binary rule binaryLevels) ts n (t :: rest)) :
    (Grammar.ternary rule).run c = (n, c.past ts (t :: rest)) := by
  rw [Grammar.ternary, bind_of_run (h c hc), bind_of_run (skip_stays rfl ht),
    if_neg Bool.false_ne_true]
  rfl

/-- An operator in front of its operand. -/
theorem unary_signed {operand : Node} (hc : c.rest = t :: (ts ++ rest))
    (ht : t.kind ∈ prefixOperators) (h : ReadsAs (rule .unary) ts operand rest) :
    (unary rule).run c =
      (.over .unaryExpr (t :: ts) [.ofToken .identifier t, operand], c.past (t :: ts) rest) := by
  rw [unary, here_bind hc, ifCheckAny_pos hc ht,
    bind_of_run (leaf_past hc (ne_eof_of_mem ht (by decide))), bind_of_run (h _ rfl), past_past]
  exact finish_past (by simp) rfl

/-- An operand without operators in front of it. -/
theorem unary_plain (hc : c.rest = t :: ts) (ht : t.kind ∉ prefixOperators)
    (hcast : startsCast.run c = (false, c)) : (unary rule).run c = (postfixed rule).run c := by
  rw [unary, here_bind hc, ifCheckAny_neg hc ht, bind_of_run hcast, if_neg Bool.false_ne_true]

/-- An expression in parentheses. -/
theorem primary_paren {opening closing : Token} {inner : Node}
    (hc : c.rest = opening :: (ts ++ closing :: rest)) (hopening : opening.kind = Symbol.lparen)
    (hclosing : closing.kind = Symbol.rparen)
    (h : ReadsAs (rule .expression) ts inner (closing :: rest)) :
    (primary rule).run c = (.over .parenExpr (opening :: (ts ++ [closing])) [inner],
      c.past (opening :: (ts ++ [closing])) rest) := by
  have hrun : (primary rule).run c = (parenExpr rule).run c := by
    rw [primary, kindAt_bind hc, hopening]
    rfl
  rw [hrun, parenExpr, here_bind hc, bind_of_run (need_past hc hopening),
    bind_of_run (h _ rfl), bind_of_run (need_past rfl hclosing), past_past, past_past]
  exact finish_past (by simp) rfl

/-- A literal is read as a leaf. -/
theorem primary_literal (hc : c.rest = t :: rest) (ht : t.kind ∈ literalKinds) :
    (primary rule).run c = (.ofToken .literal t, c.past [t] rest) := by
  rw [primary, kindAt_bind hc, if_pos (List.contains_iff_mem.2 ht),
    leaf_past hc (ne_eof_of_mem ht (by decide))]

/-- The object itself is read as a leaf. -/
theorem primary_this (hc : c.rest = t :: rest) (ht : t.kind = Keyword.thisKw) :
    (primary rule).run c = (.ofToken .thisRef t, c.past [t] rest) := by
  rw [← leaf_past hc (ne_eof_of_eq ht), primary, kindAt_bind hc, ht]
  rfl

/-- A name is read as a leaf. -/
theorem primary_name (hc : c.rest = t :: rest)
    (ht : t.kind ∈ [TokenKind.identifier, .keyword .varKw]) :
    (primary rule).run c = (.ofToken .identifier t, c.past [t] rest) := by
  rw [← leaf_past hc (ne_eof_of_mem ht (by decide)), primary, kindAt_bind hc]
  rcases List.mem_cons.1 ht with hk | hk
  · rw [hk]
    rfl
  · rw [List.mem_singleton.1 hk]
    rfl

/-- A primary expression is followed by its suffixes. -/
theorem postfixed_past {n : Node} {out : Node × Cursor}
    (h : (primary rule).run c = (n, c.past ts rest))
    (hout : Loops (suffix? rule) n (c.past ts rest) out) : (postfixed rule).run c = out := by
  rw [postfixed, bind_of_run h]
  exact hout.loop_run

end Steps

end JavaObjC
