import JavaObjC.Source.Grammar.Expressions
import JavaObjC.Proofs.Reading.Scanning

/-!
# Expressions as they are written, and reading exactly some tokens

An expression together with all the tokens it is written with, parentheses,
commas and operators included. The index of the family says where an
expression may stand, so that every operand binds as tightly as its position
asks for: what is looser has to stand in parentheses. Each expression has the
sequence of its tokens and the syntax tree that reading them is to give, in
which a node covers the source from its first token to its last one.

A parser reads exactly some tokens as a value if, wherever these tokens are
ahead, it gives the value and stands right after them, with nothing else
changed. Such statements about parsers are put together by a few rules, and the
loops end by themselves before their bound stops them.
-/

namespace JavaObjC

section Written

/-- A token of one of some kinds. -/
abbrev Token.Among (kinds : List TokenKind) := { t : Token // t.kind ∈ kinds }

/-- The piece of source that some tokens take up, from the start of the first
one to the end of the last one. -/
def Span.cover (tokens : List Token) : Span :=
  ⟨(tokens.head?.map (·.span.start)).getD {}, (tokens.getLast?.map (·.span.stop)).getD {}⟩

/-- An inner node that covers some tokens. -/
def Node.over (kind : NodeKind) (tokens : List Token) (children : List Node) : Node :=
  ⟨kind, .cover tokens, none, none, children⟩

/-- Where an expression may stand. -/
inductive Level where
  /-- Anywhere. -/
  | assignment
  /-- To the left of an assignment operator, or after the colon of a condition. -/
  | ternary
  /-- Between operators that are looser than the given levels. -/
  | binary (levels : List (List TokenKind))
  /-- Before a suffix. -/
  | suffixed
  /-- Before the arguments of a call. -/
  | callee

open Grammar

mutual

/-- An expression that may stand at a level. -/
inductive Expression : Level → Type where
  | assign (left : Expression .ternary) (operator : Token.Among assignOperators)
      (right : Expression .assignment) : Expression .assignment
  | ofTernary (e : Expression .ternary) : Expression .assignment
  | conditional (condition : Expression (.binary binaryLevels))
      (question : Token.Among [Symbol.question]) (yes : Expression .assignment)
      (colon : Token.Among [Symbol.colon]) (no : Expression .ternary) : Expression .ternary
  | ofBinary (e : Expression (.binary binaryLevels)) : Expression .ternary
  | operation {operators : List TokenKind} {tighter : List (List TokenKind)}
      (left : Expression (.binary (operators :: tighter)))
      (operator : Token.Among (operators.filter (· ≠ Keyword.instanceofKw)))
      (right : Expression (.binary tighter)) : Expression (.binary (operators :: tighter))
  | ofTighter {operators : List TokenKind} {tighter : List (List TokenKind)}
      (e : Expression (.binary tighter)) : Expression (.binary (operators :: tighter))
  | signed (operator : Token.Among prefixOperators) (operand : Expression (.binary [])) :
      Expression (.binary [])
  | ofSuffixed (e : Expression .suffixed) : Expression (.binary [])
  | counted (target : Expression .suffixed)
      (operator : Token.Among [Symbol.increment, Symbol.decrement]) : Expression .suffixed
  | index (target : Expression .suffixed) (opening : Token.Among [Symbol.lbracket])
      (place : Expression .assignment) (closing : Token.Among [Symbol.rbracket]) :
      Expression .suffixed
  | call (target : Expression .callee) (opening : Token.Among [Symbol.lparen])
      (items : Arguments) (closing : Token.Among [Symbol.rparen]) : Expression .suffixed
  | paren (opening : Token.Among [Symbol.lparen]) (inner : Expression .assignment)
      (closing : Token.Among [Symbol.rparen]) : Expression .suffixed
  | literal (t : Token.Among literalKinds) : Expression .suffixed
  | this (t : Token.Among [Keyword.thisKw]) : Expression .suffixed
  | ofCallee (e : Expression .callee) : Expression .suffixed
  | name (t : Token.Among [.identifier, Keyword.varKw]) : Expression .callee
  | field (target : Expression .suffixed) (dot : Token.Among [Symbol.dot])
      (label : Token.Among [.identifier, Keyword.varKw, Keyword.thisKw]) : Expression .callee

/-- The arguments of a call; the last one may have a comma after it. -/
inductive Arguments : Type where
  | none : Arguments
  | last (e : Expression .assignment) : Arguments
  | more (e : Expression .assignment) (comma : Token.Among [Symbol.comma])
      (items : Arguments) : Arguments

end

/-- An expression that binds more tightly than its position asks for. -/
def Expression.raise {levels : List (List TokenKind)} (e : Expression (.binary levels)) :
    (looser : List (List TokenKind)) → Expression (.binary (looser ++ levels))
  | [] => e
  | _ :: looser => .ofTighter (e.raise looser)

/-- A primary expression with its suffixes where any expression may stand. -/
def Expression.ofPrimary (e : Expression .suffixed) : Expression .assignment :=
  .ofTernary (.ofBinary ((Expression.ofSuffixed e).raise binaryLevels))

mutual

/-- The tokens of an expression in order. -/
def Expression.tokens {l : Level} : Expression l → List Token
  | .assign left operator right => left.tokens ++ operator.1 :: right.tokens
  | .ofTernary e => e.tokens
  | .conditional condition question yes colon no =>
    condition.tokens ++ question.1 :: (yes.tokens ++ colon.1 :: no.tokens)
  | .ofBinary e => e.tokens
  | .operation left operator right => left.tokens ++ operator.1 :: right.tokens
  | .ofTighter e => e.tokens
  | .signed operator operand => operator.1 :: operand.tokens
  | .ofSuffixed e => e.tokens
  | .counted target operator => target.tokens ++ [operator.1]
  | .index target opening place closing =>
    target.tokens ++ opening.1 :: (place.tokens ++ [closing.1])
  | .call target opening items closing =>
    target.tokens ++ opening.1 :: (items.tokens ++ [closing.1])
  | .paren opening inner closing => opening.1 :: (inner.tokens ++ [closing.1])
  | .literal t => [t.1]
  | .this t => [t.1]
  | .ofCallee e => e.tokens
  | .name t => [t.1]
  | .field target dot label => target.tokens ++ [dot.1, label.1]

/-- The tokens of arguments in order. -/
def Arguments.tokens : Arguments → List Token
  | .none => []
  | .last e => e.tokens
  | .more e comma items => e.tokens ++ comma.1 :: items.tokens

end

/-- The leaf for what follows a dot. -/
def Node.ofLabel (t : Token) : Node :=
  .ofToken (if t.kind = Keyword.thisKw then .thisRef else .identifier) t

mutual

/-- The syntax tree of an expression. -/
def Expression.tree {l : Level} : Expression l → Node
  | .assign left operator right =>
    .over .assignExpr (left.tokens ++ operator.1 :: right.tokens)
      [left.tree, .ofToken .identifier operator.1, right.tree]
  | .ofTernary e => e.tree
  | .conditional condition question yes colon no =>
    .over .ternaryExpr
      (condition.tokens ++ question.1 :: (yes.tokens ++ colon.1 :: no.tokens))
      [condition.tree, yes.tree, no.tree]
  | .ofBinary e => e.tree
  | .operation left operator right =>
    .over .binaryExpr (left.tokens ++ operator.1 :: right.tokens)
      [left.tree, .ofToken .identifier operator.1, right.tree]
  | .ofTighter e => e.tree
  | .signed operator operand =>
    .over .unaryExpr (operator.1 :: operand.tokens)
      [.ofToken .identifier operator.1, operand.tree]
  | .ofSuffixed e => e.tree
  | .counted target operator =>
    .over .postfixExpr (target.tokens ++ [operator.1])
      [target.tree, .ofToken .identifier operator.1]
  | .index target opening place closing =>
    .over .arrayAccess (target.tokens ++ opening.1 :: (place.tokens ++ [closing.1]))
      [target.tree, place.tree]
  | .call target opening items closing =>
    .over .callExpr (target.tokens ++ opening.1 :: (items.tokens ++ [closing.1]))
      [target.tree, .over .parameters (opening.1 :: (items.tokens ++ [closing.1])) items.trees]
  | .paren opening inner closing =>
    .over .parenExpr (opening.1 :: (inner.tokens ++ [closing.1])) [inner.tree]
  | .literal t => .ofToken .literal t.1
  | .this t => .ofToken .thisRef t.1
  | .ofCallee e => e.tree
  | .name t => .ofToken .identifier t.1
  | .field target dot label =>
    .over .fieldAccess (target.tokens ++ [dot.1, label.1]) [target.tree, .ofLabel label.1]

/-- The syntax trees of arguments. -/
def Arguments.trees : Arguments → List Node
  | .none => []
  | .last e => [e.tree]
  | .more e _ items => e.tree :: items.trees

end

end Written

open Cursor

namespace Span

/-- Tokens that are covered begin where the first ones do. -/
theorem cover_start_append {ts : List Token} (h : ts ≠ []) (us : List Token) :
    (cover (ts ++ us)).start = (cover ts).start := by
  cases ts with
  | nil => exact absurd rfl h
  | cons t ts => rfl

end Span

namespace Cursor

/-- The cursor after some tokens, with the given ones ahead. -/
def past (c : Cursor) (ts rest : List Token) : Cursor :=
  { c with consumed := ts.reverse ++ c.consumed, rest }

@[simp] theorem past_rest (c : Cursor) (ts rest : List Token) : (c.past ts rest).rest = rest := rfl

/-- Taking tokens twice is taking them in a row. -/
@[simp] theorem past_past (c : Cursor) (ts us rest rest' : List Token) :
    (c.past ts rest).past us rest' = c.past (ts ++ us) rest' := by
  simp [past]

/-- Taking no tokens leaves the cursor where it is. -/
theorem past_nil {c : Cursor} {rest : List Token} (h : c.rest = rest) : c.past [] rest = c := by
  subst h
  rfl

/-- A step takes the next token of the file. -/
theorem step_eq_past {c : Cursor} {t : Token} {rest : List Token} (h : c.rest = t :: rest)
    (hk : t.kind ≠ .eof) : c.step = c.past [t] rest := by
  rw [step, h]
  simp [past, hk]

/-- Behind taken tokens the last stop is theirs. -/
theorem lastStop_past (c : Cursor) {ts : List Token} (h : ts ≠ []) (rest : List Token) :
    (c.past ts rest).lastStop = (Span.cover ts).stop := by
  obtain ⟨front, t, rfl⟩ := List.eq_nil_or_concat ts |>.resolve_left h
  simp [lastStop, past, Span.cover]

end Cursor

namespace Parser

variable {α β : Type} {c c' : Cursor} {t : Token} {rest : List Token}

/-- What follows a parser runs where the parser ended. -/
theorem bind_of_run {p : Parser α} {f : α → Parser β} {a : α} (h : p.run c = (a, c')) :
    (p >>= f).run c = (f a).run c' := by
  rw [StateT.run_bind, h]
  rfl

section Looking

/-- A node begins where the next token does. -/
theorem here_bind {f : Position → Parser β} (h : c.rest = t :: rest) :
    (here >>= f).run c = (f t.span.start).run c := by
  rw [← tokenAt_zero_cons h]
  rfl

/-- A look at the next token finds its kind. -/
theorem kindAt_bind {f : TokenKind → Parser β} (h : c.rest = t :: rest) :
    (kindAt 0 >>= f).run c = (f t.kind).run c := by
  rw [← tokenAt_zero_cons h]
  rfl

/-- A choice by the next token goes on at a token of the kind. -/
theorem ifCheck_pos {x y : Parser β} {kind : TokenKind} (h : c.rest = t :: rest)
    (hk : t.kind = kind) : (check kind >>= fun b => if b = true then x else y).run c = x.run c := by
  have hrun : (check kind).run c = (true, c) := by
    change (((c.tokenAt 0).kind == kind), c) = _
    rw [tokenAt_zero_cons h, hk, beq_self_eq_true]
  rw [bind_of_run hrun, if_pos rfl]

/-- A choice by the next token goes elsewhere at every other one. -/
theorem ifCheck_neg {x y : Parser β} {kind : TokenKind} (h : c.rest = t :: rest)
    (hk : t.kind ≠ kind) : (check kind >>= fun b => if b = true then x else y).run c = y.run c := by
  have hrun : (check kind).run c = (false, c) := by
    change (((c.tokenAt 0).kind == kind), c) = _
    rw [tokenAt_zero_cons h, beq_eq_false_iff_ne.2 hk]
  rw [bind_of_run hrun, if_neg Bool.false_ne_true]

/-- A choice by the next token goes on at a token of the kinds. -/
theorem ifCheckAny_pos {x y : Parser β} {kinds : List TokenKind} (h : c.rest = t :: rest)
    (hk : t.kind ∈ kinds) :
    (checkAny kinds >>= fun b => if b = true then x else y).run c = x.run c := by
  have hrun : (checkAny kinds).run c = (true, c) := by
    change (kinds.contains (c.tokenAt 0).kind, c) = _
    rw [tokenAt_zero_cons h, List.contains_iff_mem.2 hk]
  rw [bind_of_run hrun, if_pos rfl]

/-- A choice by the next token goes elsewhere at every other one. -/
theorem ifCheckAny_neg {x y : Parser β} {kinds : List TokenKind} (h : c.rest = t :: rest)
    (hk : t.kind ∉ kinds) :
    (checkAny kinds >>= fun b => if b = true then x else y).run c = y.run c := by
  have hrun : (checkAny kinds).run c = (false, c) := by
    change (kinds.contains (c.tokenAt 0).kind, c) = _
    rw [tokenAt_zero_cons h, Bool.eq_false_iff.2 fun hmem => hk (List.contains_iff_mem.1 hmem)]
  rw [bind_of_run hrun, if_neg Bool.false_ne_true]

/-- A choice goes on before a token that ends nothing. -/
theorem ifBefore_pos {x y : Parser β} {kinds : List TokenKind} (h : c.rest = t :: rest)
    (hk : t.kind ∉ .eof :: kinds) :
    (before kinds >>= fun b => if b = true then x else y).run c = x.run c := by
  have hrun : (before kinds).run c = (true, c) := by
    change (!(TokenKind.eof :: kinds).contains (c.tokenAt 0).kind, c) = _
    rw [tokenAt_zero_cons h, Bool.eq_false_iff.2 fun hmem => hk (List.contains_iff_mem.1 hmem)]
    rfl
  rw [bind_of_run hrun, if_pos rfl]

/-- A choice goes elsewhere before a token that ends the list or the file. -/
theorem ifBefore_neg {x y : Parser β} {kinds : List TokenKind} (h : c.rest = t :: rest)
    (hk : t.kind ∈ .eof :: kinds) :
    (before kinds >>= fun b => if b = true then x else y).run c = y.run c := by
  have hrun : (before kinds).run c = (false, c) := by
    change (!(TokenKind.eof :: kinds).contains (c.tokenAt 0).kind, c) = _
    rw [tokenAt_zero_cons h, List.contains_iff_mem.2 hk]
    rfl
  rw [bind_of_run hrun, if_neg Bool.false_ne_true]

/-- A choice by a name looks at the next token only. -/
theorem ifCheckName_run {x y : Parser β} (c : Cursor) :
    (checkName >>= fun b => if b = true then x else y).run c =
      if (c.tokenAt 0).kind.isName = true then x.run c else y.run c := by
  rw [bind_of_run (rfl : checkName.run c = ((c.tokenAt 0).kind.isName, c))]
  split <;> rfl

end Looking

section Taking

/-- Advancing takes the next token. -/
theorem advance_past (h : c.rest = t :: rest) (hk : t.kind ≠ .eof) :
    advance.run c = (t, c.past [t] rest) := by
  rw [← step_eq_past h hk, ← tokenAt_zero_cons h]
  rfl

/-- A leaf is made of the next token. -/
theorem leaf_past {kind : NodeKind} (h : c.rest = t :: rest) (hk : t.kind ≠ .eof) :
    (leaf kind).run c = (.ofToken kind t, c.past [t] rest) := by
  rw [leaf, bind_of_run (advance_past h hk)]
  rfl

/-- A token of the kind is skipped. -/
theorem skip_past {kind : TokenKind} [kind.Inner] (h : c.rest = t :: rest) (hk : t.kind = kind) :
    (skip kind).run c = (true, c.past [t] rest) := by
  rw [skip_run, tokenAt_zero_cons h, if_pos hk, step_eq_past h (Grammar.ne_eof_of_eq hk)]

/-- Another token is not skipped. -/
theorem skip_stays {kind : TokenKind} (h : c.rest = t :: rest) (hk : t.kind ≠ kind) :
    (skip kind).run c = (false, c) := by
  rw [skip_run, tokenAt_zero_cons h, if_neg hk]

/-- A token that is expected and there is taken. -/
theorem expect_past {kind : TokenKind} [kind.Inner] (h : c.rest = t :: rest) (hk : t.kind = kind) :
    (expect kind).run c = (some t, c.past [t] rest) := by
  have haccept : (accept kind).run c = (some t, c.past [t] rest) := by
    rw [accept, ifCheck_pos h hk, bind_of_run (advance_past h (Grammar.ne_eof_of_eq hk))]
    rfl
  rw [expect, bind_of_run haccept]
  rfl

/-- A token that is needed and there is taken without a problem. -/
theorem need_past {kind : TokenKind} [kind.Inner] (h : c.rest = t :: rest) (hk : t.kind = kind) :
    (need kind).run c = ((), c.past [t] rest) := by
  rw [need, bind_of_run (expect_past h hk)]
  rfl

/-- A node that begins with the first of the tokens taken covers them. -/
theorem finish_past {kind : NodeKind} {start : Position} {children : List Node} {ts : List Token}
    (h : ts ≠ []) (hstart : start = (Span.cover ts).start) :
    (finish kind start children).run (c.past ts rest) =
      (.over kind ts children, c.past ts rest) := by
  change ((⟨kind, ⟨start, (c.past ts rest).lastStop⟩, none, none, children⟩ : Node),
    c.past ts rest) = _
  rw [lastStop_past c h, hstart]
  rfl

end Taking

/-- A parser reads exactly some tokens as a value when certain tokens follow. -/
def ReadsAs (p : Parser α) (ts : List Token) (a : α) (rest : List Token) : Prop :=
  ∀ c : Cursor, c.rest = ts ++ rest → p.run c = (a, c.past ts rest)

section Lists

variable {closing : TokenKind} {item : Parser Node} {bound : Nat} {ts us : List Token} {n : Node}
  {ns : List Node}

/-- A list ends before its closing token. -/
theorem commaListUpTo_nil (ht : t.kind = closing) :
    ReadsAs (commaListUpTo closing item (bound + 1)) [] [] (t :: rest) := by
  intro c hc
  have hrest : c.rest = t :: rest := hc
  rw [commaListUpTo, ifBefore_neg hrest (by simp [ht]), past_nil hrest]
  rfl

/-- A list ends behind an item without a comma. -/
theorem commaListUpTo_last {u : Token} (hts : ts = u :: us) (hu : u.kind ∉ [.eof, closing])
    (ht : t.kind ≠ Symbol.comma) (hitem : ReadsAs item ts n (t :: rest)) :
    ReadsAs (commaListUpTo closing item (bound + 1)) ts [n] (t :: rest) := by
  intro c hc
  have hfront : c.rest = u :: (us ++ t :: rest) := by rw [hc, hts, List.cons_append]
  rw [commaListUpTo, ifBefore_pos hfront hu, bind_of_run (hitem c hc),
    bind_of_run (skip_stays rfl ht), if_neg Bool.false_ne_true]
  rfl

/-- A list goes on behind a comma. -/
theorem commaListUpTo_more {u : Token} {vs : List Token} (hts : ts = u :: us)
    (hu : u.kind ∉ [.eof, closing]) (ht : t.kind = Symbol.comma)
    (hitem : ReadsAs item ts n (t :: (vs ++ rest)))
    (hmore : ReadsAs (commaListUpTo closing item bound) vs ns rest) :
    ReadsAs (commaListUpTo closing item (bound + 1)) (ts ++ t :: vs) (n :: ns) rest := by
  intro c hc
  rw [List.append_assoc] at hc
  have hfront : c.rest = u :: (us ++ t :: (vs ++ rest)) := by rw [hc, hts]; rfl
  rw [commaListUpTo, ifBefore_pos hfront hu, bind_of_run (hitem c hc),
    bind_of_run (skip_past rfl ht), if_pos rfl, bind_of_run (hmore _ rfl)]
  simp only [past_past, List.append_assoc, List.singleton_append]
  rfl

end Lists

/-- A loop that stops by itself: each round takes a token, and the last one declines. -/
inductive Loops (step : α → Parser (Option α)) : α → Cursor → α × Cursor → Prop where
  | stop {a : α} {c c' : Cursor} (h : (step a).run c = (none, c')) : Loops step a c (a, c')
  | go {a b : α} {c c' : Cursor} {out : α × Cursor} (h : (step a).run c = (some b, c'))
      (hlt : c'.rest.length < c.rest.length) (hrest : Loops step b c' out) : Loops step a c out

/-- A loop that stops by itself does so before any bound above the number of tokens ahead. -/
theorem Loops.iterate_run {step : α → Parser (Option α)} {a : α} {out : α × Cursor}
    (h : Loops step a c out) {n : Nat} (hn : c.rest.length < n) : (iterate step n a).run c = out := by
  induction h generalizing n with
  | stop h =>
    obtain ⟨m, rfl⟩ : ∃ m, n = m + 1 := ⟨n - 1, by omega⟩
    rw [iterate, bind_of_run h]
    rfl
  | go h hlt _ ih =>
    obtain ⟨m, rfl⟩ : ∃ m, n = m + 1 := ⟨n - 1, by omega⟩
    rw [iterate, bind_of_run h]
    exact ih (by omega)

/-- A loop that ends in finitely many rounds ends so with the rounds it is given. -/
theorem Loops.loop_run {step : α → Parser (Option α)} {a : α} {out : α × Cursor}
    (h : Loops step a c out) : (loop step a).run c = out :=
  h.iterate_run (Nat.lt_add_of_pos_left Nat.one_pos)

end Parser

end JavaObjC
