import JavaObjC.Proofs.Printing.Clauses

/-!
# Reading statements

The parser of statements reads every statement as it is written. What carries
the induction over the tokens of a statement is that calm tokens follow it,
the first of which neither adds a clause to a `try` nor is an `else` for an
`if` at the end of the statement.
-/

namespace JavaObjC

open Cursor Grammar JavaObjC.Parser Node

/-- A statement is read as it is written, if phrases may be nested as deep as it has tokens. -/
def Statement.Readable {isOpen : Bool} (s : Statement isOpen) : Prop :=
  ∀ ⦃fuel : Nat⦄ ⦃rest : List Token⦄ ⦃c : Cursor⦄, s.tokens.length ≤ fuel →
    Ahead (Follows isOpen) rest → c.rest = s.tokens ++ rest →
    Lands c (· = rest) (Like s.tree) (Grammar.statement (parse fuel))

/-- A block is read as it is written. -/
def Block.Readable (body : Block) : Prop :=
  ∀ ⦃fuel : Nat⦄ ⦃rest : List Token⦄ ⦃c : Cursor⦄, body.tokens.length ≤ fuel → Calm rest →
    c.rest = body.tokens ++ rest →
    Lands c (· = rest) (Like body.tree) (Grammar.block (parse fuel))

/-- Statements are read up to one of the tokens at which they stop. -/
def Statements.Readable (items : Statements) : Prop :=
  ∀ ⦃fuel bound : Nat⦄ ⦃stops : List TokenKind⦄ ⦃rest : List Token⦄ ⦃c : Cursor⦄,
    items.tokens.length < fuel → items.tokens.length < bound →
    (∀ k ∈ statementStarts, k ∉ .eof :: stops) → (∀ k ∈ stops, k ∈ followers) →
    Ahead (· ∈ stops) rest → c.rest = items.tokens ++ rest →
    Lands c (· = rest) (Likes items.trees) (manyUpTo (before stops) (parse fuel .statement) bound)

/-- The groups of a `switch` are read up to the brace. -/
def SwitchGroups.Readable (groups : SwitchGroups) : Prop :=
  ∀ ⦃fuel bound : Nat⦄ ⦃closing : Token.Among [Symbol.rbrace]⦄ ⦃rest : List Token⦄ ⦃c : Cursor⦄,
    groups.tokens.length < fuel → groups.tokens.length < bound → Calm (closing.1 :: rest) →
    c.rest = groups.tokens ++ closing.1 :: rest →
    Lands c (· = closing.1 :: rest) (Likes groups.trees)
      (manyUpTo (before [Symbol.rbrace]) (switchCase (parse fuel)) bound)

/-- The clauses of a `try` are read up to a token that begins none. -/
def Handlers.Readable (handlers : Handlers) : Prop :=
  ∀ ⦃fuel bound : Nat⦄ ⦃rest : List Token⦄ ⦃c : Cursor⦄, handlers.tokens.length ≤ fuel →
    handlers.tokens.length < bound → Ahead (· ≠ Keyword.catchKw) rest →
    c.rest = handlers.tokens ++ rest →
    Lands c (· = rest) (Likes handlers.trees)
      (manyUpTo (check Keyword.catchKw) (catchClause (parse fuel)) bound)

/-- The last clause of a `try` is read if there is one. -/
def Finale.Readable (finale : Finale) : Prop :=
  ∀ ⦃fuel : Nat⦄ ⦃rest : List Token⦄ ⦃c : Cursor⦄, finale.tokens.length ≤ fuel →
    Ahead (· ≠ Keyword.finallyKw) rest → c.rest = finale.tokens ++ rest →
    Lands c (· = rest) (Likes finale.trees)
      (optional (check Keyword.finallyKw) (finallyClause (parse fuel)))

variable {fuel : Nat} {rest : List Token} {c : Cursor} {isOpen : Bool}

/-- A statement that is read back is so with enough fuel, behind what may follow it. -/
theorem Statement.Readable.reads {s : Statement isOpen} (h : s.Readable)
    (hfuel : s.tokens.length < fuel) (hrest : Ahead (Follows isOpen) rest)
    (hc : c.rest = s.tokens ++ rest) :
    Lands c (· = rest) (Like s.tree) (parse fuel .statement) := by
  cases fuel with
  | zero => exact absurd hfuel (Nat.not_lt_zero _)
  | succ fuel => exact h (Nat.le_of_lt_succ hfuel) hrest hc

section Sequences

/-- What follows a statement in a sequence of them. -/
theorem Statements.follow (items : Statements) (hrest : Ahead (· ∈ followers) rest) :
    Ahead (Follows isOpen) (items.tokens ++ rest) := by
  cases items with
  | none => exact hrest.imp follows_of_mem
  | more s items =>
    have hcalm := (Statements.more s items).calming.calm hrest.calm
    obtain ⟨u, us, htokens, hu⟩ := s.front
    rw [tokens, htokens] at hcalm ⊢
    exact ⟨follows_of_mem (List.mem_append_left _ hu), hcalm⟩

/-- No statements are read back. -/
theorem Statements.Readable.none : Statements.none.Readable := by
  intro fuel bound stops rest c _ hbound _ _ hrest hc
  obtain ⟨bound, rfl⟩ : ∃ m, bound = m + 1 := ⟨bound - 1, by omega⟩
  have hc : c.rest = rest := hc
  exact .manyUpTo_nil (before_no (hc ▸ hrest.next)) hc

/-- Statements are read back one after another. -/
theorem Statements.Readable.more {s : Statement isOpen} {items : Statements} (h : s.Readable)
    (hitems : items.Readable) : (Statements.more s items).Readable := by
  intro fuel bound stops rest c hfuel hbound hstarts hstops hrest hc
  obtain ⟨bound, rfl⟩ : ∃ m, bound = m + 1 := ⟨bound - 1, by omega⟩
  obtain ⟨u, us, htokens, hu⟩ := s.front
  have htest : Next (· ∉ .eof :: stops) c.rest := by
    rw [hc, Statements.tokens, htokens]
    exact hstarts _ hu
  rw [Statements.tokens, List.length_append] at hfuel hbound
  rw [Statements.tokens, List.append_assoc] at hc
  have hpos : 0 < s.tokens.length := by
    rw [htokens]
    exact Nat.succ_pos _
  exact .manyUpTo_cons (before_yes htest) (.refl c)
    (h.reads (by omega) (items.follow (hrest.imp (hstops _))) hc)
    fun d hd => hitems (by omega) (by omega) hstarts hstops hrest hd

/-- A block is read up to the brace that ends it. -/
theorem Block.Readable.braces {opening : Token.Among [Symbol.lbrace]} {items : Statements}
    {closing : Token.Among [Symbol.rbrace]} (h : items.Readable) :
    (Block.braces opening items closing).Readable := by
  intro fuel rest c hfuel hcalm hc
  simp only [Block.tokens, List.append_assoc, List.cons_append, List.nil_append,
    List.length_append, List.length_cons] at hc hfuel
  have hclosing : Ahead (· ∈ [TokenKind.symbol .rbrace]) (closing.1 :: rest) :=
    ⟨closing.2, hcalm.cons_barrier (closing.kind_mem (by decide))⟩
  refine .here fun start => .step (need_past hc opening.kind_eq) ?_
  have hitems : Lands (c.past [opening.1] (items.tokens ++ closing.1 :: rest))
      (· = closing.1 :: rest) (Likes items.trees)
      (manyBefore Symbol.rbrace (parse fuel .statement)) := by
    refine .many (h (by omega) ?_ (by decide) (by decide) hclosing rfl)
    rw [past_rest, List.length_append]
    omega
  refine hitems.bind fun nodes c hc hnodes => ?_
  refine .step (need_past hc closing.kind_eq) ?_
  exact .finish_at hnodes rfl

end Sequences

section Choosing

/-- The parsers that the first token of a statement picks by itself. -/
def statementParsers (rule : Rules) : List (TokenKind × Parser Node) :=
  [(Symbol.lbrace, Grammar.block rule), (Symbol.semicolon, emptyStmt),
   (Keyword.ifKw, ifStmt rule), (Keyword.forKw, forStmt rule), (Keyword.whileKw, whileStmt rule),
   (Keyword.doKw, doStmt rule), (Keyword.switchKw, switchStmt rule),
   (Keyword.returnKw, returnStmt rule), (Keyword.breakKw, jumpStmt .breakStmt .breakKw),
   (Keyword.continueKw, jumpStmt .continueStmt .continueKw), (Keyword.throwKw, throwStmt rule),
   (Keyword.tryKw, tryStmt rule), (Keyword.assertKw, assertStmt rule)]

variable {rule : Rules} {t u : Token} {ts : List Token}

/-- A statement is parsed by its first word if the word has a parser. -/
theorem statement_run {p : Parser Node} (hc : c.rest = t :: ts)
    (h : (t.kind, p) ∈ statementParsers rule) : (Grammar.statement rule).run c = p.run c := by
  rw [Grammar.statement, bind_of_run (rfl : (kindAt 1).run c = ((c.tokenAt 1).kind, c)),
    kindAt_bind hc]
  simp only [statementParsers, List.mem_cons, Prod.mk.injEq, List.not_mem_nil, or_false] at h
  rcases h with ⟨ht, rfl⟩ | ⟨ht, rfl⟩ | ⟨ht, rfl⟩ | ⟨ht, rfl⟩ | ⟨ht, rfl⟩ | ⟨ht, rfl⟩ | ⟨ht, rfl⟩ |
    ⟨ht, rfl⟩ | ⟨ht, rfl⟩ | ⟨ht, rfl⟩ | ⟨ht, rfl⟩ | ⟨ht, rfl⟩ | ⟨ht, rfl⟩ <;> rw [ht]

/-- A statement with a word of its own is read behind the word. -/
theorem statement_lands {key : Keyword} {word : Token.Among [.keyword key]} {p : Parser Node}
    {f : Position → Unit → Parser Node} {sort : List Token → Prop} {Q : Node → Prop}
    (hc : c.rest = word.1 :: ts) (h : (.keyword key, p) ∈ statementParsers rule)
    (hp : p = here >>= fun start => need key >>= f start)
    (hf : ∀ start, Lands (c.past [word.1] ts) sort Q (f start ())) :
    Lands c sort Q (Grammar.statement rule) := by
  refine .of_eq (statement_run hc (word.kind_eq ▸ h)) ?_
  rw [hp]
  exact .here fun start => .step (need_past hc word.kind_eq) (hf start)

/-- With a parenthesis behind it the word begins a statement, not a declaration. -/
theorem statement_synchronized (hc : c.rest = t :: u :: ts) (ht : t.kind = Keyword.synchronizedKw)
    (hu : u.kind = Symbol.lparen) :
    (Grammar.statement rule).run c = (synchronizedStmt rule).run c := by
  rw [Grammar.statement, bind_of_run (rfl : (kindAt 1).run c = ((c.tokenAt 1).kind, c)),
    kindAt_bind hc, ht, tokenAt_one_cons hc, hu]
  rfl

/-- With a colon behind it a name is a label. -/
theorem statement_labeled (hc : c.rest = t :: u :: ts) (ht : t.kind = .identifier)
    (hu : u.kind = Symbol.colon) :
    (Grammar.statement rule).run c = (labeledStmt rule).run c := by
  rw [Grammar.statement, bind_of_run (rfl : (kindAt 1).run c = ((c.tokenAt 1).kind, c)),
    kindAt_bind hc, ht, tokenAt_one_cons hc, hu]
  rfl

/-- What begins like an expression or with a type is no labeled statement without a colon. -/
theorem statement_simple (hc : c.rest = t :: ts) (ht : t.kind ∈ operandStarts ++ primitiveWords)
    (hcolon : t.kind = .identifier → Next (· ≠ Symbol.colon) ts) :
    (Grammar.statement rule).run c = (simpleStmt rule).run c := by
  rw [Grammar.statement, bind_of_run (rfl : (kindAt 1).run c = ((c.tokenAt 1).kind, c)),
    kindAt_bind hc]
  by_cases hname : t.kind = .identifier
  · have hnext : ((c.tokenAt 1).kind == TokenKind.symbol .colon) = false := by
      obtain ⟨u, us, rfl⟩ : ∃ u us, ts = u :: us := by
        cases ts with
        | nil => exact (hcolon hname).elim
        | cons u us => exact ⟨u, us, rfl⟩
      rw [tokenAt_one_cons hc]
      exact beq_eq_false_iff_ne.2 (hcolon hname)
    rw [hname]
    dsimp only
    rw [hnext, if_neg Bool.false_ne_true]
  · generalize t.kind = kind at ht hname
    simp only [operandStarts, primaryStarts, literalKinds, prefixOperators, primitiveWords,
      List.cons_append, List.nil_append, List.mem_cons, List.not_mem_nil, or_false] at ht
    rcases ht with rfl | ht
    · exact absurd rfl hname
    · rcases ht with rfl | rfl | rfl | rfl | rfl | rfl | rfl | rfl | rfl | rfl | rfl | rfl | rfl |
        rfl | rfl | rfl | rfl | rfl | rfl | rfl | rfl | rfl | rfl | rfl | rfl <;> rfl

end Choosing

namespace Statement.Readable

section Simple

variable {semicolon : Token.Among [Symbol.semicolon]}

/-- A block as a statement. -/
theorem block {body : Block} (h : body.Readable) : (Statement.block body).Readable := by
  intro fuel rest c hfuel hrest hc
  have hc : c.rest = body.tokens ++ rest := hc
  obtain ⟨u, us, hfront, hu⟩ := body.front
  have hstart : c.rest = u :: (us ++ rest) := by
    rw [hc, hfront, List.cons_append]
  refine .of_eq (statement_run (p := Grammar.block (parse fuel)) hstart
    (by simp [statementParsers, hu])) ?_
  exact h hfuel hrest.calm hc

/-- The empty statement. -/
theorem empty (semicolon : Token.Among [Symbol.semicolon]) :
    (Statement.empty semicolon).Readable := by
  intro fuel rest c _ _ hc
  have hc : c.rest = semicolon.1 :: rest := hc
  refine .of_eq (statement_run (p := emptyStmt) hc
    (by simp [statementParsers, semicolon.kind_eq])) ?_
  refine .here fun start => .step (advance_past hc (ne_eof_of_mem semicolon.2 (by decide))) ?_
  exact .finish_at likes_nil rfl

/-- An expression with its semicolon, where no declaration begins. -/
theorem action (a : Action) (semicolon : Token.Among [Symbol.semicolon]) :
    (Statement.action a semicolon).Readable := by
  intro fuel rest c hfuel hrest hc
  simp only [tokens, List.append_assoc, List.cons_append, List.nil_append, List.length_append]
    at hc hfuel
  have hends : Ahead (· ∈ closers) (semicolon.1 :: rest) :=
    ⟨semicolon.kind_mem (by decide), hrest.calm.cons_barrier (semicolon.kind_mem (by decide))⟩
  have hcolon : Next (· ≠ Symbol.colon) (semicolon.1 :: rest) :=
    semicolon.next_ne (by decide)
  obtain ⟨t, ts, hfront, -, ht⟩ := a.expression.head_append (semicolon.1 :: rest)
  refine .of_eq (statement_simple (hc.trans hfront) (List.mem_append_left _ ht)
    fun _ => a.expression.second trivial hcolon hfront) ?_
  refine .glance (a.starts_not hc).1 ?_
  rw [if_neg Bool.false_ne_true]
  refine .here fun start => (a.expression.lands (by omega) hends hc).bind
    fun value c hc hvalue => ?_
  refine .step (need_past hc semicolon.kind_eq) ?_
  exact .finish_at hvalue.single rfl

/-- A declaration with its semicolon, where one begins. -/
theorem declaration (d : Declaration) (semicolon : Token.Among [Symbol.semicolon]) :
    (Statement.declaration d semicolon).Readable := by
  intro fuel rest c hfuel hrest hc
  simp only [tokens, List.append_assoc, List.cons_append, List.nil_append, List.length_append]
    at hc hfuel
  have hcalm : Calm (semicolon.1 :: rest) :=
    hrest.calm.cons_barrier (semicolon.kind_mem (by decide))
  obtain ⟨u, us, hfront, hu⟩ := d.front
  have hstart : c.rest = u :: (us ++ semicolon.1 :: rest) := by
    rw [hc, hfront, List.cons_append]
  have hkind : u.kind ∈ operandStarts ++ primitiveWords :=
    (by decide : .keyword .varKw :: typeStarts ⊆ operandStarts ++ primitiveWords) hu
  have htype : d.type.tokens ++ d.first.label.1 :: (d.tail ++ semicolon.1 :: rest) =
      u :: (us ++ semicolon.1 :: rest) := by
    rw [← d.tokens_append, ← hc, hstart]
  refine .of_eq (statement_simple hstart hkind fun hname => d.type.second hname htype) ?_
  refine .glance (d.starts hc) ?_
  rw [if_pos rfl]
  refine (d.lands (by omega) hcalm hc).bind fun node c hc hnode => ?_
  refine .step (need_past hc semicolon.kind_eq) ?_
  exact .extend hnode rfl

end Simple

section Branching

/-- Without an alternative no closing `else` may follow. -/
theorem ifThen {word : Token.Among [Keyword.ifKw]} {test : Condition} {yes : Statement isOpen}
    (h : yes.Readable) : (Statement.ifThen word test yes).Readable := by
  intro fuel rest c hfuel hrest hc
  simp only [tokens, List.append_assoc, List.cons_append, List.length_append, List.length_cons]
    at hc hfuel
  have hfollow : Ahead (Follows isOpen) rest := hrest.imp fun h => ⟨h.1, fun _ => h.2 rfl⟩
  refine statement_lands (p := ifStmt (parse fuel)) hc (by simp [statementParsers]) rfl
    fun start => ?_
  refine (test.lands (by omega) (yes.calming.calm hrest.calm) rfl).bind fun test c hc htest => ?_
  refine (h.reads (by omega) hfollow hc).bind fun yes c hc hyes => ?_
  have helse : Next (· ≠ Keyword.elseKw) c.rest := by
    rw [hc]
    exact hrest.next.imp fun h => h.2 rfl
  refine (Lands.optional_none_at (skip_no helse) hc).bind fun no c hc hno => ?_
  exact .finish_at (.cons htest (.cons hyes hno)) hc

/-- The first branch ends with a statement that no `else` can continue. -/
theorem ifElse {word : Token.Among [Keyword.ifKw]} {test : Condition} {yes : Statement false}
    {otherwise : Token.Among [Keyword.elseKw]} {no : Statement isOpen} (hyes : yes.Readable)
    (hno : no.Readable) : (Statement.ifElse word test yes otherwise no).Readable := by
  intro fuel rest c hfuel hrest hc
  simp only [tokens, List.append_assoc, List.cons_append, List.length_append, List.length_cons]
    at hc hfuel
  have helse : Ahead (Follows false) (otherwise.1 :: (no.tokens ++ rest)) := by
    refine ⟨⟨?_, fun h => absurd h Bool.false_ne_true⟩,
      otherwise.calm (by decide) (no.calming.calm hrest.calm)⟩
    rw [otherwise.kind_eq]
    decide
  refine statement_lands (p := ifStmt (parse fuel)) hc (by simp [statementParsers]) rfl
    fun start => ?_
  refine (test.lands (by omega) (yes.calming.calm helse.calm) rfl).bind fun test c hc htest => ?_
  refine (hyes.reads (by omega) helse hc).bind fun yes c hc hyes => ?_
  refine (Lands.optional_some (skip_past hc otherwise.kind_eq) (.past c _ _)
    (hno.reads (by omega) hrest rfl)).bind fun no c hc hno => ?_
  exact .finish_at (.cons htest (.cons hyes hno)) hc

end Branching

section Loops

variable {body : Statement isOpen}

/-- A loop with its condition in front. -/
theorem whileLoop {word : Token.Among [Keyword.whileKw]} {test : Condition} (h : body.Readable) :
    (Statement.whileLoop word test body).Readable := by
  intro fuel rest c hfuel hrest hc
  simp only [tokens, List.append_assoc, List.cons_append, List.length_append, List.length_cons]
    at hc hfuel
  refine statement_lands (p := whileStmt (parse fuel)) hc (by simp [statementParsers]) rfl
    fun start => ?_
  refine (test.lands (by omega) (body.calming.calm hrest.calm) rfl).bind fun test c hc htest => ?_
  refine (h.reads (by omega) hrest hc).bind fun body c hc hbody => ?_
  exact .finish_at (.cons htest hbody.single) hc

/-- A loop with its condition behind. -/
theorem doLoop {word : Token.Among [Keyword.doKw]} {again : Token.Among [Keyword.whileKw]}
    {test : Condition} {semicolon : Token.Among [Symbol.semicolon]} (h : body.Readable) :
    (Statement.doLoop word body again test semicolon).Readable := by
  intro fuel rest c hfuel hrest hc
  simp only [tokens, List.append_assoc, List.cons_append, List.nil_append, List.length_append,
    List.length_cons] at hc hfuel
  have hcalm : Calm (semicolon.1 :: rest) :=
    hrest.calm.cons_barrier (semicolon.kind_mem (by decide))
  have hagain : Ahead (Follows isOpen) (again.1 :: (test.tokens ++ semicolon.1 :: rest)) :=
    ⟨follows_of_mem (again.kind_mem (by decide)),
      again.calm (by decide) (test.calming.calm hcalm)⟩
  refine statement_lands (p := doStmt (parse fuel)) hc (by simp [statementParsers]) rfl
    fun start => ?_
  refine (h.reads (by omega) hagain rfl).bind fun body c hc hbody => ?_
  refine .step (need_past hc again.kind_eq) ?_
  refine (test.lands (by omega) hcalm rfl).bind fun test c hc htest => ?_
  refine .step (need_past hc semicolon.kind_eq) ?_
  exact .finish_at (.cons hbody htest.single) rfl

/-- A loop whose head has three clauses is no enhanced one. -/
theorem forLoop {word : Token.Among [Keyword.forKw]} {head : ForHead} (h : body.Readable) :
    (Statement.forLoop word head body).Readable := by
  intro fuel rest c hfuel hrest hc
  simp only [tokens, ForHead.tokens, List.append_assoc, List.cons_append, List.nil_append,
    List.length_append, List.length_cons] at hc hfuel
  have hclosing : Calm (head.closing.1 :: (body.tokens ++ rest)) :=
    head.closing.calm (by decide) (body.calming.calm hrest.calm)
  have hsecond : Calm (head.semicolon'.1 ::
      (head.updates.tokens ++ head.closing.1 :: (body.tokens ++ rest))) :=
    (head.updates.calming.calm hclosing).cons_barrier (head.semicolon'.kind_mem (by decide))
  have htest : Calming (head.test.toList.flatMap (·.tokens)) :=
    .flatMap fun e => e.calming trivial
  have hfirst := (htest.calm hsecond).cons_barrier (head.semicolon.kind_mem (by decide))
  refine statement_lands (p := forStmt (parse fuel)) hc (by simp [statementParsers]) rfl
    fun start => ?_
  refine .step (need_past rfl head.opening.kind_eq) ?_
  refine .glance (head.inits.iterates_not rfl) ?_
  rw [if_neg Bool.false_ne_true]
  refine .here fun initStart => (head.inits.lands (by omega) hfirst rfl).bind
    fun inits c hc hinits => ?_
  refine (Lands.finish_at hinits hc).bind fun init c hc hinit => ?_
  refine .step (need_past hc head.semicolon.kind_eq) ?_
  refine (optionalExpression_land (by omega) hsecond rfl).bind fun test c hc htest => ?_
  refine .step (need_past hc head.semicolon'.kind_eq) ?_
  refine .here fun updateStart => (head.updates.lands (by omega) hclosing rfl).bind
    fun updates c hc hupdates => ?_
  refine (Lands.finish_at hupdates hc).bind fun update c hc hupdate => ?_
  refine .step (need_past hc head.closing.kind_eq) ?_
  refine (h.reads (by omega) hrest rfl).bind fun body c hc hbody => ?_
  have htrees := Likes.append (.cons hinit htest) (.cons hupdate hbody.single)
  refine .imp (Lands.finish_at htrees hc) (fun _ => id) fun node hnode => ?_
  rw [tree, ForHead.trees, List.append_assoc]
  exact hnode

/-- A loop whose head has a colon is an enhanced one. -/
theorem forEach {word : Token.Among [Keyword.forKw]} {head : EachHead} (h : body.Readable) :
    (Statement.forEach word head body).Readable := by
  intro fuel rest c hfuel hrest hc
  simp only [tokens, EachHead.tokens, List.append_assoc, List.cons_append, List.nil_append,
    List.length_append, List.length_cons] at hc hfuel
  have hclosing : Ahead (· ∈ closers) (head.closing.1 :: (body.tokens ++ rest)) :=
    ⟨head.closing.kind_mem (by decide),
      head.closing.calm (by decide) (body.calming.calm hrest.calm)⟩
  obtain ⟨u, us, hfront, hu⟩ := head.type.front
  have hplain : u.kind ∈ plainStarts := (by decide : .keyword .varKw :: typeStarts ⊆ plainStarts) hu
  refine statement_lands (p := forStmt (parse fuel)) hc (by simp [statementParsers]) rfl
    fun start => ?_
  refine .step (need_past rfl head.opening.kind_eq) ?_
  refine .glance (head.starts rfl) ?_
  rw [if_pos rfl]
  refine (modifiers_land ?_ rfl).bind fun marks c hc hmarks => ?_
  · rw [hfront]
    exact hplain
  refine (head.type.lands (by omega) (next_name head.label _) hc).bind
    fun declared c hc hdeclared => ?_
  refine .step (name_past hc) ?_
  refine .step (need_past rfl head.colon.kind_eq) ?_
  refine (head.collection.lands (by omega) hclosing rfl).bind
    fun collection c hc hcollection => ?_
  refine .step (need_past hc head.closing.kind_eq) ?_
  refine (h.reads (by omega) hrest rfl).bind fun body c hc hbody => ?_
  exact .finish_at (.cons hmarks (.cons hdeclared
    ((likes_word _).append (.cons hcollection hbody.single)))) hc

end Loops

section Words

/-- A return with or without a value. -/
theorem returnWith {word : Token.Among [Keyword.returnKw]} {value : Option (Expression .assignment)}
    {semicolon : Token.Among [Symbol.semicolon]} :
    (Statement.returnWith word value semicolon).Readable := by
  intro fuel rest c hfuel hrest hc
  simp only [tokens, List.append_assoc, List.cons_append, List.nil_append, List.length_append,
    List.length_cons] at hc hfuel
  have hcalm : Calm (semicolon.1 :: rest) :=
    hrest.calm.cons_barrier (semicolon.kind_mem (by decide))
  refine statement_lands (p := returnStmt (parse fuel)) hc (by simp [statementParsers]) rfl
    fun start => ?_
  refine (optionalExpression_land (by omega) hcalm rfl).bind fun value c hc hvalue => ?_
  refine .step (need_past hc semicolon.kind_eq) ?_
  exact .finish_at hvalue rfl

/-- A jump is read with its label if it has one. -/
theorem jump_lands {kind : NodeKind} {key : Keyword} {word : Token}
    {label : Option (Token.Among [.identifier])} {semicolon : Token.Among [Symbol.semicolon]}
    (hword : word.kind = key)
    (hc : c.rest = word :: (label.toList.map (·.1) ++ semicolon.1 :: rest)) :
    Lands c (· = rest) (Like (bare kind (label.toList.map fun t => Node.word t.1)))
      (jumpStmt kind key) := by
  refine .here fun start => .step (need_past hc hword) ?_
  have hlabel : Lands (c.past [word] (label.toList.map (·.1) ++ semicolon.1 :: rest))
      (· = semicolon.1 :: rest) (Likes (label.toList.map fun t => Node.word t.1))
      (optional (check .identifier) (leaf .identifier)) := by
    cases label with
    | none =>
      have hnone : Next (· ≠ .identifier) (semicolon.1 :: rest) :=
        semicolon.next_ne (by decide)
      exact .optional_none_at (check_no hnone) rfl
    | some t =>
      exact .optional_some (check_yes t.kind_eq) (.refl _)
        (.of_past (leaf_past rfl (ne_eof_of_mem t.2 (by decide))) rfl rfl)
  refine hlabel.bind fun label c hc hlabel => ?_
  refine .step (need_past hc semicolon.kind_eq) ?_
  exact .finish_at hlabel rfl

/-- A break with or without a label. -/
theorem breakOut {word : Token.Among [Keyword.breakKw]} {label : Option (Token.Among [.identifier])}
    {semicolon : Token.Among [Symbol.semicolon]} :
    (Statement.breakOut word label semicolon).Readable := by
  intro fuel rest c _ _ hc
  simp only [tokens, List.append_assoc, List.cons_append, List.nil_append] at hc
  exact .of_eq (statement_run hc (by simp [statementParsers, word.kind_eq]))
    (jump_lands word.kind_eq hc)

/-- A continue with or without a label. -/
theorem continueWith {word : Token.Among [Keyword.continueKw]}
    {label : Option (Token.Among [.identifier])} {semicolon : Token.Among [Symbol.semicolon]} :
    (Statement.continueWith word label semicolon).Readable := by
  intro fuel rest c _ _ hc
  simp only [tokens, List.append_assoc, List.cons_append, List.nil_append] at hc
  exact .of_eq (statement_run hc (by simp [statementParsers, word.kind_eq]))
    (jump_lands word.kind_eq hc)

/-- A throw with its value. -/
theorem throwUp {word : Token.Among [Keyword.throwKw]} {value : Expression .assignment}
    {semicolon : Token.Among [Symbol.semicolon]} :
    (Statement.throwUp word value semicolon).Readable := by
  intro fuel rest c hfuel hrest hc
  simp only [tokens, List.append_assoc, List.cons_append, List.nil_append, List.length_append,
    List.length_cons] at hc hfuel
  have hends : Ahead (· ∈ closers) (semicolon.1 :: rest) :=
    ⟨semicolon.kind_mem (by decide), hrest.calm.cons_barrier (semicolon.kind_mem (by decide))⟩
  refine statement_lands (p := throwStmt (parse fuel)) hc (by simp [statementParsers]) rfl
    fun start => ?_
  refine (value.lands (by omega) hends rfl).bind fun value c hc hvalue => ?_
  refine .step (need_past hc semicolon.kind_eq) ?_
  exact .finish_at hvalue.single rfl

/-- An assertion with or without a message. -/
theorem assertion {word : Token.Among [Keyword.assertKw]} {test : Expression .assignment}
    {message : Option (Token.Among [Symbol.colon] × Expression .assignment)}
    {semicolon : Token.Among [Symbol.semicolon]} :
    (Statement.assertion word test message semicolon).Readable := by
  intro fuel rest c hfuel hrest hc
  simp only [tokens, List.append_assoc, List.cons_append, List.nil_append, List.length_append,
    List.length_cons] at hc hfuel
  have hends : Ahead (· ∈ closers) (semicolon.1 :: rest) :=
    ⟨semicolon.kind_mem (by decide), hrest.calm.cons_barrier (semicolon.kind_mem (by decide))⟩
  refine statement_lands (p := assertStmt (parse fuel)) hc (by simp [statementParsers]) rfl
    fun start => ?_
  cases message with
  | none =>
    refine (test.lands (by omega) hends rfl).bind fun test c hc htest => ?_
    have hcolon : Next (· ≠ Symbol.colon) c.rest := by
      rw [hc]
      exact semicolon.next_ne (by decide)
    refine (Lands.optional_none_at (skip_no hcolon) hc).bind fun message c hc hmessage => ?_
    refine .step (need_past hc semicolon.kind_eq) ?_
    exact .finish_at (.cons htest hmessage) rfl
  | some m =>
    simp only [Option.toList_some, List.flatMap_singleton, List.cons_append, List.length_cons]
      at hfuel ⊢
    have hcolon : Ahead (· ∈ closers) (m.1.1 :: (m.2.tokens ++ semicolon.1 :: rest)) :=
      ⟨m.1.kind_mem (by decide), m.1.calm (by decide) (m.2.calm trivial hends.calm)⟩
    refine (test.lands (by omega) hcolon rfl).bind fun test c hc htest => ?_
    refine (Lands.optional_some (skip_past hc m.1.kind_eq) (.past c _ _)
      (m.2.lands (by omega) hends rfl)).bind fun message c hc hmessage => ?_
    refine .step (need_past hc semicolon.kind_eq) ?_
    exact .finish_at (.cons htest hmessage) rfl

/-- A synchronized statement with its lock and its block. -/
theorem synchronized {word : Token.Among [Keyword.synchronizedKw]} {lock : Condition} {body : Block}
    (h : body.Readable) : (Statement.synchronized word lock body).Readable := by
  intro fuel rest c hfuel hrest hc
  simp only [tokens, List.append_assoc, List.cons_append, List.length_append, List.length_cons]
    at hc hfuel
  refine .of_eq (statement_synchronized hc word.kind_eq lock.opening.kind_eq) ?_
  refine .here fun start => .step (need_past hc word.kind_eq) ?_
  refine (lock.lands (by omega) (body.calming.calm hrest.calm) rfl).bind fun lock c hc hlock => ?_
  refine (h (by omega) hrest.calm hc).bind fun body c hc hbody => ?_
  exact .finish_at (.cons hlock hbody.single) hc

/-- A label in front of a statement that is read back. -/
theorem labeled {label : Token.Among [.identifier]} {colon : Token.Among [Symbol.colon]}
    {body : Statement isOpen} (h : body.Readable) :
    (Statement.labeled label colon body).Readable := by
  intro fuel rest c hfuel hrest hc
  simp only [tokens, List.cons_append, List.length_cons] at hc hfuel
  refine .of_eq (statement_labeled hc label.kind_eq colon.kind_eq) ?_
  refine .here fun start => .step (leaf_past hc (ne_eof_of_mem label.2 (by decide))) ?_
  refine .step (need_past rfl colon.kind_eq) ?_
  refine (h.reads (by omega) hrest rfl).bind fun body c hc hbody => ?_
  exact .finish_at (.cons (Node.like_erase _) hbody.single) hc

end Words

end Statement.Readable

end JavaObjC
