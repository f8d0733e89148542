import JavaObjC.Proofs.Printing.Choices

/-!
# Reading the parts of a statement

Initial values, declarations, conditions, the heads of loops, labels and the
heads of `catch` clauses are read as they are written. Each of them ends at a
token that cannot be taken for a part of it.
-/

namespace JavaObjC

open Cursor Grammar JavaObjC.Parser Node

variable {fuel : Nat} {rest : List Token} {c : Cursor}

/-- A phrase is read as a tree, up to the tokens after it. -/
def ReadsLike (p : Parser Node) (tokens : List Token) (tree : Node) (rest : List Token) : Prop :=
  ∀ ⦃c : Cursor⦄, c.rest = tokens ++ rest → Lands c (· = rest) (Like tree) p

/-- An expression is read without regard to places. -/
theorem Expression.lands (e : Expression .assignment) (hfuel : e.tokens.length ≤ fuel)
    (hrest : Ahead (· ∈ closers) rest) (hc : c.rest = e.tokens ++ rest) :
    Lands c (· = rest) (Like e.tree.erase) (Grammar.expression (parse fuel)) :=
  .of_past (e.readable.reads trivial hfuel hrest c hc) rfl rfl

/-- An operand of an assignment is read without regard to places. -/
theorem Expression.lands_ternary (e : Expression .ternary) (hfuel : e.tokens.length ≤ fuel)
    (hrest : Ahead (· ∈ closers) rest) (hc : c.rest = e.tokens ++ rest) :
    Lands c (· = rest) (Like e.tree.erase) (Grammar.ternary (parse fuel)) :=
  .of_past (e.readable.reads trivial hfuel (hrest.imp (List.mem_append_left _)) c hc) rfl rfl

theorem likes_word (t : Token) : Likes [word t] [.ofToken .identifier t] := rfl

/-- A name is taken as a leaf. -/
theorem name_past {label : Token.Among nameKinds} (hc : c.rest = label.1 :: rest) :
    Parser.name.run c = ([.ofToken .identifier label.1], c.past [label.1] rest) := by
  have hname : Next (· ∈ nameKinds) c.rest := by
    rw [hc]
    exact label.2
  rw [Parser.name, bind_of_run (checkName_yes hname), if_pos rfl,
    bind_of_run (leaf_past hc (ne_eof_of_mem label.2 (by decide)))]
  rfl

section Values

/-- An initial value is read as it is written. -/
def Initializer.Readable (i : Initializer) : Prop :=
  ∀ ⦃fuel : Nat⦄ ⦃rest : List Token⦄, i.tokens.length ≤ fuel → Ahead (· ∈ closers) rest →
    ReadsAs (Grammar.initializer (parse fuel)) i.tokens i.tree rest

/-- Values are read up to the brace that closes them. -/
def Initializers.Readable (items : Initializers) : Prop :=
  ∀ ⦃fuel bound : Nat⦄ ⦃closing : Token⦄ ⦃rest : List Token⦄, items.tokens.length < fuel →
    items.tokens.length < bound → closing.kind = Symbol.rbrace → Calm (closing :: rest) →
    ReadsAs (commaListUpTo Symbol.rbrace (parse fuel .initializer) bound) items.tokens items.trees
      (closing :: rest)

/-- An initial value begins with a token that ends no list of them. -/
theorem Initializer.front (i : Initializer) :
    ∃ u us, i.tokens = u :: us ∧ u.kind ∉ [.eof, .symbol .rbrace] := by
  cases i with
  | value e =>
    obtain ⟨u, us, htokens, hu⟩ := e.front
    exact ⟨u, us, htokens,
      (by decide : ∀ k ∈ operandStarts, k ∉ [TokenKind.eof, .symbol .rbrace]) _ hu⟩
  | array opening items closing =>
    exact ⟨opening.1, _, rfl, by rw [opening.kind_eq]; decide⟩

/-- An initial value that is read back is so with enough fuel. -/
theorem Initializer.Readable.reads {i : Initializer} (h : i.Readable)
    (hfuel : i.tokens.length < fuel) (hrest : Ahead (· ∈ closers) rest) :
    ReadsAs (parse fuel .initializer) i.tokens i.tree rest := by
  cases fuel with
  | zero => exact absurd hfuel (Nat.not_lt_zero _)
  | succ fuel => exact h (Nat.le_of_lt_succ hfuel) hrest

namespace Initializer.Readable

/-- An initial value that is an expression is read back. -/
theorem value (e : Expression .assignment) : (Initializer.value e).Readable := by
  intro fuel rest hfuel hrest c hc
  have hc : c.rest = e.tokens ++ rest := hc
  obtain ⟨u, us, hfront, -, hu⟩ := e.head_append rest
  have hbrace : u.kind ≠ Symbol.lbrace := (by decide : ∀ k ∈ operandStarts, k ≠ Symbol.lbrace) _ hu
  rw [initializer, ifCheck_neg (hc.trans hfront) hbrace]
  exact e.readable.reads trivial hfuel hrest c hc

/-- An initial value in braces is read back when its items are. -/
theorem array {opening : Token.Among [Symbol.lbrace]} {items : Initializers}
    {closing : Token.Among [Symbol.rbrace]} (h : items.Readable) :
    (Initializer.array opening items closing).Readable := by
  intro fuel rest hfuel hrest c hc
  simp only [tokens, List.append_assoc, List.cons_append, List.nil_append, List.length_append,
    List.length_cons] at hc hfuel ⊢
  have hcalm : Calm (closing.1 :: rest) := hrest.calm.cons_barrier (closing.kind_mem (by decide))
  have hitems : (commaListBefore Symbol.rbrace (parse fuel .initializer)).run
      (c.past [opening.1] (items.tokens ++ closing.1 :: rest)) = (items.trees,
        (c.past [opening.1] (items.tokens ++ closing.1 :: rest)).past items.tokens
          (closing.1 :: rest)) := by
    refine h (by omega) ?_ closing.kind_eq hcalm _ rfl
    rw [past_rest, List.length_append]
    omega
  have hspan : (Span.cover (opening.1 :: (items.tokens ++ [closing.1]))).start =
      opening.1.span.start := rfl
  rw [initializer, ifCheck_pos hc opening.kind_eq, arrayInitializer, here_bind hc,
    bind_of_run (need_past hc opening.kind_eq), bind_of_run hitems,
    bind_of_run (need_past rfl closing.kind_eq)]
  simp only [past_past, List.cons_append, List.append_assoc]
  exact finish_past (List.cons_ne_nil _ _) hspan.symm

end Initializer.Readable

namespace Initializers.Readable

/-- Empty braces are read back. -/
theorem none : Initializers.none.Readable := by
  intro fuel bound closing rest _ hbound hclosing _
  obtain ⟨bound, rfl⟩ : ∃ m, bound = m + 1 := ⟨bound - 1, by omega⟩
  exact commaListUpTo_nil hclosing

/-- The last item is read up to the brace. -/
theorem last {i : Initializer} (h : i.Readable) : (Initializers.last i).Readable := by
  intro fuel bound closing rest hfuel hbound hclosing hcalm
  obtain ⟨bound, rfl⟩ : ∃ m, bound = m + 1 := ⟨bound - 1, by omega⟩
  obtain ⟨u, us, htokens, hu⟩ := i.front
  have hends : Ahead (· ∈ closers) (closing :: rest) := ⟨by rw [hclosing]; decide, hcalm⟩
  exact commaListUpTo_last htokens hu (by rw [hclosing]; decide) (h.reads hfuel hends)

/-- An item is read up to its comma, then the others are. -/
theorem more {i : Initializer} {comma : Token.Among [Symbol.comma]} {items : Initializers}
    (h : i.Readable) (hitems : items.Readable) : (Initializers.more i comma items).Readable := by
  intro fuel bound closing rest hfuel hbound hclosing hcalm
  obtain ⟨bound, rfl⟩ : ∃ m, bound = m + 1 := ⟨bound - 1, by omega⟩
  simp only [tokens, List.length_append, List.length_cons] at hfuel hbound
  obtain ⟨u, us, htokens, hu⟩ := i.front
  have hcomma : Ahead (· ∈ closers) (comma.1 :: (items.tokens ++ closing :: rest)) :=
    ⟨comma.kind_mem (by decide), comma.calm (by decide) (items.calming.calm hcalm)⟩
  exact commaListUpTo_more htokens hu comma.kind_eq (h.reads (by omega) hcomma)
    (hitems (by omega) (by omega) hclosing hcalm)

end Initializers.Readable

mutual

/-- Every initial value is read as it is written. -/
theorem Initializer.readable : ∀ i : Initializer, i.Readable
  | .value e => .value e
  | .array _ items _ => .array items.readable

/-- All values in braces are read as they are written. -/
theorem Initializers.readable : ∀ items : Initializers, items.Readable
  | .none => .none
  | .last i => .last i.readable
  | .more i _ items => .more i.readable items.readable

end

/-- Reading an initial value gives its tree and lands behind it. -/
theorem Initializer.lands (i : Initializer) (hfuel : i.tokens.length ≤ fuel)
    (hrest : Ahead (· ∈ closers) rest) (hc : c.rest = i.tokens ++ rest) :
    Lands c (· = rest) (Like i.tree.erase) (Grammar.initializer (parse fuel)) :=
  .of_past (i.readable hfuel hrest c hc) rfl rfl

end Values

section Declarations

/-- Tokens that end a declared name with its value. -/
def declaratorEnds : List TokenKind := [Symbol.comma, Symbol.semicolon]

/-- The values of a declared name are read after the sign. -/
theorem initialValue_lands {value : Option (Token.Among [Symbol.assign] × Initializer)}
    (hfuel : (value.toList.flatMap fun v => v.1.1 :: v.2.tokens).length ≤ fuel)
    (hrest : Ahead (· ∈ declaratorEnds) rest)
    (hc : c.rest = (value.toList.flatMap fun v => v.1.1 :: v.2.tokens) ++ rest) :
    Lands c (· = rest) (Likes (value.toList.map fun v => v.2.tree.erase))
      (optional (skip Symbol.assign) (Grammar.initializer (parse fuel))) := by
  cases value with
  | none =>
    have hc : c.rest = rest := hc
    have hassign : Next (· ≠ Symbol.assign) c.rest := by
      rw [hc]
      exact hrest.next.imp ((by decide : ∀ k ∈ declaratorEnds, k ≠ Symbol.assign) _)
    exact .optional_none_at (skip_no hassign) hc
  | some v =>
    have hends : Ahead (· ∈ closers) rest := hrest.imp ((by decide : declaratorEnds ⊆ closers) ·)
    have hfront : c.rest = v.1.1 :: (v.2.tokens ++ rest) := by
      simpa using hc
    have hlength : v.2.tokens.length ≤ fuel := by
      simp only [Option.toList_some, List.flatMap_singleton, List.length_cons] at hfuel
      omega
    exact .optional_some (skip_past hfront v.1.kind_eq) (.past c _ _)
      (v.2.lands hlength hends rfl)

/-- A declared name is read with its value, without brackets after the name. -/
theorem Declarator.lands (d : Declarator) (hfuel : d.tokens.length ≤ fuel)
    (hrest : Ahead (· ∈ declaratorEnds) rest) (hc : c.rest = d.tokens ++ rest) :
    Lands c (· = rest) (fun p => Like d.tree p.1 ∧ p.2 = 0) (declarator (parse fuel)) := by
  have hfront : c.rest = d.label.1 ::
      ((d.value.toList.flatMap fun v => v.1.1 :: v.2.tokens) ++ rest) := hc
  have hbracket : Next (· ≠ Symbol.lbracket)
      ((d.value.toList.flatMap fun v => v.1.1 :: v.2.tokens) ++ rest) := by
    cases d.value with
    | none => exact hrest.next.imp ((by decide : ∀ k ∈ declaratorEnds, k ≠ Symbol.lbracket) _)
    | some v => exact v.1.next_ne (by decide)
  have hlength : (d.value.toList.flatMap fun v => v.1.1 :: v.2.tokens).length ≤ fuel := by
    rw [tokens, List.length_cons] at hfuel
    omega
  refine .here fun start => .step (name_past hfront) ?_
  refine .glance (loop_none (a := 0) ?_) ?_
  · rw [bind_of_run (check2_no hbracket)]
    rfl
  · refine (initialValue_lands hlength hrest rfl).bind fun v d hd hv => ?_
    exact (Lands.finish_at ((likes_word _).append hv) hd).bind fun node d hd hnode =>
      .pure ⟨hnode, rfl⟩ hd

/-- A declared name ends at a comma or at the semicolon. -/
theorem ahead_more {semicolon : Token.Among [Symbol.semicolon]}
    (hcalm : Calm (semicolon.1 :: rest)) (more : List (Token.Among [Symbol.comma] × Declarator)) :
    Ahead (· ∈ declaratorEnds) ((more.flatMap fun next => next.1.1 :: next.2.tokens) ++
      semicolon.1 :: rest) := by
  cases more with
  | nil => exact ⟨semicolon.kind_mem (by decide), hcalm⟩
  | cons next more =>
    have hcalming : Calming ((next :: more).flatMap fun next => next.1.1 :: next.2.tokens) :=
      .flatMap fun next => .cons next.1 (by decide) next.2.calming
    exact ⟨next.1.kind_mem (by decide), hcalming.calm hcalm⟩

/-- The names behind commas join the names read so far, up to the semicolon. -/
theorem moreDeclarators_land {semicolon : Token.Among [Symbol.semicolon]}
    (hcalm : Calm (semicolon.1 :: rest))
    {more : List (Token.Among [Symbol.comma] × Declarator)} {trees nodes : List Node} {n : Nat}
    (hfuel : (more.flatMap fun next => next.1.1 :: next.2.tokens).length ≤ fuel)
    (hn : more.length < n) (hnodes : Likes trees nodes)
    (hc : c.rest = (more.flatMap fun next => next.1.1 :: next.2.tokens) ++ semicolon.1 :: rest) :
    Lands c (· = semicolon.1 :: rest)
      (fun p => Likes (trees ++ more.map fun next => next.2.tree) p.1 ∧ p.2 = 0)
      (Parser.iterate (fun (nodes, total) => do
        if ← skip Symbol.comma then
          let (node, depth) ← declarator (parse fuel)
          return some (nodes ++ [node], total + depth)
        else return none) n (nodes, 0)) := by
  induction more generalizing c n nodes trees with
  | nil =>
    obtain ⟨m, rfl⟩ : ∃ m, n = m + 1 := ⟨n - 1, by omega⟩
    have hcomma : Next (· ≠ Symbol.comma) c.rest := by
      rw [hc]
      exact semicolon.next_ne (by decide)
    refine .iterate_stop ?_ ⟨?_, rfl⟩ hc
    · dsimp only
      rw [bind_of_run (skip_no hcomma)]
      rfl
    · rw [List.map_nil, List.append_nil]
      exact hnodes
  | cons next more ih =>
    obtain ⟨m, rfl⟩ : ∃ m, n = m + 1 := ⟨n - 1, by omega⟩
    simp only [List.flatMap_cons, List.length_append, List.length_cons] at hfuel hn
    have hfront : c.rest = next.1.1 :: (next.2.tokens ++
        ((more.flatMap fun next => next.1.1 :: next.2.tokens) ++ semicolon.1 :: rest)) := by
      rw [hc, List.flatMap_cons, List.append_assoc, List.cons_append]
    have hsplit : trees ++ (next :: more).map (fun next => next.2.tree) =
        (trees ++ [next.2.tree]) ++ more.map fun next => next.2.tree := by
      rw [List.map_cons, List.append_assoc, List.singleton_append]
    rw [hsplit]
    refine .iterate_go (?_ : Lands c
      (· = (more.flatMap fun next => next.1.1 :: next.2.tokens) ++ semicolon.1 :: rest)
      (fun o => ∃ b : List Node × Nat, o = some b ∧ Likes (trees ++ [next.2.tree]) b.1 ∧ b.2 = 0)
      _) fun b d hd hb => ?_
    · dsimp only
      refine .step (skip_past hfront next.1.kind_eq) ?_
      rw [if_pos rfl]
      refine (next.2.lands (by omega) (ahead_more hcalm more) rfl).bind fun p d hd hp => ?_
      obtain ⟨node, depth⟩ := p
      obtain ⟨hnode, rfl⟩ := hp
      exact .pure ⟨_, rfl, hnodes.append hnode.single, rfl⟩ hd
    · obtain ⟨nodes, total⟩ := b
      obtain ⟨hnodes, rfl⟩ := hb
      exact ih (by omega) (by omega) hnodes hd

/-- Declared names are read up to the semicolon. -/
theorem declarators_land {first : Declarator}
    {more : List (Token.Among [Symbol.comma] × Declarator)}
    {semicolon : Token.Among [Symbol.semicolon]}
    (hfuel : (first.tokens ++ more.flatMap fun next => next.1.1 :: next.2.tokens).length ≤ fuel)
    (hcalm : Calm (semicolon.1 :: rest))
    (hc : c.rest = first.tokens ++ ((more.flatMap fun next => next.1.1 :: next.2.tokens) ++
      semicolon.1 :: rest)) :
    Lands c (· = semicolon.1 :: rest)
      (fun p => Likes (first.tree :: more.map fun next => next.2.tree) p.1 ∧ p.2 = 0)
      (declarators (parse fuel)) := by
  rw [List.length_append] at hfuel
  refine (first.lands (by omega) (ahead_more hcalm more) hc).bind fun p d hd hp => ?_
  obtain ⟨node, depth⟩ := p
  obtain ⟨hnode, rfl⟩ := hp
  have hn : more.length < 1 + d.rest.length := by
    have hlength := length_flatMap_le (f := fun next : Token.Among [Symbol.comma] × Declarator =>
      next.1.1 :: next.2.tokens) (fun _ => List.cons_ne_nil _ _) more
    rw [hd, List.length_append]
    omega
  exact .loop (moreDeclarators_land hcalm (by omega) hn hnode.single hd)

/-- Tokens that begin a declaration without modifiers. -/
def plainStarts : List TokenKind :=
  [.keyword .varKw, .keyword .classKw, .keyword .voidKw] ++ typeStarts

/-- The tokens that begin types and names are no modifiers. -/
theorem isModifier_plain {kind : TokenKind} (h : kind ∈ plainStarts) (next : TokenKind) :
    isModifier kind next = false := by
  simp only [plainStarts, typeStarts, primitiveWords, List.cons_append, List.nil_append,
    List.mem_cons, List.not_mem_nil, or_false] at h
  rcases h with rfl | rfl | rfl | rfl | rfl | rfl | rfl | rfl | rfl | rfl | rfl | rfl <;> rfl

/-- Where no modifier is there are none. -/
theorem modifiers_land {rule : Rules} (h : Next (· ∈ plainStarts) rest) (hc : c.rest = rest) :
    Lands c (· = rest) (Like (bare .modifiers [])) (modifiers rule) := by
  have hnone : startsModifier.run c = (false, c) := by
    have hkind := isModifier_plain (Next.kind (hc ▸ h)) (c.tokenAt 1).kind
    change (isModifier (c.tokenAt 0).kind (c.tokenAt 1).kind, c) = _
    rw [hkind]
  refine .here fun start => .glance (many_none hnone) ?_
  exact .finish_at likes_nil hc

/-- Reading the type of a local gives its tree and lands behind it. -/
theorem LocalType.lands (t : LocalType) (hfuel : t.tokens.length ≤ fuel)
    (hrest : Next (· ∉ typeMarks) rest) (hc : c.rest = t.tokens ++ rest) :
    Lands c (· = rest) (Like t.tree) (localType (parse fuel)) := by
  cases t with
  | inferred word =>
    have hfront : c.rest = word.1 :: rest := hc
    have hword : Next (· = Keyword.varKw) c.rest := by
      rw [hfront]
      exact word.kind_eq
    refine .glance (check_yes hword) ?_
    rw [if_pos rfl]
    exact .of_past (leaf_past hfront (ne_eof_of_mem word.2 (by decide))) rfl rfl
  | given type =>
    have hfront : c.rest = type.type.tokens ++ (type.closing.1 ++ rest) := by
      rw [hc, tokens, WrittenType.tokens, List.append_assoc]
    have hword : Next (· ≠ Keyword.varKw) c.rest := by
      rw [hfront]
      exact (type.type.next _).imp ((by decide : ∀ k ∈ typeStarts, k ≠ Keyword.varKw) _)
    refine .glance (check_no hword) ?_
    rw [if_neg Bool.false_ne_true]
    exact type.lands hfuel hrest hc

/-- A name does not go on with a type. -/
theorem next_name (label : Token.Among nameKinds) (ts : List Token) :
    Next (· ∉ typeMarks) (label.1 :: ts) :=
  (by decide : ∀ k ∈ nameKinds, k ∉ typeMarks) _ label.2

/-- A declaration is read as it is written. -/
theorem Declaration.lands (d : Declaration) {semicolon : Token.Among [Symbol.semicolon]}
    (hfuel : d.tokens.length ≤ fuel) (hcalm : Calm (semicolon.1 :: rest))
    (hc : c.rest = d.tokens ++ semicolon.1 :: rest) :
    Lands c (· = semicolon.1 :: rest) (Like d.tree) (localVarDecl (parse fuel)) := by
  obtain ⟨u, us, hfront, hu⟩ := d.front
  have hstart : Next (· ∈ plainStarts) (d.tokens ++ semicolon.1 :: rest) := by
    rw [hfront]
    exact (by decide : .keyword .varKw :: typeStarts ⊆ plainStarts) hu
  rw [tokens, List.length_append] at hfuel
  refine .here fun start => (modifiers_land hstart hc).bind fun marks c hc hmarks => ?_
  rw [tokens, List.append_assoc, List.append_assoc] at hc
  refine (d.type.lands (by omega) (next_name d.first.label _) hc).bind
    fun declared c hc hdeclared => ?_
  refine (declarators_land (by omega) hcalm hc).bind fun p c hc hp => ?_
  obtain ⟨nodes, depth⟩ := p
  obtain ⟨hnodes, rfl⟩ := hp
  exact .finish_at (.cons hmarks (.cons hdeclared hnodes)) hc

/-- No modifier stands where a type begins. -/
theorem LocalType.unmodified (t : LocalType) (hc : c.rest = t.tokens ++ rest) :
    Next (· ∉ localModifiers) c.rest := by
  obtain ⟨u, us, hfront, hu⟩ := t.front
  rw [hc, hfront]
  exact (by decide : ∀ k ∈ .keyword .varKw :: typeStarts, k ∉ localModifiers) _ hu

/-- The tokens of a declaration after its first name. -/
def Declaration.tail (d : Declaration) : List Token :=
  (d.first.value.toList.flatMap fun v => v.1.1 :: v.2.tokens) ++
    d.more.flatMap fun next => next.1.1 :: next.2.tokens

/-- A declaration begins with its type and the first name. -/
theorem Declaration.tokens_append (d : Declaration) (rest : List Token) :
    d.tokens ++ rest = d.type.tokens ++ d.first.label.1 :: (d.tail ++ rest) := by
  simp only [tokens, Declarator.tokens, tail, List.append_assoc, List.cons_append]

/-- The lookahead finds a declaration where one is written. -/
theorem Declaration.starts (d : Declaration) {rule : Rules} (hc : c.rest = d.tokens ++ rest) :
    (startsLocalDeclaration rule).run c = (true, c) := by
  have hlabel : c.rest = d.type.tokens ++ d.first.label.1 :: (d.tail ++ rest) :=
    hc.trans (d.tokens_append rest)
  rw [startsLocalDeclaration_run (d.type.unmodified hlabel), declares_type d.type hlabel]

/-- The lookahead finds no enhanced `for` where a declaration with a semicolon is written. -/
theorem Declaration.iterates_not (d : Declaration) {semicolon : Token.Among [Symbol.semicolon]}
    {rule : Rules} (hc : c.rest = d.tokens ++ semicolon.1 :: rest) :
    (startsEnhancedFor rule).run c = (false, c) := by
  obtain ⟨next, ts, hafter, hnext⟩ : ∃ next ts,
      d.tail ++ semicolon.1 :: rest = next :: ts ∧ next.kind ≠ Symbol.colon := by
    rw [tail]
    cases d.first.value with
    | some v => exact ⟨v.1.1, _, rfl, by rw [v.1.kind_eq]; decide⟩
    | none =>
      cases d.more with
      | cons next more => exact ⟨next.1.1, _, rfl, by rw [next.1.kind_eq]; decide⟩
      | nil => exact ⟨semicolon.1, _, rfl, by rw [semicolon.kind_eq]; decide⟩
  have hlabel : c.rest = d.type.tokens ++ d.first.label.1 :: next :: ts := by
    rw [hc, tokens_append, hafter]
  rw [startsEnhancedFor_run (d.type.unmodified hlabel), iterates_type d.type hlabel,
    beq_eq_false_iff_ne.2 hnext]

/-- After the first name of a class type there is a point, an opening angle bracket, or what
follows the whole type. -/
theorem ClassTokens.second (target : ClassTokens) {sort : TokenKind → Prop} {us ts : List Token}
    {u : Token} (hrest : Next sort us) (hdot : sort Symbol.dot) (hlt : sort Symbol.lt)
    (htokens : target.tokens ++ us = u :: ts) : Next sort ts := by
  simp only [tokens, WrittenName.tokens, List.cons_append, List.append_assoc] at htokens
  obtain ⟨-, rfl⟩ := List.cons.inj htokens
  cases target.name.more with
  | nil => exact target.angled.next (target.further.next hrest hdot) hlt
  | cons part more =>
    change sort part.1.1.kind
    rw [part.1.kind_eq]
    exact hdot

/-- After the name with which a type begins there is no colon. -/
theorem LocalType.second (t : LocalType) {label : Token.Among nameKinds} {u : Token}
    {ts : List Token} (hu : u.kind = .identifier)
    (htokens : t.tokens ++ label.1 :: rest = u :: ts) :
    Next (· ≠ Symbol.colon) ts := by
  have hlabel : Next (· ≠ Symbol.colon) (label.1 :: rest) :=
    (by decide : ∀ k ∈ nameKinds, k ≠ Symbol.colon) _ label.2
  cases t with
  | inferred word =>
    obtain ⟨rfl, -⟩ := List.cons.inj htokens
    rw [word.kind_eq] at hu
    exact absurd hu (by decide)
  | given type =>
    rcases type.shape with ⟨word, brackets, hshape⟩ | ⟨target, brackets, -, hshape⟩
    · rw [tokens, hshape] at htokens
      obtain ⟨rfl, -⟩ := List.cons.inj htokens
      exact absurd hu ((by decide : ∀ k ∈ primitiveWords, k ≠ .identifier) _ word.2)
    · rw [tokens, hshape, List.append_assoc] at htokens
      exact target.second (bracketTokens_next brackets hlabel (by decide)) (by decide) (by decide)
        htokens

/-- The lookaheads find neither where an action is written. -/
theorem Action.starts_not (a : Action) {rule : Rules} (hc : c.rest = a.expression.tokens ++ rest) :
    (startsLocalDeclaration rule).run c = (false, c) ∧
      (startsEnhancedFor rule).run c = (false, c) := by
  obtain ⟨t, ts, hfront, -, ht⟩ := a.expression.head_append rest
  have hstart : Next (· ∉ localModifiers) c.rest := by
    rw [hc, hfront]
    exact (by decide : ∀ k ∈ operandStarts, k ∉ localModifiers) _ ht
  have hclause : t.kind ∈ clauseStarts := List.mem_cons_of_mem _ ht
  have htail : t.kind ∈ nameKinds → NameTail ts := a.nameTail hfront
  rw [startsLocalDeclaration_run hstart, startsEnhancedFor_run hstart,
    declares_action (hc.trans hfront) hclause htail,
    iterates_action (hc.trans hfront) hclause htail]
  exact ⟨rfl, rfl⟩

end Declarations

section Heads

/-- Reading a condition gives its tree and lands behind the parenthesis. -/
theorem Condition.lands (test : Condition) (hfuel : test.tokens.length ≤ fuel)
    (hcalm : Calm rest) (hc : c.rest = test.tokens ++ rest) :
    Lands c (· = rest) (Like test.tree) (condition (parse fuel)) := by
  simp only [tokens, List.append_assoc, List.cons_append, List.nil_append, List.length_append,
    List.length_cons] at hc hfuel
  have hclosing : Ahead (· ∈ closers) (test.closing.1 :: rest) :=
    ⟨test.closing.kind_mem (by decide), test.closing.calm (by decide) hcalm⟩
  refine .step (need_past hc test.opening.kind_eq) ?_
  refine (test.value.lands (by omega) hclosing rfl).bind fun value c hc hvalue => ?_
  refine .step (need_past hc test.closing.kind_eq) ?_
  exact .pure hvalue rfl

/-- An optional expression in front of a semicolon. -/
theorem optionalExpression_land {value : Option (Expression .assignment)}
    {semicolon : Token.Among [Symbol.semicolon]}
    (hfuel : (value.toList.flatMap (·.tokens)).length ≤ fuel)
    (hcalm : Calm (semicolon.1 :: rest))
    (hc : c.rest = value.toList.flatMap (·.tokens) ++ semicolon.1 :: rest) :
    Lands c (· = semicolon.1 :: rest) (Likes (value.toList.map (·.tree.erase)))
      (optional (checkNot Symbol.semicolon) (Grammar.expression (parse fuel))) := by
  have htest {b : Bool} (h : (check Symbol.semicolon).run c = (b, c)) :
      (checkNot Symbol.semicolon).run c = (!b, c) := by
    rw [checkNot, bind_of_run h]
    rfl
  cases value with
  | none =>
    have hsemicolon : Next (· = Symbol.semicolon) c.rest := by
      rw [hc]
      exact semicolon.kind_eq
    exact .optional_none_at (htest (check_yes hsemicolon)) hc
  | some e =>
    have hends : Ahead (· ∈ closers) (semicolon.1 :: rest) :=
      ⟨semicolon.kind_mem (by decide), hcalm⟩
    simp only [Option.toList_some, List.flatMap_singleton] at hc hfuel
    obtain ⟨t, ts, hfront, -, ht⟩ := e.head_append (semicolon.1 :: rest)
    have hsemicolon : Next (· ≠ Symbol.semicolon) c.rest := by
      rw [hc, hfront]
      exact (by decide : ∀ k ∈ operandStarts, k ≠ Symbol.semicolon) _ ht
    exact .optional_some (htest (check_no hsemicolon)) (.refl c) (e.lands hfuel hends hc)

/-- Tokens that end expressions between commas. -/
def listEnds : List TokenKind := [Symbol.semicolon, Symbol.rparen]

/-- Expressions between commas are read as they are written. -/
theorem expressions_series (first : Expression .assignment) (more : MoreExpressions)
    {stop : Token} (hfuel : (first.tokens ++ more.tokens).length ≤ fuel)
    (hstop : stop.kind ∈ listEnds) (hcalm : Calm (stop :: rest)) :
    Series Symbol.comma (Grammar.expression (parse fuel)) (· = stop :: rest)
      (first.tokens ++ (more.tokens ++ stop :: rest)) (first.tree.erase :: more.trees) := by
  induction more generalizing first with
  | nil =>
    have hends : Ahead (· ∈ closers) (stop :: rest) :=
      ⟨(by decide : listEnds ⊆ closers) hstop, hcalm⟩
    simp only [MoreExpressions.tokens, List.flatMap_nil, List.append_nil] at hfuel
    refine .last (fun c hc => first.lands hfuel hends hc) fun us hus => ?_
    rw [hus]
    exact (by decide : ∀ k ∈ listEnds, k ≠ Symbol.comma) _ hstop
  | cons next more ih =>
    have htokens : MoreExpressions.tokens (next :: more) =
        next.1.1 :: (next.2.tokens ++ MoreExpressions.tokens more) := rfl
    rw [htokens] at hfuel ⊢
    simp only [List.length_append, List.length_cons] at hfuel
    have hcalming : Calming (next.2.tokens ++ MoreExpressions.tokens more) :=
      (next.2.calming trivial).append (MoreExpressions.calming more)
    have hcomma : Ahead (· ∈ closers)
        (next.1.1 :: ((next.2.tokens ++ MoreExpressions.tokens more) ++ stop :: rest)) :=
      ⟨next.1.kind_mem (by decide), next.1.calm (by decide) (hcalming.calm hcalm)⟩
    refine .more (fun c hc => first.lands (by omega) hcomma hc) next.1.kind_eq ?_ ?_
    · simp only [List.length_append, List.length_cons]
      omega
    · rw [List.append_assoc]
      exact ih next.2 (by rw [List.length_append]; omega)

/-- Reading the first clause of a loop gives its trees and lands at the semicolon. -/
theorem ForInit.lands (inits : ForInit) {semicolon : Token.Among [Symbol.semicolon]}
    (hfuel : inits.tokens.length ≤ fuel) (hcalm : Calm (semicolon.1 :: rest))
    (hc : c.rest = inits.tokens ++ semicolon.1 :: rest) :
    Lands c (· = semicolon.1 :: rest) (Likes inits.trees) (forInits (parse fuel)) := by
  cases inits with
  | none =>
    have hsemicolon : Next (· = Symbol.semicolon) c.rest := by
      rw [hc]
      exact semicolon.kind_eq
    refine .glance (check_yes hsemicolon) ?_
    rw [if_pos rfl]
    exact .pure likes_nil hc
  | declaration d =>
    have hc : c.rest = d.tokens ++ semicolon.1 :: rest := hc
    obtain ⟨u, us, hfront, hu⟩ := d.front
    have hsemicolon : Next (· ≠ Symbol.semicolon) c.rest := by
      rw [hc, hfront]
      exact (by decide : ∀ k ∈ .keyword .varKw :: typeStarts, k ≠ Symbol.semicolon) _ hu
    refine .glance (check_no hsemicolon) ?_
    rw [if_neg Bool.false_ne_true]
    refine .glance (d.starts hc) ?_
    rw [if_pos rfl]
    exact (d.lands hfuel hcalm hc).bind fun node c hc hnode => .pure hnode.single hc
  | actions first more =>
    have hc : c.rest = first.expression.tokens ++ (more.tokens ++ semicolon.1 :: rest) := by
      rw [hc, tokens, List.append_assoc]
    obtain ⟨t, ts, hfront, -, ht⟩ :=
      first.expression.head_append (more.tokens ++ semicolon.1 :: rest)
    have hsemicolon : Next (· ≠ Symbol.semicolon) c.rest := by
      rw [hc, hfront]
      exact (by decide : ∀ k ∈ operandStarts, k ≠ Symbol.semicolon) _ ht
    refine .glance (check_no hsemicolon) ?_
    rw [if_neg Bool.false_ne_true]
    refine .glance (first.starts_not hc).1 ?_
    rw [if_neg Bool.false_ne_true]
    exact (expressions_series first.expression more hfuel (semicolon.kind_mem (by decide))
      hcalm).commaList hc

/-- Reading the last clause of a loop gives its trees and lands at the parenthesis. -/
theorem ForUpdate.lands (updates : ForUpdate) {closing : Token.Among [Symbol.rparen]}
    (hfuel : updates.tokens.length ≤ fuel) (hcalm : Calm (closing.1 :: rest))
    (hc : c.rest = updates.tokens ++ closing.1 :: rest) :
    Lands c (· = closing.1 :: rest) (Likes updates.trees) (forUpdates (parse fuel)) := by
  cases updates with
  | none =>
    have hclosing : Next (· = Symbol.rparen) c.rest := by
      rw [hc]
      exact closing.kind_eq
    refine .glance (check_yes hclosing) ?_
    rw [if_pos rfl]
    exact .pure likes_nil hc
  | expressions first more =>
    have hc : c.rest = first.tokens ++ (more.tokens ++ closing.1 :: rest) := by
      rw [hc, tokens, List.append_assoc]
    obtain ⟨t, ts, hfront, -, ht⟩ := first.head_append (more.tokens ++ closing.1 :: rest)
    have hclosing : Next (· ≠ Symbol.rparen) c.rest := by
      rw [hc, hfront]
      exact (by decide : ∀ k ∈ operandStarts, k ≠ Symbol.rparen) _ ht
    refine .glance (check_no hclosing) ?_
    rw [if_neg Bool.false_ne_true]
    exact (expressions_series first more hfuel (closing.kind_mem (by decide)) hcalm).commaList hc

/-- The lookahead finds no enhanced `for` where the first clause of a plain one is written. -/
theorem ForInit.iterates_not (inits : ForInit) {semicolon : Token.Among [Symbol.semicolon]}
    {rule : Rules} (hc : c.rest = inits.tokens ++ semicolon.1 :: rest) :
    (startsEnhancedFor rule).run c = (false, c) := by
  cases inits with
  | none =>
    have hfront : c.rest = semicolon.1 :: rest := hc
    have hstart : Next (· ∉ localModifiers) c.rest := by
      rw [hfront]
      change semicolon.1.kind ∉ _
      rw [semicolon.kind_eq]
      decide
    have hname : semicolon.1.kind ∈ nameKinds → NameTail rest := by
      rw [semicolon.kind_eq]
      exact fun h => absurd h (by decide)
    rw [startsEnhancedFor_run hstart,
      iterates_action hfront (semicolon.kind_mem (by decide)) hname]
  | declaration d => exact d.iterates_not hc
  | actions first more =>
    have hc : c.rest = first.expression.tokens ++ (more.tokens ++ semicolon.1 :: rest) := by
      rw [hc, tokens, List.append_assoc]
    exact (first.starts_not hc).2

/-- The lookahead finds an enhanced `for` where one is written. -/
theorem EachHead.starts (head : EachHead) {rule : Rules}
    (hc : c.rest = head.type.tokens ++ head.label.1 :: head.colon.1 :: rest) :
    (startsEnhancedFor rule).run c = (true, c) := by
  rw [startsEnhancedFor_run (head.type.unmodified hc), iterates_type head.type hc,
    head.colon.kind_eq, beq_self_eq_true]

/-- Reading a label gives its tree and lands behind the colon. -/
theorem SwitchLabel.lands (label : SwitchLabel) (hfuel : label.tokens.length ≤ fuel)
    (hcalm : Calm rest) (hc : c.rest = label.tokens ++ rest) :
    Lands c (· = rest) (Like label.tree) (switchLabel (parse fuel)) := by
  cases label with
  | value word e colon =>
    simp only [tokens, List.append_assoc, List.cons_append, List.nil_append, List.length_append,
      List.length_cons] at hc hfuel
    have hcolon : Ahead (· ∈ closers) (colon.1 :: rest) :=
      ⟨colon.kind_mem (by decide), colon.calm (by decide) hcalm⟩
    refine .here fun start => .step (skip_past hc word.kind_eq) ?_
    rw [if_pos rfl]
    refine (e.lands_ternary (by omega) hcolon rfl).bind fun value c hc hvalue => ?_
    refine .step (need_past hc colon.kind_eq) ?_
    exact .finish_at hvalue.single rfl
  | other word colon =>
    have hfront : c.rest = word.1 :: colon.1 :: rest := hc
    have hcase : Next (· ≠ Keyword.caseKw) c.rest := by
      rw [hfront]
      exact word.next_ne (by decide)
    refine .here fun start => .glance (skip_no hcase) ?_
    rw [if_neg Bool.false_ne_true]
    refine .step (expect_past hfront word.kind_eq) ?_
    refine .step (need_past rfl colon.kind_eq) ?_
    have hfinish (d : Cursor) (hd : d.rest = rest) : Lands d (· = rest)
        (Like ⟨.switchLabel, {}, (some word.1).map Token.erase, none, []⟩)
        (finishWith .switchLabel (some word.1) start []) := .finishWith likes_nil hd
    exact hfinish _ rfl

/-- A label begins with its word. -/
theorem SwitchLabel.front (label : SwitchLabel) :
    ∃ u us, label.tokens = u :: us ∧ u.kind ∈ labelStarts := by
  cases label with
  | value word e colon => exact ⟨word.1, _, rfl, word.kind_mem (by decide)⟩
  | other word colon => exact ⟨word.1, _, rfl, word.kind_mem (by decide)⟩

/-- Labels are read up to a token that begins none. -/
theorem labels_land {labels : List SwitchLabel} {bound : Nat}
    (hfuel : (labels.flatMap (·.tokens)).length ≤ fuel) (hbound : labels.length < bound)
    (hrest : Ahead (· ∉ labelStarts) rest) (hc : c.rest = labels.flatMap (·.tokens) ++ rest) :
    Lands c (· = rest) (Likes (labels.map (·.tree)))
      (manyUpTo (checkAny labelStarts) (switchLabel (parse fuel)) bound) := by
  obtain ⟨bound, rfl⟩ : ∃ m, bound = m + 1 := ⟨bound - 1, by omega⟩
  induction labels generalizing c bound with
  | nil => exact .manyUpTo_nil (checkAny_no (hc ▸ hrest.next)) hc
  | cons label labels ih =>
    simp only [List.flatMap_cons, List.length_append, List.length_cons, List.append_assoc]
      at hfuel hbound hc
    obtain ⟨bound, rfl⟩ : ∃ m, bound = m + 1 := ⟨bound - 1, by omega⟩
    obtain ⟨u, us, hfront, hu⟩ := label.front
    have htest : Next (· ∈ labelStarts) c.rest := by
      rw [hc, hfront]
      exact hu
    have hcalming : Calming (labels.flatMap (·.tokens)) := .flatMap fun label => label.calming
    exact .manyUpTo_cons (checkAny_yes htest) (.refl c)
      (label.lands (by omega) (hcalming.calm hrest.calm) hc) fun d hd =>
        ih (by omega) hd bound (by omega)

/-- The types of a `catch` clause are read up to the name. -/
theorem catchTypes_series (first : WrittenType)
    (more : List (Token.Among [Symbol.bitOr] × WrittenType)) {label : Token.Among nameKinds}
    (hfuel : (first.tokens ++ more.flatMap fun next => next.1.1 :: next.2.tokens).length ≤ fuel) :
    Series Symbol.bitOr (Grammar.type (parse fuel)) (· = label.1 :: rest)
      (first.tokens ++ ((more.flatMap fun next => next.1.1 :: next.2.tokens) ++ label.1 :: rest))
      (first.tree :: more.map fun next => next.2.tree) := by
  induction more generalizing first with
  | nil =>
    simp only [List.flatMap_nil, List.append_nil] at hfuel
    refine .last (fun c hc => first.lands hfuel (next_name label rest) hc) fun us hus => ?_
    rw [hus]
    exact (by decide : ∀ k ∈ nameKinds, k ≠ Symbol.bitOr) _ label.2
  | cons next more ih =>
    simp only [List.flatMap_cons, List.length_append, List.length_cons, List.cons_append,
      List.append_assoc] at hfuel ⊢
    have hbar : Next (· ∉ typeMarks) (next.1.1 :: (next.2.tokens ++
        ((more.flatMap fun next => next.1.1 :: next.2.tokens) ++ label.1 :: rest))) := by
      change next.1.1.kind ∉ _
      rw [next.1.kind_eq]
      decide
    refine .more (fun c hc => first.lands (by omega) hbar hc) next.1.kind_eq ?_ ?_
    · simp only [List.length_append, List.length_cons]
      omega
    · exact ih next.2 (by rw [List.length_append]; omega)

/-- The types of a `catch` clause under one node. -/
theorem typeGroup_land (first : WrittenType)
    (more : List (Token.Among [Symbol.bitOr] × WrittenType)) {label : Token.Among nameKinds}
    (hfuel : (first.tokens ++ more.flatMap fun next => next.1.1 :: next.2.tokens).length ≤ fuel)
    (hc : c.rest = first.tokens ++
      ((more.flatMap fun next => next.1.1 :: next.2.tokens) ++ label.1 :: rest)) :
    Lands c (· = label.1 :: rest)
      (Like (bare .type (first.tree :: more.map fun next => next.2.tree)))
      (typeGroup (parse fuel) Symbol.bitOr) := by
  refine .here fun start => ?_
  have hseries := (catchTypes_series first more hfuel).lands hc
  exact .of_eq rfl (hseries.bind fun nodes c hc hnodes => .finish_at hnodes hc)

end Heads

end JavaObjC
