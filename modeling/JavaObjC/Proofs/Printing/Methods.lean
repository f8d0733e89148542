import JavaObjC.Proofs.Printing.Groups

/-!
# Reading a method body inverts writing it

The statements of a method body are read as they are written, wherever the
method stands and whatever its header is, and so is a whole source that has
nothing but a class with one method around them.
-/

namespace JavaObjC

open Cursor Grammar JavaObjC.Parser Node

/-- The tokens of a source around the only member of its only class. -/
structure ClassFrame where
  word : Token.Among [Keyword.classKw]
  label : Token.Among nameKinds
  opening : Token.Among [Symbol.lbrace]
  closing : Token.Among [Symbol.rbrace]
  eof : Token.Among [.eof]

namespace ClassFrame

/-- The tokens of the source in order. -/
def tokens (frame : ClassFrame) (member : List Token) : List Token :=
  frame.word.1 :: frame.label.1 :: frame.opening.1 :: (member ++ [frame.closing.1, frame.eof.1])

/-- The syntax tree of the class. -/
def classTree (frame : ClassFrame) (member : Node) : Node :=
  bare .classDecl [bare .modifiers [], Node.word frame.label.1, bare .block [member]]

/-- The syntax tree of the source. -/
def tree (frame : ClassFrame) (member : Node) : Node :=
  bare .compilationUnit [frame.classTree member]

end ClassFrame

/-- The tokens of a source around the body of the only method of its only class. -/
structure MethodFrame where
  word : Token.Among [Keyword.classKw]
  label : Token.Among nameKinds
  opening : Token.Among [Symbol.lbrace]
  result : Token.Among [Keyword.voidKw]
  method : Token.Among nameKinds
  lparen : Token.Among [Symbol.lparen]
  rparen : Token.Among [Symbol.rparen]
  closing : Token.Among [Symbol.rbrace]
  eof : Token.Among [.eof]

namespace MethodFrame

/-- The tokens of the method in order. -/
def methodTokens (frame : MethodFrame) (body : Block) : List Token :=
  frame.result.1 :: frame.method.1 :: frame.lparen.1 :: frame.rparen.1 :: body.tokens

/-- The tokens of the source in order. -/
def tokens (frame : MethodFrame) (body : Block) : List Token :=
  frame.word.1 :: frame.label.1 :: frame.opening.1 ::
    (frame.methodTokens body ++ [frame.closing.1, frame.eof.1])

/-- The syntax tree of the method. -/
def methodTree (frame : MethodFrame) (body : Block) : Node :=
  bare .methodDecl [bare .modifiers [], bare .type [Node.word frame.result.1],
    Node.word frame.method.1, bare .parameters [], body.tree]

/-- The syntax tree of the class. -/
def classTree (frame : MethodFrame) (body : Block) : Node :=
  bare .classDecl [bare .modifiers [], Node.word frame.label.1,
    bare .block [frame.methodTree body]]

/-- The syntax tree of the source. -/
def tree (frame : MethodFrame) (body : Block) : Node :=
  bare .compilationUnit [frame.classTree body]

/-- The tokens around the method. -/
def around (frame : MethodFrame) : ClassFrame :=
  ⟨frame.word, frame.label, frame.opening, frame.closing, frame.eof⟩

end MethodFrame

variable {fuel : Nat} {rest : List Token} {c : Cursor} {rule : Rules}

section Members

theorem Node.Like.kind_eq {tree n : Node} (h : Like tree n) : n.kind = tree.kind := by
  have herase : n.erase = tree := h
  rw [← herase]
  cases n
  rfl

/-- A block is the end of a method wherever calm tokens follow. -/
theorem methodEnd_lands (body : Block) (hfuel : body.tokens.length ≤ fuel) (hcalm : Calm rest)
    (hc : c.rest = body.tokens ++ rest) :
    Lands c (· = rest) (Likes [body.tree]) (methodEnd (parse fuel)) := by
  obtain ⟨u, us, hfront, hu⟩ := body.front
  have hopening : Next (· = Symbol.lbrace) c.rest := by
    rw [hc, hfront]
    exact hu
  refine .glance (check_yes hopening) ?_
  rw [if_pos rfl]
  exact (body.readable hfuel hcalm hc).bind fun node c hc hnode => .pure hnode.single hc

theorem parameters_land {lparen : Token.Among [Symbol.lparen]}
    {rparen : Token.Among [Symbol.rparen]} (hc : c.rest = lparen.1 :: rparen.1 :: rest) :
    Lands c (· = rest) (Like (bare .parameters [])) (parameters rule) := by
  have hnone : (commaListBefore Symbol.rparen (parameter rule)).run
      (c.past [lparen.1] (rparen.1 :: rest)) = ([], c.past [lparen.1] (rparen.1 :: rest)) := by
    have hstop : (before [Symbol.rparen]).run (c.past [lparen.1] (rparen.1 :: rest)) =
        (false, c.past [lparen.1] (rparen.1 :: rest)) := before_no rparen.2
    have hbound : 1 + (rparen.1 :: rest).length = (rparen.1 :: rest).length + 1 := Nat.add_comm _ _
    change (commaListUpTo Symbol.rparen (parameter rule) (1 + (rparen.1 :: rest).length)).run _ = _
    rw [hbound, commaListUpTo, bind_of_run hstop]
    rfl
  refine .here fun start => .step (need_past hc lparen.kind_eq) ?_
  refine .glance hnone ?_
  refine .step (need_past rfl rparen.kind_eq) ?_
  exact .finish_at likes_nil rfl

/-- Tokens with which a method or a field begins: the word for no result, or a type. -/
def resultStarts : List TokenKind := .keyword .voidKw :: typeStarts

/-- What begins with a result is no type declaration. -/
theorem typeDecl?_none {marks : Node} (h : Next (· ∈ resultStarts) c.rest) :
    (typeDecl? rule marks).run c = (none, c) := by
  have hkind : (c.tokenAt 0).kind ∈ resultStarts := h.kind
  rw [typeDecl?, bind_of_run (rfl : (kindAt 1).run c = ((c.tokenAt 1).kind, c)),
    bind_of_run (rfl : (kindAt 0).run c = ((c.tokenAt 0).kind, c))]
  simp only [resultStarts, typeStarts, primitiveWords, List.mem_cons, List.not_mem_nil,
    or_false] at hkind
  rcases hkind with h | h | h | h | h | h | h | h | h | h <;> rw [h] <;> rfl

/-- A member without marks and type parameters, from its result on. -/
theorem member_lands {sort : List Token → Prop} {tree : Node} {member : List Token}
    (hstart : Next (· ∈ resultStarts) member)
    (h : ∀ ⦃marks : Node⦄ ⦃d : Cursor⦄, Like (bare .modifiers []) marks → d.rest = member →
      Lands d sort (Like tree) (typedMember (parse fuel) marks []))
    (hc : c.rest = member) : Lands c sort (Like tree) (parse (fuel + 1) .member) := by
  have hplain : Next (· ∈ plainStarts) member :=
    hstart.imp ((by decide : ∀ k ∈ resultStarts, k ∈ plainStarts) _)
  have hno {kind : TokenKind} (h : kind ∉ plainStarts) : Next (· ≠ kind) c.rest := by
    rw [hc]
    exact hplain.imp fun hmem heq => h (heq ▸ hmem)
  refine .glance (check_no (hno (by decide))) ?_
  rw [if_neg Bool.false_ne_true]
  refine .glance (check2_no (hno (by decide))) ?_
  rw [if_neg Bool.false_ne_true]
  refine .glance (check_no (hno (by decide))) ?_
  rw [if_neg Bool.false_ne_true]
  refine (modifiers_land hplain hc).bind fun marks c hc hmarks => ?_
  refine .glance (typeDecl?_none (hc ▸ hstart)) ?_
  have hlt : Next (· ≠ Symbol.lt) c.rest := by
    rw [hc]
    exact hplain.imp ((by decide : ∀ k ∈ plainStarts, k ≠ Symbol.lt) _)
  refine (Lands.optional_none_at (check_no hlt) hc).bind fun generics c hc hgenerics => ?_
  obtain rfl : generics = [] := List.map_eq_nil_iff.1 hgenerics
  exact h hmarks hc

end Members

namespace MethodFrame

variable (frame : MethodFrame) (body : Block)

/-- A method is read from its name on. -/
theorem methodDecl_lands {marks result : Node} (hmarks : Like (bare .modifiers []) marks)
    (hresult : Like (bare .type [Node.word frame.result.1]) result)
    (hfuel : body.tokens.length ≤ fuel) (hcalm : Calm rest)
    (hc : c.rest = frame.method.1 :: frame.lparen.1 :: frame.rparen.1 :: (body.tokens ++ rest)) :
    Lands c (· = rest) (Like (frame.methodTree body))
      (methodDecl (parse fuel) marks [] result) := by
  obtain ⟨u, us, hfront, hu⟩ := body.front
  have hbody : u.kind ≠ Symbol.lbracket ∧ u.kind ≠ Keyword.throwsKw := by
    rw [hu]
    decide
  refine .here fun start => .step (name_past hc) ?_
  refine (parameters_land rfl).bind fun declared c hc hdeclared => ?_
  have hbracket : Next (· ≠ Symbol.lbracket) c.rest := by
    rw [hc, hfront]
    exact hbody.1
  have hthrows : Next (· ≠ Keyword.throwsKw) c.rest := by
    rw [hc, hfront]
    exact hbody.2
  refine .glance (loop_none (a := ()) ?_) ?_
  · rw [bind_of_run (skip_no hbracket)]
    rfl
  refine (Lands.optional_none_at (check_no hthrows) hc).bind fun thrown c hc hthrown => ?_
  refine (methodEnd_lands body hfuel hcalm hc).bind fun nodes c hc hnodes => ?_
  exact .finish_at (.cons hmarks (.cons hresult
    ((likes_word _).append ((Likes.cons hdeclared hthrown).append hnodes)))) hc

/-- A method is read from its result on. -/
theorem typedMember_lands {marks : Node} (hmarks : Like (bare .modifiers []) marks)
    (hfuel : body.tokens.length ≤ fuel) (hcalm : Calm rest)
    (hc : c.rest = frame.methodTokens body ++ rest) :
    Lands c (· = rest) (Like (frame.methodTree body)) (typedMember (parse fuel) marks []) := by
  have hc : c.rest = frame.result.1 :: frame.method.1 :: frame.lparen.1 :: frame.rparen.1 ::
    (body.tokens ++ rest) := hc
  have hvoid : (c.tokenAt 0).kind.isName = false := by
    rw [tokenAt_zero_cons hc, frame.result.kind_eq]
    rfl
  have hbracket : Next (· ≠ Symbol.lbracket) (frame.method.1 :: frame.lparen.1 ::
      frame.rparen.1 :: (body.tokens ++ rest)) :=
    (by decide : ∀ k ∈ nameKinds, k ≠ Symbol.lbracket) _ frame.method.2
  have hresult : Lands c (· = frame.method.1 :: frame.lparen.1 :: frame.rparen.1 ::
      (body.tokens ++ rest)) (Like (bare .type [Node.word frame.result.1]))
      (Grammar.type (parse fuel)) :=
    type_word (by decide) hc fun node d hd hnode => arrayBrackets_land [] hnode hd hbracket rfl
  refine .glance (rfl : checkName.run c = ((c.tokenAt 0).kind.isName, c)) ?_
  refine .glance (rfl : (kindAt 1).run c = ((c.tokenAt 1).kind, c)) ?_
  rw [hvoid, Bool.false_and, if_neg Bool.false_ne_true]
  refine hresult.bind fun declared c hc hdeclared => ?_
  have hkind : declared.kind = .type := hdeclared.kind_eq
  have hcall : ((c.tokenAt 0).kind.isName && (c.tokenAt 1).kind == .symbol .lparen) = true := by
    rw [tokenAt_zero_cons hc, tokenAt_one_cons hc, frame.lparen.kind_eq,
      (by decide : ∀ k ∈ nameKinds, k.isName = true) _ frame.method.2]
    rfl
  rw [if_neg (by rw [hkind]; decide)]
  refine .glance (rfl : checkName.run c = ((c.tokenAt 0).kind.isName, c)) ?_
  refine .glance (rfl : (kindAt 1).run c = ((c.tokenAt 1).kind, c)) ?_
  rw [if_pos hcall]
  exact frame.methodDecl_lands body hmarks hdeclared hfuel hcalm hc

theorem member_lands (hfuel : body.tokens.length < fuel) (hcalm : Calm rest) :
    ReadsLike (parse fuel .member) (frame.methodTokens body) (frame.methodTree body) rest := by
  intro c hc
  obtain ⟨fuel, rfl⟩ : ∃ m, fuel = m + 1 := ⟨fuel - 1, by omega⟩
  have hstart : Next (· ∈ resultStarts) (frame.methodTokens body ++ rest) :=
    frame.result.kind_mem (by decide)
  exact JavaObjC.member_lands hstart
    (fun marks d hmarks hd => frame.typedMember_lands body hmarks (by omega) hcalm hd) hc

end MethodFrame

namespace ClassFrame

variable (frame : ClassFrame) {member : List Token} {tree : Node}

/-- The braces of a class around one member. -/
theorem classBody_lands (hstart : Next (· ∉ [TokenKind.eof, .symbol .rbrace]) member)
    (hmember : ReadsLike (parse fuel .member) member tree (frame.closing.1 :: rest))
    (hc : c.rest = frame.opening.1 :: (member ++ frame.closing.1 :: rest)) :
    Lands c (· = rest) (Like (bare .block [tree])) (classBody (parse fuel)) := by
  refine .here fun start => .step (need_past hc frame.opening.kind_eq) ?_
  have hmembers : Lands (c.past [frame.opening.1] (member ++ frame.closing.1 :: rest))
      (· = frame.closing.1 :: rest) (Likes [tree])
      (manyBefore Symbol.rbrace (parse fuel .member)) := by
    obtain ⟨t, ts, rfl⟩ : ∃ t ts, member = t :: ts := by
      cases member with
      | nil => exact hstart.elim
      | cons t ts => exact ⟨t, ts, rfl⟩
    have hbound : 1 + (t :: ts ++ frame.closing.1 :: rest).length =
        (ts ++ frame.closing.1 :: rest).length + 2 := by
      rw [List.cons_append, List.length_cons]
      omega
    refine .many ?_
    rw [past_rest, hbound]
    refine .manyUpTo_cons (before_yes hstart) (.refl _) (hmember rfl) fun d hd => ?_
    have hstop : Next (· ∈ [TokenKind.symbol .rbrace]) d.rest := by
      rw [hd]
      exact frame.closing.2
    exact .manyUpTo_nil (before_no hstop) hd
  refine hmembers.bind fun members c hc hmembers => ?_
  refine .step (need_past hc frame.closing.kind_eq) ?_
  exact .finish_at hmembers rfl

/-- A class with one member is read as a declaration of the source. -/
theorem topLevelDecl_lands (hstart : Next (· ∉ [TokenKind.eof, .symbol .rbrace]) member)
    (hmember : ReadsLike (parse fuel .member) member tree (frame.closing.1 :: rest))
    (hc : c.rest = frame.word.1 :: frame.label.1 :: frame.opening.1 ::
      (member ++ frame.closing.1 :: rest)) :
    Lands c (· = rest) (Like (frame.classTree tree)) (topLevelDecl (parse fuel)) := by
  have hplain : Next (· ∈ plainStarts) (frame.word.1 :: frame.label.1 :: frame.opening.1 ::
      (member ++ frame.closing.1 :: rest)) := frame.word.kind_mem (by decide)
  refine (modifiers_land hplain hc).bind fun marks c hc hmarks => ?_
  have hclass : (typeDecl? (parse fuel) marks).run c =
      (classDecl (parse fuel) marks >>= fun node => Pure.pure (some node)).run c := by
    rw [typeDecl?, bind_of_run (rfl : (kindAt 1).run c = ((c.tokenAt 1).kind, c)), kindAt_bind hc,
      frame.word.kind_eq]
  have hdeclared : Lands c (· = rest) (Like (frame.classTree tree))
      (classDecl (parse fuel) marks) := by
    have hopening {kind : TokenKind} (h : TokenKind.symbol .lbrace ≠ kind) :
        Next (· ≠ kind) (frame.opening.1 :: (member ++ frame.closing.1 :: rest)) := by
      change frame.opening.1.kind ≠ kind
      rw [frame.opening.kind_eq]
      exact h
    refine .here fun start => .step (need_past hc frame.word.kind_eq) ?_
    refine .step (name_past rfl) ?_
    refine (Lands.optional_none_at (check_no (hopening (by decide))) rfl).bind
      fun generics c hc hgenerics => ?_
    refine (Lands.optional_none_at (skip_no (hc ▸ hopening (by decide))) hc).bind
      fun base c hc hbase => ?_
    refine (Lands.optional_none_at (check_no (hc ▸ hopening (by decide))) hc).bind
      fun adopted c hc hadopted => ?_
    refine (frame.classBody_lands hstart hmember hc).bind fun members c hc hmembers => ?_
    exact .finish_at (((((Likes.cons hmarks (likes_word _)).append hgenerics).append hbase).append
      hadopted).append hmembers.single) hc
  have hfound : Lands c (· = rest) (fun o => ∃ n, o = some n ∧ Like (frame.classTree tree) n)
      (typeDecl? (parse fuel) marks) :=
    .of_eq hclass (hdeclared.bind fun node c hc hnode => .pure ⟨node, rfl, hnode⟩ hc)
  refine hfound.bind fun o c hc ho => ?_
  obtain ⟨node, rfl, hnode⟩ := ho
  exact .pure hnode hc

/-- What follows the member disturbs no lookahead. -/
theorem end_calm : Calm [frame.closing.1, frame.eof.1] :=
  (Calm.nil.cons_barrier (frame.eof.kind_mem (by decide))).cons_barrier
    (frame.closing.kind_mem (by decide))

/-- A source with one class is read up to the end of file. -/
theorem compilationUnit_lands (hstart : Next (· ∉ [TokenKind.eof, .symbol .rbrace]) member)
    (hmember : ReadsLike (parse fuel .member) member tree [frame.closing.1, frame.eof.1])
    (hc : c.rest = frame.tokens member) :
    Lands c (· = [frame.eof.1]) (Like (frame.tree tree)) (compilationUnit (parse fuel)) := by
  have hc : c.rest = frame.word.1 :: frame.label.1 :: frame.opening.1 ::
    (member ++ [frame.closing.1, frame.eof.1]) := hc
  have hno {kind : TokenKind} (h : TokenKind.keyword .classKw ≠ kind) :
      Next (· ≠ kind) (frame.word.1 :: frame.label.1 :: frame.opening.1 ::
        (member ++ [frame.closing.1, frame.eof.1])) := by
    change frame.word.1.kind ≠ kind
    rw [frame.word.kind_eq]
    exact h
  refine .here fun start => ?_
  refine (Lands.optional_none_at (check_no (hc ▸ hno (by decide))) hc).bind
    fun package c hc hpackage => ?_
  refine .glance (many_none (check_no (hc ▸ hno (by decide)))) ?_
  refine (Lands.loop (?_ : Lands c (· = [frame.eof.1]) (Likes [frame.classTree tree]) _)).bind
    fun types c hc htypes => ?_
  · obtain ⟨bound, hbound⟩ : ∃ m, 1 + c.rest.length = m + 2 :=
      ⟨c.rest.length - 1, by rw [hc, List.length_cons]; omega⟩
    rw [hbound]
    -- The class is read in the first round, and the second one meets the end of file.
    refine .iterate_go (?_ : Lands c (· = [frame.eof.1])
      (fun o => ∃ types, o = some types ∧ Likes [frame.classTree tree] types) _)
      fun types c hc htypes => ?_
    · refine .glance (check_no (hc ▸ hno (by decide))) ?_
      rw [if_neg Bool.false_ne_true]
      refine .glance (skip_no (hc ▸ hno (by decide))) ?_
      rw [if_neg Bool.false_ne_true]
      exact (frame.topLevelDecl_lands hstart hmember hc).bind fun node c hc hnode =>
        .pure ⟨_, rfl, hnode.single⟩ hc
    · have hend : Next (· = .eof) c.rest := by
        rw [hc]
        exact frame.eof.kind_eq
      refine .iterate_stop ?_ htypes hc
      rw [bind_of_run (check_yes hend)]
      rfl
  exact .finish_at ((hpackage.append likes_nil).append htypes) hc

end ClassFrame

/-- A source with one class and one method is read up to the end of file. -/
theorem MethodFrame.compilationUnit_lands (frame : MethodFrame) (body : Block)
    (hfuel : body.tokens.length < fuel) (hc : c.rest = frame.tokens body) :
    Lands c (· = [frame.eof.1]) (Like (frame.tree body)) (compilationUnit (parse fuel)) := by
  have hstart : Next (· ∉ [TokenKind.eof, .symbol .rbrace]) (frame.methodTokens body) := by
    change frame.result.1.kind ∉ _
    rw [frame.result.kind_eq]
    decide
  exact frame.around.compilationUnit_lands hstart
    (frame.member_lands body hfuel frame.around.end_calm) hc

/-- What is read from the significant tokens of a source without meeting a problem is what the
source is parsed as. -/
theorem parsed_of_lands {entry : Entry} {source : Text} {tokens : List Token} {tree : Node}
    {sort : List Token → Prop} (hsource : Lexeme.significant source = tokens)
    (h : Lands { consumed := [], rest := tokens } sort (Like tree) (entry.parser tokens.length)) :
    (Parsed.ofSource entry source).tree.erase = tree ∧
      (Parsed.ofSource entry source).problems = [] := by
  have hread : entry.read source =
      (entry.parser tokens.length).run { consumed := [], rest := tokens } := by
    have hcursor : ofTokens (Lexeme.tokens source) = { consumed := [], rest := tokens } := by
      rw [← hsource]
      rfl
    rw [Entry.read, hcursor]
  refine ⟨?_, Parsed.problems_eq_nil_of_raised ?_⟩
  · have htree : (Parsed.ofSource entry source).tree = (entry.read source).1 := rfl
    rw [htree, hread]
    exact h.result
  · rw [hread]
    exact h.keeps.raised

/-- Reading statements inverts writing them. Where a method ends, a block with any statements
is read as the tree of the block, if calm tokens follow. From the tokens of a class whose one
method has that block as its body, with the end of file after them, the parser for sources
gives the tree of the class without meeting a problem; and so it does for every source whose
significant tokens they are. -/
theorem MethodFrame.reading_inverts_writing_statements (frame : MethodFrame) (body : Block) :
    (∀ (fuel : Nat) (rest : List Token) (c : Cursor), body.tokens.length ≤ fuel → Calm rest →
      c.rest = body.tokens ++ rest →
        Lands c (· = rest) (Likes [body.tree]) (methodEnd (parse fuel))) ∧
    Lands { consumed := [], rest := frame.tokens body } (· = [frame.eof.1])
      (Like (frame.tree body)) (Entry.compilationUnit.parser (frame.tokens body).length) ∧
    ∀ source : Text, Lexeme.significant source = frame.tokens body →
      (Parsed.ofSource .compilationUnit source).tree.erase = frame.tree body ∧
        (Parsed.ofSource .compilationUnit source).problems = [] := by
  have hlength : body.tokens.length < (frame.tokens body).length := by
    simp only [MethodFrame.tokens, MethodFrame.methodTokens, List.cons_append, List.length_cons,
      List.length_append]
    omega
  have hunit : Lands { consumed := [], rest := frame.tokens body } (· = [frame.eof.1])
      (Like (frame.tree body)) (Entry.compilationUnit.parser (frame.tokens body).length) :=
    frame.compilationUnit_lands body hlength rfl
  exact ⟨fun fuel rest c hfuel hcalm hc => methodEnd_lands body hfuel hcalm hc, hunit,
    fun source hsource => parsed_of_lands hsource hunit⟩

/-- A class whose method declares a variable of a nested generic type, goes through a collection
under a label, and has a `switch` and a `try` with all its clauses. -/
def sampleSource : Text :=
  ("class T \x7b void m() \x7b Map<K, List<V>> x = \x7ba\x7d; outer: for (int[] b : c) " : Text) ++
    "if (d) break outer; else e[0] = f; switch (g) \x7b case 1: h(); default: \x7d " ++
      "try \x7b ++i; \x7d catch (E | F j) \x7b \x7d finally \x7b ; \x7d \x7d \x7d"

/-- A token of the sample as one of some kinds; one of another kind gets the first of them. -/
def sampleToken {kind : TokenKind} {kinds : List TokenKind} (n : Nat) :
    Token.Among (kind :: kinds) :=
  let t := (Lexeme.significant sampleSource).getD n ⟨.eof, {}, []⟩
  if h : t.kind ∈ kind :: kinds then ⟨t, h⟩ else ⟨{ t with kind }, List.mem_cons_self⟩

/-- A name of the sample as an expression. -/
def sampleName (n : Nat) : Expression .assignment := .ofPrimary (.ofCallee (.name (sampleToken n)))

/-- A name of the sample as a type. -/
def sampleType (n : Nat) : WrittenType := ⟨.named ⟨sampleToken n, []⟩ [], ⟨[], .nil⟩⟩

/-- The tokens of the sample around the body of its method. -/
def sampleFrame : MethodFrame where
  word := sampleToken 0
  label := sampleToken 1
  opening := sampleToken 2
  result := sampleToken 3
  method := sampleToken 4
  lparen := sampleToken 5
  rparen := sampleToken 6
  closing := sampleToken 83
  eof := sampleToken 84

theorem closes_shift (t : Token.Among [Symbol.shr]) : Closes 2 [t.1] := by
  refine ⟨List.forall_mem_singleton.2 (t.kind_mem (by decide)), ?_⟩
  rw [closedBy, t.kind_eq]
  rfl

/-- The declaration of the sample, where one token closes two lists of type arguments. -/
def sampleDeclaration : Declaration where
  type := .given ⟨.generic ⟨sampleToken 8, []⟩ (sampleToken 9)
    (.more (.named ⟨sampleToken 10, []⟩ []) ⟨[], .nil⟩ (sampleToken 11)
      (.last (.generic ⟨sampleToken 12, []⟩ (sampleToken 13)
        (.last (.named ⟨sampleToken 14, []⟩ []))))), ⟨_, closes_shift (sampleToken 15)⟩⟩
  first := ⟨sampleToken 16, some (sampleToken 17,
    .array (sampleToken 18) (.last (.value (sampleName 19))) (sampleToken 20))⟩
  more := []

/-- The labeled loop of the sample. -/
def sampleLoop : Statement false :=
  .labeled (sampleToken 22) (sampleToken 23) (.forEach (sampleToken 24)
    ⟨sampleToken 25, .given ⟨.primitive (sampleToken 26) [⟨sampleToken 27, sampleToken 28⟩],
      ⟨[], .nil⟩⟩, sampleToken 29, sampleToken 30, sampleName 31, sampleToken 32⟩
    (.ifElse (sampleToken 33) ⟨sampleToken 34, sampleName 35, sampleToken 36⟩
      (.breakOut (sampleToken 37) (some (sampleToken 38)) (sampleToken 39)) (sampleToken 40)
      (.action (.assign (.element (.ofCallee (.name (sampleToken 41))) (sampleToken 42)
        (.ofPrimary (.literal (sampleToken 43))) (sampleToken 44)) (sampleToken 45)
          (sampleName 46)) (sampleToken 47))))

/-- The `switch` of the sample, whose last group has no statement. -/
def sampleSwitch : Statement false :=
  .switchOn (sampleToken 48) ⟨sampleToken 49, sampleName 50, sampleToken 51⟩ (sampleToken 52)
    (.more ⟨.value (sampleToken 53) (.ofBinary ((Expression.ofSuffixed
        (.literal (sampleToken 54))).raise binaryLevels)) (sampleToken 55), []⟩
      (.action (.call (.name (sampleToken 56)) (sampleToken 57) .none (sampleToken 58))
        (sampleToken 59)) .none
      (.last ⟨.other (sampleToken 60) (sampleToken 61), []⟩ .none))
    (sampleToken 62)

/-- The `try` of the sample. -/
def sampleTry : Statement false :=
  .tryCatch (sampleToken 63)
    (.braces (sampleToken 64) (.more (.action (.countBefore (sampleToken 65)
      (.variable (.name (sampleToken 66)))) (sampleToken 67)) .none) (sampleToken 68))
    (.last ⟨sampleToken 69, sampleToken 70, sampleType 71,
      [(sampleToken 72, sampleType 73)], sampleToken 74, sampleToken 75⟩
      (.braces (sampleToken 76) .none (sampleToken 77)))
    (.clause (sampleToken 78) (.braces (sampleToken 79)
      (.more (.empty (sampleToken 80)) .none) (sampleToken 81)))

/-- The body of the method of the sample. -/
def sampleBody : Block :=
  .braces (sampleToken 7) (.more (.declaration sampleDeclaration (sampleToken 21))
    (.more sampleLoop (.more sampleSwitch (.more sampleTry .none)))) (sampleToken 82)

/-- The sample is read as it is written, and so is the body of its method by itself. -/
theorem reading_inverts_writing_sample :
    Lexeme.significant sampleSource = sampleFrame.tokens sampleBody ∧
      Lands { consumed := [], rest := sampleBody.tokens ++ [sampleFrame.eof.1] }
        (· = [sampleFrame.eof.1]) (Likes [sampleBody.tree])
        (methodEnd (parse sampleBody.tokens.length)) ∧
      (Parsed.ofSource .compilationUnit sampleSource).tree.erase = sampleFrame.tree sampleBody ∧
        (Parsed.ofSource .compilationUnit sampleSource).problems = [] := by
  have htokens : Lexeme.significant sampleSource = sampleFrame.tokens sampleBody := by
    decide +kernel
  have hcalm : Calm [sampleFrame.eof.1] :=
    Calm.nil.cons_barrier (sampleFrame.eof.kind_mem (by decide))
  obtain ⟨hbody, -, hsource⟩ := sampleFrame.reading_inverts_writing_statements sampleBody
  exact ⟨htokens, hbody _ _ _ (Nat.le_refl _) hcalm rfl, hsource sampleSource htokens⟩

end JavaObjC
