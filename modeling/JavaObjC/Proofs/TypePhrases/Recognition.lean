import JavaObjC.Proofs.TypePhrases.Acceptance
import JavaObjC.Proofs.Printing.Bodies

/-!
# Where lookaheads recognize a type

A local declaration, the head of an enhanced `for` and a cast begin with a type,
and each of them is told from an expression by a lookahead of its own. The one
for declarations passes every type that the grammar accepts. The other two
pass one name with its type arguments and then expect brackets, so that they
stop in front of a name behind type arguments: an enhanced `for` and a cast are
recognized if and only if the type has none.
-/

namespace JavaObjC

open Cursor Grammar JavaObjC.Parser Node

section Shapes

variable {k : Nat} {us vs : List Token} {nodes : List Node}

/-- Type arguments with the tokens that close them are a list in angles. -/
theorem TypePhrase.angled (h : TypePhrase .arguments k us nodes) (hclosing : Closes k vs) :
    Angled (us ++ vs) := by
  cases h with
  | diamond opening =>
    exact .inr ⟨opening.1, vs, rfl, opening.kind_eq, hclosing.pastClosing_exact⟩
  | @listed n us _ opening h =>
    refine .inr ⟨opening.1, us ++ vs, rfl, opening.kind_eq, fun after => ?_⟩
    have hlevel : (1 : Int) + n = ((n + 1 : Nat) : Int) := by omega
    rw [List.append_assoc, h.crosses.passes _ (Int.le_refl 1), hlevel]
    exact hclosing.pastClosing_exact after

/-- Type arguments have at least one token. -/
theorem TypePhrase.arguments_ne_nil (h : TypePhrase .arguments k us nodes) : us ++ vs ≠ [] := by
  obtain ⟨u, ts, rfl, -⟩ := h.front
  exact List.cons_ne_nil _ _

/-- The names of a class type with the marks that close their lists, as a search sees them. -/
theorem TypePhrase.classTokens (h : TypePhrase .names k us nodes) (hclosing : Closes k vs) :
    ∃ target : ClassTokens, us ++ vs = target.tokens ∧ nodes ≠ [] ∧
      (target.inners = [] ↔ nodes.length ≤ 2) := by
  generalize hpart : TypePart.names = part at h
  induction h with
  | name name =>
    refine ⟨.plain name (.inl rfl), ?_, List.cons_ne_nil _ _, iff_of_true rfl (Nat.le_succ 1)⟩
    rw [hclosing.eq_nil, ClassTokens.tokens]
    rfl
  | given name h _ =>
    refine ⟨.plain name (h.angled hclosing), ?_, List.cons_ne_nil _ _,
      iff_of_true rfl (Nat.le_refl 2)⟩
    simp [ClassTokens.tokens, ClassTokens.plain]
  | inner name h hclosing' dot _ _ ih =>
    obtain ⟨target, htokens, hparts, -⟩ := ih hclosing rfl
    refine ⟨⟨name, _, _, h.angled hclosing', .cons dot target.name target.angled target.last
      target.further, fun hnone => absurd hnone h.arguments_ne_nil⟩, ?_, List.cons_ne_nil _ _, ?_⟩
    · simp only [ClassTokens.tokens, List.append_assoc, List.cons_append] at htokens ⊢
      rw [htokens]
    · refine iff_of_false (List.cons_ne_nil _ _) fun hlength => hparts ?_
      simp only [List.length_cons] at hlength
      exact List.length_eq_zero_iff.1 (by omega)
  | _ => cases hpart

/-- One more pair of brackets is one more array type around. -/
theorem inBrackets_succ (n : Nat) (tree : Node) :
    inBrackets (n + 1) tree = bare .arrayType [inBrackets n tree] := by
  induction n generalizing tree with
  | zero => rfl
  | succ n ih => exact ih _

/-- The brackets around a type do not hide its parts. -/
theorem inBrackets_type_inj {m n : Nat} {parts others : List Node}
    (h : inBrackets m (bare .type parts) = inBrackets n (bare .type others)) : parts = others := by
  induction m generalizing n with
  | zero =>
    cases n with
    | zero => exact (Node.mk.inj h).2.2.2.2
    | succ n =>
      rw [inBrackets_succ] at h
      exact absurd (Node.mk.inj h).1 (by decide)
  | succ m ih =>
    cases n with
    | zero =>
      rw [inBrackets_succ] at h
      exact absurd (Node.mk.inj h).1 (by decide)
    | succ n =>
      rw [inBrackets_succ, inBrackets_succ] at h
      exact ih (List.cons.inj (Node.mk.inj h).2.2.2.2).1

/-- A type tree in which no name stands behind type arguments: inside its array nodes there is
one name, alone or with its type arguments. -/
def Node.Outermost (tree : Node) : Prop :=
  ∃ (n : Nat) (parts : List Node), tree = inBrackets n (bare .type parts) ∧ parts.length ≤ 2

/-- Brackets do not matter to whether a type is a name with at most one list of arguments. -/
theorem outermost_iff {n : Nat} {parts : List Node} :
    (inBrackets n (bare .type parts)).Outermost ↔ parts.length ≤ 2 := by
  refine ⟨?_, fun h => ⟨n, parts, rfl, h⟩⟩
  rintro ⟨m, others, heq, hlength⟩
  rw [inBrackets_type_inj heq]
  exact hlength

/-- A type that begins with a name, as a search sees it. -/
theorem TypePhrase.shape {tree : Node} (h : TypePhrase .type k us [tree]) (hclosing : Closes k vs)
    (hfront : Next (· = .identifier) (us ++ vs)) :
    ∃ (target : ClassTokens) (brackets : List BracketPair),
      us ++ vs = target.tokens ++ bracketTokens brackets ∧
        (target.inners = [] ↔ tree.Outermost) := by
  cases h with
  | word word brackets =>
    exact absurd hfront ((by decide : ∀ k ∈ wordTypes, k ≠ .identifier) _ word.2)
  | named h =>
    obtain ⟨target, htokens, -, hinners⟩ := h.classTokens hclosing
    refine ⟨target, [], by rw [htokens]; exact (List.append_nil _).symm, ?_⟩
    exact hinners.trans (outermost_iff (n := 0)).symm
  | array h hclosing' first brackets =>
    obtain ⟨target, htokens, -, hinners⟩ := h.classTokens hclosing'
    refine ⟨target, first :: brackets, ?_, hinners.trans outermost_iff.symm⟩
    rw [hclosing.eq_nil, List.append_nil, ← List.append_assoc, htokens]

end Shapes

section Parentheses

/-- Tokens that group. -/
def parentheses : List TokenKind := [Symbol.lparen, Symbol.rparen]

/-- Tokens without parentheses among them. -/
def Unparenthesized (ts : List Token) : Prop := ∀ t ∈ ts, t.kind ∉ parentheses

namespace Unparenthesized

variable {us vs : List Token}

/-- Tokens without parentheses in a row have none. -/
theorem append (h : Unparenthesized us) (h' : Unparenthesized vs) : Unparenthesized (us ++ vs) :=
  List.forall_mem_append.2 ⟨h, h'⟩

/-- A word or mark that is no parenthesis stands in front. -/
theorem cons {kinds : List TokenKind} (t : Token.Among kinds) (hkinds : ∀ k ∈ kinds, k ∉ parentheses)
    (h : Unparenthesized us) : Unparenthesized (t.1 :: us) :=
  List.forall_mem_cons.2 ⟨hkinds _ t.2, h⟩

theorem nil : Unparenthesized [] := List.forall_mem_nil _

/-- Items without parentheses have none in a row. -/
theorem flatMap {α : Type} {f : α → List Token} (h : ∀ a, Unparenthesized (f a)) (items : List α) :
    Unparenthesized (items.flatMap f) := by
  intro t ht
  obtain ⟨a, -, ha⟩ := List.mem_flatMap.1 ht
  exact h a t ha

/-- A qualified name has no parentheses. -/
theorem ofName (name : WrittenName) : Unparenthesized name.tokens := by
  refine cons name.first (by decide) (flatMap (fun part => ?_) name.more)
  exact cons part.1 (by decide) (cons part.2 (by decide) nil)

/-- Array brackets are no parentheses. -/
theorem ofBrackets (brackets : List BracketPair) : Unparenthesized (bracketTokens brackets) := by
  refine flatMap (fun pair => ?_) brackets
  exact cons pair.opening (by decide) (cons pair.closing (by decide) nil)

/-- Closing angles are no parentheses. -/
theorem ofClosing {n : Nat} (h : Closes n us) : Unparenthesized us := fun t ht =>
  (by decide : ∀ k ∈ closingAngles, k ∉ parentheses) _ (h.angles t ht)

/-- No arrow follows the parenthesis that is closed in front of another token. -/
theorem no_arrow {t u : Token} {rest : List Token} (h : Unparenthesized us)
    (ht : t.kind = Symbol.rparen) (hu : u.kind ≠ Symbol.arrow) :
    arrowAfterClosing 1 (us ++ t :: u :: rest) = false := by
  induction us with
  | nil =>
    have hclosed : arrowAfterClosing 1 (t :: u :: rest) = (u.kind == .symbol .arrow) := by
      rw [arrowAfterClosing, if_neg Nat.one_ne_zero, ht]
      rfl
    exact hclosed.trans (beq_eq_false_iff_ne.2 hu)
  | cons v us ih =>
    obtain ⟨hv, hus⟩ := List.forall_mem_cons.1 h
    rw [List.cons_append, arrowAfterClosing, if_neg Nat.one_ne_zero]
    split
    · rfl
    · rfl
    · rfl
    · rename_i hopen
      exact absurd (by rw [hopen]; decide) hv
    · rename_i hclosed
      exact absurd (by rw [hclosed]; decide) hv
    · exact ih hus

end Unparenthesized

/-- No parenthesis stands in a phrase. -/
theorem TypePhrase.unparenthesized {part : TypePart} {k : Nat} {us : List Token}
    {nodes : List Node} (h : TypePhrase part k us nodes) : Unparenthesized us := by
  induction h with
  | word word brackets => exact .cons word (by decide) (.ofBrackets brackets)
  | named _ ih => exact ih
  | array _ hclosing first brackets ih =>
    exact .append ih (.append (.ofClosing hclosing) (.ofBrackets (first :: brackets)))
  | name name => exact .ofName name
  | given name _ ih => exact .append (.ofName name) ih
  | inner name _ hclosing dot _ ih ih' =>
    exact .append (.ofName name)
      (.append ih (.append (.ofClosing hclosing) (.cons dot (by decide) ih')))
  | diamond opening => exact .cons opening (by decide) .nil
  | listed opening _ ih => exact .cons opening (by decide) ih
  | last _ ih => exact ih
  | more _ hclosing comma _ ih ih' =>
    exact .append ih (.append (.ofClosing hclosing) (.cons comma (by decide) ih'))
  | type _ ih => exact ih
  | wildcard question => exact .cons question (by decide) .nil
  | bounded question direction _ ih =>
    exact .cons question (by decide) (.cons direction (by decide) ih)

end Parentheses

section Declarations

variable {fuel : Nat} {rest : List Token} {c : Cursor}

/-- A phrase is read as a type wherever a token follows that does not go on with it. -/
def ReadsType (tokens : List Token) (tree : Node) : Prop :=
  ∀ ⦃fuel : Nat⦄ ⦃rest : List Token⦄ ⦃c : Cursor⦄, tokens.length ≤ fuel →
    Next (· ∉ typeMarks) rest → c.rest = tokens ++ rest →
      Lands c (· = rest) (Like tree) (Grammar.type (parse fuel))

/-- A name alone is declared without a value. -/
theorem declarators_name {rule : Rules} {label : Token.Among nameKinds}
    {semicolon : Token.Among [Symbol.semicolon]}
    (hc : c.rest = label.1 :: semicolon.1 :: rest) :
    Lands c (· = semicolon.1 :: rest)
      (fun p => Likes [bare .varDeclarator [Node.word label.1]] p.1 ∧ p.2 = 0)
      (declarators rule) := by
  have hsemicolon {kind : TokenKind} (hkind : kind ≠ Symbol.semicolon) :
      Next (· ≠ kind) (semicolon.1 :: rest) := by
    change semicolon.1.kind ≠ _
    rw [semicolon.kind_eq]
    exact hkind.symm
  have hname : Lands c (· = semicolon.1 :: rest)
      (fun p => Like (bare .varDeclarator [Node.word label.1]) p.1 ∧ p.2 = 0) (declarator rule) := by
    refine .here fun start => .step (name_past hc) ?_
    refine .glance (loop_none (a := 0) ?_) ?_
    · rw [bind_of_run (check2_no (hsemicolon (by decide)))]
      rfl
    · refine (Lands.optional_none_at (skip_no (hsemicolon (by decide))) rfl).bind
        fun value d hd hvalue => ?_
      exact (Lands.finish_at ((likes_word _).append hvalue) hd).bind fun node d hd hnode =>
        .pure ⟨hnode, rfl⟩ hd
  refine hname.bind fun p d hd hp => ?_
  obtain ⟨node, depth⟩ := p
  obtain ⟨hnode, rfl⟩ := hp
  have hcomma : (skip Symbol.comma).run d = (false, d) := skip_no (hd ▸ hsemicolon (by decide))
  refine .of_eq (loop_none ?_) (.pure (a := ([node], 0)) ⟨hnode.single, rfl⟩ hd)
  dsimp only
  rw [bind_of_run hcomma]
  rfl

/-- A class type begins with an identifier. -/
theorem ClassTokens.next (target : ClassTokens) (us : List Token) :
    Next (· = .identifier) (target.tokens ++ us) := target.name.first.kind_eq

/-- A type in front of a local variable is read as it is read anywhere. -/
theorem ReadsType.localType {tokens : List Token} {tree : Node} (h : ReadsType tokens tree)
    (hfuel : tokens.length ≤ fuel) (hfront : Next (· = .identifier) c.rest)
    (hrest : Next (· ∉ typeMarks) rest) (hc : c.rest = tokens ++ rest) :
    Lands c (· = rest) (Like tree) (localType (parse fuel)) := by
  refine .glance (check_no (hfront.imp fun hk => by rw [hk]; decide)) ?_
  rw [if_neg Bool.false_ne_true]
  exact h hfuel hrest hc

variable {target : ClassTokens} {brackets : List BracketPair} {tree : Node}
  {label : Token.Among nameKinds}

/-- The tokens of a class type with its brackets. -/
def ClassTokens.bracketed (target : ClassTokens) (brackets : List BracketPair) : List Token :=
  target.tokens ++ bracketTokens brackets

/-- The tree of a declaration of one name without a value. -/
def declarationTree (tree : Node) (label : Token) : Node :=
  bare .localVarDecl [bare .modifiers [], tree, bare .varDeclarator [Node.word label]]

/-- A class type in front of a name and a semicolon is read as a declaration. -/
theorem ReadsType.declaration {semicolon : Token.Among [Symbol.semicolon]}
    (h : ReadsType (target.bracketed brackets) tree)
    (hfuel : (target.bracketed brackets).length ≤ fuel) :
    ReadsLike (Grammar.statement (parse fuel))
      (target.bracketed brackets ++ [label.1, semicolon.1]) (declarationTree tree label.1) rest := by
  intro c hc
  rw [List.append_assoc] at hc
  have hwhole : c.rest =
      target.tokens ++ (bracketTokens brackets ++ label.1 :: semicolon.1 :: rest) := by
    rw [hc, ClassTokens.bracketed, List.append_assoc]
    rfl
  have hnext : Next (· = .identifier) c.rest := hwhole ▸ target.next _
  have hfront : c.rest = target.name.first.1 :: ((target.name.more.flatMap fun part =>
      [part.1.1, part.2.1]) ++ (target.angles ++ target.inners) ++
        (bracketTokens brackets ++ label.1 :: semicolon.1 :: rest)) := hwhole
  have hlabel : Next (· ≠ Symbol.colon) (label.1 :: semicolon.1 :: rest) :=
    (by decide : ∀ k ∈ nameKinds, k ≠ Symbol.colon) _ label.2
  have hstarts : (startsLocalDeclaration (parse fuel)).run c = (true, c) := by
    rw [startsLocalDeclaration_run (hnext.imp fun hk => by rw [hk]; decide),
      (declares_class hwhole).result]
  refine .of_eq (statement_simple hfront (by rw [target.name.first.kind_eq]; decide) fun _ =>
    target.second (bracketTokens_next brackets hlabel (by decide)) (by decide) (by decide)
      (hwhole.symm.trans hfront)) ?_
  refine .glance hstarts ?_
  rw [if_pos rfl]
  have hdeclaration : Lands c (· = semicolon.1 :: rest) (Like (declarationTree tree label.1))
      (localVarDecl (parse fuel)) := by
    refine .here fun start => (modifiers_land (hnext.imp fun hk => by rw [hk]; decide) rfl).bind
      fun marks d hd hmarks => ?_
    refine (h.localType hfuel (hd ▸ hnext) (next_name label _) (hd.trans hc)).bind
      fun declared d hd hdeclared => ?_
    refine (declarators_name hd).bind fun p d hd hp => ?_
    obtain ⟨nodes, depth⟩ := p
    obtain ⟨hnodes, rfl⟩ := hp
    exact .finish_at (.cons hmarks (.cons hdeclared hnodes)) hd
  refine hdeclaration.bind fun node d hd hnode => ?_
  refine .step (need_past hd semicolon.kind_eq) ?_
  exact .extend hnode rfl

end Declarations

section Avoiding

variable {α : Type} {kind : NodeKind} {c : Cursor}

/-- From a cursor on, a parser gives no tree of a kind. -/
def Avoids (kind : NodeKind) (p : Parser Node) (c : Cursor) : Prop := (p.run c).1.kind ≠ kind

namespace Avoids

/-- What a parser makes is decided by its last step. -/
theorem bind {p : Parser α} {f : α → Parser Node} (h : ∀ a d, Avoids kind (f a) d) :
    Avoids kind (p >>= f) c := h _ _

/-- What a parser does with a tree that has been read already. -/
theorem bind_of {p : Parser Node} {f : Node → Parser Node} (hp : Avoids kind p c)
    (hf : ∀ n d, n.kind ≠ kind → Avoids kind (f n) d) : Avoids kind (p >>= f) c := hf _ _ hp

theorem pure {n : Node} (h : n.kind ≠ kind) : Avoids kind (Pure.pure n) c := h

/-- A finished node has the kind it is finished with. -/
theorem finish {made : NodeKind} (h : made ≠ kind) {start : Position} {children : List Node} :
    Avoids kind (Parser.finish made start children) c := h

/-- A problem is an error node. -/
theorem problem (h : NodeKind.error ≠ kind) {message : String} {recovery expected : List TokenKind} :
    Avoids kind (Parser.problem message recovery expected) c := h

/-- A choice that avoids a kind both ways. -/
theorem ite {b : Prop} [Decidable b] {p q : Parser Node} (hp : b → Avoids kind p c)
    (hq : ¬ b → Avoids kind q c) : Avoids kind (if b then p else q) c := by
  by_cases h : b
  · rw [if_pos h]
    exact hp h
  · rw [if_neg h]
    exact hq h

/-- A step of a loop that gives no tree of the kind. -/
def Rounds (kind : NodeKind) (p : Parser (Option Node)) (c : Cursor) : Prop :=
  ∀ n, (p.run c).1 = some n → n.kind ≠ kind

theorem Rounds.none : Rounds kind (Pure.pure none) c := nofun

/-- A step that makes a node of another kind. -/
theorem Rounds.some {p : Parser Node} (h : Avoids kind p c) :
    Rounds kind (p >>= fun n => Pure.pure (Option.some n)) c := by
  rintro n ⟨⟩
  exact h

/-- What a step makes is decided by its last part. -/
theorem Rounds.bind {p : Parser α} {f : α → Parser (Option Node)}
    (h : ∀ a d, Rounds kind (f a) d) : Rounds kind (p >>= f) c := h _ _

/-- A choice between two steps. -/
theorem Rounds.ite {b : Prop} [Decidable b] {p q : Parser (Option Node)}
    (hp : Rounds kind p c) (hq : Rounds kind q c) : Rounds kind (if b then p else q) c := by
  by_cases h : b
  · rwa [if_pos h]
  · rwa [if_neg h]

/-- A loop that starts with a node of another kind and never makes one of the kind. -/
theorem loop {step : Node → Parser (Option Node)} (hstep : ∀ n d, Rounds kind (step n) d) {n : Node}
    (hn : n.kind ≠ kind) : Avoids kind (Parser.loop step n) c := by
  suffices h : ∀ bound n (d : Cursor), n.kind ≠ kind →
      Avoids kind (Parser.iterate step bound n) d from h _ n c hn
  intro bound
  induction bound with
  | zero => exact fun n d hn => hn
  | succ bound ih =>
    intro n d hn
    obtain ⟨o, e, hrun⟩ : ∃ o e, (step n).run d = (o, e) := ⟨_, _, rfl⟩
    have hround := hstep n d
    rw [Rounds, hrun] at hround
    rw [Avoids, Parser.iterate, bind_of_run hrun]
    cases o with
    | none => exact hn
    | some m => exact ih m e (hround m rfl)

end Avoids

end Avoiding

section Loops

variable {fuel : Nat} {rest : List Token} {c : Cursor} {target : ClassTokens}
  {brackets : List BracketPair} {declared : Node}

/-- A `for` around a variable of a type, with the tokens of its collection and of its body. -/
structure EachFrame where
  word : Token.Among [Keyword.forKw]
  opening : Token.Among [Symbol.lparen]
  label : Token.Among nameKinds
  colon : Token.Among [Symbol.colon]
  collection : List Token
  closing : Token.Among [Symbol.rparen]
  body : List Token

namespace EachFrame

/-- The tokens from the name of the variable on. -/
def tail (frame : EachFrame) : List Token :=
  frame.label.1 :: frame.colon.1 :: (frame.collection ++ frame.closing.1 :: frame.body)

/-- The tokens of the whole statement. -/
def tokens (frame : EachFrame) (type : List Token) : List Token :=
  frame.word.1 :: frame.opening.1 :: (type ++ frame.tail)

/-- The tree of an enhanced `for`. -/
def tree (frame : EachFrame) (type collection body : Node) : Node :=
  bare .enhancedForStmt [bare .modifiers [], type, Node.word frame.label.1, collection, body]

/-- A plain `for` is no enhanced one. -/
theorem plainFor_avoids {rule : Rules} {start : Position} :
    Avoids .enhancedForStmt (plainFor rule start) c :=
  .bind fun _ _ => .bind fun _ _ => .bind fun _ _ => .bind fun _ _ => .bind fun _ _ =>
    .bind fun _ _ => .bind fun _ _ => .bind fun _ _ => .bind fun _ _ => .bind fun _ _ =>
      .bind fun _ _ => .finish (by decide)

variable (frame : EachFrame)

/-- A statement that begins with the word of a loop is that loop. -/
theorem statement_eq {rule : Rules} {type : List Token}
    (hc : c.rest = frame.tokens type ++ rest) :
    (Grammar.statement rule).run c = (forStmt rule).run c :=
  statement_run hc (by simp [statementParsers, frame.word.kind_eq])

/-- The search for an enhanced loop stops at a class with an inner one. -/
theorem starts (hc : c.rest = target.bracketed brackets ++ (frame.tail ++ rest)) :
    (startsEnhancedFor (parse fuel)).run c = (target.inners.isEmpty, c) := by
  rw [ClassTokens.bracketed, List.append_assoc] at hc
  have hnext : Next (· = .identifier) c.rest := hc ▸ target.next _
  rw [startsEnhancedFor_run (hnext.imp fun hk => by rw [hk]; decide), iterates_class hc,
    frame.colon.kind_eq, beq_self_eq_true, Bool.and_true]

/-- The lookahead decides which of the two loops is read. -/
theorem reads_iff {collection body : Node} (h : ReadsType (target.bracketed brackets) declared)
    (hfuel : (target.bracketed brackets).length ≤ fuel)
    (hcollection : ReadsLike (expression (parse fuel)) frame.collection collection
      (frame.closing.1 :: (frame.body ++ rest)))
    (hbody : ReadsLike (parse fuel .statement) frame.body body rest) :
    ReadsLike (Grammar.statement (parse fuel)) (frame.tokens (target.bracketed brackets))
      (frame.tree declared collection body) rest ↔ target.inners = [] := by
  constructor
  · intro hreads
    let c : Cursor := { consumed := [], rest := frame.tokens (target.bracketed brackets) ++ rest }
    have hlands := hreads (c := c) rfl
    have hc : c.rest = frame.word.1 :: frame.opening.1 ::
        (target.bracketed brackets ++ (frame.tail ++ rest)) := by
      simp [c, tokens]
    by_contra hinners
    have hplain : Avoids .enhancedForStmt (Grammar.statement (parse fuel)) c := by
      rw [Avoids, frame.statement_eq rfl, forStmt, bind_of_run (rfl : here.run c = (_, c)),
        bind_of_run (need_past hc frame.word.kind_eq),
        bind_of_run (need_past rfl frame.opening.kind_eq),
        bind_of_run (frame.starts rfl), List.isEmpty_eq_false_iff.2 hinners,
        if_neg Bool.false_ne_true]
      exact plainFor_avoids
    have hkind := congrArg Node.kind hlands.result
    rw [erase_kind] at hkind
    exact hplain hkind
  · intro hinners c hc
    refine .of_eq (frame.statement_eq hc) ?_
    simp only [tokens, List.cons_append, List.append_assoc] at hc
    refine .here fun start => .step (need_past hc frame.word.kind_eq) ?_
    refine .step (need_past rfl frame.opening.kind_eq) ?_
    refine .glance (frame.starts rfl) ?_
    rw [hinners, List.isEmpty_nil, if_pos rfl]
    have hnext : Next (· = .identifier)
        (target.bracketed brackets ++ (frame.tail ++ rest)) := by
      rw [ClassTokens.bracketed, List.append_assoc]
      exact target.next _
    refine (modifiers_land (hnext.imp fun hk => by rw [hk]; decide) rfl).bind
      fun marks d hd hmarks => ?_
    refine (h.localType hfuel (hd ▸ hnext) (next_name frame.label _) hd).bind
      fun declared d hd hdeclared => ?_
    refine .step (name_past hd) (.step (need_past rfl frame.colon.kind_eq) ?_)
    refine (hcollection (by simp)).bind fun e d hd he => ?_
    refine .step (need_past hd frame.closing.kind_eq) ?_
    refine (hbody rfl).bind fun s d hd hs => ?_
    exact .finish_at (.cons hmarks (.cons hdeclared ((likes_word _).append
      (.cons he hs.single)))) hd

end EachFrame

end Loops

section Casts

variable {fuel : Nat} {rest : List Token} {c : Cursor} {rule : Rules} {target : ClassTokens}
  {brackets : List BracketPair} {opening closing operand : Token}

/-- The question whether a cast follows. -/
def casts : Parser Bool := do
  if ← skip Symbol.lparen then
    let kind ← kindAt 0
    if kind.isPrimitive then
      let _ ← advance
      skipBrackets
      check Symbol.rparen
    else if kind == .identifier then
      let _ ← qualifiedName
      skipTypeArguments
      skipBrackets
      let _ ← many (skip Symbol.bitAnd) do
        let bound ← qualifiedName
        skipTypeArguments
        return bound
      if ← skip Symbol.rparen then checkAny castOperandStarts else return false
    else return false
  else return false

/-- The search for a cast puts the cursor back. -/
theorem startsCast_run (c : Cursor) : startsCast.run c = ((casts.run c).1, c) :=
  Prod.ext rfl (startsCast_stays c)

/-- The search for a cast stops in front of names behind type arguments. Where there are none, the
answer is whether an operand follows the parenthesis. -/
theorem startsCast_class (hopening : opening.kind = Symbol.lparen)
    (hclosing : closing.kind = Symbol.rparen)
    (hc : c.rest = opening :: (target.bracketed brackets ++ closing :: operand :: rest)) :
    startsCast.run c =
      (target.inners.isEmpty && castOperandStarts.contains operand.kind, c) := by
  have hclosed {kind : TokenKind} (hkind : kind ≠ Symbol.rparen) :
      Next (· ≠ kind) (closing :: operand :: rest) := by
    change closing.kind ≠ _
    rw [hclosing]
    exact hkind.symm
  have hdot : Next (· ≠ Symbol.dot) (bracketTokens brackets ++ closing :: operand :: rest) :=
    bracketTokens_next brackets (hclosed (by decide)) (by decide)
  have hmiddle : Next (· ≠ Symbol.lt)
      (target.inners ++ (bracketTokens brackets ++ closing :: operand :: rest)) :=
    target.further.next (bracketTokens_next brackets (hclosed (by decide)) (by decide))
      (by decide)
  suffices h : Lands c (fun _ => True)
      (· = (target.inners.isEmpty && castOperandStarts.contains operand.kind)) casts by
    rw [startsCast_run, h.result]
  rw [ClassTokens.bracketed, ClassTokens.tokens, List.append_assoc, List.append_assoc,
    List.append_assoc] at hc
  refine .step (skip_past hc hopening) ?_
  rw [if_pos rfl]
  refine .of_eq (kindAt_bind rfl) ?_
  rw [if_neg (by rw [target.name.first.kind_eq]; decide),
    if_pos (beq_iff_eq.2 target.name.first.kind_eq)]
  refine (target.name.lands rfl (target.angled.next_undotted target.last hdot)).bind
    fun _ d hd _ => ?_
  refine (skipTypeArguments_land target.angled hd hmiddle).bind fun _ d hd _ => ?_
  have hinners := target.further
  generalize target.inners = inners at hd hinners ⊢
  cases hinners with
  | nil =>
    have hd : d.rest = bracketTokens brackets ++ closing :: operand :: rest := hd
    refine (skipBrackets_land hd (hclosed (by decide))).bind fun _ d hd _ => ?_
    refine .glance (many_none (skip_no (hd ▸ hclosed (by decide)))) ?_
    refine .step (skip_past hd hclosing) ?_
    rw [if_pos rfl]
    exact ⟨rfl, trivial, .refl _⟩
  | cons dot _ _ _ _ =>
    obtain ⟨us, hd⟩ : ∃ us, d.rest = dot.1 :: us := ⟨_, hd⟩
    have hstop {kind : TokenKind} (hkind : kind ≠ Symbol.dot) : Next (· ≠ kind) (dot.1 :: us) := by
      change dot.1.kind ≠ _
      rw [dot.kind_eq]
      exact hkind.symm
    have hnone : d.rest = bracketTokens [] ++ dot.1 :: us := hd
    refine (skipBrackets_land hnone (hstop (by decide))).bind fun _ d hd _ => ?_
    refine .glance (many_none (skip_no (hd ▸ hstop (by decide)))) ?_
    refine .glance (skip_no (hd ▸ hstop (by decide))) ?_
    rw [if_neg Bool.false_ne_true]
    exact .pure rfl trivial

/-- A cast to a primitive type, with brackets or without, is found whatever its operand is. -/
theorem startsCast_primitive {word : Token.Among primitiveWords}
    (hopening : opening.kind = Symbol.lparen) (hclosing : closing.kind = Symbol.rparen)
    (hc : c.rest = opening :: word.1 :: (bracketTokens brackets ++ closing :: rest)) :
    startsCast.run c = (true, c) := by
  have hclosed : Next (· ≠ Symbol.lbracket) (closing :: rest) := by
    change closing.kind ≠ _
    rw [hclosing]
    decide
  suffices h : Lands c (fun _ => True) (· = true) casts by rw [startsCast_run, h.result]
  refine .step (skip_past hc hopening) ?_
  rw [if_pos rfl]
  refine .of_eq (kindAt_bind rfl) ?_
  rw [if_pos ((by decide : ∀ k ∈ primitiveWords, k.isPrimitive = true) _ word.2)]
  refine .step (advance_past rfl ((by decide : ∀ k ∈ primitiveWords, k ≠ .eof) _ word.2)) ?_
  refine (skipBrackets_land rfl hclosed).bind fun _ d hd _ => ?_
  have hfound : (check Symbol.rparen).run d = (true, d) := check_yes (by rw [hd]; exact hclosing)
  exact .of_eq (hfound.trans rfl) (.pure rfl trivial)

/-- A token that is no parenthesis begins no cast. -/
theorem startsCast_no (h : Next (· ≠ Symbol.lparen) c.rest) :
    startsCast.run c = (false, c) := by
  refine Prod.ext (Bool.eq_false_iff.2 fun hcast => ?_) (startsCast_stays c)
  obtain ⟨t, u, ts, hc, ht, -⟩ := castlike_of_startsCast hcast
  rw [hc] at h
  exact h ht

/-- A name without an arrow behind it begins no lambda. -/
theorem startsLambda_name {t u : Token} {ts : List Token} (hc : c.rest = t :: u :: ts)
    (ht : t.kind ≠ Symbol.lparen) (hu : u.kind ≠ Symbol.arrow) :
    startsLambda.run c = (false, c) := by
  have hnext : ((c.tokenAt 1).kind == .symbol .arrow) = false := by
    rw [tokenAt_one_cons hc]
    exact beq_eq_false_iff_ne.2 hu
  have hparen : (check Symbol.lparen).run c = (false, c) := check_no (by rw [hc]; exact ht)
  change ((if ((c.tokenAt 0).kind.isName && (c.tokenAt 1).kind == .symbol .arrow) = true
    then (Pure.pure true : Parser Bool) else _).run c) = (false, c)
  rw [hnext, Bool.and_false, if_neg Bool.false_ne_true, bind_of_run hparen,
    if_neg Bool.false_ne_true]
  rfl

/-- Without an arrow behind the closing parenthesis there is no lambda. -/
theorem startsLambda_paren {t : Token} {ts : List Token} (hc : c.rest = t :: ts)
    (ht : t.kind = Symbol.lparen) (harrow : arrowAfterClosing 1 ts = false) :
    startsLambda.run c = (false, c) := by
  have hname : (c.tokenAt 0).kind.isName = false := by
    rw [tokenAt_zero_cons hc, ht]
    rfl
  have hparen : (check Symbol.lparen).run c = (true, c) := check_yes (by rw [hc]; exact ht)
  change ((if ((c.tokenAt 0).kind.isName && (c.tokenAt 1).kind == .symbol .arrow) = true
    then (Pure.pure true : Parser Bool) else _).run c) = (false, c)
  rw [hname, Bool.false_and, if_neg Bool.false_ne_true, bind_of_run hparen, if_pos rfl]
  change (arrowAfterClosing 1 (c.rest.drop 1), c) = _
  rw [hc, List.drop_one, List.tail_cons, harrow]

/-- A name is an operand in front of a token that ends an expression. -/
theorem unary_name {label : Token.Among nameKinds} (hc : c.rest = label.1 :: rest)
    (hrest : Next (· ∈ closers) rest) :
    Lands c (· = rest) (Like (Node.word label.1)) (unary rule) := by
  obtain ⟨u, us, rfl⟩ : ∃ u us, rest = u :: us := by
    cases rest with
    | nil => exact hrest.elim
    | cons u us => exact ⟨u, us, rfl⟩
  have hcontinues : u.kind ∈ continuations :=
    List.mem_append_left _ (List.mem_append_left _ hrest)
  have hcast : startsCast.run c = (false, c) := startsCast_no (by
    rw [hc]
    exact (by decide : ∀ k ∈ nameKinds, k ≠ Symbol.lparen) _ label.2)
  have hname : (postfixed rule).run c = (.ofToken .identifier label.1, c.past [label.1] (u :: us)) :=
    postfixed_past (primary_name hc label.2) (.stop (suffix_stops rfl hcontinues))
  refine .of_eq (unary_plain hc ((by decide : ∀ k ∈ nameKinds, k ∉ prefixOperators) _ label.2)
    hcast) ?_
  exact .of_past hname rfl rfl

/-- A cast of a name is read. -/
theorem castExpr_lands {tree : Node} {label : Token.Among nameKinds} {type : List Token}
    (h : ReadsType type tree) (hfuel : type.length ≤ fuel) (hpositive : 0 < fuel)
    (hopening : opening.kind = Symbol.lparen) (hclosing : closing.kind = Symbol.rparen)
    (hrest : Next (· ∈ closers) rest)
    (hc : c.rest = opening :: (type ++ closing :: label.1 :: rest)) :
    Lands c (· = rest) (Like (bare .castExpr [bare .type [tree], Node.word label.1]))
      (castExpr (parse fuel)) := by
  obtain ⟨m, rfl⟩ : ∃ m, fuel = m + 1 := ⟨fuel - 1, by omega⟩
  obtain ⟨u, us, rfl⟩ : ∃ u us, rest = u :: us := by
    cases rest with
    | nil => exact hrest.elim
    | cons u us => exact ⟨u, us, rfl⟩
  have hclosed {kind : TokenKind} (hkind : kind ≠ Symbol.rparen) :
      closing.kind ≠ kind := by
    rw [hclosing]
    exact hkind.symm
  have hmarks : Next (· ∉ typeMarks) (closing :: label.1 :: u :: us) := by
    change closing.kind ∉ _
    rw [hclosing]
    decide
  have hgroup : Lands (c.past [opening] (type ++ closing :: label.1 :: u :: us))
      (· = closing :: label.1 :: u :: us) (Like (bare .type [tree]))
      (typeGroup (parse (m + 1)) Symbol.bitAnd) := by
    refine .here fun start => (h hfuel hmarks rfl).bind fun node d hd hnode => ?_
    have hbound : Next (· ≠ Symbol.bitAnd) d.rest := by
      rw [hd]
      exact hclosed (by decide)
    refine .glance (many_none (skip_no hbound)) ?_
    exact .finish_at hnode.single hd
  refine .here fun start => .step (need_past hc hopening) ?_
  refine hgroup.bind fun node d hd hnode => ?_
  refine .step (need_past hd hclosing) ?_
  have hlambda : startsLambda.run (d.past [closing] (label.1 :: u :: us)) =
      (false, d.past [closing] (label.1 :: u :: us)) :=
    startsLambda_name rfl ((by decide : ∀ k ∈ nameKinds, k ≠ Symbol.lparen) _ label.2)
      ((by decide : ∀ k ∈ closers, k ≠ Symbol.arrow) _ hrest)
  have hoperand : Lands (d.past [closing] (label.1 :: u :: us)) (· = u :: us)
      (Like (Node.word label.1)) (lambdaOr (parse (m + 1)) (parse (m + 1) .unary)) :=
    .of_eq (lambdaOr_past hlambda) (unary_name rfl hrest)
  refine hoperand.bind fun value d hd hvalue => ?_
  exact .finish_at (.cons hnode hvalue.single) hd

/-- An operand in front of a token that ends an expression is a whole expression. -/
theorem expression_of_unary {tree : Node} (hlambda : startsLambda.run c = (false, c))
    (hrest : Next (· ∈ closers) rest) (h : Lands c (· = rest) (Like tree) (unary rule)) :
    Lands c (· = rest) (Like tree) (expression rule) := by
  have hbinary (levels : List (List TokenKind))
      (hlevels : ∀ operators ∈ levels, ∀ k ∈ closers, k ∉ operators) :
      Lands c (· = rest) (Like tree) (Grammar.binary rule levels) := by
    induction levels with
    | nil => exact h
    | cons operators tighter ih =>
      obtain ⟨hhere, hmore⟩ := List.forall_mem_cons.1 hlevels
      refine (ih hmore).bind fun node d hd hnode => ?_
      have hno : (checkAny operators).run d = (false, d) :=
        checkAny_no (hd ▸ hrest.imp fun hk => hhere _ hk)
      refine .of_eq (loop_none ?_) (.pure hnode hd)
      rw [binaryStep?, bind_of_run hno, if_neg Bool.false_ne_true]
      rfl
  have hternary : Lands c (· = rest) (Like tree) (Grammar.ternary rule) := by
    refine (hbinary binaryLevels (by decide)).bind fun node d hd hnode => ?_
    have hno : (skip Symbol.question).run d = (false, d) :=
      skip_no (hd ▸ hrest.imp fun hk => (by decide : ∀ k ∈ closers, k ≠ Symbol.question) _ hk)
    refine .glance hno ?_
    rw [if_neg Bool.false_ne_true]
    exact .pure hnode hd
  refine .of_eq (lambdaOr_past hlambda) (hternary.bind fun node d hd hnode => ?_)
  have hno : (checkAny assignOperators).run d = (false, d) :=
    checkAny_no (hd ▸ hrest.imp fun hk => (by decide : ∀ k ∈ closers, k ∉ assignOperators) _ hk)
  refine .glance hno ?_
  rw [if_neg Bool.false_ne_true]
  exact .pure hnode hd

/-- A member access makes no cast. -/
theorem memberAccess_avoids {n : Node} : Avoids .castExpr (memberAccess rule n) c := by
  refine .bind fun _ _ => .ite (fun _ => ?_) fun _ => .ite (fun _ => ?_) fun _ =>
    .ite (fun _ => ?_) fun _ => .ite (fun _ => ?_) fun _ => .ite (fun _ => ?_) fun _ =>
      .ite (fun _ => ?_) fun _ => .problem (by decide)
  · exact .bind fun _ _ => .bind fun _ _ => .bind fun _ _ => .bind fun _ _ => .bind fun _ _ =>
      .bind fun _ _ => .finish (by decide)
  · refine .bind fun _ _ => .bind fun _ _ => .bind_of (.finish (by decide)) fun n d hn => ?_
    exact .bind fun _ _ => .ite (fun _ => .bind fun _ _ => .finish (by decide)) fun _ => .pure hn
  · exact .bind fun _ _ => .finish (by decide)
  · exact .bind fun _ _ => .finish (by decide)
  · exact .bind fun _ _ => .finish (by decide)
  · exact .bind fun _ _ => .finish (by decide)

/-- Brackets behind an expression make no cast. -/
theorem bracketSuffix_avoids {n : Node} : Avoids .castExpr (bracketSuffix rule n) c := by
  have harray (d : Cursor) : Avoids .castExpr (arrayAccess rule n) d :=
    .bind fun _ _ => .bind fun _ _ => .bind fun _ _ => .finish (by decide)
  have hliteral (d : Cursor) : Avoids.Rounds .castExpr (arrayClassLiteral? n) d := by
    refine .bind fun _ _ => .bind fun _ _ => .bind fun _ _ => .ite ?_ (.bind fun _ _ => .none)
    exact .some (.bind fun _ _ => .bind fun _ _ => .finish (by decide))
  have hbrackets : Avoids.Rounds .castExpr (bracketsLiteral? n) c :=
    .bind fun _ d => .ite (hliteral d) .none
  rw [Avoids, bracketSuffix, StateT.run_bind]
  rcases hread : (bracketsLiteral? n).run c with ⟨_ | m, d⟩
  · exact harray d
  · exact hbrackets m (congrArg Prod.fst hread)

/-- No suffix of an expression makes a cast. -/
theorem suffix_rounds (n : Node) (d : Cursor) : Avoids.Rounds .castExpr (suffix? rule n) d := by
  refine .bind fun kind d => ?_
  split
  · exact .bind fun _ _ => .some (.finish (by decide))
  · exact .bind fun _ _ => .some (.finish (by decide))
  · exact .bind fun _ _ => .some memberAccess_avoids
  · exact .some bracketSuffix_avoids
  · exact .some (.bind fun _ _ => .finish (by decide))
  · exact .some (.bind fun _ _ => .bind fun _ _ => .bind fun _ _ => .finish (by decide))
  · exact .none

/-- A binary operator makes no cast. -/
theorem binaryStep_rounds (operators : List TokenKind) (operand : Parser Node) (n : Node)
    (d : Cursor) : Avoids.Rounds .castExpr (binaryStep? rule operators operand n) d := by
  refine .bind fun _ _ => .ite (.bind fun _ _ => .ite ?_ ?_) .none
  · exact .bind fun _ _ => .bind fun _ _ => .some (.finish (by decide))
  · exact .bind fun _ _ => .bind fun _ _ => .some (.finish (by decide))

/-- Where no cast is found behind a parenthesis, none is read. -/
theorem expression_avoids (hlambda : startsLambda.run c = (false, c))
    (hopening : Next (· = Symbol.lparen) c.rest) (hcast : startsCast.run c = (false, c)) :
    Avoids .castExpr (expression rule) c := by
  obtain ⟨t, ts, hc, ht⟩ := rest_of_tokenAt hopening.kind (by decide)
  have hprimary : Avoids .castExpr (primary rule) c := by
    rw [Avoids, primary, kindAt_bind hc, ht]
    exact Avoids.bind fun _ _ => .bind fun _ _ => .bind fun _ _ => .bind fun _ _ =>
      .finish (by decide)
  have hunary : Avoids .castExpr (unary rule) c := by
    rw [Avoids, unary_plain hc (by rw [ht]; decide) hcast]
    exact hprimary.bind_of fun n d hn => .loop suffix_rounds hn
  have hbinary (levels : List (List TokenKind)) :
      Avoids .castExpr (Grammar.binary rule levels) c := by
    induction levels with
    | nil => exact hunary
    | cons operators tighter ih =>
      exact ih.bind_of fun n d hn => .loop (binaryStep_rounds operators _) hn
  have hternary : Avoids .castExpr (Grammar.ternary rule) c := by
    refine (hbinary binaryLevels).bind_of fun n d hn => .bind fun _ _ => .ite (fun _ => ?_) fun _ =>
      .pure hn
    exact .bind fun _ _ => .bind fun _ _ => .bind fun _ _ => .finish (by decide)
  rw [Avoids, expression, lambdaOr_past hlambda]
  refine hternary.bind_of fun n d hn => .bind fun _ _ => .ite (fun _ => ?_) fun _ => .pure hn
  exact .bind fun _ _ => .bind fun _ _ => .finish (by decide)

/-- The tree of a cast of a name to one type. -/
def castTree (type : Node) (operand : Token) : Node :=
  bare .castExpr [bare .type [type], Node.word operand]

/-- Where a cast is found, it is read. -/
theorem cast_lands {tree : Node} {type : List Token} {opening : Token.Among [Symbol.lparen]}
    {closing : Token.Among [Symbol.rparen]} {operand : Token.Among nameKinds}
    (h : ReadsType type tree) (hfuel : type.length ≤ fuel) (hpositive : 0 < fuel)
    (hrest : Next (· ∈ closers) rest) (hlambda : startsLambda.run c = (false, c))
    (hcast : startsCast.run c = (true, c))
    (hc : c.rest = opening.1 :: (type ++ closing.1 :: operand.1 :: rest)) :
    Lands c (· = rest) (Like (castTree tree operand.1)) (expression (parse fuel)) := by
  have hprefix : (checkAny prefixOperators).run c = (false, c) :=
    checkAny_no (by rw [hc]; change opening.1.kind ∉ _; rw [opening.kind_eq]; decide)
  refine expression_of_unary hlambda hrest (.here fun start => .glance hprefix ?_)
  rw [if_neg Bool.false_ne_true]
  refine .glance hcast ?_
  rw [if_pos rfl]
  exact castExpr_lands h hfuel hpositive opening.kind_eq closing.kind_eq hrest hc

/-- The lookahead decides whether a cast is read. -/
theorem cast_iff {declared : Node} {opening : Token.Among [Symbol.lparen]}
    {closing : Token.Among [Symbol.rparen]} {operand : Token.Among nameKinds}
    (h : ReadsType (target.bracketed brackets) declared)
    (hfuel : (target.bracketed brackets).length ≤ fuel)
    (hflat : Unparenthesized (target.bracketed brackets)) (hrest : Next (· ∈ closers) rest) :
    ReadsLike (expression (parse fuel))
      (opening.1 :: (target.bracketed brackets ++ [closing.1, operand.1]))
      (castTree declared operand.1) rest ↔ target.inners = [] := by
  have hwhole {c : Cursor} (hc : c.rest =
      opening.1 :: (target.bracketed brackets ++ [closing.1, operand.1]) ++ rest) :
      c.rest = opening.1 :: (target.bracketed brackets ++ closing.1 :: operand.1 :: rest) := by
    rw [hc, List.cons_append, List.append_assoc]
    rfl
  have hlambda {c : Cursor} (hc : c.rest =
      opening.1 :: (target.bracketed brackets ++ [closing.1, operand.1]) ++ rest) :
      startsLambda.run c = (false, c) :=
    startsLambda_paren (hwhole hc) opening.kind_eq (hflat.no_arrow closing.kind_eq
      ((by decide : ∀ k ∈ nameKinds, k ≠ Symbol.arrow) _ operand.2))
  have hcast {c : Cursor} (hc : c.rest =
      opening.1 :: (target.bracketed brackets ++ [closing.1, operand.1]) ++ rest) :
      startsCast.run c = (target.inners.isEmpty, c) := by
    have hoperand : castOperandStarts.contains operand.1.kind = true :=
      (by decide : ∀ k ∈ nameKinds, castOperandStarts.contains k = true) _ operand.2
    rw [startsCast_class opening.kind_eq closing.kind_eq (hwhole hc), hoperand, Bool.and_true]
  constructor
  · intro hreads
    by_contra hinners
    let c : Cursor := { consumed := [], rest :=
      opening.1 :: (target.bracketed brackets ++ [closing.1, operand.1]) ++ rest }
    have hplain : Avoids .castExpr (expression (parse fuel)) c := by
      refine expression_avoids (hlambda rfl) opening.kind_eq ?_
      rw [hcast rfl, List.isEmpty_eq_false_iff.2 hinners]
    have hkind := congrArg Node.kind (hreads (c := c) rfl).result
    rw [erase_kind] at hkind
    exact hplain hkind
  · intro hinners c hc
    have hpositive : 0 < fuel := Nat.lt_of_lt_of_le (Nat.succ_pos _) hfuel
    have hfound : startsCast.run c = (true, c) := by
      rw [hcast hc, hinners]
      rfl
    exact cast_lands h hfuel hpositive hrest (hlambda hc) hfound (hwhole hc)

end Casts

section Agreement

variable {tokens : List Token} {tree : Node}

/-- Tokens without annotations that begin with a name and are accepted as a type, and the tree
that is built of them. -/
structure AcceptedType (tokens : List Token) (tree : Node) : Prop where
  unannotated : Unannotated tokens
  named : Next (· = .identifier) tokens
  accepted : ∃ (fuel : Nat) (eof : Token) (node : Node) (final : Cursor), eof.kind = .eof ∧
    (Grammar.type (parse fuel)).run { consumed := [], rest := tokens ++ [eof] } = (node, final) ∧
      node.erase = tree ∧ final.rest = [eof] ∧ final.raised = 0

namespace AcceptedType

/-- An accepted type is a phrase and the tokens that close its lists. -/
theorem derived (h : AcceptedType tokens tree) :
    ∃ k us vs, TypePhrase .type k us [tree] ∧ Closes k vs ∧ tokens = us ++ vs := by
  obtain ⟨fuel, eof, node, final, heof, hrun, htree, hrest, hraised⟩ := h.accepted
  have hunannotated : Unannotated (tokens ++ [eof]) := by
    refine List.forall_mem_append.2 ⟨h.unannotated, List.forall_mem_singleton.2 ?_⟩
    rw [heof]
    decide
  obtain ⟨-, -, hderived⟩ := type_accepts (parse_type_accepts fuel)
    { consumed := [], rest := tokens ++ [eof] } hunannotated
  rw [hrun] at hderived
  obtain ⟨k, us, ws, hphrase, htokens, hopened⟩ := hderived hraised
  rw [hrest] at hopened
  have hstop : Next (· ∉ remainders) [eof] := by
    change eof.kind ∉ _
    rw [heof]
    decide
  obtain ⟨vs, hclosing, rfl⟩ := hopened.closes hstop
  rw [List.map_singleton, htree] at hphrase
  refine ⟨k, us, vs, hphrase, hclosing, ?_⟩
  rw [← List.append_assoc] at htokens
  exact List.append_cancel_right htokens

/-- What is accepted is read in any place, and is a class type for a search. -/
theorem recognized (h : AcceptedType tokens tree) :
    ReadsType tokens tree ∧ Unparenthesized tokens ∧
      ∃ (target : ClassTokens) (brackets : List BracketPair),
        tokens = target.bracketed brackets ∧ (target.inners = [] ↔ tree.Outermost) := by
  obtain ⟨k, us, vs, hphrase, hclosing, rfl⟩ := h.derived
  refine ⟨fun fuel rest c hfuel hrest hc => ?_,
    hphrase.unparenthesized.append (.ofClosing hclosing), hphrase.shape hclosing h.named⟩
  rw [List.length_append] at hfuel
  exact hphrase.lands hclosing (by omega) hrest (by rw [hc, List.append_assoc])

end AcceptedType

/-- A local declaration is read with every type that is accepted. An enhanced `for` and a cast are
read, as soon as their other parts are, if and only if no name stands behind type arguments. -/
theorem lookaheads_agree_iff (h : AcceptedType tokens tree) {fuel : Nat}
    (hfuel : tokens.length ≤ fuel) (rest : List Token) :
    (∀ (label : Token.Among nameKinds) (semicolon : Token.Among [Symbol.semicolon]),
      ReadsLike (Grammar.statement (parse fuel)) (tokens ++ [label.1, semicolon.1])
        (declarationTree tree label.1) rest) ∧
    (∀ (frame : EachFrame) (collection body : Node),
      ReadsLike (expression (parse fuel)) frame.collection collection
        (frame.closing.1 :: (frame.body ++ rest)) →
      ReadsLike (parse fuel .statement) frame.body body rest →
      (ReadsLike (Grammar.statement (parse fuel)) (frame.tokens tokens)
        (frame.tree tree collection body) rest ↔ tree.Outermost)) ∧
    ∀ (opening : Token.Among [Symbol.lparen]) (closing : Token.Among [Symbol.rparen])
      (operand : Token.Among nameKinds), Next (· ∈ closers) rest →
      (ReadsLike (expression (parse fuel)) (opening.1 :: (tokens ++ [closing.1, operand.1]))
        (castTree tree operand.1) rest ↔ tree.Outermost) := by
  obtain ⟨hreads, hflat, target, brackets, rfl, hinners⟩ := h.recognized
  refine ⟨fun label semicolon => hreads.declaration hfuel, ?_, ?_⟩
  · intro frame collection body hcollection hbody
    exact (frame.reads_iff hreads hfuel hcollection hbody).trans hinners
  · intro opening closing operand hrest
    exact (cast_iff hreads hfuel hflat hrest).trans hinners

/-- A token at no place in particular. -/
def placeless (kind : TokenKind) (literal : Text) : Token := ⟨kind, {}, literal⟩

/-- The tokens of `A<B>.C`. -/
def innerTypeTokens : List Token :=
  [placeless .identifier "A", placeless Symbol.lt "<", placeless .identifier "B",
    placeless Symbol.gt ">", placeless Symbol.dot ".", placeless .identifier "C"]

/-- The tree of `A<B>.C`. -/
def innerTypeTree : Node :=
  bare .type [bare .qualifiedName [Node.word (placeless .identifier "A")],
    bare .typeArguments [bare .type [bare .qualifiedName [Node.word (placeless .identifier "B")]]],
    bare .qualifiedName [Node.word (placeless .identifier "C")]]

/-- A generic class with an inner one is a type that the grammar accepts. -/
theorem innerType_accepted : AcceptedType innerTypeTokens innerTypeTree where
  unannotated := by
    unfold Unannotated
    decide
  named := rfl
  accepted := ⟨1, placeless .eof [], _, _, rfl, rfl, rfl, rfl, rfl⟩

/-- The tokens of `A<B>`. -/
def outermostTypeTokens : List Token := innerTypeTokens.take 4

/-- The tree of `A<B>`. -/
def outermostTypeTree : Node := bare .type (innerTypeTree.children.take 2)

theorem outermostType_accepted : AcceptedType outermostTypeTokens outermostTypeTree where
  unannotated := by
    unfold Unannotated
    decide
  named := rfl
  accepted := ⟨1, placeless .eof [], _, _, rfl, rfl, rfl, rfl, rfl⟩

/-- The name `x`. -/
def variableName : Token.Among nameKinds := ⟨placeless .identifier "x", by decide⟩

/-- A semicolon. -/
def endMark : Token.Among [Symbol.semicolon] := ⟨placeless Symbol.semicolon ";", by decide⟩

/-- The loop around an empty statement in which `x` goes through `x`. -/
def emptyLoop : EachFrame where
  word := ⟨placeless Keyword.forKw "for", by decide⟩
  opening := ⟨placeless Symbol.lparen "(", by decide⟩
  label := variableName
  colon := ⟨placeless Symbol.colon ":", by decide⟩
  collection := [variableName.1]
  closing := ⟨placeless Symbol.rparen ")", by decide⟩
  body := [endMark.1]

/-- The expression that the loop goes through is read by itself. -/
theorem emptyLoop_collection : ReadsLike (expression (parse 6)) emptyLoop.collection
    (Node.word variableName.1) (emptyLoop.closing.1 :: (emptyLoop.body ++ [endMark.1])) := by
  intro c hc
  have hend : Next (· ∈ closers) (emptyLoop.closing.1 :: (emptyLoop.body ++ [endMark.1])) := by
    change emptyLoop.closing.1.kind ∈ closers
    decide
  exact expression_of_unary (startsLambda_name hc (by decide) (by decide)) hend
    (unary_name hc hend)

/-- The body of the loop is read by itself. -/
theorem emptyLoop_body :
    ReadsLike (parse 6 .statement) emptyLoop.body (bare .emptyStmt []) [endMark.1] := by
  intro c hc
  have hends : Ahead (Follows false) [endMark.1] :=
    ⟨by unfold Follows; decide, Calm.nil.cons_barrier (endMark.kind_mem (by decide))⟩
  exact (Statement.Readable.empty endMark).reads (by decide) hends hc

/-- With `A<B>` the loop and the cast are read; with `A<B>.C` only the declaration is. -/
theorem lookaheads_agree_iff_inner :
    (ReadsLike (Grammar.statement (parse 6)) (emptyLoop.tokens outermostTypeTokens)
      (emptyLoop.tree outermostTypeTree (Node.word variableName.1) (bare .emptyStmt []))
      [endMark.1] ∧
    ReadsLike (expression (parse 6))
      (emptyLoop.opening.1 :: (outermostTypeTokens ++ [emptyLoop.closing.1, variableName.1]))
      (castTree outermostTypeTree variableName.1) [endMark.1]) ∧
    ReadsLike (Grammar.statement (parse 6)) (innerTypeTokens ++ [variableName.1, endMark.1])
      (declarationTree innerTypeTree variableName.1) [endMark.1] ∧
    ¬ ReadsLike (Grammar.statement (parse 6)) (emptyLoop.tokens innerTypeTokens)
      (emptyLoop.tree innerTypeTree (Node.word variableName.1) (bare .emptyStmt []))
      [endMark.1] ∧
    ¬ ReadsLike (expression (parse 6))
      (emptyLoop.opening.1 :: (innerTypeTokens ++ [emptyLoop.closing.1, variableName.1]))
      (castTree innerTypeTree variableName.1) [endMark.1] := by
  have houtermost : outermostTypeTree.Outermost := (outermost_iff (n := 0)).2 (by decide)
  have hinner : ¬ innerTypeTree.Outermost := fun h =>
    absurd ((outermost_iff (n := 0)).1 h) (by decide)
  have hends : Next (· ∈ closers) [endMark.1] := by
    change endMark.1.kind ∈ closers
    decide
  obtain ⟨-, hloop, hcast⟩ :=
    lookaheads_agree_iff outermostType_accepted (by decide : _ ≤ 6) [endMark.1]
  obtain ⟨hdeclaration', hloop', hcast'⟩ :=
    lookaheads_agree_iff innerType_accepted (Nat.le_refl 6) [endMark.1]
  refine ⟨⟨?_, ?_⟩, hdeclaration' variableName endMark, ?_, ?_⟩
  · exact (hloop emptyLoop _ _ emptyLoop_collection emptyLoop_body).2 houtermost
  · exact (hcast emptyLoop.opening emptyLoop.closing variableName hends).2 houtermost
  · exact mt (hloop' emptyLoop _ _ emptyLoop_collection emptyLoop_body).1 hinner
  · exact mt (hcast' emptyLoop.opening emptyLoop.closing variableName hends).1 hinner

end Agreement

end JavaObjC
