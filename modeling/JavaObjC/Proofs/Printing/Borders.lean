import JavaObjC.Proofs.Printing.Statements

/-!
# What stands around a statement

The first token of a statement, what may follow one, and that all that is
written keeps the tokens after an expression calm: a search for a closing angle
bracket stops at semicolons and braces, and it crosses the types of the
declarations behind a parenthesis.
-/

namespace JavaObjC

open Cursor Grammar JavaObjC.Parser Node

/-- Tokens that keep what they stand in front of calm. -/
structure Calming (ts : List Token) : Prop where
  calm : ∀ {rest : List Token}, Calm rest → Calm (ts ++ rest)

/-- Kinds that keep calm what they stand in front of. -/
def Soothing (kinds : List TokenKind) : Prop :=
  ∀ k ∈ kinds, passable k = true ∨ k ∈ barriers

instance (kinds : List TokenKind) : Decidable (Soothing kinds) :=
  inferInstanceAs (Decidable (∀ k ∈ kinds, passable k = true ∨ k ∈ barriers))

namespace Calming

variable {ts us : List Token}

theorem nil : Calming [] := ⟨fun h => h⟩

/-- Calming tokens in a row are calming. -/
theorem append (h : Calming ts) (h' : Calming us) : Calming (ts ++ us) := by
  refine ⟨fun {rest} hrest => ?_⟩
  rw [List.append_assoc]
  exact h.calm (h'.calm hrest)

/-- A soothing token may stand in front of calming ones. -/
theorem cons {kinds : List TokenKind} (t : Token.Among kinds) (hkinds : Soothing kinds)
    (h : Calming ts) : Calming (t.1 :: ts) := by
  refine ⟨fun {rest} hrest => ?_⟩
  rcases hkinds _ t.2 with hpassable | hbarrier
  · exact (h.calm hrest).cons hpassable
  · exact (h.calm hrest).cons_barrier hbarrier

/-- A soothing token is calming by itself. -/
theorem one {kinds : List TokenKind} (t : Token.Among kinds) (hkinds : Soothing kinds) :
    Calming [t.1] := cons t hkinds nil

/-- Calming items are calming in a row. -/
theorem flatMap {α : Type} {f : α → List Token} {items : List α} (h : ∀ a, Calming (f a)) :
    Calming (items.flatMap f) := by
  induction items with
  | nil => exact nil
  | cons a items ih => exact (h a).append ih

end Calming

/-- A regular expression keeps calm what follows it; only casts and lambdas are not regular. -/
theorem Expression.calming {l : Level} (e : Expression l) (hl : l.Regular) : Calming e.tokens :=
  ⟨fun h => e.calm hl h⟩

theorem WrittenType.calming (t : WrittenType) : Calming t.tokens := ⟨fun h => t.crosses.calm h⟩

mutual

/-- An initial value is an expression or a list of initial values in braces. -/
theorem Initializer.calming : ∀ i : Initializer, Calming i.tokens
  | .value e => e.calming trivial
  | .array opening items closing =>
    .cons opening (by decide) (items.calming.append (.one closing (by decide)))

/-- Initial values with commas between them. -/
theorem Initializers.calming : ∀ items : Initializers, Calming items.tokens
  | .none => .nil
  | .last i => i.calming
  | .more i comma items => i.calming.append (.cons comma (by decide) items.calming)

end

/-- A declarator is a name with brackets and perhaps an initial value. -/
theorem Declarator.calming (d : Declarator) : Calming d.tokens :=
  .cons d.label (by decide) (.flatMap fun v => .cons v.1 (by decide) v.2.calming)

/-- The type of a local is a written type or the word `var`. -/
theorem LocalType.calming : ∀ t : LocalType, Calming t.tokens
  | .inferred word => .one word (by decide)
  | .given type => type.calming

/-- A declaration is a type and declarators with commas between them. -/
theorem Declaration.calming (d : Declaration) : Calming d.tokens :=
  d.type.calming.append (d.first.calming.append
    (.flatMap fun next => .cons next.1 (by decide) next.2.calming))

/-- Further expressions with commas between them. -/
theorem MoreExpressions.calming (more : MoreExpressions) : Calming more.tokens :=
  .flatMap fun next => .cons next.1 (by decide) (next.2.calming trivial)

/-- A condition stands in parentheses. -/
theorem Condition.calming (test : Condition) : Calming test.tokens :=
  .cons test.opening (by decide) ((test.value.calming trivial).append
    (.one test.closing (by decide)))

/-- A loop begins with a declaration, expressions or nothing. -/
theorem ForInit.calming : ∀ inits : ForInit, Calming inits.tokens
  | .none => .nil
  | .declaration d => d.calming
  | .actions first more => (first.expression.calming trivial).append more.calming

/-- A loop steps by expressions or not at all. -/
theorem ForUpdate.calming : ∀ updates : ForUpdate, Calming updates.tokens
  | .none => .nil
  | .expressions first more => (first.calming trivial).append more.calming

/-- The three clauses of a loop head have semicolons between them. -/
theorem ForHead.calming (head : ForHead) : Calming head.tokens :=
  .cons head.opening (by decide) (head.inits.calming.append (.cons head.semicolon (by decide)
    ((Calming.flatMap fun e => e.calming trivial).append (.cons head.semicolon' (by decide)
      (head.updates.calming.append (.one head.closing (by decide)))))))

/-- The head of an enhanced loop is a declaration without value and a collection. -/
theorem EachHead.calming (head : EachHead) : Calming head.tokens :=
  .cons head.opening (by decide) (head.type.calming.append (.cons head.label (by decide)
    (.cons head.colon (by decide) ((head.collection.calming trivial).append
      (.one head.closing (by decide))))))

/-- A label is a case of an expression or the default. -/
theorem SwitchLabel.calming : ∀ label : SwitchLabel, Calming label.tokens
  | .value word e colon =>
    .cons word (by decide) ((e.calming trivial).append (.one colon (by decide)))
  | .other word colon => .cons word (by decide) (.one colon (by decide))

/-- Labels with their colons. -/
theorem SwitchLabels.calming (labels : SwitchLabels) : Calming labels.tokens :=
  labels.first.calming.append (.flatMap fun label => label.calming)

/-- The head of a catch clause has types with bars between them and a name. -/
theorem CatchHead.calming (head : CatchHead) : Calming head.tokens :=
  .cons head.word (by decide) (.cons head.opening (by decide)
    (head.first.calming.append (.append
      (.flatMap fun next => .cons next.1 (by decide) next.2.calming)
      (.cons head.label (by decide) (.one head.closing (by decide))))))

mutual

/-- A statement in front of calm tokens makes calm tokens. -/
theorem Statement.calming : ∀ {isOpen : Bool} (s : Statement isOpen), Calming s.tokens
  | _, .block body => body.calming
  | _, .empty semicolon => .one semicolon (by decide)
  | _, .action a semicolon => (a.expression.calming trivial).append (.one semicolon (by decide))
  | _, .declaration d semicolon => d.calming.append (.one semicolon (by decide))
  | _, .ifThen word test yes => .cons word (by decide) (test.calming.append yes.calming)
  | _, .ifElse word test yes otherwise no =>
    .cons word (by decide) (test.calming.append
      (yes.calming.append (.cons otherwise (by decide) no.calming)))
  | _, .forLoop word head body => .cons word (by decide) (head.calming.append body.calming)
  | _, .forEach word head body => .cons word (by decide) (head.calming.append body.calming)
  | _, .whileLoop word test body => .cons word (by decide) (test.calming.append body.calming)
  | _, .doLoop word body again test semicolon =>
    .cons word (by decide) (body.calming.append
      (.cons again (by decide) (test.calming.append (.one semicolon (by decide)))))
  | _, .switchOn word selector opening groups closing =>
    .cons word (by decide) (selector.calming.append
      (.cons opening (by decide) (groups.calming.append (.one closing (by decide)))))
  | _, .returnWith word value semicolon =>
    .cons word (by decide) ((Calming.flatMap fun e => e.calming trivial).append
      (.one semicolon (by decide)))
  | _, .breakOut word none semicolon => .cons word (by decide) (.one semicolon (by decide))
  | _, .breakOut word (some label) semicolon =>
    .cons word (by decide) (.cons label (by decide) (.one semicolon (by decide)))
  | _, .continueWith word none semicolon => .cons word (by decide) (.one semicolon (by decide))
  | _, .continueWith word (some label) semicolon =>
    .cons word (by decide) (.cons label (by decide) (.one semicolon (by decide)))
  | _, .throwUp word value semicolon =>
    .cons word (by decide) ((value.calming trivial).append (.one semicolon (by decide)))
  | _, .tryCatch word body handlers finale =>
    .cons word (by decide) (body.calming.append (handlers.calming.append finale.calming))
  | _, .tryFinally word body finally' last =>
    .cons word (by decide) (body.calming.append (.cons finally' (by decide) last.calming))
  | _, .synchronized word lock body => .cons word (by decide) (lock.calming.append body.calming)
  | _, .assertion word test message semicolon =>
    .cons word (by decide) ((test.calming trivial).append (.append
      (.flatMap fun m => .cons m.1 (by decide) (m.2.calming trivial))
      (.one semicolon (by decide))))
  | _, .labeled label colon body => .cons label (by decide) (.cons colon (by decide) body.calming)

/-- A block has its braces. -/
theorem Block.calming : ∀ body : Block, Calming body.tokens
  | .braces opening items closing =>
    .cons opening (by decide) (items.calming.append (.one closing (by decide)))

/-- Statements in a row. -/
theorem Statements.calming : ∀ items : Statements, Calming items.tokens
  | .none => .nil
  | .more s items => s.calming.append items.calming

/-- The groups of a switch in a row. -/
theorem SwitchGroups.calming : ∀ groups : SwitchGroups, Calming groups.tokens
  | .none => .nil
  | .last labels items => labels.calming.append items.calming
  | .more labels s items groups =>
    labels.calming.append (s.calming.append (items.calming.append groups.calming))

/-- The catch clauses of a try statement in a row. -/
theorem Handlers.calming : ∀ handlers : Handlers, Calming handlers.tokens
  | .last head body => head.calming.append body.calming
  | .more head body handlers => head.calming.append (body.calming.append handlers.calming)

/-- The last block of a try statement, if there is one. -/
theorem Finale.calming : ∀ finale : Finale, Calming finale.tokens
  | .none => .nil
  | .clause word body => .cons word (by decide) body.calming

end

/-- Tokens that begin a statement. -/
def statementStarts : List TokenKind :=
  operandStarts ++ primitiveWords ++ [.symbol .lbrace, .symbol .semicolon] ++
    [.keyword .ifKw, .keyword .forKw, .keyword .whileKw, .keyword .doKw, .keyword .switchKw,
     .keyword .returnKw, .keyword .breakKw, .keyword .continueKw, .keyword .throwKw,
     .keyword .tryKw, .keyword .synchronizedKw, .keyword .assertKw]

/-- Tokens that can stand after a statement in a block or in a group. -/
def followers : List TokenKind :=
  statementStarts ++ [.symbol .rbrace, .keyword .caseKw, .keyword .defaultKw, .keyword .whileKw]

/-- Tokens that may stand after a statement: no further clause of a `try`, and no `else` that
would be taken for its own. -/
def Follows (isOpen : Bool) (kind : TokenKind) : Prop :=
  kind ∉ [TokenKind.keyword .catchKw, .keyword .finallyKw] ∧
    (isOpen = true → kind ≠ Keyword.elseKw)

/-- The tokens that may follow any statement may follow an open one. -/
theorem follows_of_mem {isOpen : Bool} {kind : TokenKind} (h : kind ∈ followers) :
    Follows isOpen kind := by
  obtain ⟨hclause, helse⟩ := (by decide : ∀ k ∈ followers,
    k ∉ [TokenKind.keyword .catchKw, .keyword .finallyKw] ∧ k ≠ Keyword.elseKw) kind h
  exact ⟨hclause, fun _ => helse⟩

/-- The type of a local begins with a word. -/
theorem LocalType.front (t : LocalType) :
    ∃ u us, t.tokens = u :: us ∧ u.kind ∈ .keyword .varKw :: typeStarts := by
  cases t with
  | inferred word => exact ⟨word.1, [], rfl, word.kind_mem (by decide)⟩
  | given type =>
    obtain ⟨u, us, htokens, hu⟩ := type.type.front
    refine ⟨u, us ++ type.closing.1, ?_, List.mem_cons_of_mem _ hu⟩
    rw [tokens, WrittenType.tokens, htokens, List.cons_append]

/-- A declaration begins with the type of its locals. -/
theorem Declaration.front (d : Declaration) :
    ∃ u us, d.tokens = u :: us ∧ u.kind ∈ .keyword .varKw :: typeStarts := by
  obtain ⟨u, us, htokens, hu⟩ := d.type.front
  have hwhole : d.tokens = u :: (us ++ (d.first.tokens ++
      d.more.flatMap fun next => next.1.1 :: next.2.tokens)) := by
    rw [tokens, htokens, List.cons_append]
  exact ⟨u, _, hwhole, hu⟩

/-- A block begins with its brace. -/
theorem Block.front (body : Block) : ∃ u us, body.tokens = u :: us ∧ u.kind = Symbol.lbrace := by
  cases body with
  | braces opening items closing => exact ⟨opening.1, _, rfl, opening.kind_eq⟩

/-- A statement begins with a word or mark that no closing brace or label begins with. -/
theorem Statement.front {isOpen : Bool} (s : Statement isOpen) :
    ∃ u us, s.tokens = u :: us ∧ u.kind ∈ statementStarts := by
  cases s with
  | block body =>
    obtain ⟨u, us, htokens, hu⟩ := body.front
    exact ⟨u, us, htokens, by rw [hu]; decide⟩
  | empty semicolon => exact ⟨semicolon.1, [], rfl, semicolon.kind_mem (by decide)⟩
  | action a semicolon =>
    obtain ⟨u, us, htokens, hu⟩ := a.expression.front
    refine ⟨u, us ++ [semicolon.1], ?_, (by decide : operandStarts ⊆ statementStarts) hu⟩
    rw [tokens, htokens, List.cons_append]
  | declaration d semicolon =>
    obtain ⟨u, us, htokens, hu⟩ := d.front
    refine ⟨u, us ++ [semicolon.1], ?_,
      (by decide : .keyword .varKw :: typeStarts ⊆ statementStarts) hu⟩
    rw [tokens, htokens, List.cons_append]
  | ifThen word test yes => exact ⟨word.1, _, rfl, word.kind_mem (by decide)⟩
  | ifElse word test yes otherwise no => exact ⟨word.1, _, rfl, word.kind_mem (by decide)⟩
  | forLoop word head body => exact ⟨word.1, _, rfl, word.kind_mem (by decide)⟩
  | forEach word head body => exact ⟨word.1, _, rfl, word.kind_mem (by decide)⟩
  | whileLoop word test body => exact ⟨word.1, _, rfl, word.kind_mem (by decide)⟩
  | doLoop word body again test semicolon => exact ⟨word.1, _, rfl, word.kind_mem (by decide)⟩
  | switchOn word selector opening groups closing =>
    exact ⟨word.1, _, rfl, word.kind_mem (by decide)⟩
  | returnWith word value semicolon => exact ⟨word.1, _, rfl, word.kind_mem (by decide)⟩
  | breakOut word label semicolon => exact ⟨word.1, _, rfl, word.kind_mem (by decide)⟩
  | continueWith word label semicolon => exact ⟨word.1, _, rfl, word.kind_mem (by decide)⟩
  | throwUp word value semicolon => exact ⟨word.1, _, rfl, word.kind_mem (by decide)⟩
  | tryCatch word body handlers finale => exact ⟨word.1, _, rfl, word.kind_mem (by decide)⟩
  | tryFinally word body finally' last => exact ⟨word.1, _, rfl, word.kind_mem (by decide)⟩
  | synchronized word lock body => exact ⟨word.1, _, rfl, word.kind_mem (by decide)⟩
  | assertion word test message semicolon => exact ⟨word.1, _, rfl, word.kind_mem (by decide)⟩
  | labeled label colon body => exact ⟨label.1, _, rfl, label.kind_mem (by decide)⟩

/-- At a statement one of the tokens that begin statements is next. -/
theorem Statement.next {isOpen : Bool} (s : Statement isOpen) (ts : List Token) :
    Next (· ∈ statementStarts) (s.tokens ++ ts) := by
  obtain ⟨u, us, htokens, hu⟩ := s.front
  rw [htokens]
  exact hu

end JavaObjC
