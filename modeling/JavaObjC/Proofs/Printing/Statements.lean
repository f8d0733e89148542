import JavaObjC.Proofs.Printing.Types

/-!
# Statements as they are written

A statement together with all the tokens it is written with. An expression
that stands for a statement does something: it assigns, counts or calls. The
index of the family says whether a statement can end in an `if` without an
`else`, so that no `else` can follow a branch it would not belong to. Every
group of a `switch` has a label, and every group but the last one a statement;
a `try` has a clause. Each statement has the sequence of its tokens and the
syntax tree that reading them is to give, without places.
-/

namespace JavaObjC

open Grammar Node

/-- Tokens that are names. -/
def nameKinds : List TokenKind := [.identifier, .keyword .varKw]

mutual

/-- The value of a declared variable: an expression or values in braces. -/
inductive Initializer : Type where
  | value (e : Expression .assignment) : Initializer
  | array (opening : Token.Among [Symbol.lbrace]) (items : Initializers)
      (closing : Token.Among [Symbol.rbrace]) : Initializer

/-- Values in braces; the last one may have a comma after it. -/
inductive Initializers : Type where
  | none : Initializers
  | last (i : Initializer) : Initializers
  | more (i : Initializer) (comma : Token.Among [Symbol.comma]) (items : Initializers) :
      Initializers

end

mutual

/-- The tokens of an initial value in order. -/
def Initializer.tokens : Initializer → List Token
  | .value e => e.tokens
  | .array opening items closing => opening.1 :: (items.tokens ++ [closing.1])

/-- The tokens of values in order. -/
def Initializers.tokens : Initializers → List Token
  | .none => []
  | .last i => i.tokens
  | .more i comma items => i.tokens ++ comma.1 :: items.tokens

end

mutual

/-- The syntax tree of an initial value. -/
def Initializer.tree : Initializer → Node
  | .value e => e.tree
  | .array opening items closing =>
    .over .arrayInit (opening.1 :: (items.tokens ++ [closing.1])) items.trees

/-- The syntax trees of values. -/
def Initializers.trees : Initializers → List Node
  | .none => []
  | .last i => [i.tree]
  | .more i _ items => i.tree :: items.trees

end

/-- A declared name with its initial value. -/
structure Declarator where
  label : Token.Among nameKinds
  value : Option (Token.Among [Symbol.assign] × Initializer)

namespace Declarator

/-- The tokens of a declared name in order. -/
def tokens (d : Declarator) : List Token :=
  d.label.1 :: (d.value.toList.flatMap fun v => v.1.1 :: v.2.tokens)

/-- The syntax tree of a declared name. -/
def tree (d : Declarator) : Node :=
  bare .varDeclarator (word d.label.1 :: d.value.toList.map fun v => v.2.tree.erase)

end Declarator

/-- The type of a local variable. -/
inductive LocalType where
  | inferred (word : Token.Among [Keyword.varKw])
  | given (type : WrittenType)

namespace LocalType

/-- The tokens of a type in order. -/
def tokens : LocalType → List Token
  | .inferred word => [word.1]
  | .given type => type.tokens

/-- The syntax tree of a type. -/
def tree : LocalType → Node
  | .inferred word => (Node.ofToken .type word.1).erase
  | .given type => type.tree

end LocalType

/-- A local declaration without its semicolon. -/
structure Declaration where
  type : LocalType
  first : Declarator
  more : List (Token.Among [Symbol.comma] × Declarator)

namespace Declaration

/-- The tokens of a declaration in order. -/
def tokens (d : Declaration) : List Token :=
  d.type.tokens ++ (d.first.tokens ++ d.more.flatMap fun next => next.1.1 :: next.2.tokens)

/-- The syntax tree of a declaration. -/
def tree (d : Declaration) : Node :=
  bare .localVarDecl (bare .modifiers [] :: d.type.tree :: d.first.tree ::
    d.more.map fun next => next.2.tree)

end Declaration

/-- What can be assigned to or counted: a name, a field or an array element. -/
inductive Target where
  | variable (e : Expression .callee)
  | element (array : Expression .suffixed) (opening : Token.Among [Symbol.lbracket])
      (place : Expression .assignment) (closing : Token.Among [Symbol.rbracket])

/-- A target as an expression. -/
def Target.expression : Target → Expression .suffixed
  | .variable e => .ofCallee e
  | .element array opening place closing => .index array opening place closing

/-- Operators that count up or down. -/
def countOperators : List TokenKind := [Symbol.increment, Symbol.decrement]

/-- An expression that does something. -/
inductive Action where
  | assign (target : Target) (operator : Token.Among assignOperators)
      (value : Expression .assignment)
  | call (target : Expression .callee) (opening : Token.Among [Symbol.lparen]) (items : Arguments)
      (closing : Token.Among [Symbol.rparen])
  | countAfter (target : Target) (operator : Token.Among countOperators)
  | countBefore (operator : Token.Among countOperators) (target : Target)

/-- An action as an expression. -/
def Action.expression : Action → Expression .assignment
  | .assign target operator value =>
    .assign (.ofBinary ((Expression.ofSuffixed target.expression).raise binaryLevels)) operator
      value
  | .call target opening items closing => .ofPrimary (.call target opening items closing)
  | .countAfter target operator => .ofPrimary (.counted target.expression operator)
  | .countBefore operator target =>
    .ofTernary (.ofBinary ((Expression.signed ⟨operator.1, operator.kind_mem (by decide)⟩
      (.ofSuffixed target.expression)).raise binaryLevels))

/-- Further expressions, each after a comma. -/
abbrev MoreExpressions := List (Token.Among [Symbol.comma] × Expression .assignment)

namespace MoreExpressions

/-- The tokens of further expressions in order. -/
def tokens (more : MoreExpressions) : List Token :=
  more.flatMap fun next => next.1.1 :: next.2.tokens

/-- The syntax trees of further expressions. -/
def trees (more : MoreExpressions) : List Node := more.map fun next => next.2.tree.erase

end MoreExpressions

/-- An expression in parentheses, which the tree keeps without them. -/
structure Condition where
  opening : Token.Among [Symbol.lparen]
  value : Expression .assignment
  closing : Token.Among [Symbol.rparen]

namespace Condition

/-- The tokens of a condition in order. -/
def tokens (test : Condition) : List Token :=
  test.opening.1 :: (test.value.tokens ++ [test.closing.1])

/-- The syntax tree of a condition. -/
def tree (test : Condition) : Node := test.value.tree.erase

end Condition

/-- The first clause of a plain `for`. -/
inductive ForInit where
  | none
  | declaration (d : Declaration)
  | actions (first : Action) (more : MoreExpressions)

namespace ForInit

/-- The tokens of a first clause in order. -/
def tokens : ForInit → List Token
  | .none => []
  | .declaration d => d.tokens
  | .actions first more => first.expression.tokens ++ more.tokens

/-- The syntax trees of a first clause. -/
def trees : ForInit → List Node
  | .none => []
  | .declaration d => [d.tree]
  | .actions first more => first.expression.tree.erase :: more.trees

end ForInit

/-- The last clause of a plain `for`. -/
inductive ForUpdate where
  | none
  | expressions (first : Expression .assignment) (more : MoreExpressions)

namespace ForUpdate

/-- The tokens of a last clause in order. -/
def tokens : ForUpdate → List Token
  | .none => []
  | .expressions first more => first.tokens ++ more.tokens

/-- The syntax trees of a last clause. -/
def trees : ForUpdate → List Node
  | .none => []
  | .expressions first more => first.tree.erase :: more.trees

end ForUpdate

/-- The parentheses of a plain `for`. -/
structure ForHead where
  opening : Token.Among [Symbol.lparen]
  inits : ForInit
  semicolon : Token.Among [Symbol.semicolon]
  test : Option (Expression .assignment)
  semicolon' : Token.Among [Symbol.semicolon]
  updates : ForUpdate
  closing : Token.Among [Symbol.rparen]

namespace ForHead

/-- The tokens of a head in order. -/
def tokens (head : ForHead) : List Token :=
  head.opening.1 :: (head.inits.tokens ++ head.semicolon.1 ::
    (head.test.toList.flatMap (·.tokens) ++ head.semicolon'.1 ::
      (head.updates.tokens ++ [head.closing.1])))

/-- The syntax trees of a head, those of its first two clauses and that of its last one. -/
def trees (head : ForHead) : List Node :=
  bare .forInit head.inits.trees :: head.test.toList.map (·.tree.erase) ++
    [bare .forUpdate head.updates.trees]

end ForHead

/-- The parentheses of an enhanced `for`. -/
structure EachHead where
  opening : Token.Among [Symbol.lparen]
  type : LocalType
  label : Token.Among nameKinds
  colon : Token.Among [Symbol.colon]
  collection : Expression .assignment
  closing : Token.Among [Symbol.rparen]

namespace EachHead

/-- The tokens of a head in order. -/
def tokens (head : EachHead) : List Token :=
  head.opening.1 :: (head.type.tokens ++ head.label.1 :: head.colon.1 ::
    (head.collection.tokens ++ [head.closing.1]))

/-- The syntax trees of a head. -/
def trees (head : EachHead) : List Node :=
  [bare .modifiers [], head.type.tree, word head.label.1, head.collection.tree.erase]

end EachHead

/-- A label in a `switch`; its value is no assignment. -/
inductive SwitchLabel where
  | value (word : Token.Among [Keyword.caseKw]) (e : Expression .ternary)
      (colon : Token.Among [Symbol.colon])
  | other (word : Token.Among [Keyword.defaultKw]) (colon : Token.Among [Symbol.colon])

namespace SwitchLabel

/-- The tokens of a label in order. -/
def tokens : SwitchLabel → List Token
  | .value word e colon => word.1 :: (e.tokens ++ [colon.1])
  | .other word colon => [word.1, colon.1]

/-- The syntax tree of a label. -/
def tree : SwitchLabel → Node
  | .value _ e _ => bare .switchLabel [e.tree.erase]
  | .other word _ => ⟨.switchLabel, {}, some word.1.erase, none, []⟩

end SwitchLabel

/-- The labels of a group. -/
structure SwitchLabels where
  first : SwitchLabel
  more : List SwitchLabel

namespace SwitchLabels

/-- The tokens of labels in order. -/
def tokens (labels : SwitchLabels) : List Token :=
  labels.first.tokens ++ labels.more.flatMap (·.tokens)

/-- The syntax trees of labels. -/
def trees (labels : SwitchLabels) : List Node := labels.first.tree :: labels.more.map (·.tree)

end SwitchLabels

/-- The word `catch` and its parentheses. -/
structure CatchHead where
  word : Token.Among [Keyword.catchKw]
  opening : Token.Among [Symbol.lparen]
  first : WrittenType
  more : List (Token.Among [Symbol.bitOr] × WrittenType)
  label : Token.Among nameKinds
  closing : Token.Among [Symbol.rparen]

namespace CatchHead

/-- The tokens of a head in order. -/
def tokens (head : CatchHead) : List Token :=
  head.word.1 :: head.opening.1 :: (head.first.tokens ++
    ((head.more.flatMap fun next => next.1.1 :: next.2.tokens) ++ [head.label.1, head.closing.1]))

/-- The syntax trees of a head. -/
def trees (head : CatchHead) : List Node :=
  [bare .modifiers [], bare .type (head.first.tree :: head.more.map fun next => next.2.tree),
    Node.word head.label.1]

end CatchHead

mutual

/-- A statement; the index says whether it can end in an `if` without an `else`. -/
inductive Statement : Bool → Type where
  | block (body : Block) : Statement false
  | empty (semicolon : Token.Among [Symbol.semicolon]) : Statement false
  | action (a : Action) (semicolon : Token.Among [Symbol.semicolon]) : Statement false
  | declaration (d : Declaration) (semicolon : Token.Among [Symbol.semicolon]) : Statement false
  | ifThen {isOpen : Bool} (word : Token.Among [Keyword.ifKw]) (test : Condition)
      (yes : Statement isOpen) : Statement true
  | ifElse {isOpen : Bool} (word : Token.Among [Keyword.ifKw]) (test : Condition)
      (yes : Statement false) (otherwise : Token.Among [Keyword.elseKw]) (no : Statement isOpen) :
      Statement isOpen
  | forLoop {isOpen : Bool} (word : Token.Among [Keyword.forKw]) (head : ForHead)
      (body : Statement isOpen) : Statement isOpen
  | forEach {isOpen : Bool} (word : Token.Among [Keyword.forKw]) (head : EachHead)
      (body : Statement isOpen) : Statement isOpen
  | whileLoop {isOpen : Bool} (word : Token.Among [Keyword.whileKw]) (test : Condition)
      (body : Statement isOpen) : Statement isOpen
  | doLoop {isOpen : Bool} (word : Token.Among [Keyword.doKw]) (body : Statement isOpen)
      (again : Token.Among [Keyword.whileKw]) (test : Condition)
      (semicolon : Token.Among [Symbol.semicolon]) : Statement false
  | switchOn (word : Token.Among [Keyword.switchKw]) (selector : Condition)
      (opening : Token.Among [Symbol.lbrace]) (groups : SwitchGroups)
      (closing : Token.Among [Symbol.rbrace]) : Statement false
  | returnWith (word : Token.Among [Keyword.returnKw]) (value : Option (Expression .assignment))
      (semicolon : Token.Among [Symbol.semicolon]) : Statement false
  | breakOut (word : Token.Among [Keyword.breakKw]) (label : Option (Token.Among [.identifier]))
      (semicolon : Token.Among [Symbol.semicolon]) : Statement false
  | continueWith (word : Token.Among [Keyword.continueKw])
      (label : Option (Token.Among [.identifier]))
      (semicolon : Token.Among [Symbol.semicolon]) : Statement false
  | throwUp (word : Token.Among [Keyword.throwKw]) (value : Expression .assignment)
      (semicolon : Token.Among [Symbol.semicolon]) : Statement false
  | tryCatch (word : Token.Among [Keyword.tryKw]) (body : Block) (handlers : Handlers)
      (finale : Finale) : Statement false
  | tryFinally (word : Token.Among [Keyword.tryKw]) (body : Block)
      (finally' : Token.Among [Keyword.finallyKw]) (last : Block) : Statement false
  | synchronized (word : Token.Among [Keyword.synchronizedKw]) (lock : Condition) (body : Block) :
      Statement false
  | assertion (word : Token.Among [Keyword.assertKw]) (test : Expression .assignment)
      (message : Option (Token.Among [Symbol.colon] × Expression .assignment))
      (semicolon : Token.Among [Symbol.semicolon]) : Statement false
  | labeled {isOpen : Bool} (label : Token.Among [.identifier])
      (colon : Token.Among [Symbol.colon]) (body : Statement isOpen) : Statement isOpen

/-- Statements in braces. -/
inductive Block : Type where
  | braces (opening : Token.Among [Symbol.lbrace]) (items : Statements)
      (closing : Token.Among [Symbol.rbrace]) : Block

/-- Statements one after the other. -/
inductive Statements : Type where
  | none : Statements
  | more {isOpen : Bool} (s : Statement isOpen) (items : Statements) : Statements

/-- The groups of a `switch`; only the last one can be without a statement. -/
inductive SwitchGroups : Type where
  | none : SwitchGroups
  | last (labels : SwitchLabels) (items : Statements) : SwitchGroups
  | more {isOpen : Bool} (labels : SwitchLabels) (s : Statement isOpen) (items : Statements)
      (groups : SwitchGroups) : SwitchGroups

/-- One or more `catch` clauses. -/
inductive Handlers : Type where
  | last (head : CatchHead) (body : Block) : Handlers
  | more (head : CatchHead) (body : Block) (handlers : Handlers) : Handlers

/-- An optional `finally` clause. -/
inductive Finale : Type where
  | none : Finale
  | clause (word : Token.Among [Keyword.finallyKw]) (body : Block) : Finale

end

mutual

/-- The tokens of a statement in order. -/
def Statement.tokens {isOpen : Bool} : Statement isOpen → List Token
  | .block body => body.tokens
  | .empty semicolon => [semicolon.1]
  | .action a semicolon => a.expression.tokens ++ [semicolon.1]
  | .declaration d semicolon => d.tokens ++ [semicolon.1]
  | .ifThen word test yes => word.1 :: (test.tokens ++ yes.tokens)
  | .ifElse word test yes otherwise no =>
    word.1 :: (test.tokens ++ (yes.tokens ++ otherwise.1 :: no.tokens))
  | .forLoop word head body => word.1 :: (head.tokens ++ body.tokens)
  | .forEach word head body => word.1 :: (head.tokens ++ body.tokens)
  | .whileLoop word test body => word.1 :: (test.tokens ++ body.tokens)
  | .doLoop word body again test semicolon =>
    word.1 :: (body.tokens ++ again.1 :: (test.tokens ++ [semicolon.1]))
  | .switchOn word selector opening groups closing =>
    word.1 :: (selector.tokens ++ opening.1 :: (groups.tokens ++ [closing.1]))
  | .returnWith word value semicolon => word.1 :: (value.toList.flatMap (·.tokens) ++ [semicolon.1])
  | .breakOut word label semicolon => word.1 :: (label.toList.map (·.1) ++ [semicolon.1])
  | .continueWith word label semicolon => word.1 :: (label.toList.map (·.1) ++ [semicolon.1])
  | .throwUp word value semicolon => word.1 :: (value.tokens ++ [semicolon.1])
  | .tryCatch word body handlers finale =>
    word.1 :: (body.tokens ++ (handlers.tokens ++ finale.tokens))
  | .tryFinally word body finally' last => word.1 :: (body.tokens ++ finally'.1 :: last.tokens)
  | .synchronized word lock body => word.1 :: (lock.tokens ++ body.tokens)
  | .assertion word test message semicolon =>
    word.1 :: (test.tokens ++
      ((message.toList.flatMap fun m => m.1.1 :: m.2.tokens) ++ [semicolon.1]))
  | .labeled label colon body => label.1 :: colon.1 :: body.tokens

/-- The tokens of a block in order. -/
def Block.tokens : Block → List Token
  | .braces opening items closing => opening.1 :: (items.tokens ++ [closing.1])

/-- The tokens of statements in order. -/
def Statements.tokens : Statements → List Token
  | .none => []
  | .more s items => s.tokens ++ items.tokens

/-- The tokens of groups in order. -/
def SwitchGroups.tokens : SwitchGroups → List Token
  | .none => []
  | .last labels items => labels.tokens ++ items.tokens
  | .more labels s items groups => labels.tokens ++ (s.tokens ++ (items.tokens ++ groups.tokens))

/-- The tokens of `catch` clauses in order. -/
def Handlers.tokens : Handlers → List Token
  | .last head body => head.tokens ++ body.tokens
  | .more head body handlers => head.tokens ++ (body.tokens ++ handlers.tokens)

/-- The tokens of a `finally` clause in order. -/
def Finale.tokens : Finale → List Token
  | .none => []
  | .clause word body => word.1 :: body.tokens

end

mutual

/-- The syntax tree of a statement. -/
def Statement.tree {isOpen : Bool} : Statement isOpen → Node
  | .block body => body.tree
  | .empty _ => bare .emptyStmt []
  | .action a _ => bare .exprStmt [a.expression.tree.erase]
  | .declaration d _ => d.tree
  | .ifThen _ test yes => bare .ifStmt [test.tree, yes.tree]
  | .ifElse _ test yes _ no => bare .ifStmt [test.tree, yes.tree, no.tree]
  | .forLoop _ head body => bare .forStmt (head.trees ++ [body.tree])
  | .forEach _ head body => bare .enhancedForStmt (head.trees ++ [body.tree])
  | .whileLoop _ test body => bare .whileStmt [test.tree, body.tree]
  | .doLoop _ body _ test _ => bare .doStmt [body.tree, test.tree]
  | .switchOn _ selector _ groups _ => bare .switchStmt (selector.tree :: groups.trees)
  | .returnWith _ value _ => bare .returnStmt (value.toList.map (·.tree.erase))
  | .breakOut _ label _ => bare .breakStmt (label.toList.map fun t => word t.1)
  | .continueWith _ label _ => bare .continueStmt (label.toList.map fun t => word t.1)
  | .throwUp _ value _ => bare .throwStmt [value.tree.erase]
  | .tryCatch _ body handlers finale =>
    bare .tryStmt (body.tree :: handlers.trees ++ finale.trees)
  | .tryFinally _ body _ last => bare .tryStmt [body.tree, bare .finallyClause [last.tree]]
  | .synchronized _ lock body => bare .synchronizedStmt [lock.tree, body.tree]
  | .assertion _ test message _ =>
    bare .assertStmt (test.tree.erase :: message.toList.map fun m => m.2.tree.erase)
  | .labeled label _ body => bare .labeledStmt [word label.1, body.tree]

/-- The syntax tree of a block. -/
def Block.tree : Block → Node
  | .braces _ items _ => bare .block items.trees

/-- The syntax trees of statements. -/
def Statements.trees : Statements → List Node
  | .none => []
  | .more s items => s.tree :: items.trees

/-- The syntax trees of groups. -/
def SwitchGroups.trees : SwitchGroups → List Node
  | .none => []
  | .last labels items => [bare .switchCase (labels.trees ++ items.trees)]
  | .more labels s items groups =>
    bare .switchCase (labels.trees ++ s.tree :: items.trees) :: groups.trees

/-- The syntax trees of `catch` clauses. -/
def Handlers.trees : Handlers → List Node
  | .last head body => [bare .catchClause (head.trees ++ [body.tree])]
  | .more head body handlers =>
    bare .catchClause (head.trees ++ [body.tree]) :: handlers.trees

/-- The syntax tree of a `finally` clause. -/
def Finale.trees : Finale → List Node
  | .none => []
  | .clause _ body => [bare .finallyClause [body.tree]]

end

end JavaObjC
