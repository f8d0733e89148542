import JavaObjC.Source.Grammar.Declarations

/-!
# Statements

The statements of a method body. A statement that starts like a declaration
is one exactly when the lookahead for local declarations says so.
-/

namespace JavaObjC.Grammar

open JavaObjC.Parser

/-- One declared name with its initializer, and the pairs of brackets after the name. -/
def declarator (rule : Rules) : Parser (Node × Nat) := do
  let start ← here
  let label ← name
  let depth ← bracketPairs
  let value ← optional (skip Symbol.assign) (initializer rule)
  return (← finish .varDeclarator start (label ++ value), depth)

/-- Declared names separated by commas, and all pairs of brackets after them. -/
def declarators (rule : Rules) : Parser (List Node × Nat) := do
  let (first, depth) ← declarator rule
  loop (fun (nodes, total) => do
    if ← skip Symbol.comma then
      let (node, depth) ← declarator rule
      return some (nodes ++ [node], total + depth)
    else return none) ([first], depth)

/-- The type of a local variable; `var` is a type of its own. -/
def localType (rule : Rules) : Parser Node := do
  if ← check Keyword.varKw then leaf .type else type rule

/-- A local variable declaration without its semicolon. Brackets after any of
the names apply to the type of all of them. -/
def localVarDecl (rule : Rules) : Parser Node := do
  let start ← here
  let marks ← modifiers rule
  let declared ← localType rule
  let (nodes, depth) ← declarators rule
  finish .localVarDecl start (marks :: inArrays depth declared :: nodes)

/-- An expression or a local declaration, with its semicolon. -/
def simpleStmt (rule : Rules) : Parser Node := do
  if ← startsLocalDeclaration rule then
    let declaration ← localVarDecl rule
    need Symbol.semicolon
    extend declaration
  else
    let start ← here
    let value ← expression rule
    need Symbol.semicolon
    finish .exprStmt start [value]

/-- The declaration of a class, interface or enum inside a method body, after its modifiers. -/
def localTypeDecl (rule : Rules) (marks : Node) : Parser Node := do
  match ← kindAt 0 with
  | .keyword .classKw => classDecl rule marks
  | .keyword .interfaceKw => interfaceDecl rule marks
  | .keyword .enumKw => enumDecl rule marks
  | _ => problem "expected class declaration" [Symbol.semicolon, Symbol.rbrace] []

/-- A class, interface or enum inside a method body. -/
def localClassDecl (rule : Rules) : Parser Node := do
  let start ← here
  let marks ← modifiers rule
  let declaration ← localTypeDecl rule marks
  finish .localClassDecl start [declaration]

/-- An expression in parentheses, which the tree keeps without them. -/
def condition (rule : Rules) : Parser Node := do
  need Symbol.lparen
  let value ← expression rule
  need Symbol.rparen
  return value

/-- `if` with its branches. -/
def ifStmt (rule : Rules) : Parser Node := do
  let start ← here
  need Keyword.ifKw
  let test ← condition rule
  let yes ← rule .statement
  let no ← optional (skip Keyword.elseKw) (rule .statement)
  finish .ifStmt start (test :: yes :: no)

/-- The rest of an enhanced `for`, from its variable on. -/
def enhancedFor (rule : Rules) (start : Position) : Parser Node := do
  let marks ← modifiers rule
  let declared ← localType rule
  let label ← name
  need Symbol.colon
  let collection ← expression rule
  need Symbol.rparen
  let body ← rule .statement
  finish .enhancedForStmt start (marks :: declared :: label ++ [collection, body])

/-- The first clause of a plain `for`. -/
def forInits (rule : Rules) : Parser (List Node) := do
  if ← check Symbol.semicolon then return []
  else if ← startsLocalDeclaration rule then return [← localVarDecl rule]
  else commaList (expression rule)

/-- The last clause of a plain `for`. -/
def forUpdates (rule : Rules) : Parser (List Node) := do
  if ← check Symbol.rparen then return [] else commaList (expression rule)

/-- The rest of a plain `for`, from its first clause on. -/
def plainFor (rule : Rules) (start : Position) : Parser Node := do
  let initStart ← here
  let inits ← forInits rule
  let init ← finish .forInit initStart inits
  need Symbol.semicolon
  let test ← optional (checkNot Symbol.semicolon) (expression rule)
  need Symbol.semicolon
  let updateStart ← here
  let updates ← forUpdates rule
  let update ← finish .forUpdate updateStart updates
  need Symbol.rparen
  let body ← rule .statement
  finish .forStmt start (init :: test ++ [update, body])

/-- Either form of `for`. -/
def forStmt (rule : Rules) : Parser Node := do
  let start ← here
  need Keyword.forKw
  need Symbol.lparen
  if ← startsEnhancedFor rule then enhancedFor rule start else plainFor rule start

/-- `while` with its body. -/
def whileStmt (rule : Rules) : Parser Node := do
  let start ← here
  need Keyword.whileKw
  let test ← condition rule
  let body ← rule .statement
  finish .whileStmt start [test, body]

/-- `do` with its body and condition. -/
def doStmt (rule : Rules) : Parser Node := do
  let start ← here
  need Keyword.doKw
  let body ← rule .statement
  need Keyword.whileKw
  let test ← condition rule
  need Symbol.semicolon
  finish .doStmt start [body, test]

/-- A `case` label with its value, or the `default` label as a token. -/
def switchLabel (rule : Rules) : Parser Node := do
  let start ← here
  if ← skip Keyword.caseKw then
    let value ← ternary rule
    need Symbol.colon
    finish .switchLabel start [value]
  else
    let word ← expect Keyword.defaultKw
    need Symbol.colon
    finishWith .switchLabel word start []

/-- Words that begin a label. -/
def labelStarts : List TokenKind := [Keyword.caseKw, Keyword.defaultKw]

/-- Records that a label was wanted unless one follows. -/
def needLabel : Parser Unit := do
  if ← checkAny labelStarts then return else expected labelStarts

/-- Labels and the statements after them. -/
def switchCase (rule : Rules) : Parser Node := do
  let start ← here
  needLabel
  let labels ← many (checkAny labelStarts) (switchLabel rule)
  let statements ←
    many (before [Keyword.caseKw, Keyword.defaultKw, Symbol.rbrace]) (rule .statement)
  finish .switchCase start (labels ++ statements)

/-- `switch` with its groups. -/
def switchStmt (rule : Rules) : Parser Node := do
  let start ← here
  need Keyword.switchKw
  let selector ← condition rule
  need Symbol.lbrace
  let groups ← manyBefore Symbol.rbrace (switchCase rule)
  need Symbol.rbrace
  finish .switchStmt start (selector :: groups)

/-- `return`, with a value or without. -/
def returnStmt (rule : Rules) : Parser Node := do
  let start ← here
  need Keyword.returnKw
  let value ← optional (checkNot Symbol.semicolon) (expression rule)
  need Symbol.semicolon
  finish .returnStmt start value

/-- `break` or `continue`, with a label or without. -/
def jumpStmt (kind : NodeKind) (word : Keyword) : Parser Node := do
  let start ← here
  need word
  let label ← optional (check .identifier) (leaf .identifier)
  need Symbol.semicolon
  finish kind start label

/-- `throw`. -/
def throwStmt (rule : Rules) : Parser Node := do
  let start ← here
  need Keyword.throwKw
  let value ← expression rule
  need Symbol.semicolon
  finish .throwStmt start [value]

/-- The value of a declared resource, which has to be there. -/
def resourceValue (rule : Rules) : Parser (List Node) := do
  match ← expect Symbol.assign with
  | some _ => return [← expression rule]
  | none => return []

/-- One resource of a `try`: a declaration or an expression. -/
def tryResource (rule : Rules) : Parser Node := do
  if ← startsLocalDeclaration rule then
    let start ← here
    let marks ← modifiers rule
    let declared ← localType rule
    let label ← name
    let value ← resourceValue rule
    finish .localVarDecl start (marks :: declared :: label ++ value)
  else expression rule

/-- The resources of a `try` in parentheses. -/
def tryResources (rule : Rules) : Parser (List Node) := do
  if ← skip Symbol.lparen then
    let items ← manyBefore Symbol.rparen do
      let item ← tryResource rule
      let _ ← skip Symbol.semicolon
      return item
    need Symbol.rparen
    return items
  else return []

/-- `catch` with its variable and block. -/
def catchClause (rule : Rules) : Parser Node := do
  let start ← here
  need Keyword.catchKw
  need Symbol.lparen
  let marks ← modifiers rule
  let caught ← typeGroup rule Symbol.bitOr
  let label ← name
  need Symbol.rparen
  let body ← block rule
  finish .catchClause start (marks :: caught :: label ++ [body])

/-- `finally` with its block. -/
def finallyClause (rule : Rules) : Parser Node := do
  let start ← here
  need Keyword.finallyKw
  let body ← block rule
  finish .finallyClause start [body]

/-- Records that a clause was wanted if there is neither one nor a declared resource. -/
def needClause (resources clauses : List Node) : Parser Unit := do
  if clauses.isEmpty && !resources.any (·.kind = .localVarDecl) then
    expected [Keyword.catchKw, Keyword.finallyKw]
  else return

/-- `try` with its clauses. Without a declared resource it needs at least one clause. -/
def tryStmt (rule : Rules) : Parser Node := do
  let start ← here
  need Keyword.tryKw
  let resources ← tryResources rule
  let body ← block rule
  let catches ← many (check Keyword.catchKw) (catchClause rule)
  let last ← optional (check Keyword.finallyKw) (finallyClause rule)
  needClause resources (catches ++ last)
  finish .tryStmt start (resources ++ body :: catches ++ last)

/-- `synchronized` with its lock and block. -/
def synchronizedStmt (rule : Rules) : Parser Node := do
  let start ← here
  need Keyword.synchronizedKw
  let lock ← condition rule
  let body ← block rule
  finish .synchronizedStmt start [lock, body]

/-- `assert`, with a message or without. -/
def assertStmt (rule : Rules) : Parser Node := do
  let start ← here
  need Keyword.assertKw
  let test ← expression rule
  let message ← optional (skip Symbol.colon) (expression rule)
  need Symbol.semicolon
  finish .assertStmt start (test :: message)

/-- `label: statement`. -/
def labeledStmt (rule : Rules) : Parser Node := do
  let start ← here
  let label ← leaf .identifier
  need Symbol.colon
  let body ← rule .statement
  finish .labeledStmt start [label, body]

/-- `;` alone. -/
def emptyStmt : Parser Node := do
  let start ← here
  let _ ← advance
  finish .emptyStmt start []

/-- Any statement. -/
def statement (rule : Rules) : Parser Node := do
  let next ← kindAt 1
  match ← kindAt 0 with
  | .symbol .lbrace => block rule
  | .symbol .semicolon => emptyStmt
  | .keyword .ifKw => ifStmt rule
  | .keyword .forKw => forStmt rule
  | .keyword .whileKw => whileStmt rule
  | .keyword .doKw => doStmt rule
  | .keyword .switchKw => switchStmt rule
  | .keyword .returnKw => returnStmt rule
  | .keyword .breakKw => jumpStmt .breakStmt .breakKw
  | .keyword .continueKw => jumpStmt .continueStmt .continueKw
  | .keyword .throwKw => throwStmt rule
  | .keyword .tryKw => tryStmt rule
  | .keyword .synchronizedKw =>
    if next == .symbol .lparen then synchronizedStmt rule else simpleStmt rule
  | .keyword .assertKw => assertStmt rule
  | .keyword .classKw | .keyword .interfaceKw | .keyword .enumKw | .keyword .abstractKw =>
    localClassDecl rule
  | .keyword .finalKw =>
    if next == .keyword .classKw then localClassDecl rule else simpleStmt rule
  | .identifier => if next == .symbol .colon then labeledStmt rule else simpleStmt rule
  | _ => simpleStmt rule

end JavaObjC.Grammar
