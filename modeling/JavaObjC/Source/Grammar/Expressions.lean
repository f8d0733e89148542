import JavaObjC.Source.Grammar.Lookahead

/-!
# Expressions

Binary operators are read by precedence climbing over a list of levels, from
the loosest to the tightest; assignment and the conditional operator associate
to the right; member access, calls and indexing are suffixes of a primary
expression.
-/

namespace JavaObjC.Grammar

open JavaObjC.Parser

/-- A lambda parameter: a bare name or a declared parameter. -/
def lambdaParameter (rule : Rules) : Parser Node := do
  let next ← kindAt 1
  if (← checkName) && (next == .symbol .comma || next == .symbol .rparen) then
    leaf .identifier
  else parameter rule

/-- The parameters of a lambda: one bare name, or several in parentheses. -/
def lambdaHead (rule : Rules) : Parser Node := do
  let start ← here
  if ← checkName then
    let only ← leaf .identifier
    finish .parameters start [only]
  else
    need Symbol.lparen
    let items ← commaListBefore Symbol.rparen (lambdaParameter rule)
    need Symbol.rparen
    finish .parameters start items

/-- The body of a lambda: a block or an expression. -/
def lambdaBody (rule : Rules) : Parser Node := do
  if ← check Symbol.lbrace then block rule else rule .expression

/-- `name -> body` or `(parameters) -> body`. -/
def lambda (rule : Rules) : Parser Node := do
  let start ← here
  let head ← lambdaHead rule
  need Symbol.arrow
  let body ← lambdaBody rule
  finish .lambdaExpr start [head, body]

/-- A lambda if one follows, and otherwise the given phrase. -/
def lambdaOr (rule : Rules) (other : Parser Node) : Parser Node := do
  if ← startsLambda then lambda rule else other

/-- The dimensions of an array creation: how many there are, and their lengths. -/
def dimensions (rule : Rules) : Parser (Nat × List Node) :=
  loop (fun (count, lengths) => do
    if ← skip Symbol.lbracket then
      let length ← optional (checkNot Symbol.rbracket) (rule .expression)
      need Symbol.rbracket
      return some (count + 1, lengths ++ length)
    else return none) (0, [])

/-- Reads type arguments that the tree does not keep. -/
def dropTypeArguments (rule : Rules) : Parser Unit := do
  if ← check Symbol.lt then discard (← typeArguments rule)

/-- What follows the type of a creation: array dimensions with an optional
initializer, or arguments with an optional class body. The number of
dimensions is the token of an array creation. -/
def creation (rule : Rules) (start : Position) (created : Node) : Parser Node := do
  if ← check Symbol.lbracket then
    let (count, lengths) ← dimensions rule
    let values ← optional (check Symbol.lbrace) (arrayInitializer rule)
    let total : Token := ⟨.intLiteral, {}, Text.ofNat count⟩
    finishWith .newArrayExpr (some total) start (created :: lengths ++ values)
  else
    let given ← arguments rule
    let body ← optional (check Symbol.lbrace) (classBody rule)
    finish .newExpr start (created :: given :: body)

/-- Class instance or array creation. -/
def newExpr (rule : Rules) : Parser Node := do
  let start ← here
  need Keyword.newKw
  dropTypeArguments rule
  let typeStart ← here
  let kind ← kindAt 0
  if kind.isPrimitive then
    let word ← leaf .identifier
    creation rule start (← finish .type typeStart [word])
  else if kind == .identifier then
    let target ← qualifiedName
    let given ← optional (check Symbol.lt) (typeArguments rule)
    creation rule start (← finish .type typeStart (target :: given))
  else
    problem "expected type after new" [Symbol.semicolon, Symbol.rparen] [.identifier]

/-- `outer.new Inner(...)`, from the word `new`. -/
def innerNewExpr (rule : Rules) (outer : Node) : Parser Node := do
  need Keyword.newKw
  dropTypeArguments rule
  let label ← name
  let typed ← optional (check Symbol.lt) (typeArguments rule)
  let given ← arguments rule
  let body ← optional (check Symbol.lbrace) (classBody rule)
  finish .newExpr outer.span.start (outer :: label ++ typed ++ given :: body)

/-- `int.class` and its array forms. -/
def primitiveClassLiteral : Parser Node := do
  let start ← here
  let word ← leaf .identifier
  let element ← finish .type start [word]
  let target ← loop (fun inner => do
    if ← skip Symbol.lbracket then
      need Symbol.rbracket
      return some (← finish .arrayType inner.span.start [inner])
    else return none) element
  need Symbol.dot
  need Keyword.classKw
  finish .classLiteral start [target]

/-- `(expression)`. -/
def parenExpr (rule : Rules) : Parser Node := do
  let start ← here
  need Symbol.lparen
  let inner ← rule .expression
  need Symbol.rparen
  finish .parenExpr start [inner]

/-- Kinds of tokens that are literals. -/
def literalKinds : List TokenKind :=
  [.intLiteral, .floatLiteral, .charLiteral, .stringLiteral, .textBlock,
   Keyword.trueKw, Keyword.falseKw, Keyword.nullKw]

/-- An expression without operators and suffixes. -/
def primary (rule : Rules) : Parser Node := do
  let kind ← kindAt 0
  if literalKinds.contains kind then leaf .literal
  else if kind == .keyword .thisKw then leaf .thisRef
  else if kind == .keyword .superKw then leaf .superRef
  else if kind == .keyword .newKw then newExpr rule
  else if kind == .symbol .lparen then parenExpr rule
  else if kind.isPrimitive || kind == .keyword .voidKw then primitiveClassLiteral
  else if kind.isName then leaf .identifier
  else
    problem "expected expression"
      [Symbol.semicolon, Symbol.comma, Symbol.rparen, Symbol.rbrace, Symbol.rbracket] []

/-- A call of a target with arguments. -/
def callExpr (rule : Rules) (target : Node) : Parser Node := do
  let given ← arguments rule
  finish .callExpr target.span.start [target, given]

/-- What follows a dot after an expression. -/
def memberAccess (rule : Rules) (target : Node) : Parser Node := do
  let start := target.span.start
  let kind ← kindAt 0
  if kind == .keyword .newKw then innerNewExpr rule target
  else if kind == .symbol .lt then
    let typed ← typeArguments rule
    let label ← name
    let access ← finish .fieldAccess start (target :: typed :: label)
    if ← check Symbol.lparen then callExpr rule access else return access
  else if kind == .keyword .classKw then
    let _ ← advance
    finish .classLiteral start [target]
  else if kind == .keyword .thisKw then
    let word ← leaf .thisRef
    finish .fieldAccess start [target, word]
  else if kind == .keyword .superKw then
    let word ← leaf .superRef
    finish .fieldAccess start [target, word]
  else if kind.isName then
    let label ← leaf .identifier
    finish .fieldAccess start [target, label]
  else problem "expected identifier after '.'" [] [.identifier]

/-- The name a method reference ends with; the word `new` is one there. -/
def referenceName : Parser (List Node) := do
  if ← check Keyword.newKw then return [← leaf .identifier] else name

/-- `target::name`, `target::<T>name` or `target::new`. -/
def methodRef (rule : Rules) (target : Node) : Parser Node := do
  need Symbol.colonColon
  let typed ← optional (check Symbol.lt) (typeArguments rule)
  let label ← referenceName
  finish .methodRef target.span.start (target :: typed ++ label)

/-- `.class` after an array type. -/
def arrayClass (target : Node) : Parser Node := do
  let _ ← advance
  let _ ← advance
  finish .classLiteral target.span.start [target]

/-- `Name[].class` after the name; nothing is taken when the brackets start
something else. -/
def arrayClassLiteral? (element : Node) : Parser (Option Node) := do
  let saved ← get
  let target ← arrayBrackets element
  if ← check2 Symbol.dot Keyword.classKw then return some (← arrayClass target)
  else
    modify (·.goBack saved)
    return none

/-- A class literal where two brackets stand next to each other. -/
def bracketsLiteral? (element : Node) : Parser (Option Node) := do
  if (← kindAt 1) == .symbol .rbracket then arrayClassLiteral? element else return none

/-- `target[index]`. -/
def arrayAccess (rule : Rules) (target : Node) : Parser Node := do
  let _ ← advance
  let index ← rule .expression
  need Symbol.rbracket
  finish .arrayAccess target.span.start [target, index]

/-- What starts with a bracket after an expression: an array class, or an index. -/
def bracketSuffix (rule : Rules) (target : Node) : Parser Node := do
  match ← bracketsLiteral? target with
  | some node => return node
  | none => arrayAccess rule target

/-- One suffix of an expression, if there is one. -/
def suffix? (rule : Rules) (target : Node) : Parser (Option Node) := do
  match ← kindAt 0 with
  | .symbol .increment | .symbol .decrement =>
    let operator ← leaf .identifier
    return some (← finish .postfixExpr target.span.start [target, operator])
  | .symbol .dot =>
    let _ ← advance
    return some (← memberAccess rule target)
  | .symbol .lbracket => return some (← bracketSuffix rule target)
  | .symbol .lparen => return some (← callExpr rule target)
  | .symbol .colonColon => return some (← methodRef rule target)
  | _ => return none

/-- A primary expression with its suffixes. -/
def postfixed (rule : Rules) : Parser Node := do
  let target ← primary rule
  loop (suffix? rule) target

/-- One type, or several joined by a separator, under a single node. -/
def typeGroup (rule : Rules) (separator : TokenKind) : Parser Node := do
  let start ← here
  let first ← type rule
  let more ← many (skip separator) (type rule)
  finish .type start (first :: more)

/-- A cast and its operand. -/
def castExpr (rule : Rules) : Parser Node := do
  let start ← here
  need Symbol.lparen
  let target ← typeGroup rule Symbol.bitAnd
  need Symbol.rparen
  let operand ← lambdaOr rule (rule .unary)
  finish .castExpr start [target, operand]

/-- Operators that stand before their operand. -/
def prefixOperators : List TokenKind :=
  [Symbol.increment, Symbol.decrement, Symbol.plus, Symbol.minus, Symbol.bang, Symbol.bitNot]

/-- An operand with the operators before it, or a cast. -/
def unary (rule : Rules) : Parser Node := do
  let start ← here
  if ← checkAny prefixOperators then
    let operator ← leaf .identifier
    let operand ← rule .unary
    finish .unaryExpr start [operator, operand]
  else if ← startsCast then castExpr rule
  else postfixed rule

/-- The binary operators, from the loosest level to the tightest. -/
def binaryLevels : List (List TokenKind) :=
  [[Symbol.orOr], [Symbol.andAnd], [Symbol.bitOr], [Symbol.bitXor], [Symbol.bitAnd],
   [Symbol.eq, Symbol.ne],
   [Symbol.lt, Symbol.le, Symbol.gt, Symbol.ge, Keyword.instanceofKw],
   [Symbol.shl, Symbol.shr, Symbol.ushr],
   [Symbol.plus, Symbol.minus],
   [Symbol.star, Symbol.slash, Symbol.percent]]

/-- Extends a left operand by one operator of a level and its right side. -/
def binaryStep? (rule : Rules) (operators : List TokenKind) (operand : Parser Node)
    (left : Node) : Parser (Option Node) := do
  if ← checkAny operators then
    if ← skip Keyword.instanceofKw then
      let target ← type rule
      let binding ← optional (check .identifier) (leaf .identifier)
      return some (← finish .instanceofExpr left.span.start (left :: target :: binding))
    else
      let operator ← leaf .identifier
      let right ← operand
      return some (← finish .binaryExpr left.span.start [left, operator, right])
  else return none

/-- Operands joined by the operators of the given levels, to the left within a level. -/
def binary (rule : Rules) : List (List TokenKind) → Parser Node
  | [] => unary rule
  | operators :: tighter => do
    let left ← binary rule tighter
    loop (binaryStep? rule operators (binary rule tighter)) left

/-- A conditional expression, or anything that binds tighter. -/
def ternary (rule : Rules) : Parser Node := do
  let condition ← binary rule binaryLevels
  if ← skip Symbol.question then
    let yes ← rule .expression
    need Symbol.colon
    let no ← lambdaOr rule (rule .ternary)
    finish .ternaryExpr condition.span.start [condition, yes, no]
  else return condition

/-- Assignment operators. -/
def assignOperators : List TokenKind :=
  [Symbol.assign, Symbol.plusAssign, Symbol.minusAssign, Symbol.starAssign, Symbol.slashAssign,
   Symbol.percentAssign, Symbol.andAssign, Symbol.orAssign, Symbol.xorAssign, Symbol.shlAssign,
   Symbol.shrAssign, Symbol.ushrAssign]

/-- Any expression. -/
def expression (rule : Rules) : Parser Node := lambdaOr rule do
  let left ← ternary rule
  if ← checkAny assignOperators then
    let operator ← leaf .identifier
    let right ← rule .expression
    finish .assignExpr left.span.start [left, operator, right]
  else return left

/-- The value of a declaration: an expression or values in braces. -/
def initializer (rule : Rules) : Parser Node := do
  if ← check Symbol.lbrace then arrayInitializer rule else expression rule

/-- A value inside an annotation. -/
def annotationValue (rule : Rules) : Parser Node := do
  if ← check Symbol.atSign then annotationUse rule
  else if ← check Symbol.lbrace then
    let start ← here
    let _ ← advance
    let items ← commaListBefore Symbol.rbrace (rule .annotationValue)
    need Symbol.rbrace
    finish .arrayInit start items
  else ternary rule

end JavaObjC.Grammar
