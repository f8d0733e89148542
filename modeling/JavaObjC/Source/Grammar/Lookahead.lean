import JavaObjC.Source.Grammar.Types

/-!
# Lookahead

A declaration can begin like an expression, a cast like an expression in
parentheses, and a lambda like either. Each question here reads ahead as far
as it has to and returns the cursor to where it was.
-/

namespace JavaObjC.Grammar

open JavaObjC.Parser

/-- How a token changes the number of open angle brackets; nothing for the
tokens at which the search gives up. -/
def angleChange? : TokenKind → Option Int
  | .symbol .lt => some 1
  | .symbol .gt => some (-1)
  | .symbol .shr => some (-2)
  | .symbol .ushr => some (-3)
  | .symbol .semicolon | .symbol .lbrace | .symbol .rbrace => none
  | _ => some 0

/-- Skips tokens until `depth` angle brackets are closed. -/
def skipAngles (depth : Int) (consumed : List Token) : List Token → List Token × List Token
  | [] => (consumed, [])
  | t :: rest =>
    if depth ≤ 0 ∨ t.kind = .eof then (consumed, t :: rest)
    else match angleChange? t.kind with
      | none => (consumed, t :: rest)
      | some change => skipAngles (depth + change) (t :: consumed) rest

/-- The cursor after the angle bracket that closes an open one. -/
def pastAngles (c : Cursor) : Cursor :=
  let (consumed, rest) := skipAngles 1 c.consumed c.rest
  { c with consumed, rest }

/-- Skips a bracketed list of type arguments without reading it. -/
def skipTypeArguments : Parser Unit := do
  if ← skip Symbol.lt then modify pastAngles

/-- Skips the annotations and the word `final` in front of a local declaration. -/
def skipLocalModifiers (rule : Rules) : Parser Unit := do
  let _ ← many (checkAny [Symbol.atSign, Keyword.finalKw]) do
    if ← check Symbol.atSign then annotationUse rule else leaf .identifier

/-- Skips pairs of empty brackets. -/
def skipBrackets : Parser Unit := do
  let _ ← bracketPairs

/-- Skips a class name, with inner classes after type arguments. -/
def skipClassName : Parser Unit := do
  let _ ← qualifiedName
  if ← check Symbol.lt then
    skipTypeArguments
    let _ ← many (check2 Symbol.dot .identifier) do
      let _ ← advance
      let inner ← qualifiedName
      skipTypeArguments
      return inner

/-- Whether a local variable declaration follows. -/
def startsLocalDeclaration (rule : Rules) : Parser Bool := lookahead do
  skipLocalModifiers rule
  let kind ← kindAt 0
  if kind.isPrimitive then return true
  else if kind == .keyword .varKw then return (← kindAt 1).isName
  else if kind == .identifier then
    skipClassName
    skipBrackets
    checkName
  else return false

/-- Whether the head of an enhanced `for` follows: a variable and a colon. -/
def startsEnhancedFor (rule : Rules) : Parser Bool := lookahead do
  skipLocalModifiers rule
  let kind ← kindAt 0
  if kind.isPrimitive || kind == .keyword .varKw then
    let _ ← advance
    variableAndColon
  else if kind == .identifier then
    let _ ← qualifiedName
    skipTypeArguments
    variableAndColon
  else return false
where
  /-- Brackets, closed or not, then a name and a colon. -/
  variableAndColon : Parser Bool := do
    let _ ← loop (fun (_ : Unit) => do
      if ← skip Symbol.lbracket then
        let _ ← skip Symbol.rbracket
        return some ()
      else return none) ()
    if ← checkName then
      let _ ← advance
      check Symbol.colon
    else return false

/-- Tokens that can begin the operand of a cast to a class type. -/
def castOperandStarts : List TokenKind :=
  [.identifier, Keyword.varKw, Keyword.thisKw, Keyword.superKw, Keyword.newKw,
   Symbol.lparen, Symbol.bang, Symbol.bitNot, .intLiteral, .floatLiteral,
   .charLiteral, .stringLiteral, .textBlock, Keyword.trueKw, Keyword.falseKw, Keyword.nullKw]

/-- Whether a cast follows: a type in parentheses and, unless the type is
primitive, the start of an operand. -/
def startsCast : Parser Bool := lookahead do
  if ← skip Symbol.lparen then
    let kind ← kindAt 0
    if kind.isPrimitive then
      let _ ← advance
      skipBrackets
      check Symbol.rparen
    else if kind == .identifier then
      let _ ← qualifiedName
      skipTypeArguments
      skipBrackets
      let _ ← many (skip Symbol.bitAnd) do
        let bound ← qualifiedName
        skipTypeArguments
        return bound
      if ← skip Symbol.rparen then checkAny castOperandStarts else return false
    else return false
  else return false

/-- Whether an arrow stands right after the parenthesis that closes the last of
`depth` open ones, with no statement or block in between. -/
def arrowAfterClosing (depth : Nat) : List Token → Bool
  | [] => false
  | t :: rest =>
    if depth = 0 then t.kind == .symbol .arrow
    else match t.kind with
      | .eof | .symbol .semicolon | .symbol .lbrace => false
      | .symbol .lparen => arrowAfterClosing (depth + 1) rest
      | .symbol .rparen => arrowAfterClosing (depth - 1) rest
      | _ => arrowAfterClosing depth rest

/-- Whether a lambda follows: a name or a closed parenthesis before an arrow. -/
def startsLambda : Parser Bool := do
  if (← checkName) && (← kindAt 1) == .symbol .arrow then return true
  else if ← check Symbol.lparen then return arrowAfterClosing 1 ((← get).rest.drop 1)
  else return false

/-- Whether `this(...)` or `super(...)` follows, possibly after type arguments. -/
def startsConstructorCall : Parser Bool := lookahead do
  skipTypeArguments
  if ← checkAny [Keyword.thisKw, Keyword.superKw] then
    let _ ← advance
    check Symbol.lparen
  else return false

end JavaObjC.Grammar
