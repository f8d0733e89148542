import JavaObjC.Source.Cursor

/-!
# Names, types and the brackets around lists

Each production is an ordinary function of the parser for the phrases it
contains, so none of them is recursive; `Grammar.parse` ties them together.
This module holds the productions that declarations, statements and
expressions share: qualified names, annotations, types, modifiers,
parameters, and the bracketed lists of arguments, statements and members.
-/

namespace JavaObjC.Grammar

open JavaObjC.Parser

/-- The phrases that contain each other. -/
inductive Phrase where
  | expression | ternary | unary | initializer | type | annotationValue | statement | member
  deriving DecidableEq, Repr

/-- A parser for every phrase. -/
abbrev Rules := Phrase → Parser Node

/-- Identifiers joined by dots. -/
def qualifiedName : Parser Node := do
  let start ← here
  if ← checkName then
    let first ← leaf .identifier
    let more ← many (check2 Symbol.dot .identifier) do
      let _ ← advance
      leaf .identifier
    finish .qualifiedName start (first :: more)
  else problem "expected identifier" [] [.identifier]

/-- `name = value` inside an annotation. -/
def annotationElement (rule : Rules) : Parser Node := do
  let start ← here
  let label ← name
  need Symbol.assign
  let value ← rule .annotationValue
  finish .annotationElement start (label ++ [value])

/-- What stands between the parentheses of an annotation. -/
def annotationValues (rule : Rules) : Parser (List Node) := do
  if ← check Symbol.rparen then return []
  else if (← kindAt 1) == .symbol .assign then commaList (annotationElement rule)
  else return [← rule .annotationValue]

/-- `@Name`, with its values in parentheses if there are any. -/
def annotationUse (rule : Rules) : Parser Node := do
  let start ← here
  need Symbol.atSign
  let target ← qualifiedName
  if ← skip Symbol.lparen then
    let values ← annotationValues rule
    need Symbol.rparen
    finish .annotationUse start (target :: values)
  else finish .annotationUse start [target]

/-- `?`, possibly with a bound. -/
def wildcard (rule : Rules) : Parser Node := do
  let start ← here
  need Symbol.question
  if ← checkAny [Keyword.extendsKw, Keyword.superKw] then
    let direction ← leaf .identifier
    let bound ← rule .type
    finish .wildcard start [direction, bound]
  else finish .wildcard start []

/-- One type argument. -/
def typeArgument (rule : Rules) : Parser Node := do
  if ← check Symbol.question then wildcard rule else rule .type

/-- Takes the `>` that closes a list, or records that it was wanted. -/
def closeAngle : Parser Unit := do
  if ← skipGreater then return else expected [Symbol.gt]

/-- `<A, B>`, or the empty `<>`. -/
def typeArguments (rule : Rules) : Parser Node := do
  let start ← here
  need Symbol.lt
  if ← skipGreater then finish .typeArguments start []
  else
    let arguments ← commaList (typeArgument rule)
    closeAngle
    finish .typeArguments start arguments

/-- Wraps a type in one array node per pair of empty brackets that follows. -/
def arrayBrackets (element : Node) : Parser Node :=
  loop (fun inner => do
    if ← check2 Symbol.lbracket Symbol.rbracket then
      let _ ← advance
      let _ ← advance
      return some (← finish .arrayType inner.span.start [inner])
    else return none) element

/-- A primitive type, `void`, or a class type, with its array brackets. -/
def type (rule : Rules) : Parser Node := do
  let start ← here
  let marks ← many (check Symbol.atSign) (annotationUse rule)
  let kind ← kindAt 0
  if kind.isPrimitive || kind == .keyword .voidKw then
    let word ← leaf .identifier
    arrayBrackets (← finish .type start (marks ++ [word]))
  else if kind == .identifier then
    let outer ← qualifiedName
    let arguments ← optional (check Symbol.lt) (typeArguments rule)
    let parts ← loop (fun parts => do
      if ← check2 Symbol.dot .identifier then
        let _ ← advance
        let inner ← qualifiedName
        let arguments ← optional (check Symbol.lt) (typeArguments rule)
        return some (parts ++ inner :: arguments)
      else return none) (outer :: arguments)
    arrayBrackets (← finish .type start (marks ++ parts))
  else
    problem "expected type"
      [.identifier, Symbol.semicolon, Symbol.rparen, Symbol.comma, Symbol.rbrace] [.identifier]

/-- One or more types separated by commas. -/
def typeList (rule : Rules) : Parser (List Node) := commaList (type rule)

/-- The types after a word, if it follows. -/
def typesAfter (rule : Rules) (word : Keyword) : Parser (List Node) := do
  if ← skip word then typeList rule else return []

/-- Words that modify a declaration wherever they stand. -/
def modifierWords : List Keyword :=
  [.publicKw, .protectedKw, .privateKw, .abstractKw, .staticKw, .finalKw, .strictfpKw,
   .nativeKw, .transientKw, .volatileKw]

/-- Whether a token is a modifier, given the one after it. `@interface` starts a
declaration, `synchronized (` a statement and `default :` a switch label. -/
def isModifier (kind next : TokenKind) : Bool :=
  match kind with
  | .symbol .atSign => next != .keyword .interfaceKw
  | .keyword .synchronizedKw => next != .symbol .lparen
  | .keyword .defaultKw => next != .symbol .colon
  | .keyword word => modifierWords.contains word
  | _ => false

/-- Whether a modifier follows. -/
def startsModifier : Parser Bool := do return isModifier (← kindAt 0) (← kindAt 1)

/-- Annotations and modifier words. -/
def modifiers (rule : Rules) : Parser Node := do
  let start ← here
  let items ← many startsModifier do
    if ← check Symbol.atSign then annotationUse rule else leaf .identifier
  finish .modifiers start items

/-- Counts the pairs of empty brackets that follow a declared name. -/
def bracketPairs : Parser Nat :=
  loop (fun n => do
    if ← check2 Symbol.lbracket Symbol.rbracket then
      let _ ← advance
      let _ ← advance
      return some (n + 1)
    else return none) 0

/-- A declared type inside the arrays that brackets after the names ask for. -/
def inArrays : Nat → Node → Node
  | 0, t => t
  | n + 1, t =>
    if t.kind = .type ∨ t.kind = .arrayType then
      inArrays n ⟨.arrayType, t.span, none, none, [t]⟩
    else t

/-- One declared parameter. -/
def parameter (rule : Rules) : Parser Node := do
  let start ← here
  let marks ← modifiers rule
  let declared ← type rule
  let dots ← optional (check Symbol.ellipsis) (leaf .identifier)
  let label ← name
  let depth ← bracketPairs
  finish .parameter start (marks :: inArrays depth declared :: dots ++ label)

/-- The declared parameters in parentheses. -/
def parameters (rule : Rules) : Parser Node := do
  let start ← here
  need Symbol.lparen
  let items ← commaListBefore Symbol.rparen (parameter rule)
  need Symbol.rparen
  finish .parameters start items

/-- The arguments of a call in parentheses. -/
def arguments (rule : Rules) : Parser Node := do
  let start ← here
  need Symbol.lparen
  let items ← commaListBefore Symbol.rparen (rule .expression)
  need Symbol.rparen
  finish .parameters start items

/-- Statements in braces. -/
def block (rule : Rules) : Parser Node := do
  let start ← here
  need Symbol.lbrace
  let statements ← manyBefore Symbol.rbrace (rule .statement)
  need Symbol.rbrace
  finish .block start statements

/-- Class members in braces. -/
def classBody (rule : Rules) : Parser Node := do
  let start ← here
  need Symbol.lbrace
  let members ← manyBefore Symbol.rbrace (rule .member)
  need Symbol.rbrace
  finish .block start members

/-- Values in braces. -/
def arrayInitializer (rule : Rules) : Parser Node := do
  let start ← here
  need Symbol.lbrace
  let items ← commaListBefore Symbol.rbrace (rule .initializer)
  need Symbol.rbrace
  finish .arrayInit start items

end JavaObjC.Grammar
