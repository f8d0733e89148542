import JavaObjC.Source.Grammar.Statements

/-!
# Class members and compilation units

Fields, methods, constructors and initializers, and the unit that holds
package, imports and type declarations.
-/

namespace JavaObjC.Grammar

open JavaObjC.Parser

/-- The word an explicit constructor call starts with. -/
def calledConstructor : Parser (List Node) := do
  match ← kindAt 0 with
  | .keyword .thisKw => return [← leaf .thisRef]
  | .keyword .superKw => return [← leaf .superRef]
  | _ => return []

/-- `this(...)` or `super(...)` at the front of a constructor body. -/
def constructorCall (rule : Rules) : Parser Node := do
  let start ← here
  let typed ← optional (check Symbol.lt) (typeArguments rule)
  let target ← calledConstructor
  let given ← arguments rule
  need Symbol.semicolon
  finish .constructorCall start (typed ++ target ++ [given])

/-- The body of a constructor. -/
def constructorBody (rule : Rules) : Parser Node := do
  let start ← here
  need Symbol.lbrace
  let call ← optional startsConstructorCall (constructorCall rule)
  let statements ← manyBefore Symbol.rbrace (rule .statement)
  need Symbol.rbrace
  finish .block start (call ++ statements)

/-- The declared exceptions of a method. -/
def throwsList (rule : Rules) : Parser Node := do
  let start ← here
  need Keyword.throwsKw
  let types ← typeList rule
  finish .throwsList start types

/-- A constructor, from its name on. -/
def constructorDecl (rule : Rules) (marks : Node) (generics : List Node) : Parser Node := do
  let start ← here
  let label ← name
  let declared ← parameters rule
  let thrown ← optional (check Keyword.throwsKw) (throwsList rule)
  let body ← constructorBody rule
  finish .constructorDecl start (marks :: generics ++ label ++ declared :: thrown ++ [body])

/-- Skips brackets after a parameter list. -/
def skipResultBrackets : Parser Unit := do
  loop (fun (_ : Unit) => do
    if ← skip Symbol.lbracket then
      need Symbol.rbracket
      return some ()
    else return none) ()

/-- What ends a method: a block, the default of an annotation element, or a semicolon. -/
def methodEnd (rule : Rules) : Parser (List Node) := do
  if ← check Symbol.lbrace then return [← block rule]
  else if ← skip Keyword.defaultKw then
    let value ← annotationValue rule
    need Symbol.semicolon
    return [value]
  else
    need Symbol.semicolon
    return []

/-- A method, from its name on. -/
def methodDecl (rule : Rules) (marks : Node) (generics : List Node) (result : Node) :
    Parser Node := do
  let start ← here
  let label ← name
  let declared ← parameters rule
  skipResultBrackets
  let thrown ← optional (check Keyword.throwsKw) (throwsList rule)
  let body ← methodEnd rule
  finish .methodDecl start (marks :: generics ++ result :: label ++ declared :: thrown ++ body)

/-- A field, from its first name on. Brackets after any of the names apply to
the type of all of them. -/
def fieldDecl (rule : Rules) (marks declared : Node) : Parser Node := do
  let start ← here
  let (nodes, depth) ← declarators rule
  need Symbol.semicolon
  finish .fieldDecl start (marks :: inArrays depth declared :: nodes)

/-- Tokens a class member can begin with. -/
def memberStarts : List TokenKind :=
  [Symbol.atSign, Keyword.publicKw, Keyword.privateKw, Keyword.protectedKw, Keyword.abstractKw,
   Keyword.staticKw, Keyword.finalKw, Keyword.nativeKw, Keyword.synchronizedKw,
   Keyword.transientKw, Keyword.volatileKw, Keyword.strictfpKw, Keyword.defaultKw,
   Keyword.classKw, Keyword.interfaceKw, Keyword.enumKw, .identifier, Keyword.voidKw,
   Keyword.booleanKw, Keyword.byteKw, Keyword.charKw, Keyword.shortKw, Keyword.intKw,
   Keyword.longKw, Keyword.floatKw, Keyword.doubleKw, Symbol.lt, Symbol.rbrace]

/-- A field, method or constructor after its modifiers and type parameters. -/
def typedMember (rule : Rules) (marks : Node) (generics : List Node) : Parser Node := do
  if (← checkName) && (← kindAt 1) == .symbol .lparen then constructorDecl rule marks generics
  else
    let declared ← type rule
    if declared.kind = .error then return declared
    else if (← checkName) && (← kindAt 1) == .symbol .lparen then
      methodDecl rule marks generics declared
    else if (← checkName) && generics.isEmpty then fieldDecl rule marks declared
    else problem "expected member declaration" memberStarts []

/-- A static initializer: the word and its block. -/
def staticInitializer (rule : Rules) : Parser Node := do
  let start ← here
  let word ← leaf .identifier
  let body ← block rule
  finish .block start [word, body]

/-- Any class member. -/
def member (rule : Rules) : Parser Node := do
  if ← check Symbol.lbrace then block rule
  else if ← check2 Keyword.staticKw Symbol.lbrace then staticInitializer rule
  else if ← check Symbol.semicolon then emptyStmt
  else
    let marks ← modifiers rule
    match ← typeDecl? rule marks with
    | some node => return node
    | none =>
      let generics ← optional (check Symbol.lt) (typeParameters rule)
      typedMember rule marks generics

/-- The package of a unit. -/
def packageDecl : Parser Node := do
  let start ← here
  need Keyword.packageKw
  let target ← qualifiedName
  need Symbol.semicolon
  finish .packageDecl start [target]

/-- The star of an import of a whole package. -/
def importStar : Parser (List Node) := do
  if ← skip Symbol.dot then
    match ← expect Symbol.star with
    | some t => return [Node.ofToken .identifier t]
    | none => return []
  else return []

/-- One import. The words `static` and `*` are identifier leaves. -/
def importDecl : Parser Node := do
  let start ← here
  need Keyword.importKw
  let static ← optional (check Keyword.staticKw) (leaf .identifier)
  let target ← qualifiedName
  let star ← importStar
  need Symbol.semicolon
  finish .importDecl start (static ++ target :: star)

/-- Tokens a top-level declaration can begin with. -/
def declarationStarts : List TokenKind :=
  [Symbol.atSign, Keyword.publicKw, Keyword.privateKw, Keyword.protectedKw, Keyword.abstractKw,
   Keyword.staticKw, Keyword.finalKw, Keyword.strictfpKw, Keyword.classKw, Keyword.interfaceKw,
   Keyword.enumKw]

/-- A top-level type declaration. -/
def topLevelDecl (rule : Rules) : Parser Node := do
  let marks ← modifiers rule
  match ← typeDecl? rule marks with
  | some node => return node
  | none =>
    if marks.children.isEmpty then problem "expected type declaration" declarationStarts []
    else problem "expected class, interface, enum, or @interface" declarationStarts []

/-- A whole compilation unit; semicolons between declarations are skipped. -/
def compilationUnit (rule : Rules) : Parser Node := do
  let start ← here
  let package ← optional (check Keyword.packageKw) packageDecl
  let imports ← many (check Keyword.importKw) importDecl
  let types ← loop (fun types => do
    if ← check .eof then return none
    else if ← skip Symbol.semicolon then return some types
    else return some (types ++ [← topLevelDecl rule])) []
  finish .compilationUnit start (package ++ imports ++ types)

end JavaObjC.Grammar
