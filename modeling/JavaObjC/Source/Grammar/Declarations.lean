import JavaObjC.Source.Grammar.Expressions

/-!
# Type declarations

Classes, interfaces, enums and annotation types, from the keyword on. The
modifiers have been read by the caller.
-/

namespace JavaObjC.Grammar

open JavaObjC.Parser

/-- The bounds of a type parameter. -/
def typeBounds (rule : Rules) : Parser (List Node) := do
  if ← skip Keyword.extendsKw then
    let first ← type rule
    let more ← many (skip Symbol.bitAnd) (type rule)
    return first :: more
  else return []

/-- A type parameter with its bounds. -/
def typeParameter (rule : Rules) : Parser Node := do
  let start ← here
  let marks ← many (check Symbol.atSign) (annotationUse rule)
  let label ← name
  let bounds ← typeBounds rule
  finish .typeParameter start (marks ++ label ++ bounds)

/-- `<T, U extends A & B>`. -/
def typeParameters (rule : Rules) : Parser Node := do
  let start ← here
  need Symbol.lt
  let items ← commaList (typeParameter rule)
  closeAngle
  finish .typeParameters start items

/-- The implemented interfaces of a class. -/
def implementsList (rule : Rules) : Parser Node := do
  let start ← here
  let _ ← advance
  let types ← typeList rule
  finish .implementsList start types

/-- A class declaration. -/
def classDecl (rule : Rules) (marks : Node) : Parser Node := do
  let start ← here
  need Keyword.classKw
  let label ← name
  let generics ← optional (check Symbol.lt) (typeParameters rule)
  let base ← optional (skip Keyword.extendsKw) (type rule)
  let adopted ← optional (check Keyword.implementsKw) (implementsList rule)
  let body ← classBody rule
  finish .classDecl start (marks :: label ++ generics ++ base ++ adopted ++ [body])

/-- An interface declaration. -/
def interfaceDecl (rule : Rules) (marks : Node) : Parser Node := do
  let start ← here
  need Keyword.interfaceKw
  let label ← name
  let generics ← optional (check Symbol.lt) (typeParameters rule)
  let extended ← typesAfter rule .extendsKw
  let body ← classBody rule
  finish .interfaceDecl start (marks :: label ++ generics ++ extended ++ [body])

/-- One constant of an enum. -/
def enumConstant (rule : Rules) : Parser Node := do
  let start ← here
  let marks ← many (check Symbol.atSign) (annotationUse rule)
  let label ← name
  let given ← optional (check Symbol.lparen) (arguments rule)
  let body ← optional (check Symbol.lbrace) (classBody rule)
  finish .enumConstant start (marks ++ label ++ given ++ body)

/-- The constants of an enum; each one but the last has a comma after it. -/
def enumConstants (rule : Rules) : Parser (List Node) := do
  let (constants, _) ← loop (fun (constants, more) => do
    if more && ((← checkName) || (← check Symbol.atSign)) then
      let constant ← enumConstant rule
      let comma ← skip Symbol.comma
      return some (constants ++ [constant], comma)
    else return none) ([], true)
  return constants

/-- The members of an enum, after the semicolon that ends its constants. -/
def enumMembers (rule : Rules) : Parser (List Node) := do
  if ← skip Symbol.semicolon then manyBefore Symbol.rbrace (rule .member) else return []

/-- The constants and members of an enum in braces. -/
def enumBody (rule : Rules) : Parser Node := do
  let start ← here
  need Symbol.lbrace
  let constants ← enumConstants rule
  let members ← enumMembers rule
  need Symbol.rbrace
  finish .block start (constants ++ members)

/-- An enum declaration. -/
def enumDecl (rule : Rules) (marks : Node) : Parser Node := do
  let start ← here
  need Keyword.enumKw
  let label ← name
  let adopted ← typesAfter rule .implementsKw
  let body ← enumBody rule
  finish .enumDecl start (marks :: label ++ adopted ++ [body])

/-- An annotation type declaration. -/
def annotationDecl (rule : Rules) (marks : Node) : Parser Node := do
  let start ← here
  need Symbol.atSign
  need Keyword.interfaceKw
  let label ← name
  let body ← classBody rule
  finish .annotationDecl start (marks :: label ++ [body])

/-- The type declaration that follows, if one does. -/
def typeDecl? (rule : Rules) (marks : Node) : Parser (Option Node) := do
  let next ← kindAt 1
  match ← kindAt 0 with
  | .keyword .classKw => return some (← classDecl rule marks)
  | .keyword .interfaceKw => return some (← interfaceDecl rule marks)
  | .keyword .enumKw => return some (← enumDecl rule marks)
  | .symbol .atSign =>
    if next == .keyword .interfaceKw then return some (← annotationDecl rule marks)
    else return none
  | _ => return none

end JavaObjC.Grammar
