import JavaObjC.Source.Token

/-!
# Syntax trees

A syntax tree is built from nodes of one shape: a kind, the span of source it
covers, the token it stands for if it is a leaf, the problem it reports if it
is an error node, and its children in source order. Trees of faulty sources
hold error nodes where a phrase could not be read.
-/

namespace JavaObjC

/-- What a node stands for. -/
inductive NodeKind where
  | error | compilationUnit | packageDecl | importDecl | classDecl | interfaceDecl | enumDecl
  | enumConstant | annotationDecl | fieldDecl | methodDecl | constructorDecl | constructorCall
  | modifiers | typeParameters | typeParameter | typeArguments | type | arrayType | wildcard
  | annotationUse | annotationElement | parameters | parameter | throwsList | implementsList
  | block | emptyStmt | exprStmt | ifStmt | forStmt | forInit | forUpdate | enhancedForStmt
  | whileStmt | doStmt | switchStmt | switchCase | switchLabel | returnStmt | breakStmt
  | continueStmt | throwStmt | tryStmt | catchClause | finallyClause | synchronizedStmt
  | assertStmt | labeledStmt | localVarDecl | varDeclarator | localClassDecl | assignExpr
  | ternaryExpr | binaryExpr | unaryExpr | postfixExpr | castExpr | instanceofExpr | callExpr
  | methodRef | fieldAccess | arrayAccess | newExpr | newArrayExpr | arrayInit | lambdaExpr
  | parenExpr | literal | identifier | qualifiedName | thisRef | superRef | classLiteral
  deriving DecidableEq, Repr

namespace NodeKind

/-- The name of a kind in listings and messages. -/
def name : NodeKind → String
  | .error => "Error"
  | .compilationUnit => "CompilationUnit"
  | .packageDecl => "PackageDecl"
  | .importDecl => "ImportDecl"
  | .classDecl => "ClassDecl"
  | .interfaceDecl => "InterfaceDecl"
  | .enumDecl => "EnumDecl"
  | .enumConstant => "EnumConstant"
  | .annotationDecl => "AnnotationDecl"
  | .fieldDecl => "FieldDecl"
  | .methodDecl => "MethodDecl"
  | .constructorDecl => "ConstructorDecl"
  | .constructorCall => "ExplicitConstructorInvocation"
  | .modifiers => "Modifiers"
  | .typeParameters => "TypeParameters"
  | .typeParameter => "TypeParameter"
  | .typeArguments => "TypeArguments"
  | .type => "Type"
  | .arrayType => "ArrayType"
  | .wildcard => "Wildcard"
  | .annotationUse => "Annotation"
  | .annotationElement => "AnnotationElement"
  | .parameters => "Parameters"
  | .parameter => "Parameter"
  | .throwsList => "ThrowsList"
  | .implementsList => "ImplementsList"
  | .block => "Block"
  | .emptyStmt => "EmptyStmt"
  | .exprStmt => "ExprStmt"
  | .ifStmt => "IfStmt"
  | .forStmt => "ForStmt"
  | .forInit => "ForInit"
  | .forUpdate => "ForUpdate"
  | .enhancedForStmt => "EnhancedForStmt"
  | .whileStmt => "WhileStmt"
  | .doStmt => "DoStmt"
  | .switchStmt => "SwitchStmt"
  | .switchCase => "SwitchCase"
  | .switchLabel => "SwitchLabel"
  | .returnStmt => "ReturnStmt"
  | .breakStmt => "BreakStmt"
  | .continueStmt => "ContinueStmt"
  | .throwStmt => "ThrowStmt"
  | .tryStmt => "TryStmt"
  | .catchClause => "CatchClause"
  | .finallyClause => "FinallyClause"
  | .synchronizedStmt => "SynchronizedStmt"
  | .assertStmt => "AssertStmt"
  | .labeledStmt => "LabeledStmt"
  | .localVarDecl => "LocalVarDecl"
  | .varDeclarator => "VarDeclarator"
  | .localClassDecl => "LocalClassDecl"
  | .assignExpr => "AssignExpr"
  | .ternaryExpr => "TernaryExpr"
  | .binaryExpr => "BinaryExpr"
  | .unaryExpr => "UnaryExpr"
  | .postfixExpr => "PostfixExpr"
  | .castExpr => "CastExpr"
  | .instanceofExpr => "InstanceofExpr"
  | .callExpr => "CallExpr"
  | .methodRef => "MethodRef"
  | .fieldAccess => "FieldAccess"
  | .arrayAccess => "ArrayAccess"
  | .newExpr => "NewExpr"
  | .newArrayExpr => "NewArrayExpr"
  | .arrayInit => "ArrayInit"
  | .lambdaExpr => "LambdaExpr"
  | .parenExpr => "ParenExpr"
  | .literal => "Literal"
  | .identifier => "Identifier"
  | .qualifiedName => "QualifiedName"
  | .thisRef => "This"
  | .superRef => "Super"
  | .classLiteral => "ClassLiteral"

end NodeKind

/-- Something the grammar does not allow: what was wanted and what stood there. -/
structure Problem where
  message : Text
  expected : List TokenKind
  got : Token
  deriving DecidableEq, Repr

namespace Problem

/-- A problem covers the token that stood there. -/
def span (p : Problem) : Span := p.got.span

/-- The problem's place and message. -/
def describe (file : Text) (p : Problem) : Text :=
  p.span.start.describe file ++ ": " ++ p.message

end Problem

/-- A node of a syntax tree. -/
structure Node where
  kind : NodeKind
  span : Span := {}
  token : Option Token := none
  problem : Option Problem := none
  children : List Node := []

instance : Inhabited Node := ⟨{ kind := .error }⟩

namespace Node

/-- A leaf that stands for a token. -/
def ofToken (kind : NodeKind) (t : Token) : Node := ⟨kind, t.span, some t, none, []⟩

/-- An error node. -/
def ofProblem (p : Problem) : Node := ⟨.error, p.span, none, some p, []⟩

/-- The bytes of the token a node stands for, empty for inner nodes. -/
def literal (n : Node) : Text := (n.token.map Token.literal).getD []

/-- The first child of a kind. -/
def child? (n : Node) (kind : NodeKind) : Option Node := n.children.find? (·.kind = kind)

/-- The children of a kind. -/
def childrenOf (n : Node) (kind : NodeKind) : List Node := n.children.filter (·.kind = kind)

mutual

/-- A node and its descendants, parents before children. -/
def walk : Node → List Node
  | ⟨kind, span, token, problem, children⟩ =>
    ⟨kind, span, token, problem, children⟩ :: walkAll children

/-- The nodes of several trees, one tree after the other. -/
def walkAll : List Node → List Node
  | [] => []
  | n :: rest => walk n ++ walkAll rest

end

/-- The problems of the error nodes in a tree. -/
def problems (n : Node) : List Problem := (walk n).filterMap (·.problem)

/-- The line of a listing for one node. -/
def line (positions : Option Text) (n : Node) : Text :=
  let spanText : Text := match positions with
    | none => []
    | some file => " [" ++ n.span.start.describe file ++ "-" ++ n.span.stop.describe file ++ "]"
  let tokenText : Text := match n.token with
    | none => []
    | some t => " " ++ t.literal
  let problemText : Text := match n.problem with
    | none => []
    | some p => " ERROR: " ++ p.message
  Text.ofString n.kind.name ++ spanText ++ tokenText ++ problemText ++ "\n"

mutual

/-- A tree as an indented listing, one line per node. With `positions` each
line shows the node's span, the places naming the given file. -/
def listing (positions : Option Text) (depth : Nat) : Node → Text
  | ⟨kind, span, token, problem, children⟩ =>
    List.replicate (2 * depth) 32 ++ line positions ⟨kind, span, token, problem, children⟩
      ++ listingAll positions (depth + 1) children

/-- The listings of several trees, one after the other. -/
def listingAll (positions : Option Text) (depth : Nat) : List Node → Text
  | [] => []
  | n :: rest => listing positions depth n ++ listingAll positions depth rest

end

end Node

end JavaObjC
