import JavaObjC.Proofs.Reading.Likeness
import JavaObjC.Source.Lexeme

/-!
# The trees of the grammar

The trees that reading a source can build, as a grammar of trees. A category is
a kind of place in a tree; it lists the forms that can stand there, and a form
says what token a node has and what categories its children belong to, in
order. A tree with an error node counts as derived from every category, since
nothing is promised about it. A tree without one is derived from forms all the
way down, so a category and a node kind tell what the children are.
-/

namespace JavaObjC

namespace Token

/-- A token that is spelled like a word: it has letters and digits and nothing else. -/
def IsWord (t : Token) : Prop := t.literal ≠ [] ∧ ∀ b ∈ t.literal, Lexeme.isLetterOrDigit b = true

end Token

/-- A kind of place in a tree. -/
inductive Category where
  | word | mark | qualifiedName
  | annotationUse | annotationArgument | annotationValue
  | typeArgument | typeArguments | typePart | type | typeGroup
  | modifier | modifiers | parameter | parameters | arguments
  | expression | selfReference | classTarget | lambdaParameter | lambdaHead | lambdaBody
  | arrayInit | initializer
  | block | statement | localVariable | declarator | forInit | forUpdate | switchLabel
  | switchCase | resource | catchClause | finallyClause
  | typeParameter | typeParameters | implementsList | throwsList
  | constructorCall | constructorBody | methodEnd | member | classBody
  | enumConstant | enumBody | typeDecl | packageDecl | importDecl | unit
  deriving DecidableEq, Repr

/-- What token a node has. -/
inductive TokenRole where
  | absent | present | word
  deriving DecidableEq, Repr

namespace TokenRole

/-- Whether a node's token is what its form says. -/
def Suits : TokenRole → Option Token → Prop
  | absent, t => t = none
  | present, t => t.isSome
  | word, t => ∃ w, t = some w ∧ w.IsWord

end TokenRole

/-- One or several children in a row. -/
inductive Item where
  | one (c : Category)
  | optional (c : Category)
  | many (c : Category)
  deriving DecidableEq, Repr

/-- What a node looks like. -/
structure Form where
  kind : NodeKind
  items : List Item := []
  token : TokenRole := .absent
  deriving DecidableEq, Repr

namespace Category

/-- A word as a leaf. -/
def wordForms : List Form := [{ kind := .identifier, token := .word }]

/-- Any token as an identifier leaf. -/
def markForms : List Form := [{ kind := .identifier, token := .present }]

/-- Annotations. -/
def annotationForms : List Form :=
  [⟨.annotationUse, [.one .qualifiedName, .many .annotationArgument], .absent⟩]

/-- Types. -/
def typeForms : List Form :=
  [⟨.type, [.many .annotationUse, .one .word], .absent⟩,
   ⟨.type, [.many .annotationUse, .one .qualifiedName, .many .typePart], .absent⟩,
   ⟨.type, [], .word⟩,
   ⟨.arrayType, [.one .type], .absent⟩]

/-- `this` and `super`. -/
def selfForms : List Form := [⟨.thisRef, [], .present⟩, ⟨.superRef, [], .present⟩]

/-- Expressions. -/
def expressionForms : List Form :=
  [⟨.literal, [], .present⟩,
   ⟨.identifier, [], .word⟩,
   ⟨.thisRef, [], .present⟩,
   ⟨.superRef, [], .present⟩,
   ⟨.parenExpr, [.one .expression], .absent⟩,
   ⟨.fieldAccess, [.one .expression, .optional .typeArguments, .one .word], .absent⟩,
   ⟨.fieldAccess, [.one .expression, .one .selfReference], .absent⟩,
   ⟨.callExpr, [.one .expression, .one .arguments], .absent⟩,
   ⟨.newExpr, [.one .type, .one .arguments, .optional .classBody], .absent⟩,
   ⟨.newExpr, [.one .expression, .one .word, .optional .typeArguments, .one .arguments,
      .optional .classBody], .absent⟩,
   ⟨.newArrayExpr, [.one .type, .many .expression, .optional .arrayInit], .present⟩,
   ⟨.arrayAccess, [.one .expression, .one .expression], .absent⟩,
   ⟨.postfixExpr, [.one .expression, .one .mark], .absent⟩,
   ⟨.unaryExpr, [.one .mark, .one .expression], .absent⟩,
   ⟨.castExpr, [.one .typeGroup, .one .expression], .absent⟩,
   ⟨.instanceofExpr, [.one .expression, .one .type, .optional .word], .absent⟩,
   ⟨.binaryExpr, [.one .expression, .one .mark, .one .expression], .absent⟩,
   ⟨.ternaryExpr, [.one .expression, .one .expression, .one .expression], .absent⟩,
   ⟨.assignExpr, [.one .expression, .one .mark, .one .expression], .absent⟩,
   ⟨.classLiteral, [.one .classTarget], .absent⟩,
   ⟨.lambdaExpr, [.one .lambdaHead, .one .lambdaBody], .absent⟩,
   ⟨.methodRef, [.one .expression, .optional .typeArguments, .one .word], .absent⟩]

/-- Values in braces. -/
def arrayInitForms : List Form := [⟨.arrayInit, [.many .initializer], .absent⟩]

/-- Values of annotations. -/
def annotationValueForms : List Form :=
  ⟨.arrayInit, [.many .annotationValue], .absent⟩ :: annotationForms ++ expressionForms

/-- Blocks of statements. -/
def blockForms : List Form := [⟨.block, [.many .statement], .absent⟩]

/-- Declarations of local variables. -/
def localVariableForms : List Form :=
  [⟨.localVarDecl, [.one .modifiers, .one .type, .many .declarator], .absent⟩]

/-- Statements. -/
def statementForms : List Form :=
  blockForms ++ localVariableForms ++
  [⟨.emptyStmt, [], .absent⟩,
   ⟨.exprStmt, [.one .expression], .absent⟩,
   ⟨.ifStmt, [.one .expression, .one .statement, .optional .statement], .absent⟩,
   ⟨.forStmt, [.one .forInit, .optional .expression, .one .forUpdate, .one .statement], .absent⟩,
   ⟨.enhancedForStmt,
      [.one .modifiers, .one .type, .one .word, .one .expression, .one .statement], .absent⟩,
   ⟨.whileStmt, [.one .expression, .one .statement], .absent⟩,
   ⟨.doStmt, [.one .statement, .one .expression], .absent⟩,
   ⟨.switchStmt, [.one .expression, .many .switchCase], .absent⟩,
   ⟨.returnStmt, [.optional .expression], .absent⟩,
   ⟨.breakStmt, [.optional .word], .absent⟩,
   ⟨.continueStmt, [.optional .word], .absent⟩,
   ⟨.throwStmt, [.one .expression], .absent⟩,
   ⟨.tryStmt, [.many .resource, .one .block, .many .catchClause, .optional .finallyClause],
      .absent⟩,
   ⟨.synchronizedStmt, [.one .expression, .one .block], .absent⟩,
   ⟨.assertStmt, [.one .expression, .optional .expression], .absent⟩,
   ⟨.labeledStmt, [.one .word, .one .statement], .absent⟩,
   ⟨.localClassDecl, [.one .typeDecl], .absent⟩]

/-- Declarations of types. -/
def typeDeclForms : List Form :=
  [⟨.classDecl,
      [.one .modifiers, .one .word, .optional .typeParameters, .optional .type,
       .optional .implementsList, .one .classBody], .absent⟩,
   ⟨.interfaceDecl,
      [.one .modifiers, .one .word, .optional .typeParameters, .many .type, .one .classBody],
      .absent⟩,
   ⟨.enumDecl, [.one .modifiers, .one .word, .many .type, .one .enumBody], .absent⟩,
   ⟨.annotationDecl, [.one .modifiers, .one .word, .one .classBody], .absent⟩]

/-- Members of classes. -/
def memberForms : List Form :=
  blockForms ++ typeDeclForms ++
  [⟨.block, [.one .mark, .one .block], .absent⟩,
   ⟨.emptyStmt, [], .absent⟩,
   ⟨.fieldDecl, [.one .modifiers, .one .type, .many .declarator], .absent⟩,
   ⟨.methodDecl,
      [.one .modifiers, .optional .typeParameters, .one .type, .one .word, .one .parameters,
       .optional .throwsList, .optional .methodEnd], .absent⟩,
   ⟨.constructorDecl,
      [.one .modifiers, .optional .typeParameters, .one .word, .one .parameters,
       .optional .throwsList, .one .constructorBody], .absent⟩]

/-- The forms that can stand in a place. -/
def forms : Category → List Form
  | word => wordForms
  | mark => markForms
  | qualifiedName => [⟨.qualifiedName, [.one .word, .many .word], .absent⟩]
  | annotationUse => annotationForms
  | annotationArgument =>
    ⟨.annotationElement, [.one .word, .one .annotationValue], .absent⟩ :: annotationValueForms
  | annotationValue => annotationValueForms
  | typeArgument =>
    typeForms ++
    [⟨.wildcard, [], .absent⟩, ⟨.wildcard, [.one .mark, .one .type], .absent⟩]
  | typeArguments => [⟨.typeArguments, [.many .typeArgument], .absent⟩]
  | typePart =>
    [⟨.qualifiedName, [.one .word, .many .word], .absent⟩,
     ⟨.typeArguments, [.many .typeArgument], .absent⟩]
  | type => typeForms
  | typeGroup => [⟨.type, [.one .type, .many .type], .absent⟩]
  | modifier => annotationForms ++ markForms
  | modifiers => [⟨.modifiers, [.many .modifier], .absent⟩]
  | parameter =>
    [⟨.parameter, [.one .modifiers, .one .type, .optional .mark, .one .word], .absent⟩]
  | parameters => [⟨.parameters, [.many .parameter], .absent⟩]
  | arguments => [⟨.parameters, [.many .expression], .absent⟩]
  | expression => expressionForms
  | selfReference => selfForms
  | classTarget => ⟨.arrayType, [.one .classTarget], .absent⟩ :: expressionForms ++ typeForms
  | lambdaParameter =>
    wordForms ++
    [⟨.parameter, [.one .modifiers, .one .type, .optional .mark, .one .word], .absent⟩]
  | lambdaHead => [⟨.parameters, [.many .lambdaParameter], .absent⟩]
  | lambdaBody => blockForms ++ expressionForms
  | arrayInit => arrayInitForms
  | initializer => arrayInitForms ++ expressionForms
  | block => blockForms
  | statement => statementForms
  | localVariable => localVariableForms
  | declarator => [⟨.varDeclarator, [.one .word, .optional .initializer], .absent⟩]
  | forInit =>
    [⟨.forInit, [.one .localVariable], .absent⟩, ⟨.forInit, [.many .expression], .absent⟩]
  | forUpdate => [⟨.forUpdate, [.many .expression], .absent⟩]
  | switchLabel => [⟨.switchLabel, [.one .expression], .absent⟩, ⟨.switchLabel, [], .present⟩]
  | switchCase => [⟨.switchCase, [.many .switchLabel, .many .statement], .absent⟩]
  | resource =>
    ⟨.localVarDecl, [.one .modifiers, .one .type, .one .word, .one .expression], .absent⟩ ::
      expressionForms
  | catchClause =>
    [⟨.catchClause, [.one .modifiers, .one .typeGroup, .one .word, .one .block], .absent⟩]
  | finallyClause => [⟨.finallyClause, [.one .block], .absent⟩]
  | typeParameter => [⟨.typeParameter, [.many .annotationUse, .one .word, .many .type], .absent⟩]
  | typeParameters => [⟨.typeParameters, [.one .typeParameter, .many .typeParameter], .absent⟩]
  | implementsList => [⟨.implementsList, [.one .type, .many .type], .absent⟩]
  | throwsList => [⟨.throwsList, [.one .type, .many .type], .absent⟩]
  | constructorCall =>
    [⟨.constructorCall, [.optional .typeArguments, .optional .selfReference, .one .arguments],
      .absent⟩]
  | constructorBody => [⟨.block, [.optional .constructorCall, .many .statement], .absent⟩]
  | methodEnd => blockForms ++ annotationValueForms
  | member => memberForms
  | classBody => [⟨.block, [.many .member], .absent⟩]
  | enumConstant =>
    [⟨.enumConstant, [.many .annotationUse, .one .word, .optional .arguments, .optional .classBody],
      .absent⟩]
  | enumBody => [⟨.block, [.many .enumConstant, .many .member], .absent⟩]
  | typeDecl => typeDeclForms
  | packageDecl => [⟨.packageDecl, [.one .qualifiedName], .absent⟩]
  | importDecl =>
    [⟨.importDecl, [.optional .mark, .one .qualifiedName, .optional .mark], .absent⟩]
  | unit =>
    [⟨.compilationUnit, [.optional .packageDecl, .many .importDecl, .many .typeDecl], .absent⟩]

end Category

mutual

/-- Trees that belong to a category. -/
inductive Derives : Category → Node → Prop where
  | node {c : Category} {f : Form} {span : Span} {token : Option Token} {children : List Node}
      (hform : f ∈ c.forms) (htoken : f.token.Suits token) (hchildren : Matches f.items children) :
      Derives c ⟨f.kind, span, token, none, children⟩
  | faulty {c : Category} {n : Node} (h : ¬ n.Clean) : Derives c n

/-- Rows of trees that belong to the categories of some items. -/
inductive Matches : List Item → List Node → Prop where
  | nil : Matches [] []
  | one {c : Category} {items : List Item} {n : Node} {rest : List Node} (hn : Derives c n)
      (hrest : Matches items rest) : Matches (.one c :: items) (n :: rest)
  | without {c : Category} {items : List Item} {rest : List Node} (hrest : Matches items rest) :
      Matches (.optional c :: items) rest
  | having {c : Category} {items : List Item} {n : Node} {rest : List Node} (hn : Derives c n)
      (hrest : Matches items rest) : Matches (.optional c :: items) (n :: rest)
  | done {c : Category} {items : List Item} {rest : List Node} (hrest : Matches items rest) :
      Matches (.many c :: items) rest
  | more {c : Category} {items : List Item} {n : Node} {rest : List Node} (hn : Derives c n)
      (hrest : Matches (.many c :: items) rest) : Matches (.many c :: items) (n :: rest)

end

/-- Several trees of a category. -/
def DerivesAll (c : Category) (nodes : List Node) : Prop := ∀ n ∈ nodes, Derives c n

namespace DerivesAll

variable {c : Category} {n : Node} {nodes nodes' : List Node}

@[simp] theorem nil : DerivesAll c [] := by simp [DerivesAll]

/-- Trees belong to a category when the first one and the others do. -/
@[simp] theorem cons_iff : DerivesAll c (n :: nodes) ↔ Derives c n ∧ DerivesAll c nodes := by
  simp [DerivesAll]

/-- Trees in a row belong to a category when both parts do. -/
@[simp] theorem append_iff :
    DerivesAll c (nodes ++ nodes') ↔ DerivesAll c nodes ∧ DerivesAll c nodes' := by
  simp [DerivesAll, or_imp, forall_and]

end DerivesAll

namespace Matches

variable {c : Category} {items : List Item} {nodes rest : List Node}

/-- Where no item is left no tree is. -/
@[simp] theorem nil_iff : Matches [] nodes ↔ nodes = [] := by
  constructor
  · intro h
    cases h
    rfl
  · rintro rfl
    exact .nil

/-- An item that is asked for once takes the first tree. -/
@[simp] theorem one_iff : Matches (.one c :: items) nodes ↔
    ∃ n rest, nodes = n :: rest ∧ Derives c n ∧ Matches items rest := by
  constructor
  · intro h
    cases h with
    | one hn hrest => exact ⟨_, _, rfl, hn, hrest⟩
  · rintro ⟨n, rest, rfl, hn, hrest⟩
    exact .one hn hrest

/-- An item that may be missing takes the first tree or none. -/
@[simp] theorem optional_iff : Matches (.optional c :: items) nodes ↔
    Matches items nodes ∨ ∃ n rest, nodes = n :: rest ∧ Derives c n ∧ Matches items rest := by
  constructor
  · intro h
    cases h with
    | without hrest => exact .inl hrest
    | having hn hrest => exact .inr ⟨_, _, rfl, hn, hrest⟩
  · rintro (hrest | ⟨n, rest, rfl, hn, hrest⟩)
    · exact .without hrest
    · exact .having hn hrest

/-- Trees of a repeated category in front of others. -/
theorem of_all (h : DerivesAll c nodes) (hrest : Matches items rest) :
    Matches (.many c :: items) (nodes ++ rest) := by
  induction nodes with
  | nil => exact .done hrest
  | cons n nodes ih =>
    rw [DerivesAll.cons_iff] at h
    exact .more h.1 (ih h.2)

/-- An item that may be repeated takes a front of the trees. -/
@[simp] theorem many_iff : Matches (.many c :: items) nodes ↔
    ∃ front rest, nodes = front ++ rest ∧ DerivesAll c front ∧ Matches items rest := by
  constructor
  · intro h
    induction nodes with
    | nil =>
      cases h with
      | done hrest => exact ⟨[], [], rfl, .nil, hrest⟩
    | cons n nodes ih =>
      cases h with
      | done hrest => exact ⟨[], _, rfl, .nil, hrest⟩
      | more hn hrest =>
        obtain ⟨front, rest, rfl, hfront, hrest⟩ := ih hrest
        exact ⟨n :: front, rest, rfl, DerivesAll.cons_iff.2 ⟨hn, hfront⟩, hrest⟩
  · rintro ⟨front, rest, rfl, hfront, hrest⟩
    exact of_all hfront hrest

theorem of_all_last (h : DerivesAll c nodes) : Matches [.many c] nodes := by
  simpa using of_all h .nil

/-- At most one tree of an optional category in front of others. -/
theorem of_optional (h : DerivesAll c nodes) (hlength : nodes.length ≤ 1)
    (hrest : Matches items rest) : Matches (.optional c :: items) (nodes ++ rest) := by
  match nodes with
  | [] => exact .without hrest
  | [n] => exact .having (h n List.mem_cons_self) hrest
  | _ :: _ :: _ => simp at hlength

/-- At most one tree of an optional category that ends a row. -/
theorem of_optional_last (h : DerivesAll c nodes) (hlength : nodes.length ≤ 1) :
    Matches [.optional c] nodes := by
  have hmatches := of_optional h hlength .nil
  rwa [List.append_nil] at hmatches

end Matches

namespace Derives

variable {c c' : Category} {n : Node}

/-- A tree without error nodes has one of the forms of its category. -/
theorem form (h : Derives c n) (hclean : n.Clean) : ∃ f ∈ c.forms,
    n.kind = f.kind ∧ f.token.Suits n.token ∧ Matches f.items n.children := by
  cases h with
  | node hform htoken hchildren => exact ⟨_, hform, rfl, htoken, hchildren⟩
  | faulty h => exact absurd hclean h

/-- A tree of a kind for which its category has one form is made of the items of that form. -/
theorem items_of_kind (h : Derives c n) (hclean : n.Clean) {kind : NodeKind} (hkind : n.kind = kind)
    {items : List Item} (hforms : ∀ f ∈ c.forms, f.kind = kind → f.items = items) :
    Matches items n.children := by
  obtain ⟨f, hf, hfkind, -, hitems⟩ := h.form hclean
  exact hforms f hf (hfkind.symm.trans hkind) ▸ hitems

/-- A tree of a kind for which its category has two forms is made of the items of one of them. -/
theorem items_or_of_kind (h : Derives c n) (hclean : n.Clean) {kind : NodeKind}
    (hkind : n.kind = kind) {items others : List Item}
    (hforms : ∀ f ∈ c.forms, f.kind = kind → f.items = items ∨ f.items = others) :
    Matches items n.children ∨ Matches others n.children := by
  obtain ⟨f, hf, hfkind, -, hitems⟩ := h.form hclean
  rcases hforms f hf (hfkind.symm.trans hkind) with heq | heq
  · exact .inl (heq ▸ hitems)
  · exact .inr (heq ▸ hitems)

section Shapes

variable {kind : NodeKind} {a b d : Category}

/-- A tree of a kind that stands for one tree. -/
theorem one_of_kind (h : Derives c n) (hclean : n.Clean) (hkind : n.kind = kind)
    (hforms : ∀ f ∈ c.forms, f.kind = kind → f.items = [.one a]) :
    ∃ m, n.children = [m] ∧ Derives a m := by
  have hitems := h.items_of_kind hclean hkind hforms
  simp only [Matches.one_iff, Matches.nil_iff] at hitems
  obtain ⟨m, _, heq, hm, rfl⟩ := hitems
  exact ⟨m, heq, hm⟩

/-- A tree of a kind that stands for two trees. -/
theorem two_of_kind (h : Derives c n) (hclean : n.Clean) (hkind : n.kind = kind)
    (hforms : ∀ f ∈ c.forms, f.kind = kind → f.items = [.one a, .one b]) :
    ∃ l r, n.children = [l, r] ∧ Derives a l ∧ Derives b r := by
  have hitems := h.items_of_kind hclean hkind hforms
  simp only [Matches.one_iff, Matches.nil_iff] at hitems
  obtain ⟨l, _, heq, hl, r, _, rfl, hr, rfl⟩ := hitems
  exact ⟨l, r, heq, hl, hr⟩

/-- A tree of a kind that stands for three trees. -/
theorem three_of_kind (h : Derives c n) (hclean : n.Clean) (hkind : n.kind = kind)
    (hforms : ∀ f ∈ c.forms, f.kind = kind → f.items = [.one a, .one b, .one d]) :
    ∃ l m r, n.children = [l, m, r] ∧ Derives a l ∧ Derives b m ∧ Derives d r := by
  have hitems := h.items_of_kind hclean hkind hforms
  simp only [Matches.one_iff, Matches.nil_iff] at hitems
  obtain ⟨l, _, heq, hl, m, _, rfl, hm, r, _, rfl, hr, rfl⟩ := hitems
  exact ⟨l, m, r, heq, hl, hm, hr⟩

end Shapes

/-- A category with more forms has more trees. -/
theorem mono (h : Derives c n) (hforms : c.forms ⊆ c'.forms) : Derives c' n := by
  cases h with
  | node hform htoken hchildren => exact .node (hforms hform) htoken hchildren
  | faulty h => exact .faulty h

/-- Places in the source play no part. -/
theorem with_span (h : Derives c n) (span : Span) : Derives c { n with span } := by
  cases h with
  | node hform htoken hchildren => exact .node hform htoken hchildren
  | faulty h =>
    refine .faulty fun hclean => h ?_
    unfold Node.Clean at hclean ⊢
    rw [Node.problems_eq] at hclean ⊢
    exact hclean

end Derives

end JavaObjC
