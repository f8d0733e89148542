import JavaObjC.Signature.ClassSignature
import JavaObjC.Proofs.Lowering.Drafts
import JavaObjC.Proofs.Trees.Forms

/-!
# Declarations, and constructs without a counterpart

A signature is read off the head of a declaration and then off its members one
by one. Members never change what the head gave, and methods and constructors
are listed in the order of the source, one for each that is declared.

Some nodes have no counterpart, and code is not generated from every node:
annotations are left out on purpose, and a few further places are passed over.
Types, names and modifiers hold no construct without a counterpart, so they need
not be looked at.
-/

namespace JavaObjC

/-- The members in the body of a type declaration. -/
def Node.members (n : Node) : List Node := ((n.child? .block).map Node.children).getD []

namespace MethodSignature

/-- The signature a method declaration gives. -/
def ofMethod (n : Node) : MethodSignature :=
  { name := declaredName n
    parameters := Parameter.ofDecl n
    result := ((resultNode n).map JavaType.ofNode).getD .unknown
    isStatic := (Modifiers.ofDecl n).isStatic }

/-- The signature a constructor declaration of a class gives. -/
def ofConstructor (owner : Text) (n : Node) : MethodSignature :=
  { name := owner, parameters := Parameter.ofDecl n, result := .named owner }

end MethodSignature

namespace ClassSignature

variable (s : ClassSignature) (nodes : List Node)

/-- A member does not change the name of its class. -/
@[simp] theorem addMember_name (n : Node) : (s.addMember n).name = s.name := by
  unfold addMember
  split <;> rfl

/-- A member does not change whether its class is an interface. -/
@[simp] theorem addMember_isInterface (n : Node) : (s.addMember n).isInterface = s.isInterface := by
  unfold addMember
  split <;> rfl

/-- Only a method adds to the methods. -/
theorem addMember_methods (n : Node) : (s.addMember n).methods =
    s.methods ++ if n.kind = .methodDecl then [.ofMethod n] else [] := by
  unfold addMember
  split <;> simp_all [addFields, addMethod, addConstructor, MethodSignature.ofMethod]

/-- Only a constructor adds to the constructors. -/
theorem addMember_constructors (n : Node) : (s.addMember n).constructors =
    s.constructors ++ if n.kind = .constructorDecl then [.ofConstructor s.name n] else [] := by
  unfold addMember
  split <;> simp_all [addFields, addMethod, addConstructor, MethodSignature.ofConstructor]

/-- No members change the name of their class. -/
@[simp] theorem addMembers_name : (nodes.foldl addMember s).name = s.name := by
  induction nodes generalizing s with
  | nil => rfl
  | cons n nodes ih => rw [List.foldl_cons, ih, addMember_name]

/-- No members change whether their class is an interface. -/
@[simp] theorem addMembers_isInterface :
    (nodes.foldl addMember s).isInterface = s.isInterface := by
  induction nodes generalizing s with
  | nil => rfl
  | cons n nodes ih => rw [List.foldl_cons, ih, addMember_isInterface]

/-- The methods of a class are those among its members, in their order. -/
theorem addMembers_methods : (nodes.foldl addMember s).methods =
    s.methods ++ (nodes.filter (·.kind = .methodDecl)).map .ofMethod := by
  induction nodes generalizing s with
  | nil => simp
  | cons n nodes ih =>
    rw [List.foldl_cons, ih, addMember_methods, List.filter_cons, List.append_assoc]
    by_cases hkind : n.kind = .methodDecl <;> simp [hkind]

/-- The constructors of a class are those among its members, in their order. -/
theorem addMembers_constructors : (nodes.foldl addMember s).constructors =
    s.constructors ++ (nodes.filter (·.kind = .constructorDecl)).map (.ofConstructor s.name) := by
  induction nodes generalizing s with
  | nil => simp
  | cons n nodes ih =>
    rw [List.foldl_cons, ih, addMember_constructors, addMember_name, List.filter_cons,
      List.append_assoc]
    by_cases hkind : n.kind = .constructorDecl <;> simp [hkind]

variable (decl : Node)

/-- The signature of a declaration is that of its head with its members added. -/
theorem ofDecl_eq : ofDecl decl = decl.members.foldl addMember (ofHead decl) := by
  unfold ofDecl Node.members
  cases decl.child? .block <;> rfl

/-- A signature has the name of its declaration. -/
@[simp] theorem ofDecl_name : (ofDecl decl).name = declaredName decl := by
  rw [ofDecl_eq, addMembers_name]
  rfl

/-- A signature is that of an interface exactly when its declaration is. -/
@[simp] theorem ofDecl_isInterface :
    (ofDecl decl).isInterface = decide (decl.kind = .interfaceDecl) := by
  rw [ofDecl_eq, addMembers_isInterface]
  rfl

/-- One method for each method declaration, in order. -/
theorem ofDecl_methods : (ofDecl decl).methods =
    (decl.members.filter (·.kind = .methodDecl)).map .ofMethod := by
  rw [ofDecl_eq, addMembers_methods]
  rfl

/-- One constructor for each constructor declaration, in order. -/
theorem ofDecl_constructors : (ofDecl decl).constructors =
    (decl.members.filter (·.kind = .constructorDecl)).map
      (.ofConstructor (declaredName decl)) := by
  rw [ofDecl_eq, addMembers_constructors]
  rfl

end ClassSignature

/-- What holds of a node if it holds of its children holds of every node. -/
theorem Node.induction {P : Node → Prop} (h : ∀ n : Node, (∀ m ∈ n.children, P m) → P n) :
    ∀ n : Node, P n
  | ⟨kind, span, token, problem, children⟩ => h _ fun m _ => Node.induction h m
termination_by n => sizeOf n
decreasing_by
  rename_i hm
  have hlt := List.sizeOf_lt_of_mem hm
  simp only [Node.mk.sizeOf_spec] at hlt ⊢
  omega

namespace Node

/-- A node that declares a type. -/
def isTypeDeclaration (n : Node) : Bool :=
  n.kind = .classDecl || n.kind = .interfaceDecl || n.kind = .enumDecl || n.kind = .annotationDecl

/-- An interface method that is marked `default` or `static`. -/
def isMarkedMethod (n : Node) : Bool :=
  n.kind = .methodDecl && ((Modifiers.ofDecl n).isDefault || (Modifiers.ofDecl n).isStatic)

/-- The node names `this` or `super` of an outer class. -/
def isQualifiedSelf (n : Node) : Bool :=
  n.children.getLast?.any fun last => last.kind = .thisRef || last.kind = .superRef

/-- A construct that has no counterpart. Of a `try` only the resources it declares count. -/
def isUntranslatable (n : Node) : Bool :=
  match n.kind with
  | .lambdaExpr | .methodRef | .localClassDecl | .enumDecl | .annotationDecl | .labeledStmt
  | .assertStmt => true
  | .newExpr => (n.child? .block).isSome
  | .newArrayExpr => (n.child? .arrayInit).isNone
  | .breakStmt | .continueStmt => !n.children.isEmpty
  | .tryStmt => (n.child? .localVarDecl).isSome
  | .literal => n.token.any (·.kind = .textBlock)
  | .fieldAccess => n.isQualifiedSelf
  | .instanceofExpr => (n.children[2]?).isSome
  | .methodDecl | .constructorDecl => (n.child? .typeParameters).isSome
  | .classDecl => n.members.any isTypeDeclaration
  | .interfaceDecl => n.members.any fun m => m.isTypeDeclaration || m.isMarkedMethod
  | .compilationUnit => 1 < (n.children.filter isTypeDeclaration).length
  | _ => false

/-- The kinds of the children that stand in the head of a method. -/
def headKinds : List NodeKind :=
  [.modifiers, .typeParameters, .type, .arrayType, .identifier, .parameters, .throwsList]

/-- The kinds of the children of a `try` that are looked at. -/
def tryKinds : List NodeKind := [.localVarDecl, .block, .catchClause, .finallyClause]

/-- The nodes below a node that are looked at. Passed over are annotations, the expressions given
to a `try` as resources, the lengths of a new array, the element of an array class, the body of a
method marked `abstract` and what a method has as its `default`. The field that a call names is not
looked at itself, but what stands in it is. -/
def visited (n : Node) : List Node :=
  match n.kind with
  | .annotationUse => []
  | .tryStmt => n.children.filter fun m => tryKinds.contains m.kind
  | .newArrayExpr => n.children.filter fun m => m.kind = .type || m.kind = .arrayInit
  | .classLiteral => n.children.filter fun m => m.kind ≠ .arrayType
  | .methodDecl => n.children.filter fun m =>
      headKinds.contains m.kind || (m.kind = .block && !(Modifiers.ofDecl n).isAbstract)
  | .callExpr =>
    match n.children with
    | target :: rest => (if target.kind = .fieldAccess then target.children else [target]) ++ rest
    | [] => []
  | _ => n.children

/-- A node that is looked at when another one is. -/
inductive Reached : Node → Node → Prop where
  | self (n : Node) : Reached n n
  | step {n m o : Node} (hm : m ∈ n.visited) (ho : Reached m o) : Reached n o

/-- Nothing that is looked at below a node is without a counterpart. -/
def Fine (n : Node) : Prop := ∀ m, Reached n m → m.isUntranslatable = false

/-- A tree is fine when its root is translatable and what is visited below it is fine. -/
theorem fine_iff (n : Node) :
    n.Fine ↔ n.isUntranslatable = false ∧ ∀ m ∈ n.visited, m.Fine := by
  constructor
  · exact fun h => ⟨h n (.self n), fun m hm o ho => h o (.step hm ho)⟩
  · rintro ⟨hn, hvisited⟩ m hm
    cases hm with
    | self => exact hn
    | step hm ho => exact hvisited _ hm _ ho

/-- The kinds of nodes that have a counterpart whatever their children are, and all of whose
children are looked at. -/
def isOpen (kind : NodeKind) : Bool :=
  match kind with
  | .lambdaExpr | .methodRef | .localClassDecl | .enumDecl | .annotationDecl | .labeledStmt
  | .assertStmt | .newExpr | .newArrayExpr | .breakStmt | .continueStmt | .tryStmt | .literal
  | .fieldAccess | .instanceofExpr | .methodDecl | .constructorDecl | .classDecl | .interfaceDecl
  | .compilationUnit | .annotationUse | .classLiteral | .callExpr => false
  | _ => true

/-- No open node is untranslatable by itself. -/
theorem isUntranslatable_of_isOpen {n : Node} (h : isOpen n.kind = true) :
    n.isUntranslatable = false := by
  unfold isOpen at h
  unfold isUntranslatable
  split at h <;> simp_all

/-- Of an open node every child is visited. -/
theorem visited_of_isOpen {n : Node} (h : isOpen n.kind = true) : n.visited = n.children := by
  unfold isOpen at h
  unfold visited
  split at h <;> simp_all

/-- Nodes of most kinds are fine if their children are. -/
theorem fine_of_isOpen {n : Node} (h : isOpen n.kind = true)
    (hchildren : ∀ m ∈ n.children, m.Fine) : n.Fine := by
  rw [fine_iff, visited_of_isOpen h]
  exact ⟨isUntranslatable_of_isOpen h, hchildren⟩

/-- Trees without error nodes have children without error nodes. -/
theorem Clean.child {n m : Node} (h : n.Clean) (hm : m ∈ n.children) : m.Clean := by
  unfold Clean at h ⊢
  rw [problems_eq, List.append_eq_nil_iff, List.flatMap_eq_nil_iff] at h
  exact h.2 m hm

end Node

namespace Category

/-- Categories in whose trees nothing has to be generated. -/
def plain : List Category :=
  [word, mark, qualifiedName, annotationUse, typeArgument, typeArguments, typePart, type,
   typeGroup, modifier, modifiers, parameter, parameters, selfReference, typeParameter,
   typeParameters, implementsList, throwsList, packageDecl, importDecl]

end Category

/-- The category of an item. -/
def Item.category : Item → Category
  | one c | optional c | many c => c

/-- Every tree in a row belongs to the category of one of the items. -/
theorem Matches.mem {items : List Item} {nodes : List Node} (h : Matches items nodes) {n : Node}
    (hn : n ∈ nodes) : ∃ item ∈ items, Derives item.category n := by
  induction items generalizing nodes with
  | nil =>
    rw [nil_iff] at h
    rw [h] at hn
    cases hn
  | cons item items ih =>
    have hlater : ∀ {rest : List Node}, Matches items rest → n ∈ rest →
        ∃ item' ∈ item :: items, Derives item'.category n := by
      intro rest hrest hn
      obtain ⟨item', hitem', hderives⟩ := ih hrest hn
      exact ⟨item', List.mem_cons_of_mem _ hitem', hderives⟩
    cases item with
    | one c =>
      obtain ⟨first, rest, rfl, hfirst, hrest⟩ := one_iff.1 h
      rcases List.mem_cons.1 hn with rfl | hn
      · exact ⟨_, List.mem_cons_self, hfirst⟩
      · exact hlater hrest hn
    | optional c =>
      rcases optional_iff.1 h with hrest | ⟨first, rest, rfl, hfirst, hrest⟩
      · exact hlater hrest hn
      · rcases List.mem_cons.1 hn with rfl | hn
        · exact ⟨_, List.mem_cons_self, hfirst⟩
        · exact hlater hrest hn
    | many c =>
      obtain ⟨front, rest, rfl, hfront, hrest⟩ := many_iff.1 h
      rcases List.mem_append.1 hn with hn | hn
      · exact ⟨_, List.mem_cons_self, hfront n hn⟩
      · exact hlater hrest hn

/-- Every tree in a row belongs to the category that all items have. -/
theorem Matches.all {c : Category} {items : List Item} {nodes : List Node}
    (h : Matches items nodes) (hitems : ∀ item ∈ items, item.category = c) :
    DerivesAll c nodes := by
  intro n hn
  obtain ⟨item, hitem, hderives⟩ := h.mem hn
  exact hitems item hitem ▸ hderives

/-- Nothing in the trees of plain categories is without a counterpart. -/
theorem Derives.fine_of_plain {c : Category} (hc : c ∈ Category.plain) {n : Node}
    (h : Derives c n) (hclean : n.Clean) : n.Fine := by
  have hforms : ∀ c ∈ Category.plain, ∀ f ∈ c.forms, f.kind = .annotationUse ∨
      Node.isOpen f.kind = true ∧ ∀ item ∈ f.items, item.category ∈ Category.plain := by
    decide
  induction n using Node.induction generalizing c with
  | h n ih =>
    obtain ⟨f, hf, hkind, -, hchildren⟩ := h.form hclean
    rcases hforms c hc f hf with huse | ⟨hopen, hitems⟩
    · rw [huse] at hkind
      rw [Node.fine_iff]
      simp [Node.isUntranslatable, Node.visited, hkind]
    · refine Node.fine_of_isOpen (hkind ▸ hopen) fun m hm => ?_
      obtain ⟨item, hitem, hderives⟩ := hchildren.mem hm
      exact ih m hm (hitems item hitem) hderives (hclean.child hm)

/-- A tree whose kind only the forms of another category have. -/
theorem Derives.of_kind {c c' : Category} {n : Node} (h : Derives c n) (hclean : n.Clean)
    (hforms : ∀ f ∈ c.forms, f.kind = n.kind → f ∈ c'.forms) : Derives c' n := by
  cases h with
  | node hform htoken hchildren => exact .node (hforms _ hform rfl) htoken hchildren
  | faulty h => exact absurd hclean h

/-- A tree belongs to every category that has the forms of its kind. -/
theorem Derives.of_kind_eq {c c' : Category} {n : Node} {kind : NodeKind} (h : Derives c n)
    (hclean : n.Clean) (hkind : n.kind = kind)
    (hforms : ∀ f ∈ c.forms, f.kind = kind → f ∈ c'.forms) : Derives c' n :=
  h.of_kind hclean fun f hf hf' => hforms f hf (hf'.trans hkind)

/-- Every node of a tree without error nodes stands in some place of the grammar. -/
theorem Derives.of_mem_walk (n : Node) : ∀ {c : Category}, Derives c n → n.Clean →
    ∀ m ∈ n.walk, m.Clean ∧ ∃ c', Derives c' m := by
  induction n using Node.induction with
  | h n ih =>
    intro c hn hclean m hm
    have hbelow : m = n ∨ ∃ child ∈ n.children, m ∈ child.walk := by
      obtain ⟨kind, span, token, problem, children⟩ := n
      simpa [Node.walk, Node.walkAll_eq_flatMap] using hm
    rcases hbelow with rfl | ⟨child, hchild, hm⟩
    · exact ⟨hclean, c, hn⟩
    · obtain ⟨f, -, -, -, hitems⟩ := hn.form hclean
      obtain ⟨item, -, hderives⟩ := hitems.mem hchild
      exact ih child hchild hderives (hclean.child hchild) m hm

/-- The kind of a tree is that of a form of its category. -/
theorem Derives.kind_mem {c : Category} {n : Node} (h : Derives c n) (hclean : n.Clean) :
    n.kind ∈ c.forms.map Form.kind := by
  obtain ⟨f, hf, hkind, -, -⟩ := h.form hclean
  exact hkind ▸ List.mem_map_of_mem hf

/-- The kind of a tree and the category of its children, when all forms of its category agree. -/
theorem Derives.uniform {c c' : Category} {n : Node} {kind : NodeKind} (h : Derives c n)
    (hclean : n.Clean)
    (hforms : ∀ f ∈ c.forms, f.kind = kind ∧ ∀ item ∈ f.items, item.category = c') :
    n.kind = kind ∧ DerivesAll c' n.children := by
  obtain ⟨f, hf, hkind, -, hitems⟩ := h.form hclean
  exact ⟨hkind.trans (hforms f hf).1, hitems.all (hforms f hf).2⟩

/-- A kind that no form of a category has. -/
theorem Derives.kind_ne {c : Category} {n : Node} {kind : NodeKind} (h : Derives c n)
    (hclean : n.Clean) (hforms : kind ∉ c.forms.map Form.kind) : n.kind ≠ kind :=
  fun hkind => hforms (hkind ▸ h.kind_mem hclean)

namespace Generating

variable {σ α β : Type}

/-- An action that gives a result only if something holds. -/
def Assures (x : Generating σ α) (p : Prop) : Prop := Leads (fun _ => True) x fun _ _ => p

namespace Assures

variable {p q : Prop} {x : Generating σ α} {f : α → Generating σ β}

theorem of_true (h : p) : Assures x p := fun _ _ _ _ _ _ => h

theorem imp (h : Assures x p) (hpq : p → q) : Assures x q := Leads.mono h fun _ _ => hpq

/-- Two things that are assured are assured together. -/
theorem and (hp : Assures x p) (hq : Assures x q) : Assures x (p ∧ q) :=
  fun around s a s' hs h => ⟨hp around s a s' hs h, hq around s a s' hs h⟩

theorem refused (r : Refusal) : Assures (throw r : Generating σ α) p := Leads.refused r

/-- What the first of two actions assures. -/
theorem first (h : Assures x p) : Assures (x >>= f) p :=
  Leads.bind (Q := fun _ _ => p) h fun _ _ _ _ _ hp _ => hp

/-- What the second of two actions assures. -/
theorem second (h : ∀ a, Assures (f a) p) : Assures (x >>= f) p :=
  Leads.bind (Q := fun _ _ => True) (fun _ _ _ _ _ _ => trivial) h

/-- Changing the answer does not change what is assured. -/
theorem map (h : Assures x p) (g : α → β) : Assures (g <$> x) p := by
  rw [map_eq_pure_bind]
  exact h.first

/-- A choice assures what both of its actions do. -/
theorem ite {y : Generating σ α} {b : Prop} [Decidable b] (yes : b → Assures x p)
    (no : ¬ b → Assures y p) : Assures (if b then x else y) p := Leads.ite yes no

/-- What every step of a list of actions assures. -/
theorem mapM {l : List α} {f : α → Generating σ β} {P : α → Prop}
    (h : ∀ a ∈ l, Assures (f a) (P a)) : Assures (l.mapM f) (∀ a ∈ l, P a) := by
  induction l with
  | nil => exact of_true (by simp)
  | cons a l ih =>
    rw [List.forall_mem_cons] at h
    rw [List.mapM_cons]
    refine imp (and h.1.first (second fun _ => (ih h.2).first)) fun hall => ?_
    exact List.forall_mem_cons.2 hall

/-- An action on every member assures something of each. -/
theorem foldlM {l : List α} {f : β → α → Generating σ β} {P : α → Prop}
    (h : ∀ b, ∀ a ∈ l, Assures (f b a) (P a)) (b : β) :
    Assures (l.foldlM f b) (∀ a ∈ l, P a) := by
  induction l generalizing b with
  | nil => exact of_true (by simp)
  | cons a l ih =>
    rw [List.foldlM_cons]
    have hrest : ∀ b, ∀ a ∈ l, Assures (f b a) (P a) := fun b a ha =>
      h b a (List.mem_cons_of_mem _ ha)
    refine imp (and (h b a List.mem_cons_self).first (second fun b => ih hrest b)) fun hall => ?_
    exact List.forall_mem_cons.2 hall

/-- Actions in a row assure something of each member. -/
theorem forM {l : List α} {f : α → Generating σ PUnit} {P : α → Prop}
    (h : ∀ a ∈ l, Assures (f a) (P a)) : Assures (l.forM f) (∀ a ∈ l, P a) := by
  induction l with
  | nil => exact of_true (by simp)
  | cons a l ih =>
    rw [List.forall_mem_cons] at h
    refine imp (and h.1.first (second fun _ => ih h.2)) fun hall => ?_
    exact List.forall_mem_cons.2 hall

end Assures

end Generating

open Generating

variable {α : Type} {p : Prop}

/-- A scope does not change what is assured. -/
theorem Lower.withScope_assures {x : Lower α} (h : Assures x p) :
    Assures (Lower.withScope x) p := by
  intro around s a s' _ hresult
  have hinner : (x.run' around { s with scopes := [] :: s.scopes }).1 = .ok a :=
    congrArg Prod.fst hresult
  exact h around _ a _ trivial (Prod.ext hinner rfl)

/-- A refused construct assures everything. -/
theorem Lower.refuse_assures (construct : Text) (n : Node) :
    Assures (Lower.refuse construct n : Lower α) p := .refused _

/-- A refusal at an attributed node assures everything. -/
theorem Attributed.refuse_assures (a : Attributed) (construct : Text) :
    Assures (a.refuse construct : Lower α) p := .refused _

/-- A refused member assures everything. -/
theorem Drafting.refuse_assures (construct : Text) (n : Node) :
    Assures (Drafting.refuse construct n : Drafting α) p := .refused _

/-- What the action of a body assures, its generation does. -/
theorem Drafting.generate_assures {setting : Surroundings → Surroundings} {x : Lower α}
    (h : Assures x p) : Assures (Drafting.generate setting x) p := by
  intro around d a d' _ hresult
  have hinner : (x.run' (setting (Drafting.surroundings around d))
      { references := d.references, scopes := [[]] }).1 = .ok a := congrArg Prod.fst hresult
  exact h _ _ a _ trivial (Prod.ext hinner rfl)

end JavaObjC
