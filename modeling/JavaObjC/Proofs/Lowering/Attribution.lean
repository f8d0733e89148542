import JavaObjC.Lowering.Members
import JavaObjC.Proofs.Reading.Likeness
import JavaObjC.Lowering.Attributed
import JavaObjC.Proofs.Lowering.Agreement

/-!
# Attributed trees up to places

Types, modifiers, parameters and signatures are read off a tree without
looking at the places of its nodes: each reads the same off the erased tree.
So they are the same for two trees that erase to the same one.

Two attributed trees are alike when their nodes are the same without places
and fit their kinds, their parts are alike, and their meanings agree. What is
asked of a tree's parts is then answered alike on both sides, and every part
that the kind of a node promises is there.
-/

namespace JavaObjC

section Erasure

open Node

/-- The first child of a kind, without its places. -/
theorem Node.erase_child? (n : Node) (kind : NodeKind) :
    n.erase.child? kind = (n.child? kind).map erase := by
  simp only [child?, erase_children, List.find?_map, Function.comp_def, erase_kind]

/-- The children of a kind, without their places. -/
theorem Node.erase_childrenOf (n : Node) (kind : NodeKind) :
    n.erase.childrenOf kind = (n.childrenOf kind).map erase := by
  simp only [childrenOf, erase_children, List.filter_map, Function.comp_def, erase_kind]

/-- A text that is read off the first child of a kind. -/
theorem Node.child?_map_erase {α : Type} {f : Node → α} (hf : ∀ n, f n.erase = f n) (n : Node)
    (kind : NodeKind) : (n.erase.child? kind).map f = (n.child? kind).map f := by
  rw [erase_child?, Option.map_map]
  exact congrArg (Option.map · _) (funext hf)

/-- A qualified name does not depend on places. -/
@[simp] theorem qualifiedText_erase (n : Node) : qualifiedText n.erase = qualifiedText n := by
  simp only [qualifiedText, erase_kind, erase_literal, erase_children, List.map_map,
    Function.comp_def]

namespace JavaType

/-- The type a node stands for does not depend on places. -/
theorem erasure :
    (∀ n : Node, ofNode n.erase = ofNode n) ∧
      (∀ names arguments nodes,
        ofParts names arguments (eraseAll nodes) = ofParts names arguments nodes) ∧
      ∀ nodes, ofAll (eraseAll nodes) = ofAll nodes := by
  apply ofNode.mutual_induct
  case case1 =>
    intro span token problem
    rfl
  case case2 =>
    intro span token problem element more ih
    simp only [erase, eraseAll, ofNode, ih]
  case case3 =>
    intro span token problem first bound ih
    simp only [erase, eraseAll, ofNode, ih]
  case case4 =>
    intro span token problem children hchildren
    -- a wildcard without exactly two children, which the erased one has not either
    rcases children with _ | ⟨first, _ | ⟨bound, _ | ⟨next, more⟩⟩⟩
    · rfl
    · rfl
    · exact absurd rfl (hchildren first bound)
    · rfl
  case case5 =>
    intro span word problem children
    rfl
  case case6 =>
    intro kind span token problem children harray harray' _ hwild hword ih
    have hkind : kind ≠ .arrayType := by
      rintro rfl
      cases children with
      | nil => exact harray rfl rfl
      | cons element more => exact harray' element more rfl rfl
    have herased : ∀ word, kind = .type → token.map Token.erase = some word → False := by
      intro word hk ht
      obtain ⟨word', hword', -⟩ := Option.map_eq_some_iff.1 ht
      exact hword word' hk hword'
    rw [erase, ofNode, ih, ofNode]
    all_goals first | assumption | exact fun _ _ h => absurd h hwild | simp [hkind]
  case case7 =>
    intro names arguments
    rfl
  case case8 =>
    intro names arguments s t p c rest ih
    have hliteral := erase_literal ⟨.identifier, s, t, p, c⟩
    rw [erase] at hliteral
    rw [eraseAll, erase, ofParts, hliteral, ih, ofParts]
  case case9 =>
    intro names arguments s t p c rest ih
    have htext := qualifiedText_erase ⟨.qualifiedName, s, t, p, c⟩
    rw [erase] at htext
    rw [eraseAll, erase, ofParts, htext, ih, ofParts]
  case case10 =>
    intro names arguments span token problem given rest ihgiven ih
    rw [eraseAll, erase, ofParts, ihgiven, ih, ofParts]
  case case11 =>
    intro names arguments s t p c rest hnames ih
    rw [erase] at ih
    rw [eraseAll, erase, ofParts, if_pos hnames, ih, ofParts, if_pos hnames]
  case case12 =>
    intro names arguments s t p c rest hnames ih
    rw [eraseAll, erase, ofParts, if_neg hnames, ih, ofParts, if_neg hnames]
  case case13 =>
    intro names arguments s t p c rest hnames ih
    rw [erase] at ih
    rw [eraseAll, erase, ofParts, if_pos hnames, ih, ofParts, if_pos hnames]
  case case14 =>
    intro names arguments s t p c rest hnames ih
    rw [eraseAll, erase, ofParts, if_neg hnames, ih, ofParts, if_neg hnames]
  case case15 =>
    intro names arguments kind span token problem children rest h₁ h₂ h₃ h₄ h₅ ih
    rw [eraseAll, erase, ofParts, ih, ofParts]
    all_goals assumption
  case case16 => rfl
  case case17 =>
    intro n rest ihn ih
    rw [eraseAll, ofAll, ihn, ih, ofAll]

@[simp] theorem ofNode_erase (n : Node) : ofNode n.erase = ofNode n := erasure.1 n

/-- A type that may be missing is the same without places. -/
@[simp] theorem ofNode?_erase (n : Option Node) : ofNode? (n.map erase) = ofNode? n := by
  cases n with
  | none => rfl
  | some n => simp only [ofNode?, Option.map_some, ofNode_erase]

end JavaType

/-- A modifier is read by its word or its annotation. -/
@[simp] theorem Modifiers.addNode_erase (m : Modifiers) (n : Node) :
    m.addNode n.erase = m.addNode n := by
  simp only [addNode, erase_kind, erase_literal, child?_map_erase qualifiedText_erase]

/-- The modifiers of a list do not depend on places. -/
@[simp] theorem Modifiers.ofNode_erase (n : Node) : Modifiers.ofNode n.erase = .ofNode n := by
  simp only [ofNode, erase_children, List.foldl_map, addNode_erase]

/-- The modifiers of a declaration do not depend on places. -/
@[simp] theorem Modifiers.ofDecl_erase (n : Node) : Modifiers.ofDecl n.erase = .ofDecl n := by
  simp only [ofDecl, child?_map_erase ofNode_erase]

/-- The name of a declaration does not depend on places. -/
@[simp] theorem declaredName_erase (n : Node) : declaredName n.erase = declaredName n := by
  simp only [declaredName, child?_map_erase erase_literal]

/-- The node of a result type is found by its kind and its neighbours. -/
theorem resultNode_erase (n : Node) : resultNode n.erase = (resultNode n).map erase := by
  simp only [resultNode, erase_child?]
  cases n.child? .type <;> rfl

namespace Parameter

/-- A part of a parameter is read by its kind. -/
@[simp] theorem addNode_erase (p : Parameter × Bool) (n : Node) :
    addNode p n.erase = addNode p n := by
  simp only [addNode, erase_kind, erase_literal, JavaType.ofNode_erase]

/-- A parameter is read the same without places. -/
@[simp] theorem ofNode_erase (n : Node) : Parameter.ofNode n.erase = .ofNode n := by
  simp only [ofNode, erase_children, List.foldl_map, addNode_erase]

/-- The parameters of a declaration are read the same without places. -/
@[simp] theorem ofDecl_erase (n : Node) : Parameter.ofDecl n.erase = Parameter.ofDecl n := by
  simp only [ofDecl, erase_child?]
  cases n.child? .parameters with
  | none => rfl
  | some list =>
    simp only [Option.map_some, erase_childrenOf, List.map_map, Function.comp_def, ofNode_erase]

end Parameter

namespace ClassSignature

/-- The type parameters of a declaration are read by name. -/
@[simp] theorem typeParameterNames_erase (n : Node) :
    typeParameterNames n.erase = typeParameterNames n := by
  simp only [typeParameterNames, erase_children, List.filterMap_map, Function.comp_def,
    erase_child?, erase_kind, erase_literal]
  refine congrArg (List.filterMap · _) (funext fun p => ?_)
  cases p.child? .identifier with
  | none => rfl
  | some label => simp

/-- A member changes a signature the same without places. -/
@[simp] theorem addMember_erase (s : ClassSignature) (n : Node) :
    s.addMember n.erase = s.addMember n := by
  have hfields : s.addFields n.erase = s.addFields n := by
    simp only [addFields, erase_children, List.getElem?_map, JavaType.ofNode?_erase,
      Modifiers.ofDecl_erase, erase_childrenOf, List.map_map, Function.comp_def,
      declaredName_erase]
  have hmethod : s.addMethod n.erase = s.addMethod n := by
    simp only [addMethod, declaredName_erase, Parameter.ofDecl_erase, resultNode_erase,
      Option.map_map, Function.comp_def, JavaType.ofNode_erase, Modifiers.ofDecl_erase]
  have hconstructor : s.addConstructor n.erase = s.addConstructor n := by
    simp only [addConstructor, Parameter.ofDecl_erase]
  simp only [addMember, erase_kind, hfields, hmethod, hconstructor]

/-- The types a declaration implements are found by kind. -/
theorem implementedNodes_erase (decl : Node) :
    implementedNodes decl.erase = (implementedNodes decl).map erase := by
  simp only [implementedNodes, erase_child?]
  cases decl.child? .implementsList with
  | none => rfl
  | some list => exact erase_childrenOf list .type

/-- Simple names of types do not depend on places. -/
@[simp] theorem simpleTypeNames_map_erase (nodes : List Node) :
    simpleTypeNames (nodes.map erase) = simpleTypeNames nodes := by
  simp only [simpleTypeNames, List.map_map, Function.comp_def, JavaType.ofNode_erase]

/-- The head of a signature does not depend on places. -/
@[simp] theorem ofHead_erase (decl : Node) : ofHead decl.erase = ofHead decl := by
  have hbase := child?_map_erase (f := fun n => (JavaType.ofNode n).simple) (by simp) decl .type
  have hinterfaces : simpleTypeNames (if decl.kind = .classDecl then
      (implementedNodes decl).map erase else (decl.childrenOf .type).map erase) =
      simpleTypeNames (if decl.kind = .classDecl then implementedNodes decl
        else decl.childrenOf .type) := by
    split <;> exact simpleTypeNames_map_erase _
  simp only [ofHead, declaredName_erase, erase_kind, hbase, implementedNodes_erase,
    erase_childrenOf, hinterfaces, child?_map_erase typeParameterNames_erase]

/-- The signature of a declaration does not depend on places. -/
@[simp] theorem ofDecl_erase (decl : Node) : ClassSignature.ofDecl decl.erase = .ofDecl decl := by
  simp only [ofDecl, erase_child?, ofHead_erase]
  cases decl.child? .block with
  | none => rfl
  | some body => simp only [Option.map_some, erase_children, List.foldl_map, addMember_erase]

end ClassSignature

/-- The type a unit is about is found by kind and modifiers. -/
theorem primaryType?_erase (unit : Node) :
    primaryType? unit.erase = (primaryType? unit).map erase := by
  simp only [primaryType?, erase_children, List.find?_map, Function.comp_def, erase_kind]

/-- The class that a unit declares does not depend on places. -/
theorem Registry.declareUnit_erase (r : Registry) (unit : Node) :
    r.declareUnit unit.erase = r.declareUnit unit := by
  have hsignature : unitSignature? unit.erase = unitSignature? unit := by
    simp only [unitSignature?, primaryType?_erase]
    cases primaryType? unit with
    | none => rfl
    | some decl => simp only [Option.map_some, erase_kind, ClassSignature.ofDecl_erase]
  rw [declareUnit, hsignature, declareUnit]

namespace Lowering

/-- Whether an initial value is a literal does not depend on places. -/
@[simp] theorem isLiteral_erase (n : Node) : isLiteral n.erase = isLiteral n := by
  fun_induction isLiteral n with
  | case1 => rfl
  | case2 span token problem inner more ih => rw [erase, eraseAll, isLiteral, ih]
  | case3 span token problem sign operand =>
    rw [erase, eraseAll, eraseAll, eraseAll, isLiteral, erase_kind, erase_literal]
  | case4 n hliteral hparen hsigned =>
    obtain ⟨kind, span, token, problem, children⟩ := n
    rw [erase, eraseAll_eq_map, isLiteral]
    · intro _ _ _ _ heq
      cases heq
      exact hliteral _ _ _ _ rfl
    · intro _ _ _ inner more heq
      simp only [Node.mk.injEq, List.map_eq_cons_iff] at heq
      obtain ⟨rfl, -, -, -, inner', more', rfl, -, -⟩ := heq
      exact hparen _ _ _ _ _ rfl
    · intro _ _ _ sign operand heq
      simp only [Node.mk.injEq, List.map_eq_cons_iff, List.map_eq_nil_iff] at heq
      obtain ⟨rfl, -, -, -, sign', _, rfl, -, operand', _, rfl, -, rfl⟩ := heq
      exact hsigned _ _ _ _ _ rfl

end Lowering

end Erasure

open Generating

/-- Meanings that agree. The operands of a sum are never none. -/
structure Meaning.Agrees (m m' : Meaning) : Prop where
  value : Generating.Agrees Eq m.value m'.value
  operands : Generating.Agrees (fun x y => x = y ∧ x.1 ≠ []) m.operands m'.operands
  array : ∀ t, Generating.Agrees Eq (m.array t) (m'.array t)
  statements : Generating.Agrees Eq m.statements m'.statements

/-- Attributed trees that differ in places only, each of whose nodes fits its kind. -/
inductive Attributed.Alike : Attributed → Attributed → Prop where
  | intro {a b : Attributed} (erase_eq : a.node.erase = b.node.erase) (fits : a.node.Fits)
    (nodes : a.children.map Attributed.node = a.node.children)
    (parts : List.Forall₂ Alike a.children b.children)
    (meaning : a.meaning.Agrees b.meaning) : Alike a b

/-- Parts that are alike one by one. -/
abbrev Parts.Alike (parts parts' : Parts) : Prop := List.Forall₂ Attributed.Alike parts parts'

/-- A node with attributed parts on both sides. -/
structure Pieces (n m : Node) (parts parts' : Parts) : Prop where
  erase_eq : n.erase = m.erase
  fits : n.Fits
  nodes : parts.map Attributed.node = n.children
  parts : Parts.Alike parts parts'

namespace Attributed.Alike

variable {a b : Attributed}

theorem meaning (h : Alike a b) : a.meaning.Agrees b.meaning := by
  cases h
  assumption

/-- The node and the parts of an attributed tree. -/
theorem pieces (h : Alike a b) : Pieces a.node b.node a.parts b.parts := by
  cases h with
  | intro erase_eq fits nodes parts _ => exact ⟨erase_eq, fits, nodes, parts⟩

/-- Alike trees have roots of one kind. -/
theorem kind_eq (h : Alike a b) : b.kind = a.kind := by
  rw [Attributed.kind, ← Node.erase_kind, ← h.pieces.erase_eq, Node.erase_kind, Attributed.kind]

/-- Alike trees have roots of one text. -/
theorem literal_eq (h : Alike a b) : b.literal = a.literal := by
  rw [Attributed.literal, ← Node.erase_literal, ← h.pieces.erase_eq, Node.erase_literal,
    Attributed.literal]

/-- Alike trees stand for one type. -/
theorem type_eq (h : Alike a b) : b.type = a.type := by
  rw [Attributed.type, ← JavaType.ofNode_erase, ← h.pieces.erase_eq, JavaType.ofNode_erase,
    Attributed.type]

theorem value (h : Alike a b) : Agrees Eq a.value b.value := h.meaning.value

theorem statements (h : Alike a b) : Agrees Eq a.statements b.statements := h.meaning.statements

/-- Both refuse the same construct. -/
theorem refuse {α β : Type} {R : α → β → Prop} {construct construct' : Text}
    (h : construct = construct') :
    Agrees R (a.refuse construct : Lower α) (b.refuse construct' : Lower β) := .refused h

end Attributed.Alike

section Corresponding

variable {α β : Type} {R : α → β → Prop} {l : List α} {m : List β}

/-- The items at the same place of corresponding lists. -/
theorem rel_getElem? (h : List.Forall₂ R l m) (i : Nat) : Option.Rel R l[i]? m[i]? := by
  induction h generalizing i with
  | nil => exact .none
  | cons hab _ ih =>
    cases i with
    | zero => exact .some hab
    | succ i => simpa using ih i

/-- The last items of corresponding lists correspond. -/
theorem rel_getLast? (h : List.Forall₂ R l m) : Option.Rel R l.getLast? m.getLast? := by
  rw [List.getLast?_eq_getElem?, List.getLast?_eq_getElem?, ← h.length_eq]
  exact rel_getElem? h _

/-- Corresponding lists correspond without their last items. -/
theorem forall₂_dropLast (h : List.Forall₂ R l m) : List.Forall₂ R l.dropLast m.dropLast := by
  rw [List.dropLast_eq_take, List.dropLast_eq_take, ← h.length_eq]
  exact List.forall₂_take _ h

/-- The first items that pass tests on which corresponding items agree. -/
theorem rel_find? {p : α → Bool} {q : β → Bool} (h : List.Forall₂ R l m)
    (hpq : ∀ {a b}, R a b → q b = p a) : Option.Rel R (l.find? p) (m.find? q) := by
  induction h with
  | nil => exact .none
  | cons hab _ ih =>
    rw [List.find?_cons, List.find?_cons, hpq hab]
    split
    · exact .some hab
    · exact ih

end Corresponding

namespace Parts.Alike

variable {parts parts' : Parts}

variable (h : Alike parts parts')

include h

theorem getElem? (i : Nat) : Option.Rel Attributed.Alike parts[i]? parts'[i]? := rel_getElem? h i

theorem getLast? : Option.Rel Attributed.Alike parts.getLast? parts'.getLast? := rel_getLast? h

theorem dropLast : Alike parts.dropLast parts'.dropLast :=
  forall₂_dropLast h

/-- A part within the list is there on both sides. -/
theorem child {i : Nat} (hi : i < parts.length) :
    Agrees Attributed.Alike (parts.child i) (parts'.child i) :=
  Lower.require_agrees (h.getElem? i) (by simpa using hi)

/-- The values of the parts at a place within the list are equal. -/
theorem valueAt {i : Nat} (hi : i < parts.length) :
    Agrees Eq (parts.valueAt i) (parts'.valueAt i) :=
  (h.child hi).bind fun _ _ hab => hab.value

/-- The first parts that satisfy a test of the kind are alike. -/
theorem find? (test : NodeKind → Bool) :
    Option.Rel Attributed.Alike (List.find? (fun a => test a.kind) parts)
    (List.find? (fun a => test a.kind) parts') := rel_find? h fun hab => by rw [hab.kind_eq]

/-- The first parts of a kind are alike. -/
theorem first? (kind : NodeKind) :
    Option.Rel Attributed.Alike (parts.first? kind) (parts'.first? kind) :=
  h.find? fun k => k = kind

/-- The parts of a kind are alike. -/
theorem ofKind (kind : NodeKind) : Alike (parts.ofKind kind) (parts'.ofKind kind) := by
  induction h with
  | nil => exact .nil
  | cons hab _ ih =>
    rw [Parts.ofKind, Parts.ofKind, List.filter_cons, List.filter_cons, hab.kind_eq]
    split
    · exact .cons hab ih
    · exact ih

/-- Alike parts stand for the same types. -/
theorem map_type : parts'.map Attributed.type = parts.map Attributed.type := by
  induction h with
  | nil => rfl
  | cons hab _ ih => rw [List.map_cons, List.map_cons, hab.type_eq, ih]

/-- Alike parts have the same name among them. -/
theorem name_eq : parts'.name = parts.name := by
  have hfirst := h.first? .identifier
  rw [Parts.name, Parts.name]
  generalize parts.first? .identifier = a at hfirst ⊢
  generalize parts'.first? .identifier = b at hfirst ⊢
  cases hfirst with
  | none => rfl
  | some hab => simp [hab.literal_eq]

/-- The arguments are equal values, one for each part of the argument list. -/
theorem arguments :
    Agrees
    (fun x y => x = y ∧ x.length = (((parts.first? .parameters).map Attributed.parts).getD []).length)
    parts.arguments parts'.arguments := by
  have hfirst := h.first? .parameters
  rw [Parts.arguments, Parts.arguments]
  generalize parts.first? .parameters = a at hfirst ⊢
  generalize parts'.first? .parameters = b at hfirst ⊢
  cases hfirst with
  | none => exact .pure ⟨rfl, rfl⟩
  | some hab => exact .mapM_eq hab.pieces.parts fun _ _ hab => hab.value

end Parts.Alike

namespace Pieces

variable {n m : Node} {parts parts' : Parts}

/-- Two nodes that differ in places only have one kind. -/
theorem kind_eq (h : Pieces n m parts parts') : m.kind = n.kind := by
  rw [← Node.erase_kind, ← h.erase_eq, Node.erase_kind]

/-- Two nodes that differ in places only have one text. -/
theorem literal_eq (h : Pieces n m parts parts') : m.literal = n.literal := by
  rw [← Node.erase_literal, ← h.erase_eq, Node.erase_literal]

/-- There are as many parts as the kind of the node asks for. -/
theorem least (h : Pieces n m parts parts') {kind : NodeKind} (hkind : n.kind = kind) :
    kind.leastChildren ≤ parts.length := by
  have hfits := h.fits.least
  rwa [hkind, ← h.nodes, List.length_map] at hfits

/-- The part at a place that the kind of the node promises. -/
theorem child (h : Pieces n m parts parts') {kind : NodeKind} (hkind : n.kind = kind) (i : Nat)
    (hi : i < kind.leastChildren) :
    Agrees Attributed.Alike (parts.child i) (parts'.child i) :=
  h.parts.child (Nat.lt_of_lt_of_le hi (h.least hkind))

/-- The expression at a place that the kind of the node promises. -/
theorem valueAt (h : Pieces n m parts parts') {kind : NodeKind} (hkind : n.kind = kind) (i : Nat)
    (hi : i < kind.leastChildren) : Agrees Eq (parts.valueAt i) (parts'.valueAt i) :=
  h.parts.valueAt (Nat.lt_of_lt_of_le hi (h.least hkind))

/-- The last part, when the kind of the node promises one. -/
theorem lastChild (h : Pieces n m parts parts') {kind : NodeKind} (hkind : n.kind = kind)
    (hi : 0 < kind.leastChildren) :
    Agrees Attributed.Alike parts.lastChild parts'.lastChild := by
  refine Lower.require_agrees h.parts.getLast? ?_
  have hleast := h.least hkind
  rw [List.getLast?_isSome]
  rintro rfl
  rw [List.length_nil] at hleast
  omega

/-- A part that the kind of the node requires. -/
theorem required (h : Pieces n m parts parts') {kind : NodeKind} (hkind : n.kind = kind)
    {part : NodeKind} (hpart : part ∈ kind.requiredParts) : (parts.first? part).isSome := by
  have hfits := h.fits.required part (by rw [hkind]; exact hpart)
  rw [Node.child?, ← h.nodes, List.find?_map, Option.isSome_map] at hfits
  exact hfits

/-- Both refuse the same construct. -/
theorem refuse {α β : Type} {R : α → β → Prop} {construct construct' : Text}
    (h : construct = construct') :
    Agrees R (Lower.refuse construct n : Lower α) (Lower.refuse construct' m : Lower β) :=
  .refused h

/-- Both refuse a node of the same kind. -/
theorem refuseKind {α β : Type} {R : α → β → Prop} (h : Pieces n m parts parts') :
    Agrees R (Lower.refuseKind n : Lower α) (Lower.refuseKind m : Lower β) :=
  .refused (by rw [h.kind_eq])

end Pieces

namespace Attributed

variable {meaning : Node → Parts → Meaning}

theorem ofNode_node (n : Node) : (ofNode meaning n).node = n := by
  cases n
  rfl

/-- Attributed trees keep their nodes. -/
theorem ofAll_nodes (nodes : List Node) : (ofAll meaning nodes).map Attributed.node = nodes := by
  induction nodes with
  | nil => rfl
  | cons n rest ih => rw [ofAll, List.map_cons, ofNode_node, ih]

mutual

/-- A meaning that agrees on alike nodes with alike parts makes whole trees alike. -/
theorem alike_ofNode (hmeaning : ∀ n m parts parts', Pieces n m parts parts' →
      (meaning n parts).Agrees (meaning m parts')) :
    ∀ n m : Node, n.erase = m.erase → n.Shaped → Alike (ofNode meaning n) (ofNode meaning m)
  | ⟨kind, span, token, problem, children⟩, ⟨kind', span', token', problem', children'⟩,
      herase, hshaped => by
    obtain ⟨hfits, hchildren⟩ := (Node.shaped_iff _).1 hshaped
    have hparts := alike_ofAll hmeaning children children'
      (by simpa using congrArg Node.children herase) hchildren
    have hpieces : Pieces ⟨kind, span, token, problem, children⟩
        ⟨kind', span', token', problem', children'⟩ (ofAll meaning children)
        (ofAll meaning children') := ⟨herase, hfits, ofAll_nodes children, hparts⟩
    exact .intro herase hfits (ofAll_nodes children) hparts (hmeaning _ _ _ _ hpieces)

/-- Trees that are the same without places have alike attributed trees. -/
theorem alike_ofAll (hmeaning : ∀ n m parts parts', Pieces n m parts parts' →
      (meaning n parts).Agrees (meaning m parts')) :
    ∀ nodes nodes' : List Node, nodes.map Node.erase = nodes'.map Node.erase →
      (∀ n ∈ nodes, n.Shaped) → Parts.Alike (ofAll meaning nodes) (ofAll meaning nodes')
  | [], [], _, _ => .nil
  | [], _ :: _, herase, _ => by simp at herase
  | _ :: _, [], herase, _ => by simp at herase
  | n :: rest, m :: rest', herase, hshaped => by
    rw [List.map_cons, List.map_cons, List.cons.injEq] at herase
    rw [List.forall_mem_cons] at hshaped
    exact .cons (alike_ofNode hmeaning n m herase.1 hshaped.1)
      (alike_ofAll hmeaning rest rest' herase.2 hshaped.2)

end

end Attributed

end JavaObjC
