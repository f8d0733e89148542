import JavaObjC.Proofs.Coverage.Constructs

/-!
# What generating code looks at

Code for a node is generated only if nothing that is looked at below it is
without a counterpart. This holds for expressions and statements because a
construct without a counterpart is refused where it is met, and because the
forms of the grammar leave no room for parts that the generator would skip
without noticing, apart from the places that are passed over.
-/

namespace JavaObjC

open Generating

namespace Attributed

variable {meaning : Node → Parts → Meaning}

/-- Attributing nodes one after another is attributing each of them. -/
theorem ofAll_eq_map (nodes : List Node) : ofAll meaning nodes = nodes.map (ofNode meaning) := by
  induction nodes with
  | nil => rfl
  | cons n nodes ih => rw [ofAll, ih, List.map_cons]

/-- A node, what it means and its attributed children. -/
theorem ofNode_eq (n : Node) : ofNode meaning n =
    ⟨n, meaning n (n.children.map (ofNode meaning)), n.children.map (ofNode meaning)⟩ := by
  obtain ⟨kind, span, token, problem, children⟩ := n
  rw [ofNode, ofAll_eq_map]

end Attributed

namespace Lowering

section Attributes

/-- An attributed node has its meaning over its attributed children. -/
theorem attributed_eq (n : Node) :
    attributed n =
      ⟨n, meaning n (n.children.map attributed), n.children.map attributed⟩ :=
  Attributed.ofNode_eq n

/-- An attributed node keeps its kind. -/
@[simp] theorem attributed_kind (n : Node) : (attributed n).kind = n.kind := by
  rw [attributed_eq]
  rfl

/-- An attributed node keeps its text. -/
@[simp] theorem attributed_literal (n : Node) : (attributed n).literal = n.literal := by
  rw [attributed_eq]
  rfl

/-- The parts of an attributed node are its attributed children. -/
@[simp] theorem attributed_parts (n : Node) :
    (attributed n).parts = n.children.map attributed := by
  rw [attributed_eq]
  rfl

/-- The value of an attributed node is that of its kind of expression. -/
@[simp] theorem attributed_value (n : Node) :
    (attributed n).value = expression n (n.children.map attributed) := by
  rw [attributed_eq]
  rfl

/-- The operands of an attributed node are those of a left end of a sum. -/
@[simp] theorem attributed_operands (n : Node) :
    (attributed n).meaning.operands = leftOperands n (n.children.map attributed) := by
  rw [attributed_eq]
  rfl

/-- The array of an attributed node is that of its elements. -/
@[simp] theorem attributed_array (n : Node) (t : JavaType) :
    (attributed n).meaning.array t = arrayLiteral (n.children.map attributed) t := by
  rw [attributed_eq]
  rfl

/-- The statements of an attributed node are those of its kind. -/
@[simp] theorem attributed_statements (n : Node) :
    (attributed n).statements = statements n (n.children.map attributed) := by
  rw [attributed_eq]
  rfl

variable {a : Attributed} {parts : Parts}

@[simp] theorem child_zero : Parts.child (a :: parts) 0 = pure a := rfl

@[simp] theorem child_succ (i : Nat) : Parts.child (a :: parts) (i + 1) = Parts.child parts i := rfl

/-- The first part of a kind among the children of a node is attributed to one of them. -/
theorem first?_map (nodes : List Node) (kind : NodeKind) :
    Parts.first? (nodes.map attributed) kind =
      (nodes.find? (·.kind = kind)).map attributed := by
  rw [Parts.first?, List.find?_map]
  simp only [Function.comp_def, attributed_kind]

/-- A part that the grammar promises is there. -/
theorem require_first?_map {nodes : List Node} {kind : NodeKind} {n : Node}
    (h : nodes.find? (·.kind = kind) = some n) :
    Lower.require (Parts.first? (nodes.map attributed) kind) = pure (attributed n) := by
  rw [first?_map, h]
  rfl

/-- The arguments among two parts are those of the second one. -/
theorem arguments_pair {front list : Node} (hfront : front.kind ≠ .parameters)
    (hlist : list.kind = .parameters) :
    Parts.arguments [attributed front, attributed list] =
      list.children.mapM fun n => (attributed n).value := by
  have hfirst : Parts.first? [attributed front, attributed list] .parameters =
      some (attributed list) := by
    simp [Parts.first?, hfront, hlist]
  simp only [Parts.arguments, hfirst, attributed_parts, List.mapM_map]
  rfl

/-- The parts of a kind are attributed to the children of the kind. -/
theorem ofKind_map (nodes : List Node) (kind : NodeKind) :
    Parts.ofKind (nodes.map attributed) kind = (nodes.filter (·.kind = kind)).map attributed := by
  rw [Parts.ofKind, List.filter_map]
  simp only [Function.comp_def, attributed_kind]

end Attributes

/-- What generating code for a node without error nodes assures, in each place it can stand. -/
structure Covers (n : Node) : Prop where
  clean : n.Clean
  value : Derives .expression n → Assures (attributed n).value n.Fine
  operands : Derives .expression n → Assures (attributed n).meaning.operands n.Fine
  array : Derives .arrayInit n → ∀ t, Assures ((attributed n).meaning.array t) n.Fine
  statements : Derives .statement n → Assures (attributed n).statements n.Fine

/-- Nodes that are covered with everything below them. -/
inductive Covered : Node → Prop where
  | intro {n : Node} (here : Covers n) (children : ∀ m ∈ n.children, Covered m) : Covered n

namespace Covered

variable {n m : Node}

theorem here (h : Covered n) : Covers n := by
  cases h with
  | intro here _ => exact here

/-- The children of a covered tree are covered. -/
theorem child (h : Covered n) (hm : m ∈ n.children) : Covered m := by
  cases h with
  | intro _ children => exact children m hm

theorem clean (h : Covered n) : n.Clean := h.here.clean

/-- A value of a covered expression assures that the expression is fine. -/
theorem value (h : Covered n) (hn : Derives .expression n) : Assures (attributed n).value n.Fine :=
  h.here.value hn

/-- A tree of a plain category needs no code. -/
theorem fine (h : Covered n) {c : Category} (hn : Derives c n) (hc : c ∈ Category.plain) : n.Fine :=
  hn.fine_of_plain hc h.clean

/-- The children of a node match the items of a form with its kind. -/
theorem form (h : Covered n) {c : Category} (hn : Derives c n) : ∃ f ∈ c.forms,
    n.kind = f.kind ∧ f.token.Suits n.token ∧ Matches f.items n.children := hn.form h.clean

end Covered

section Expressions

variable {n l r op : Node}

/-- An element of an array is an expression with two expressions in it. -/
theorem arrayAccess_children (hclean : n.Clean) (hn : Derives .expression n)
    (hkind : n.kind = .arrayAccess) :
    ∃ array index, n.children = [array, index] ∧ Derives .expression array ∧
      Derives .expression index :=
  hn.two_of_kind hclean hkind (by decide)

/-- An element of an array is fine if the array and the index are. -/
theorem fine_arrayAccess {array index : Node} (hkind : n.kind = .arrayAccess)
    (hchildren : n.children = [array, index]) (harray : array.Fine) (hindex : index.Fine) :
    n.Fine := by
  refine Node.fine_of_isOpen (by rw [hkind]; rfl) ?_
  rw [hchildren]
  simp [harray, hindex]

/-- The operands of a sum assure both of its sides. -/
theorem sumOperands_assures (hl : Covered l) (hr : Covered r) (hl' : Derives .expression l)
    (hr' : Derives .expression r) :
    Assures (sumOperands [attributed l, attributed op, attributed r]) (l.Fine ∧ r.Fine) := by
  simp only [sumOperands, Parts.valueAt, child_zero, child_succ, pure_bind]
  exact .and (.first (hl.here.operands hl')) (.second fun _ => .first (hr.value hr'))

/-- An increment or decrement looks at its operand. -/
theorem step_assures (h : Covered n) (hn : Derives .expression n) (sign : Text) (isBefore : Bool) :
    Assures (step (attributed n) sign isBefore) n.Fine := by
  refine .second fun _ => .ite (fun hkind => ?_) fun _ => .first (h.value hn)
  rw [attributed_kind] at hkind
  obtain ⟨array, index, heq, harray, hindex⟩ := arrayAccess_children h.clean hn hkind
  have hcovered : ∀ m ∈ [array, index], Covered m := fun m hm => h.child (heq ▸ hm)
  simp only [attributed_parts, heq, List.map_cons, List.map_nil, Parts.valueAt, child_zero,
    child_succ, pure_bind]
  refine .imp (.and (.first ((hcovered array (by simp)).value harray))
    (.second fun _ => .first ((hcovered index (by simp)).value hindex))) fun hfine => ?_
  exact fine_arrayAccess hkind heq hfine.1 hfine.2

/-- An assignment assures both of its sides, also one to an element. -/
theorem assign_assures (hl : Covered l) (hr : Covered r) (hl' : Derives .expression l)
    (hr' : Derives .expression r) :
    Assures (assign [attributed l, attributed op, attributed r]) (l.Fine ∧ r.Fine) := by
  simp only [assign, child_zero, child_succ, pure_bind, attributed_kind]
  refine .ite (fun hkind => ?_) fun _ => ?_
  · obtain ⟨array, index, heq, harray, hindex⟩ := arrayAccess_children hl.clean hl' hkind
    have hcovered : ∀ m ∈ [array, index], Covered m := fun m hm => hl.child (heq ▸ hm)
    simp only [assignElement, attributed_parts, heq, List.map_cons, List.map_nil, Parts.valueAt,
      child_zero, child_succ, pure_bind]
    refine .and (.imp (.and (.first ((hcovered array (by simp)).value harray))
      (.second fun _ => .first ((hcovered index (by simp)).value hindex))) fun hfine => ?_)
      (.second fun _ => .second fun _ => .first (hr.value hr'))
    exact fine_arrayAccess hkind heq hfine.1 hfine.2
  · refine .and (.first (hl.value hl')) (.second fun target => .ite (fun _ => ?_) fun _ => ?_)
    · exact .first (hr.here.operands hr')
    · exact .first (hr.value hr')

/-- The values of an argument list. -/
theorem argumentList_assures (h : Covered n) (hn : Derives .arguments n) :
    Assures ((attributed n).parts.mapM Attributed.value) n.Fine := by
  obtain ⟨hkind, hall⟩ : n.kind = .parameters ∧ DerivesAll .expression n.children :=
    hn.uniform h.clean (by decide)
  rw [attributed_parts, List.mapM_map]
  exact .imp (.mapM fun m hm => (h.child hm).value (hall m hm))
    (Node.fine_of_isOpen (by rw [hkind]; rfl))

/-- The values of the argument list among the children of a node. -/
theorem arguments_assures {nodes : List Node} (h : Covered n) (hn : Derives .arguments n)
    (hfirst : nodes.find? (·.kind = .parameters) = some n) :
    Assures (Parts.arguments (nodes.map attributed)) n.Fine := by
  simp only [Parts.arguments, first?_map, hfirst, Option.map_some]
  exact argumentList_assures h hn

/-- A node of a kind that is always looked at as a whole. -/
theorem fine_of_children {nodes : List Node} {kind : NodeKind} (hkind : n.kind = kind)
    (hopen : Node.isOpen kind = true) (hchildren : n.children = nodes)
    (hnodes : ∀ m ∈ nodes, m.Fine) : n.Fine :=
  Node.fine_of_isOpen (hkind ▸ hopen) (hchildren ▸ hnodes)

/-- `this` and `super` need not be looked at. -/
theorem fine_of_self (h : Covered n) (hn : Derives .expression n)
    (hkind : n.kind = .thisRef ∨ n.kind = .superRef) : n.Fine := by
  refine h.fine (c := .selfReference) (hn.of_kind h.clean fun f hf hfkind => ?_) (by decide)
  have hforms : ∀ f ∈ Category.expression.forms, f.kind = .thisRef ∨ f.kind = .superRef →
      f ∈ Category.selfReference.forms := by decide
  exact hforms f hf (hfkind ▸ hkind)

/-- The parts of an access to a field of a value. -/
theorem fieldAccess_assures (nodes : List Node) (hl : Covered l) (hr : Covered r)
    (hl' : Derives .expression l) (hr' : Derives .word r)
    (hnodes : ∀ m ∈ nodes, m.Fine) (hkind : n.kind = .fieldAccess)
    (hchildren : n.children = l :: nodes ++ [r]) :
    Assures (fieldAccess n (n.children.map attributed)) n.Fine := by
  have hname : r.kind = .identifier := by
    simpa [Category.forms, Category.wordForms] using hr'.kind_mem hr.clean
  have hfine : l.Fine → n.Fine := fun hl => by
    rw [Node.fine_iff]
    simp only [Node.isUntranslatable, Node.visited, hkind, Node.isQualifiedSelf, hchildren,
      List.cons_append, List.mem_cons, List.mem_append, List.not_mem_nil, or_false]
    refine ⟨by simp [List.getLast?_cons, hname], ?_⟩
    rintro m (rfl | hm | rfl)
    · exact hl
    · exact hnodes m hm
    · exact hr.fine hr' (by decide)
  rw [hchildren, fieldAccess]
  refine .second fun selected => .ite (fun _ => Lower.refuse_assures _ _) fun _ => ?_
  refine .ite (fun _ => Lower.refuse_assures _ _) fun _ => ?_
  simp only [List.cons_append, List.map_cons, child_zero, pure_bind, attributed_kind]
  refine .ite (fun hself => .of_true (hfine (fine_of_self hl hl' hself))) fun _ => ?_
  exact .imp (.first (hl.value hl')) hfine

/-- Access to `this` or `super` of an outer class is refused. -/
theorem qualifiedSelf_assures {p : Prop} (hr : Covered r) (hr' : Derives .selfReference r)
    (hchildren : n.children = [l, r]) :
    Assures (fieldAccess n (n.children.map attributed)) p := by
  have hself : r.kind = .thisRef ∨ r.kind = .superRef := by
    simpa [Category.forms, Category.selfForms] using hr'.kind_mem hr.clean
  have hlast : Parts.lastChild ([l, r].map attributed) = pure (attributed r) := rfl
  rw [hchildren, fieldAccess, hlast, pure_bind, attributed_kind]
  rcases hself with hself | hself
  · rw [if_pos hself]
    exact Lower.refuse_assures _ _
  · rw [if_neg (by rw [hself]; decide), if_pos hself]
    exact Lower.refuse_assures _ _

/-- The children of an access to a field: what the field is of, and the rest. -/
theorem fieldAccess_children (h : Covered n) (hn : Derives .expression n)
    (hkind : n.kind = .fieldAccess) :
    ∃ receiver rest, n.children = receiver :: rest ∧ Derives .expression receiver ∧
      ∀ m ∈ rest, m.Fine := by
  obtain ⟨f, hf, hfkind, -, hchildren⟩ := h.form hn
  have hitems : ∀ f ∈ Category.expression.forms, f.kind = .fieldAccess →
      ∃ items, f.items = .one .expression :: items ∧
        ∀ item ∈ items, item.category ∈ Category.plain := by
    intro f hf hkind
    refine ⟨f.items.tail, ?_⟩
    revert f
    decide
  obtain ⟨items, hitems, hplain⟩ := hitems f hf (hfkind.symm.trans hkind)
  rw [hitems, Matches.one_iff] at hchildren
  obtain ⟨receiver, rest, heq, hreceiver, hrest⟩ := hchildren
  refine ⟨receiver, rest, heq, hreceiver, fun m hm => ?_⟩
  obtain ⟨item, hitem, hm'⟩ := hrest.mem hm
  exact (h.child (heq ▸ List.mem_cons_of_mem _ hm)).fine hm' (hplain item hitem)

/-- A call with a receiver looks at it, unless it is `super`. -/
theorem qualifiedCall_assures {parts rest : Parts} {arguments : List Value} (hl : Covered l)
    (hl' : Derives .expression l) :
    Assures (qualifiedCall n parts (attributed l :: rest) arguments) l.Fine := by
  rw [qualifiedCall]
  refine .second fun last => ?_
  simp only [child_zero, pure_bind, attributed_kind]
  refine .ite (fun hself => .of_true (fine_of_self hl hl' (.inr hself))) fun _ => ?_
  exact .first (hl.value hl')

/-- A call looks at its arguments and at what it is a call of. -/
theorem call_assures (hl : Covered l) (hr : Covered r) (hl' : Derives .expression l)
    (hr' : Derives .arguments r) (hkind : n.kind = .callExpr) (hchildren : n.children = [l, r]) :
    Assures (call n (n.children.map attributed)) n.Fine := by
  have hfirst : [l, r].find? (·.kind = .parameters) = some r := by
    have hl₀ : l.kind ≠ .parameters := hl'.kind_ne hl.clean (by decide)
    have hr₀ : r.kind = .parameters := by
      simpa [Category.forms] using hr'.kind_mem hr.clean
    simp [hl₀, hr₀]
  have hfine : (∀ m ∈ if l.kind = .fieldAccess then l.children else [l], m.Fine) → r.Fine →
      n.Fine := fun htarget hr => by
    rw [Node.fine_iff]
    simp only [Node.isUntranslatable, Node.visited, hkind, hchildren, List.mem_append,
      List.mem_singleton, true_and]
    rintro m (hm | rfl)
    · exact htarget m hm
    · exact hr
  rw [hchildren, call]
  simp only [List.map_cons, List.map_nil, child_zero, pure_bind]
  refine .imp (.and (.first (arguments_assures hr hr' hfirst)) (.second fun arguments => ?_))
    fun hboth => hfine hboth.2 hboth.1
  rw [attributed_kind]
  refine .ite (fun hname => .of_true ?_) fun _ => .ite (fun haccess => ?_) fun _ =>
    Attributed.refuse_assures _ _
  · rw [if_neg (by rw [hname]; decide)]
    refine fun m hm => List.mem_singleton.1 hm ▸ ?_
    exact hl.fine (c := .word) (hl'.of_kind_eq hl.clean hname (by decide)) (by decide)
  · obtain ⟨receiver, rest, heq, hreceiver, hrest⟩ := fieldAccess_children hl hl' haccess
    rw [if_pos haccess, attributed_parts, heq, List.map_cons]
    refine .imp (qualifiedCall_assures (hl.child (heq ▸ List.mem_cons_self)) hreceiver)
      fun hreceiver => ?_
    exact List.forall_mem_cons.2 ⟨hreceiver, hrest⟩

/-- A new object whose class has no body. -/
theorem newObject_assures {nodes : List Node} (hl : Covered l) (hr : Covered r)
    (hl' : Derives .type l) (hr' : Derives .arguments r)
    (hnodes : ∀ m ∈ nodes, m.kind = .block) (hkind : n.kind = .newExpr)
    (hchildren : n.children = l :: r :: nodes) :
    Assures (newObject n (n.children.map attributed)) n.Fine := by
  have hl₀ : l.kind ≠ .block := hl'.kind_ne hl.clean (by decide)
  have hl₁ : l.kind ≠ .parameters := hl'.kind_ne hl.clean (by decide)
  have hr₀ : r.kind = .parameters := by simpa [Category.forms] using hr'.kind_mem hr.clean
  rw [newObject]
  refine .second fun type => .ite (fun _ => Lower.refuse_assures _ _) fun _ => ?_
  rw [first?_map]
  cases hbody : n.children.find? (·.kind = .block) with
  | some body => exact Attributed.refuse_assures _ _
  | none =>
    have hnone : nodes = [] := by
      refine List.eq_nil_iff_forall_not_mem.2 fun m hm => ?_
      rw [hchildren, List.find?_eq_none] at hbody
      simpa [hnodes m hm] using hbody m (by simp [hm])
    subst hnone
    refine .imp (.first (arguments_assures hr hr' (by simp [hchildren, hl₁, hr₀])))
      fun hr => (Node.fine_iff n).2 ⟨?_, ?_⟩
    · simp [Node.isUntranslatable, hkind, Node.child?, hbody]
    · simp only [Node.visited, hkind, hchildren, List.forall_mem_cons, List.not_mem_nil,
        IsEmpty.forall_iff, implies_true, and_true]
      exact ⟨hl.fine hl' (by decide), hr⟩

/-- An initial value is an array in braces or an expression. -/
theorem initializer_cases (h : Covered n) (hn : Derives .initializer n) :
    n.kind = .arrayInit ∧ (∀ t, Assures ((attributed n).meaning.array t) n.Fine) ∨
      n.kind ≠ .arrayInit ∧ Assures (attributed n).value n.Fine := by
  have hexpr : ∀ f ∈ Category.initializer.forms, f.kind ≠ .arrayInit →
      f ∈ Category.expression.forms := by decide
  by_cases hkind : n.kind = .arrayInit
  · exact .inl ⟨hkind, h.here.array (hn.of_kind_eq h.clean hkind (by decide))⟩
  · exact .inr ⟨hkind, h.value (hn.of_kind h.clean fun f hf hf' => hexpr f hf (hf' ▸ hkind))⟩

/-- An initial value assures the expression or the array it is read from. -/
theorem initialValue_assures (h : Covered n) (hn : Derives .initializer n) (t : JavaType) :
    Assures (initialValue (attributed n) t) n.Fine := by
  simp only [initialValue, attributed_kind]
  obtain ⟨hkind, harray⟩ | ⟨hkind, hvalue⟩ := initializer_cases h hn
  · rw [if_pos hkind]
    exact harray t
  · rw [if_neg hkind]
    exact .first hvalue

/-- An element of an array assures the expression or the array it is read from. -/
theorem arrayElement_assures (h : Covered n) (hn : Derives .initializer n) (t : JavaType) :
    Assures (arrayElement t (attributed n)) n.Fine := by
  simp only [arrayElement, attributed_kind]
  obtain ⟨hkind, harray⟩ | ⟨hkind, hvalue⟩ := initializer_cases h hn
  · rw [if_pos hkind]
    exact .first (harray t)
  · rw [if_neg hkind]
    exact .first hvalue

/-- The elements of an array in braces. -/
theorem arrayLiteral_assures (hcovered : ∀ m ∈ n.children, Covered m) (hclean : n.Clean)
    (hn : Derives .arrayInit n) (t : JavaType) :
    Assures (arrayLiteral (n.children.map attributed) t) n.Fine := by
  obtain ⟨hkind, hall⟩ : n.kind = .arrayInit ∧ DerivesAll .initializer n.children :=
    hn.uniform hclean (by decide)
  have hfine : (∀ m ∈ n.children, m.Fine) → n.Fine :=
    Node.fine_of_isOpen (by rw [hkind]; rfl)
  refine .imp (.second fun _ => .ite (fun hnone => .of_true ?_) fun _ => ?_) hfine
  · simp only [List.isEmpty_iff, List.map_eq_nil_iff] at hnone
    simp [hnone]
  · rw [List.mapM_map]
    exact .first (.mapM fun m hm => arrayElement_assures (hcovered m hm) (hall m hm) _)

/-- A new array looks at its elements, which it must have. -/
theorem newArray_assures {lengths nodes : List Node} (hcovered : ∀ m ∈ n.children, Covered m)
    (hl : Derives .type l) (hlengths : DerivesAll .expression lengths)
    (hnodes : DerivesAll .arrayInit nodes) (hone : nodes.length ≤ 1)
    (hkind : n.kind = .newArrayExpr) (hchildren : n.children = l :: (lengths ++ nodes)) :
    Assures (newArray n (n.children.map attributed)) n.Fine := by
  have hclean : ∀ m ∈ l :: (lengths ++ nodes), m.Clean := fun m hm =>
    (hcovered m (hchildren ▸ hm)).clean
  have hl₀ : l.kind ≠ .arrayInit := hl.kind_ne (hclean l (by simp)) (by decide)
  have hlengths₀ : ∀ m ∈ lengths, m.kind ≠ .type ∧ m.kind ≠ .arrayInit := fun m hm =>
    ⟨(hlengths m hm).kind_ne (hclean m (by simp [hm])) (by decide),
      (hlengths m hm).kind_ne (hclean m (by simp [hm])) (by decide)⟩
  have hnone : lengths.find? (·.kind = .arrayInit) = none := by
    rw [List.find?_eq_none]
    simpa using fun m hm => (hlengths₀ m hm).2
  rw [newArray, first?_map]
  match nodes, hone with
  | [], _ =>
    simp only [hchildren, List.append_nil, List.find?_cons, hl₀, hnone, decide_false,
      Option.map_none]
    exact Lower.refuse_assures _ _
  | [init], _ =>
    have hinit := (hnodes init (by simp))
    have hcovers := hcovered init (by simp [hchildren])
    have hinit₀ : init.kind = .arrayInit := by
      simpa [Category.forms, Category.arrayInitForms] using hinit.kind_mem hcovers.clean
    have hfirst : n.children.find? (·.kind = .arrayInit) = some init := by
      simp [hchildren, hl₀, hnone, hinit₀]
    rw [hfirst, Option.map_some]
    refine .second fun element => .imp (hcovers.here.array hinit _) fun hfine => ?_
    refine (Node.fine_iff n).2 ⟨?_, ?_⟩
    · simp [Node.isUntranslatable, hkind, Node.child?, hfirst]
    · intro m hm
      simp only [Node.visited, hkind, hchildren, List.mem_filter, List.mem_cons, List.mem_append,
        List.not_mem_nil, or_false, Bool.or_eq_true, decide_eq_true_eq] at hm
      obtain ⟨rfl | hm | rfl, hwanted⟩ := hm
      · exact (hcovered m (by simp [hchildren])).fine hl (by decide)
      · exact absurd hwanted (by simp [hlengths₀ m hm])
      · exact hfine

/-- A tree of a category whose children are covered. -/
structure Examined (c : Category) (n : Node) : Prop where
  clean : n.Clean
  covered : ∀ m ∈ n.children, Covered m
  derives : Derives c n

/-- Generating code for an expression assures that nothing in it is without a counterpart. -/
def ExpressionAssures (n : Node) : Prop :=
  Assures (expression n (n.children.map attributed)) n.Fine

namespace Examined

variable {c : Category} {kind : NodeKind}

/-- The children of a node of a kind with one form. -/
theorem items (h : Examined c n) (hkind : n.kind = kind) {items : List Item}
    (hforms : ∀ f ∈ c.forms, f.kind = kind → f.items = items) : Matches items n.children :=
  h.derives.items_of_kind h.clean hkind hforms

/-- The children are covered by whatever name they have. -/
theorem children (h : Examined c n) {nodes : List Node} (heq : n.children = nodes) :
    ∀ m ∈ nodes, Covered m := heq ▸ h.covered

variable (h : Examined .expression n)

include h

/-- A literal is refused if it is a text block. -/
theorem literal (hkind : n.kind = .literal) : ExpressionAssures n := by
  have hchildren := Matches.nil_iff.1 (h.items hkind (by decide))
  have hfine : n.token.any (·.kind = .textBlock) = false → n.Fine := fun htext => by
    rw [Node.fine_iff]
    simp [Node.isUntranslatable, Node.visited, hkind, hchildren, htext]
  simp only [ExpressionAssures, expression, hkind]
  cases htoken : n.token with
  | none => exact .of_true (hfine (by rw [htoken]; rfl))
  | some t =>
    by_cases htext : t.kind = .textBlock
    · simp only [Lowering.literal, htoken, htext]
      exact Lower.refuse_assures _ _
    · exact .of_true (hfine (by simp [htoken, htext]))

/-- A name, `this` or `super` has nothing below it that could be without a counterpart. -/
theorem leaf (hkind : n.kind = .identifier ∨ n.kind = .thisRef ∨ n.kind = .superRef) :
    ExpressionAssures n := by
  obtain ⟨f, hf, hfkind, -, hitems⟩ := h.derives.form h.clean
  have hforms : ∀ f ∈ Category.expression.forms,
      f.kind = .identifier ∨ f.kind = .thisRef ∨ f.kind = .superRef →
      f.items = [] ∧ Node.isOpen f.kind = true := by decide
  obtain ⟨hnone, hopen⟩ := hforms f hf (hfkind ▸ hkind)
  rw [hnone, Matches.nil_iff] at hitems
  have hfine : n.Fine := Node.fine_of_isOpen (hfkind ▸ hopen) (by simp [hitems])
  rcases hkind with hkind | hkind | hkind
  all_goals
    simp only [ExpressionAssures, expression, hkind]
    exact .of_true hfine

/-- Parentheses assure what they hold. -/
theorem parenthesis (hkind : n.kind = .parenExpr) : ExpressionAssures n := by
  obtain ⟨m, heq, hm⟩ := h.derives.one_of_kind (a := .expression) h.clean hkind (by decide)
  rw [ExpressionAssures, heq]
  simp only [expression, hkind]
  refine .imp (.first ((h.children heq m (by simp)).value hm)) fun hm => ?_
  exact fine_of_children hkind rfl heq (by simpa using hm)

/-- A member of a value, with or without type arguments, or a `this` or `super` that is refused. -/
theorem fieldAccess (hkind : n.kind = .fieldAccess) : ExpressionAssures n := by
  have hitems : Matches [.one .expression, .optional .typeArguments, .one .word] n.children ∨
      Matches [.one .expression, .one .selfReference] n.children :=
    h.derives.items_or_of_kind h.clean hkind (by decide)
  simp only [Matches.one_iff, Matches.optional_iff, Matches.nil_iff] at hitems
  simp only [ExpressionAssures, expression, hkind]
  rcases hitems with
    ⟨l, _, heq, hl, ⟨r, _, rfl, hr, rfl⟩ | ⟨list, _, rfl, hlist, r, _, rfl, hr, rfl⟩⟩ |
      ⟨l, _, heq, hl, r, _, rfl, hr, rfl⟩
  all_goals have hcovered := h.children heq
  · exact fieldAccess_assures [] (hcovered l (by simp)) (hcovered r (by simp)) hl hr (by simp)
      hkind heq
  · refine fieldAccess_assures [list] (hcovered l (by simp)) (hcovered r (by simp)) hl hr ?_ hkind
      heq
    simpa using (hcovered list (by simp)).fine hlist (by decide)
  · exact qualifiedSelf_assures (hcovered r (by simp)) hr heq

/-- A call assures its arguments and what it is a call of. -/
theorem call (hkind : n.kind = .callExpr) : ExpressionAssures n := by
  obtain ⟨l, r, heq, hl, hr⟩ := h.derives.two_of_kind (a := .expression) (b := .arguments) h.clean
    hkind (by decide)
  have hcovered := h.children heq
  simp only [ExpressionAssures, expression, hkind]
  exact call_assures (hcovered l (by simp)) (hcovered r (by simp)) hl hr hkind heq

/-- A new object of a class without a body; one of an inner class is refused. -/
theorem newObject (hkind : n.kind = .newExpr) : ExpressionAssures n := by
  have hitems : Matches [.one .type, .one .arguments, .optional .classBody] n.children ∨
      Matches [.one .expression, .one .word, .optional .typeArguments, .one .arguments,
        .optional .classBody] n.children := h.derives.items_or_of_kind h.clean hkind (by decide)
  simp only [ExpressionAssures, expression, hkind]
  rcases hitems with hitems | hitems
  · simp only [Matches.one_iff, Matches.optional_iff, Matches.nil_iff] at hitems
    obtain ⟨l, _, heq, hl, r, nodes, rfl, hr, hbody⟩ := hitems
    have hcovered := h.children heq
    refine newObject_assures (hcovered l (by simp)) (hcovered r (by simp)) hl hr ?_ hkind heq
    rcases hbody with rfl | ⟨body, _, rfl, hbody, rfl⟩
    · simp
    · simpa [Category.forms] using hbody.kind_mem (hcovered body (by simp)).clean
  · obtain ⟨l, _, heq, hl, -⟩ := Matches.one_iff.1 hitems
    have htype : l.kind ≠ .type := hl.kind_ne (h.children heq l (by simp)).clean (by decide)
    rw [heq, Lowering.newObject]
    simp only [List.map_cons, child_zero, pure_bind, attributed_kind, htype, ne_eq,
      not_false_eq_true, if_true]
    exact Lower.refuse_assures _ _

/-- A new array looks at its elements. -/
theorem newArray (hkind : n.kind = .newArrayExpr) : ExpressionAssures n := by
  have hitems : Matches [.one .type, .many .expression, .optional .arrayInit] n.children :=
    h.items hkind (by decide)
  simp only [Matches.one_iff, Matches.many_iff, Matches.optional_iff, Matches.nil_iff] at hitems
  simp only [ExpressionAssures, expression, hkind]
  obtain ⟨l, _, heq, hl, lengths, nodes, rfl, hlengths, rfl | ⟨init, _, rfl, hinit, rfl⟩⟩ := hitems
  · exact newArray_assures h.covered hl hlengths .nil (by simp) hkind heq
  · exact newArray_assures h.covered hl hlengths (by simpa using hinit) (by simp) hkind heq

/-- An element assures its array and its index. -/
theorem arrayAccess (hkind : n.kind = .arrayAccess) : ExpressionAssures n := by
  obtain ⟨l, r, heq, hl, hr⟩ := arrayAccess_children h.clean h.derives hkind
  have hcovered := h.children heq
  rw [ExpressionAssures, heq]
  simp only [expression, hkind, Lowering.arrayAccess, Parts.valueAt, List.map_cons, child_zero,
    child_succ, pure_bind]
  refine .imp (.and (.first ((hcovered l (by simp)).value hl))
    (.second fun _ => .first ((hcovered r (by simp)).value hr))) fun hboth => ?_
  exact fine_arrayAccess hkind heq hboth.1 hboth.2

/-- A postfix operation assures its operand. -/
theorem postfixOperator (hkind : n.kind = .postfixExpr) : ExpressionAssures n := by
  obtain ⟨l, op, heq, hl, hop⟩ := h.derives.two_of_kind (a := .expression) (b := .mark) h.clean
    hkind (by decide)
  have hcovered := h.children heq
  rw [ExpressionAssures, heq]
  simp only [expression, hkind, Lowering.postfixOperator, List.map_cons, child_zero, child_succ,
    pure_bind]
  refine .imp (step_assures (hcovered l (by simp)) hl _ _) fun hl => ?_
  exact fine_of_children hkind rfl heq
    (by simpa using ⟨hl, (hcovered op (by simp)).fine hop (by decide)⟩)

/-- A prefix operation assures its operand. -/
theorem unary (hkind : n.kind = .unaryExpr) : ExpressionAssures n := by
  obtain ⟨op, l, heq, hop, hl⟩ := h.derives.two_of_kind (a := .mark) (b := .expression) h.clean
    hkind (by decide)
  have hcovered := h.children heq
  have hl₀ := hcovered l (by simp)
  rw [ExpressionAssures, heq]
  simp only [expression, hkind, Lowering.unary, List.map_cons, child_zero, child_succ, pure_bind]
  refine .imp (.ite (fun _ => step_assures hl₀ hl _ _) fun _ => .first (hl₀.value hl)) fun hl => ?_
  exact fine_of_children hkind rfl heq
    (by simpa using ⟨(hcovered op (by simp)).fine hop (by decide), hl⟩)

/-- A cast assures the expression behind the type. -/
theorem cast (hkind : n.kind = .castExpr) : ExpressionAssures n := by
  obtain ⟨group, l, heq, hgroup, hl⟩ := h.derives.two_of_kind (a := .typeGroup) (b := .expression)
    h.clean hkind (by decide)
  have hcovered := h.children heq
  rw [ExpressionAssures, heq]
  simp only [expression, hkind]
  refine .imp (.second fun _ => .first ((hcovered l (by simp)).value hl)) fun hl => ?_
  exact fine_of_children hkind rfl heq
    (by simpa using ⟨(hcovered group (by simp)).fine hgroup (by decide), hl⟩)

/-- A test of a class looks at the value and refuses a pattern. -/
theorem instanceTest (hkind : n.kind = .instanceofExpr) : ExpressionAssures n := by
  have hitems : Matches [.one .expression, .one .type, .optional .word] n.children :=
    h.items hkind (by decide)
  simp only [Matches.one_iff] at hitems
  obtain ⟨l, _, heq, hl, r, nodes, rfl, hr, -⟩ := hitems
  have hcovered := h.children heq
  rw [ExpressionAssures, heq]
  simp only [expression, hkind, Lowering.instanceTest]
  cases nodes with
  | cons pattern more => exact Attributed.refuse_assures _ _
  | nil =>
    simp only [List.map_cons, List.map_nil, Parts.valueAt, child_zero, child_succ, pure_bind]
    refine .imp (.first ((hcovered l (by simp)).value hl)) fun hl => (Node.fine_iff n).2 ⟨?_, ?_⟩
    · simp [Node.isUntranslatable, hkind, heq]
    · simp only [Node.visited, hkind, heq, List.forall_mem_cons, List.not_mem_nil,
        IsEmpty.forall_iff, implies_true, and_true]
      exact ⟨hl, (hcovered r (by simp)).fine hr (by decide)⟩

/-- A binary operation assures both of its sides. -/
theorem binary (hkind : n.kind = .binaryExpr) : ExpressionAssures n := by
  obtain ⟨l, op, r, heq, hl, hop, hr⟩ := h.derives.three_of_kind (a := .expression) (b := .mark)
    (d := .expression) h.clean hkind (by decide)
  have hcovered := h.children heq
  have hl₀ := hcovered l (by simp)
  have hr₀ := hcovered r (by simp)
  rw [ExpressionAssures, heq]
  simp only [expression, hkind, Lowering.binary, sum, Parts.valueAt, List.map_cons, child_zero,
    child_succ, pure_bind]
  refine .imp (.ite (fun _ => .first (sumOperands_assures hl₀ hr₀ hl hr)) fun _ =>
    .and (.first (hl₀.value hl)) (.second fun _ => .first (hr₀.value hr))) fun hboth => ?_
  exact fine_of_children hkind rfl heq
    (by simpa using ⟨hboth.1, (hcovered op (by simp)).fine hop (by decide), hboth.2⟩)

/-- A choice assures all of its parts, though only one will run. -/
theorem ternary (hkind : n.kind = .ternaryExpr) : ExpressionAssures n := by
  obtain ⟨c, l, r, heq, hc, hl, hr⟩ := h.derives.three_of_kind (a := .expression)
    (b := .expression) (d := .expression) h.clean hkind (by decide)
  have hcovered := h.children heq
  rw [ExpressionAssures, heq]
  simp only [expression, hkind, Lowering.ternary, Parts.valueAt, List.map_cons, child_zero,
    child_succ, pure_bind]
  refine .imp (.and (.first ((hcovered c (by simp)).value hc)) (.second fun _ =>
    .and (.first ((hcovered l (by simp)).value hl))
      (.second fun _ => .first ((hcovered r (by simp)).value hr)))) fun hall => ?_
  exact fine_of_children hkind rfl heq (by simpa using hall)

/-- An assignment assures both of its sides, also one to an element. -/
theorem assign (hkind : n.kind = .assignExpr) : ExpressionAssures n := by
  obtain ⟨l, op, r, heq, hl, hop, hr⟩ := h.derives.three_of_kind (a := .expression) (b := .mark)
    (d := .expression) h.clean hkind (by decide)
  have hcovered := h.children heq
  rw [ExpressionAssures, heq]
  simp only [expression, hkind]
  refine .imp (assign_assures (hcovered l (by simp)) (hcovered r (by simp)) hl hr) fun hboth => ?_
  exact fine_of_children hkind rfl heq
    (by simpa using ⟨hboth.1, (hcovered op (by simp)).fine hop (by decide), hboth.2⟩)

/-- A class literal of a type or a name. -/
theorem classLiteral (hkind : n.kind = .classLiteral) : ExpressionAssures n := by
  obtain ⟨l, heq, hl⟩ := h.derives.one_of_kind (a := .classTarget) h.clean hkind (by decide)
  have hl₀ := h.children heq l (by simp)
  have hfine : (l.kind ≠ .arrayType → l.Fine) → n.Fine := fun hl => by
    rw [Node.fine_iff]
    simp only [Node.isUntranslatable, Node.visited, hkind, heq, List.mem_filter,
      List.mem_singleton, ne_eq, decide_not, Bool.not_eq_true', decide_eq_false_iff_not, true_and]
    rintro m ⟨rfl, hm⟩
    exact hl hm
  rw [ExpressionAssures, heq]
  simp only [expression, hkind, Lowering.classLiteral, List.map_cons, List.map_nil, child_zero,
    pure_bind]
  refine .imp (.first ?_) hfine
  simp only [classLiteralType, attributed_kind]
  split
  · next htype =>
    refine .of_true fun _ => hl₀.fine (c := .type) ?_ (by decide)
    exact hl.of_kind_eq hl₀.clean htype (by decide)
  · next harray => exact .of_true fun hne => absurd harray hne
  · next hname =>
    refine .of_true fun _ => hl₀.fine (c := .word) ?_ (by decide)
    exact hl.of_kind_eq hl₀.clean hname (by decide)
  · exact Attributed.refuse_assures _ _

/-- Every kind of expression; what is no expression is refused. -/
theorem expression : ExpressionAssures n := by
  cases hkind : n.kind with
  | literal => exact h.literal hkind
  | identifier => exact h.leaf (.inl hkind)
  | thisRef => exact h.leaf (.inr (.inl hkind))
  | superRef => exact h.leaf (.inr (.inr hkind))
  | parenExpr => exact h.parenthesis hkind
  | fieldAccess => exact h.fieldAccess hkind
  | callExpr => exact h.call hkind
  | newExpr => exact h.newObject hkind
  | newArrayExpr => exact h.newArray hkind
  | arrayAccess => exact h.arrayAccess hkind
  | postfixExpr => exact h.postfixOperator hkind
  | unaryExpr => exact h.unary hkind
  | castExpr => exact h.cast hkind
  | instanceofExpr => exact h.instanceTest hkind
  | binaryExpr => exact h.binary hkind
  | ternaryExpr => exact h.ternary hkind
  | assignExpr => exact h.assign hkind
  | classLiteral => exact h.classLiteral hkind
  | arrayInit => exact absurd hkind (h.derives.kind_ne h.clean (by decide))
  | _ =>
    simp only [ExpressionAssures, Lowering.expression, hkind]
    exact Lower.refuse_assures _ _

end Examined

/-- A node as the left end of a sum. -/
theorem leftOperands_assures (h : Examined .expression n) :
    Assures (leftOperands n (n.children.map attributed)) n.Fine := by
  by_cases hkind : n.kind = .binaryExpr
  · obtain ⟨l, op, r, heq, hl, hop, hr⟩ := h.derives.three_of_kind (a := .expression) (b := .mark)
      (d := .expression) h.clean hkind (by decide)
    have hcovered := h.children heq
    rw [leftOperands, if_pos hkind]
    refine .second fun _ => ?_
    rw [pure_bind]
    refine .ite (fun _ => ?_) fun _ => .first h.expression
    rw [heq]
    refine .imp (sumOperands_assures (hcovered l (by simp)) (hcovered r (by simp)) hl hr)
      fun hboth => ?_
    exact fine_of_children hkind rfl heq
      (by simpa using ⟨hboth.1, (hcovered op (by simp)).fine hop (by decide), hboth.2⟩)
  · simp only [leftOperands, hkind, if_false, pure_bind, Bool.false_eq_true]
    exact .first h.expression

end Expressions

end Lowering

end JavaObjC
