import JavaObjC.Proofs.Typing.Types

/-!
# The names in accepted trees

The types in an accepted tree are written with words, joined by dots. So a
property that all such names have is one of all names in the types of the tree.
The other names of a tree are tokens of the source: one that begins with a
letter is spelled like a word to its end.
-/

namespace JavaObjC

variable {literals names : Text → Prop} {n : Node} {c : Category}

section Types

/-- The type arguments among the parts of a type. -/
theorem over_arguments_ofParts {texts : List Text} {arguments : List JavaType} {nodes : List Node}
    (harguments : ∀ a ∈ arguments, a.Over names)
    (hnodes : ∀ m ∈ nodes, m.kind ≠ .type ∧ m.kind ≠ .arrayType ∧
      (m.kind = .typeArguments → ∀ a ∈ JavaType.ofAll m.children, a.Over names)) :
    ∀ a ∈ (JavaType.ofParts texts arguments nodes).arguments, a.Over names := by
  induction nodes generalizing texts arguments with
  | nil => exact harguments
  | cons m rest ih =>
    rw [List.forall_mem_cons] at hnodes
    obtain ⟨⟨htype, harray, hgiven⟩, hrest⟩ := hnodes
    obtain ⟨kind, span, token, problem, children⟩ := m
    unfold JavaType.ofParts
    split
    · next h => exact nomatch h
    · next h => cases h; exact ih harguments hrest
    · next h => cases h; exact ih harguments hrest
    · next h => cases h; exact ih (hgiven rfl) hrest
    · next h => cases h; exact absurd rfl htype
    · next h => cases h; exact absurd rfl harray
    · next h => cases h; exact ih harguments hrest

/-- A written type, if this is known of the types that it is written with. -/
theorem over_type_of_children (hnames : ∀ t : Text, t.IsTypeName → names t)
    (h : Derives .type n) (hclean : n.Clean)
    (helement : ∀ m ∈ n.children, Derives .type m → (JavaType.ofNode m).Over names)
    (hgiven : ∀ m ∈ n.children, Derives .typeArguments m →
      ∀ a ∈ JavaType.ofAll m.children, a.Over names) :
    (JavaType.ofNode n).Over names := by
  refine .intro (hnames _ (typeName_isTypeName h hclean)) ?_
  have hclean' : ∀ m ∈ n.children, m.Clean := fun m => hclean.child
  obtain ⟨f, hf, hkind, htoken, hitems⟩ := h.form hclean
  obtain ⟨kind, span, token, problem, children⟩ := n
  dsimp only at hkind htoken hitems hclean' helement hgiven
  have hparts : (∀ item ∈ f.items, item.category ∈
      [Category.annotationUse, .word, .qualifiedName, .typePart]) →
      ∀ a ∈ (JavaType.ofParts [] [] children).arguments, a.Over names := by
    refine fun hcategories => over_arguments_ofParts (List.forall_mem_nil _) fun m hm => ?_
    obtain ⟨item, hitem, hderives⟩ := hitems.mem hm
    have hforms : ∀ c ∈ [Category.annotationUse, .word, .qualifiedName, .typePart],
        NodeKind.type ∉ c.forms.map Form.kind ∧ NodeKind.arrayType ∉ c.forms.map Form.kind ∧
          ∀ f ∈ c.forms, f.kind = .typeArguments → f ∈ Category.typeArguments.forms := by
      decide
    obtain ⟨hnotype, hnoarray, hlist⟩ := hforms _ (hcategories item hitem)
    have hm' := hclean' m hm
    exact ⟨hderives.kind_ne hm' hnotype, hderives.kind_ne hm' hnoarray, fun hkind =>
      hgiven m hm (hderives.of_kind_eq hm' hkind hlist)⟩
  simp only [Category.forms, Category.typeForms, List.mem_cons, List.not_mem_nil, or_false] at hf
  rcases hf with rfl | rfl | rfl | rfl <;> dsimp only at hkind htoken hitems hparts <;> subst hkind
  · obtain rfl : token = none := htoken
    rw [ofNode_type]
    exact hparts (by decide)
  · obtain rfl : token = none := htoken
    rw [ofNode_type]
    exact hparts (by decide)
  · obtain ⟨w, rfl, -⟩ := htoken
    rw [JavaType.ofNode]
    exact List.forall_mem_nil _
  · simp only [Matches.one_iff, Matches.nil_iff] at hitems
    obtain ⟨element, _, rfl, hderives, rfl⟩ := hitems
    rw [JavaType.ofNode]
    exact (helement element List.mem_cons_self hderives).arguments

/-- A type argument, which may be a wildcard that stands for its bound. -/
theorem over_wildcard (hobject : JavaType.object.Over names) (h : Derives .typeArgument n)
    (hclean : n.Clean) (hkind : n.kind = .wildcard)
    (hbound : ∀ m ∈ n.children, Derives .type m → (JavaType.ofNode m).Over names) :
    (JavaType.ofNode n).Over names := by
  have hitems : Matches [] n.children ∨ Matches [.one .mark, .one .type] n.children :=
    h.items_or_of_kind hclean hkind (by decide)
  obtain ⟨kind, span, token, problem, children⟩ := n
  obtain rfl : kind = .wildcard := hkind
  rcases hitems with hnone | hboth
  · obtain rfl : children = [] := Matches.nil_iff.1 hnone
    exact hobject
  · simp only [Matches.one_iff, Matches.nil_iff] at hboth
    obtain ⟨mark, _, hchildren, -, bound, _, rfl, hderives, rfl⟩ := hboth
    obtain rfl : children = [mark, bound] := hchildren
    exact hbound bound (by simp) hderives

/-- Types, type arguments and lists of these: by induction over the tree. -/
theorem over_typeArguments (hnames : ∀ t : Text, t.IsTypeName → names t) (n : Node)
    (hclean : n.Clean) :
    (Derives .typeArgument n → (JavaType.ofNode n).Over names) ∧
      (Derives .typeArguments n → ∀ a ∈ JavaType.ofAll n.children, a.Over names) := by
  have hobject : JavaType.object.Over names :=
    .named (hnames _ ⟨⟨by decide, by decide⟩, by decide⟩)
  induction n using Node.induction with
  | h n ih =>
    have hclean' : ∀ m ∈ n.children, m.Clean := fun m => hclean.child
    have htype : ∀ m ∈ n.children, Derives .type m → (JavaType.ofNode m).Over names :=
      fun m hm hderives => (ih m hm (hclean' m hm)).1 (hderives.mono (by decide))
    refine ⟨fun h => ?_, fun h => ?_⟩
    · by_cases hkind : n.kind = .wildcard
      · exact over_wildcard hobject h hclean hkind htype
      · have hforms : ∀ f ∈ Category.typeArgument.forms, f.kind ≠ .wildcard →
            f ∈ Category.type.forms := by decide
        have hwritten : Derives .type n := h.of_kind hclean fun f hf hf' =>
          hforms f hf (hf' ▸ hkind)
        exact over_type_of_children hnames hwritten hclean htype fun m hm =>
          (ih m hm (hclean' m hm)).2
    · have harguments : n.kind = .typeArguments ∧ DerivesAll .typeArgument n.children :=
        h.uniform hclean (by decide)
      have hall : ∀ nodes : List Node, (∀ m ∈ nodes, (JavaType.ofNode m).Over names) →
          ∀ a ∈ JavaType.ofAll nodes, a.Over names := by
        intro nodes
        induction nodes with
        | nil => exact fun _ _ ha => nomatch ha
        | cons m rest ih =>
          rw [List.forall_mem_cons]
          exact fun h => List.forall_mem_cons.2 ⟨h.1, ih h.2⟩
      exact hall _ fun m hm => (ih m hm (hclean' m hm)).1 (harguments.2 m hm)

theorem over_type (hnames : ∀ t : Text, t.IsTypeName → names t) (h : Derives .type n)
    (hclean : n.Clean) : (JavaType.ofNode n).Over names :=
  (over_typeArguments hnames n hclean).1 (h.mono (by decide))

/-- Several types in one node stand for the first of them. -/
theorem over_typeGroup (hnames : ∀ t : Text, t.IsTypeName → names t) (h : Derives .typeGroup n)
    (hclean : n.Clean) : (JavaType.ofNode n).Over names := by
  obtain ⟨f, hf, hkind, htoken, hitems⟩ := h.form hclean
  obtain rfl := List.mem_singleton.1 hf
  obtain ⟨first, rest, heq, hfirst, -⟩ := Matches.one_iff.1 hitems
  have hfirst' : first.Clean := hclean.child (by simp [heq])
  have hkinds : first.kind = .type ∨ first.kind = .arrayType := by
    simpa [Category.forms, Category.typeForms] using hfirst.kind_mem hfirst'
  obtain ⟨kind, span, token, problem, children⟩ := n
  dsimp only at hkind htoken heq
  subst hkind heq
  obtain rfl : token = none := htoken
  have hsame : JavaType.ofNode ⟨.type, span, none, problem, first :: rest⟩ = .ofNode first := by
    rw [ofNode_type]
    obtain ⟨kind, span, token, problem, children⟩ := first
    rcases hkinds with rfl | rfl <;> rfl
  rw [hsame]
  exact over_type hnames hfirst hfirst'

theorem over_parameter (hnames : ∀ t : Text, t.IsTypeName → names t) (h : Derives .parameter n)
    (hclean : n.Clean) : (Parameter.ofNode n).type.Over names := by
  obtain ⟨type, depth, htype, hclean', heq⟩ := parameterType_eq h hclean
  rw [heq]
  exact (over_type hnames htype hclean').with_depth depth

end Types

section Nodes

/-- Behind items of which each stands for one tree, the tree of a further one. -/
theorem Matches.getElem? {items : List Item} {nodes : List Node} {i : Nat} {m : Node}
    (h : Matches items nodes) (hfront : ∀ item ∈ items.take i, item = .one item.category)
    (hitem : items[i]? = some (.one c)) (hm : nodes[i]? = some m) : Derives c m := by
  induction i generalizing items nodes with
  | zero =>
    obtain ⟨items, rfl⟩ : ∃ rest, items = .one c :: rest := by
      cases items with
      | nil => cases hitem
      | cons item rest => exact ⟨rest, by rw [← Option.some.inj hitem]⟩
    obtain ⟨first, rest, rfl, hfirst, -⟩ := Matches.one_iff.1 h
    exact Option.some.inj hm ▸ hfirst
  | succ i ih =>
    cases items with
    | nil => cases hitem
    | cons item items =>
      rw [List.take_succ_cons, List.forall_mem_cons] at hfront
      rw [hfront.1] at h
      obtain ⟨first, rest, rfl, -, hrest⟩ := Matches.one_iff.1 h
      exact ih hrest hfront.2 hitem hm

/-- Where a kind of node has the type that it is written with. -/
theorem forms_typePlace (c : Category) : ∀ f ∈ c.forms, ∀ i ∈ f.kind.typePlace?,
    (∀ item ∈ f.items.take i, item = .one item.category) ∧
      (f.items[i]? = some (.one .type) ∨ f.items[i]? = some (.one .typeGroup)) := by
  cases c <;> decide

/-- Loops over elements and methods have written types only. -/
theorem forms_typeParts (c : Category) :
    ∀ f ∈ c.forms, f.kind ∈ [NodeKind.enhancedForStmt, .methodDecl] →
      ∀ item ∈ f.items, ∀ f' ∈ item.category.forms, f'.kind ∈ [NodeKind.type, .arrayType] →
        f' ∈ Category.type.forms := by
  cases c <;> decide

/-- The types, names and parameters among the nodes of a tree. -/
theorem forms_named (c : Category) : ∀ f ∈ c.forms,
    (f.kind = .type → f ∈ Category.type.forms ∨ f ∈ Category.typeGroup.forms) ∧
      (f.kind = .parameter → f ∈ Category.parameter.forms) ∧
      (f.kind = .classLiteral → ∀ item ∈ f.items,
        ∀ f' ∈ item.category.forms, f'.kind = .identifier → f' ∈ Category.word.forms) := by
  cases c <;> decide

variable (hnames : ∀ t : Text, t.IsTypeName → names t)

include hnames

/-- A node of an accepted tree. -/
theorem Derives.over (h : Derives c n) (hclean : n.Clean)
    (hliteral : n.kind = .identifier → literals n.literal) : n.Over literals names := by
  cases h with
  | faulty h => exact absurd hclean h
  | @node _ f span token children hf htoken hitems =>
    have hclean' : ∀ m ∈ children, m.Clean := fun m => hclean.child
    obtain ⟨htype, hparameter, hclass⟩ := forms_named c f hf
    exact
      { literal := hliteral
        type := fun h => (htype h).elim
          (fun hf' => over_type hnames (.node hf' htoken hitems) hclean)
          fun hf' => over_typeGroup hnames (.node hf' htoken hitems) hclean
        placed := by
          intro i hi m hm
          have hm' := hclean' m (List.mem_of_getElem? hm)
          obtain ⟨hfront, hitem | hitem⟩ := forms_typePlace c f hf i hi
          · exact over_type hnames (hitems.getElem? hfront hitem hm) hm'
          · exact over_typeGroup hnames (hitems.getElem? hfront hitem hm) hm'
        parts := by
          intro hparts m hm hm'
          obtain ⟨item, hitem, hpart⟩ := hitems.mem hm
          have hforms := forms_typeParts c f hf hparts item hitem
          refine over_type hnames (hpart.of_kind (hclean' m hm) fun f' hf' hkind => ?_)
            (hclean' m hm)
          exact hforms f' hf' (by rw [hkind]; simpa using hm')
        named := by
          intro hliteral m hm hm'
          have hmem : m ∈ children := List.mem_of_getElem? hm
          obtain ⟨item, hitem, hpart⟩ := hitems.mem hmem
          have hword : Derives .word m :=
            hpart.of_kind_eq (hclean' m hmem) hm' (hclass hliteral item hitem)
          exact hnames _ (hword.literal_isWord (hclean' m hmem)).isTypeName
        parameter := fun h =>
          over_parameter hnames (.node (hparameter h) htoken hitems) hclean }

/-- An accepted tree. -/
theorem Derives.overTree (n : Node) : ∀ {c : Category}, Derives c n → n.Clean →
    (∀ m ∈ n.walk, m.kind = .identifier → literals m.literal) → n.OverTree literals names := by
  induction n using Node.induction with
  | h n ih =>
    intro c hn hclean hliterals
    refine .intro (hn.over hnames hclean (hliterals n n.mem_walk)) fun _ m hm => ?_
    obtain ⟨f, -, -, -, hitems⟩ := hn.form hclean
    obtain ⟨item, -, hderives⟩ := hitems.mem hm
    exact ih m hm hderives (hclean.child hm) fun o ho => hliterals o (Node.mem_walk_of_child hm ho)

end Nodes

end JavaObjC
