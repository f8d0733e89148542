import JavaObjC.Proofs.Coverage.Units

/-!
# Names and types in accepted trees

A declared name is a word: it is not empty and has letters and digits only. The
name of a written type is made of words and dots and ends in a word, so the
part after its last dot is a word too. Both are read off the forms of the
grammar.

Signatures of methods list the keys of the parameter types. The key of a type
that a written type stands for is one item of such a list, provided that the
configured targets hold no comma and the known classes have the names under
which they are known.
-/

namespace JavaObjC

section Words

namespace Text

/-- A text of letters and digits. -/
def IsWord (t : Text) : Prop := t ≠ [] ∧ ∀ b ∈ t, Lexeme.isLetterOrDigit b = true

/-- A text that stands for one item in a list with commas. -/
def IsItem (t : Text) : Prop := t ≠ [] ∧ byte ',' ∉ t

/-- A text that ends in something other than a dot and stands for one item in a list. -/
def IsTypeName (t : Text) : Prop := t.IsItem ∧ t.getLast? ≠ some (byte '.')

/-- A word has only letters and digits. -/
theorem IsWord.notMem {t : Text} (h : t.IsWord) {b : UInt8}
    (hb : Lexeme.isLetterOrDigit b = false) : b ∉ t := fun hmem =>
  absurd (h.2 b hmem) (by simp [hb])

/-- A word may be the name of a type. -/
theorem IsWord.isTypeName {t : Text} (h : t.IsWord) : t.IsTypeName := by
  refine ⟨⟨h.1, h.notMem (by decide)⟩, fun hlast => ?_⟩
  exact h.notMem (b := byte '.') (by decide) (List.mem_of_getLast? hlast)

/-- The part after the last dot of a type name is an item. -/
theorem IsTypeName.simpleName {t : Text} (h : t.IsTypeName) : (simpleName t).IsItem := by
  obtain ⟨⟨hne, hcomma⟩, hlast⟩ := h
  unfold JavaObjC.simpleName
  induction t with
  | nil => exact absurd rfl hne
  | cons c rest ih =>
    rw [List.mem_cons, not_or] at hcomma
    cases rest with
    | nil =>
      have hdot : c ≠ byte '.' := fun heq => hlast (by simp [heq])
      simp only [afterLast, List.not_mem_nil, if_false, hdot]
      exact ⟨by simp, by simpa using hcomma.1⟩
    | cons c' rest' =>
      rw [afterLast]
      split
      · exact ih (by simpa using hlast) (by simp) hcomma.2
      · split
        · exact ⟨by simp, hcomma.2⟩
        · exact ⟨by simp, by rw [List.mem_cons, not_or]; exact hcomma⟩

/-- Type names joined by dots are a type name. -/
theorem IsTypeName.join {parts : List Text} (hne : parts ≠ [])
    (h : ∀ t ∈ parts, t.IsTypeName) : (Text.join "." parts).IsTypeName := by
  induction parts with
  | nil => exact absurd rfl hne
  | cons t rest ih =>
    rw [List.forall_mem_cons] at h
    cases rest with
    | nil => exact h.1
    | cons t' rest' =>
      obtain ⟨⟨hrest, hcomma⟩, hlast⟩ := ih (by simp) h.2
      rw [Text.join.eq_3 _ _ _ (by simp)]
      refine ⟨⟨by simp [h.1.1.1], ?_⟩, ?_⟩
      · simp only [List.mem_append, not_or]
        exact ⟨⟨h.1.1.2, by decide⟩, hcomma⟩
      · rw [List.getLast?_append_of_ne_nil _ hrest]
        exact hlast

end Text

variable {n : Node}

/-- The literal of a word. -/
theorem Derives.literal_isWord (h : Derives .word n) (hclean : n.Clean) : n.literal.IsWord := by
  obtain ⟨f, hf, -, htoken, -⟩ := h.form hclean
  obtain rfl := List.mem_singleton.1 hf
  obtain ⟨w, hw, hword⟩ := htoken
  rw [Node.literal, hw]
  exact hword

/-- The name in a declaration whose head holds no other name in front of it. -/
theorem declaredName_isWord (items : List Item) {items' : List Item} (hclean : n.Clean)
    (h : Matches (items ++ .one .word :: items') n.children)
    (hitems : ∀ item ∈ items, NodeKind.identifier ∉ item.category.forms.map Form.kind) :
    (declaredName n).IsWord := by
  obtain ⟨front, back, heq, hfront, hback⟩ := Matches.split items h
  obtain ⟨name, rest, rfl, hname, -⟩ := Matches.one_iff.1 hback
  have hname' : name.Clean := hclean.child (by simp [heq])
  have hkind : name.kind = .identifier := by
    simpa [Category.forms, Category.wordForms] using hname.kind_mem hname'
  have hnone : front.find? (·.kind = .identifier) = none := by
    rw [List.find?_eq_none]
    intro m hm
    obtain ⟨item, hitem, hderives⟩ := hfront.mem hm
    simpa using hderives.kind_ne (hclean.child (by simp [heq, hm])) (hitems item hitem)
  have hchild : n.child? .identifier = some name := by
    simp [Node.child?, heq, List.find?_append, hnone, hkind]
  rw [declaredName, hchild]
  exact hname.literal_isWord hname'

/-- The name of a class or interface is a word. -/
theorem declaredName_of_typeDecl (h : Derives .typeDecl n) (hclean : n.Clean) :
    (declaredName n).IsWord := by
  obtain ⟨f, hf, -, -, hitems⟩ := h.form hclean
  have hforms : ∀ f ∈ Category.typeDecl.forms,
      f.items = [.one .modifiers] ++ .one .word :: f.items.drop 2 := by decide
  rw [hforms f hf] at hitems
  exact declaredName_isWord _ hclean hitems (by decide)

/-- The name of a method is a word. -/
theorem declaredName_of_methodDecl (h : Derives .member n) (hclean : n.Clean)
    (hkind : n.kind = .methodDecl) : (declaredName n).IsWord := by
  obtain ⟨f, hf, hfkind, -, hitems⟩ := h.form hclean
  have hforms : ∀ f ∈ Category.member.forms, f.kind = .methodDecl →
      f.items = [.one .modifiers, .optional .typeParameters, .one .type] ++
        .one .word :: f.items.drop 4 := by decide
  rw [hforms f hf (hfkind.symm.trans hkind)] at hitems
  exact declaredName_isWord _ hclean hitems (by decide)

section TypeNames

variable {P : Text → Prop} {Q : Node → Prop}

/-- A property that names joined by dots have when each of them has it. -/
def JoinsNames (P : Text → Prop) : Prop :=
  ∀ parts : List Text, parts ≠ [] → (∀ t ∈ parts, P t) → P (Text.join "." parts)

/-- A property of nodes that their children have too, and that gives names another one. -/
structure NamesBelow (Q : Node → Prop) (P : Text → Prop) : Prop where
  down : ∀ m, Q m → ∀ c ∈ m.children, Q c
  word : ∀ m, Q m → m.kind = .identifier ∨ m.kind = .type → m.literal.IsWord → P m.literal

/-- A node that gives a part of the name of a type. -/
def GivesName (P : Text → Prop) (m : Node) : Prop :=
  m.kind = .identifier ∧ P m.literal ∨ m.kind = .qualifiedName ∧ P (qualifiedText m)

/-- The name of a type is made of the names among its parts. -/
theorem ofParts_name (hjoin : JoinsNames P) {names : List Text} {arguments : List JavaType}
    {nodes : List Node} (hnames : ∀ t ∈ names, P t)
    (hnodes : ∀ m ∈ nodes, GivesName P m ∨ m.kind = .annotationUse ∨ m.kind = .typeArguments)
    (hsome : names ≠ [] ∨ ∃ m ∈ nodes, GivesName P m) :
    P (JavaType.ofParts names arguments nodes).name := by
  induction nodes generalizing names arguments with
  | nil =>
    rw [JavaType.ofParts]
    exact hjoin names (by simpa using hsome) hnames
  | cons m rest ih =>
    rw [List.forall_mem_cons] at hnodes
    obtain ⟨kind, span, token, problem, children⟩ := m
    have hlater : ∀ t : Text, P t → ∀ t' ∈ names ++ [t], P t' := by
      intro t ht t' ht'
      rcases List.mem_append.1 ht' with ht' | ht'
      · exact hnames t' ht'
      · exact List.mem_singleton.1 ht' ▸ ht
    obtain ⟨(⟨hkind, htext⟩ | ⟨hkind, htext⟩) | hkind | hkind, hrest⟩ := hnodes
    · obtain rfl : kind = .identifier := hkind
      rw [JavaType.ofParts]
      exact ih (hlater _ htext) hrest (.inl (by simp))
    · obtain rfl : kind = .qualifiedName := hkind
      rw [JavaType.ofParts]
      exact ih (hlater _ htext) hrest (.inl (by simp))
    · obtain rfl : kind = .annotationUse := hkind
      have hsome' : names ≠ [] ∨ ∃ m ∈ rest, GivesName P m := by
        simpa [GivesName] using hsome
      rw [JavaType.ofParts] <;> first | exact ih hnames hrest hsome' | simp
    · obtain rfl : kind = .typeArguments := hkind
      have hsome' : names ≠ [] ∨ ∃ m ∈ rest, GivesName P m := by
        simpa [GivesName] using hsome
      rw [JavaType.ofParts]
      exact ih hnames hrest hsome'

/-- A word gives the name it spells. -/
theorem Derives.givesName_of_word (hQ : NamesBelow Q P) (h : Derives .word n) (hclean : n.Clean)
    (hn : Q n) : GivesName P n := by
  have hkind : n.kind = .identifier := by
    simpa [Category.forms, Category.wordForms] using h.kind_mem hclean
  exact .inl ⟨hkind, hQ.word n hn (.inl hkind) (h.literal_isWord hclean)⟩

/-- The words of a qualified name, joined by dots. -/
theorem Derives.givesName_of_qualifiedName (hjoin : JoinsNames P) (hQ : NamesBelow Q P)
    (h : Derives .qualifiedName n) (hclean : n.Clean) (hn : Q n) : GivesName P n := by
  obtain ⟨f, hf, hkind, -, hitems⟩ := h.form hclean
  obtain rfl := List.mem_singleton.1 hf
  refine .inr ⟨hkind, ?_⟩
  rw [qualifiedText, if_neg (by rw [hkind]; decide)]
  have hwords : DerivesAll .word n.children := hitems.all (by decide)
  obtain ⟨first, rest, heq, -⟩ := Matches.one_iff.1 hitems
  refine hjoin _ (by simp [heq]) fun t ht => ?_
  obtain ⟨m, hm, rfl⟩ := List.mem_map.1 ht
  have hclean' := hclean.child hm
  have hkind' : m.kind = .identifier := by
    simpa [Category.forms, Category.wordForms] using (hwords m hm).kind_mem hclean'
  exact hQ.word m (hQ.down n hn m hm) (.inl hkind') ((hwords m hm).literal_isWord hclean')

/-- A further part of a type is a name or a list of type arguments. -/
theorem Derives.givesName_of_typePart (hjoin : JoinsNames P) (hQ : NamesBelow Q P)
    (h : Derives .typePart n) (hclean : n.Clean) (hn : Q n) :
    GivesName P n ∨ n.kind = .typeArguments := by
  by_cases hkind : n.kind = .typeArguments
  · exact .inr hkind
  · have hforms : ∀ f ∈ Category.typePart.forms, f.kind ≠ .typeArguments →
        f ∈ Category.qualifiedName.forms := by decide
    have hname : Derives .qualifiedName n :=
      h.of_kind hclean fun f hf hf' => hforms f hf (hf' ▸ hkind)
    exact .inl (hname.givesName_of_qualifiedName hjoin hQ hclean hn)

/-- A type node without a word of its own is read off its parts. -/
theorem ofNode_type (span : Span) (problem : Option Problem) (children : List Node) :
    JavaType.ofNode ⟨.type, span, none, problem, children⟩ = .ofParts [] [] children := by
  rw [JavaType.ofNode] <;> simp

/-- The name of a written type is made of the words in it. -/
theorem typeName_of_words (hjoin : JoinsNames P) (hQ : NamesBelow Q P) (h : Derives .type n)
    (hclean : n.Clean) (hn : Q n) : P (JavaType.ofNode n).name := by
  have huse : ∀ m, Derives .annotationUse m → m.Clean → m.kind = .annotationUse := by
    intro m hm hm'
    simpa [Category.forms, Category.annotationForms] using hm.kind_mem hm'
  induction n using Node.induction with
  | h n ih =>
    obtain ⟨f, hf, hkind, htoken, hitems⟩ := h.form hclean
    have hclean' : ∀ m ∈ n.children, m.Clean := fun m => hclean.child
    have hdown := hQ.down n hn
    obtain ⟨kind, span, token, problem, children⟩ := n
    simp only [Category.forms, Category.typeForms, List.mem_cons, List.not_mem_nil, or_false] at hf
    rcases hf with rfl | rfl | rfl | rfl <;>
      dsimp only at hkind htoken hitems hclean' hdown <;> subst hkind
    · obtain rfl : token = none := htoken
      simp only [Matches.many_iff, Matches.one_iff, Matches.nil_iff] at hitems
      obtain ⟨uses, _, rfl, huses, name, _, rfl, hname, rfl⟩ := hitems
      have hname' := hname.givesName_of_word hQ (hclean' name (by simp)) (hdown name (by simp))
      rw [ofNode_type]
      refine ofParts_name hjoin (by simp) (fun m hm => ?_) (.inr ⟨name, by simp, hname'⟩)
      rcases List.mem_append.1 hm with hm' | hm'
      · exact .inr (.inl (huse m (huses m hm') (hclean' m hm)))
      · exact .inl (List.mem_singleton.1 hm' ▸ hname')
    · obtain rfl : token = none := htoken
      simp only [Matches.many_iff, Matches.one_iff, Matches.nil_iff] at hitems
      obtain ⟨uses, _, rfl, huses, name, _, rfl, hname, parts, _, rfl, hparts, rfl⟩ := hitems
      have hname' := hname.givesName_of_qualifiedName hjoin hQ (hclean' name (by simp))
        (hdown name (by simp))
      rw [ofNode_type]
      refine ofParts_name hjoin (by simp) (fun m hm => ?_) (.inr ⟨name, by simp, hname'⟩)
      simp only [List.append_nil, List.mem_append, List.mem_cons] at hm
      rcases hm with hm' | rfl | hm'
      · exact .inr (.inl (huse m (huses m hm') (hclean' m (by simp [hm']))))
      · exact .inl hname'
      · exact ((hparts m hm').givesName_of_typePart hjoin hQ (hclean' m (by simp [hm']))
          (hdown m (by simp [hm']))).imp id .inr
    · obtain ⟨w, rfl, hword⟩ := htoken
      rw [JavaType.ofNode]
      exact hQ.word _ hn (.inr rfl) hword
    · simp only [Matches.one_iff, Matches.nil_iff] at hitems
      obtain ⟨element, _, rfl, helement, rfl⟩ := hitems
      rw [JavaType.ofNode]
      exact ih element (by simp) helement (hclean' element (by simp)) (hdown element (by simp))

/-- The name of a written type. -/
theorem typeName_isTypeName (h : Derives .type n) (hclean : n.Clean) :
    (JavaType.ofNode n).name.IsTypeName :=
  typeName_of_words (Q := fun _ => True) (fun _ => .join)
    ⟨fun _ _ _ _ => trivial, fun _ _ _ hword => hword.isTypeName⟩ h hclean trivial

end TypeNames

/-- Parts of a parameter other than its type leave the type alone. -/
theorem foldl_addNode_type {nodes : List Node} (p : Parameter × Bool)
    (h : ∀ m ∈ nodes, m.kind ≠ .type ∧ m.kind ≠ .arrayType) :
    (nodes.foldl Parameter.addNode p).1.type = p.1.type := by
  induction nodes generalizing p with
  | nil => rfl
  | cons m rest ih =>
    rw [List.forall_mem_cons] at h
    rw [List.foldl_cons, ih _ h.2, Parameter.addNode, if_neg (by simp [h.1])]
    split_ifs <;> rfl

/-- The type of a declared parameter is written, but for the dots. -/
theorem parameterType_eq (h : Derives .parameter n) (hclean : n.Clean) :
    ∃ type depth, Derives .type type ∧ type.Clean ∧
      (Parameter.ofNode n).type = { JavaType.ofNode type with depth } := by
  obtain ⟨f, hf, -, -, hitems⟩ := h.form hclean
  obtain rfl := List.mem_singleton.1 hf
  obtain ⟨mods, _, heq, hmods, hrest⟩ := Matches.one_iff.1 hitems
  obtain ⟨type, rest, rfl, htype, hrest⟩ := Matches.one_iff.1 hrest
  have hclean' : ∀ m ∈ mods :: type :: rest, m.Clean := fun m hm => hclean.child (heq ▸ hm)
  have htype' : type.kind = .type ∨ type.kind = .arrayType := by
    simpa [Category.forms, Category.typeForms] using htype.kind_mem (hclean' type (by simp))
  have hmods' : mods.kind = .modifiers := by
    simpa [Category.forms] using hmods.kind_mem (hclean' mods (by simp))
  have hfold : (n.children.foldl Parameter.addNode ({}, false)).1.type = JavaType.ofNode type := by
    rw [heq, List.foldl_cons, List.foldl_cons, foldl_addNode_type]
    · simp [Parameter.addNode, hmods', htype']
    · intro m hm
      obtain ⟨item, hitem, hderives⟩ := hrest.mem hm
      have hnone : ∀ item ∈ [Item.optional .mark, .one .word],
          NodeKind.type ∉ item.category.forms.map Form.kind ∧
            NodeKind.arrayType ∉ item.category.forms.map Form.kind := by decide
      have hm' := hclean' m (by simp [hm])
      exact ⟨hderives.kind_ne hm' (hnone item hitem).1, hderives.kind_ne hm' (hnone item hitem).2⟩
  refine ⟨type, (Parameter.ofNode n).type.depth, htype, hclean' type (by simp), ?_⟩
  rw [Parameter.ofNode, ← hfold]
  dsimp only
  split
  · rfl
  · cases (n.children.foldl Parameter.addNode ({}, false)).1.type
    rfl

/-- The type of a declared parameter has a name. -/
theorem parameterType_isTypeName (h : Derives .parameter n) (hclean : n.Clean) :
    (Parameter.ofNode n).type.name.IsTypeName := by
  obtain ⟨type, depth, htype, hclean', heq⟩ := parameterType_eq h hclean
  rw [heq]
  exact typeName_isTypeName htype hclean'

/-- The name of a declared parameter is a word. -/
theorem parameterName_isWord (h : Derives .parameter n) (hclean : n.Clean) :
    (Parameter.ofNode n).name.IsWord := by
  obtain ⟨f, hf, -, -, hitems⟩ := h.form hclean
  obtain rfl := List.mem_singleton.1 hf
  obtain ⟨front, back, heq, -, hback⟩ :=
    Matches.split [.one .modifiers, .one .type, .optional .mark] hitems
  obtain ⟨word, rest, rfl, hword, hrest⟩ := Matches.one_iff.1 hback
  obtain rfl := Matches.nil_iff.1 hrest
  have hword' : word.Clean := hclean.child (by simp [heq])
  have hliteral := hword.literal_isWord hword'
  have hkind : word.kind = .identifier := by
    simpa [Category.forms, Category.wordForms] using hword.kind_mem hword'
  have hdots : word.literal ≠ "..." := fun hdots =>
    (hdots ▸ hliteral).notMem (b := Text.byte '.') (by decide) (by decide)
  have hname : (n.children.foldl Parameter.addNode ({}, false)).1.name = word.literal := by
    rw [heq, List.foldl_append]
    simp [Parameter.addNode, hkind, hdots]
  have hsame : (Parameter.ofNode n).name = word.literal := by
    rw [← hname, Parameter.ofNode]
    dsimp only
    split <;> rfl
  rw [hsame]
  exact hliteral

/-- The parameters of a method or constructor are written as such. -/
theorem derives_of_mem_ofDecl (h : Derives .member n) (hclean : n.Clean)
    (hkind : n.kind = .methodDecl ∨ n.kind = .constructorDecl) {p : Parameter}
    (hp : p ∈ Parameter.ofDecl n) :
    ∃ m, Derives .parameter m ∧ m.Clean ∧ p = Parameter.ofNode m := by
  unfold Parameter.ofDecl at hp
  split at hp
  · next list hlist =>
    have hmem : list ∈ n.children := List.mem_of_find?_eq_some hlist
    have hlist' : list.Clean := hclean.child hmem
    have hparameters : Derives .parameters list := by
      obtain ⟨f, hf, hfkind, -, hitems⟩ := h.form hclean
      obtain ⟨item, hitem, hderives⟩ := hitems.mem hmem
      have hforms : ∀ f ∈ Category.member.forms, f.kind = .methodDecl ∨ f.kind = .constructorDecl →
          ∀ item ∈ f.items, ∀ f' ∈ item.category.forms, f'.kind = .parameters →
            f' ∈ Category.parameters.forms := by decide
      exact hderives.of_kind_eq hlist' (by simpa using List.find?_some hlist)
        (hforms f hf (hfkind ▸ hkind) item hitem)
    obtain ⟨-, hall⟩ : list.kind = .parameters ∧ DerivesAll .parameter list.children :=
      hparameters.uniform hlist' (by decide)
    obtain ⟨m, hm, rfl⟩ := List.mem_map.1 hp
    have hm' := List.mem_of_mem_filter hm
    exact ⟨m, hall m hm', hlist'.child hm', rfl⟩
  · cases hp

/-- The types of the parameters of a method or constructor have names. -/
theorem parameterTypes_areTypeNames (h : Derives .member n) (hclean : n.Clean)
    (hkind : n.kind = .methodDecl ∨ n.kind = .constructorDecl) :
    ∀ p ∈ Parameter.ofDecl n, p.type.name.IsTypeName := by
  intro p hp
  obtain ⟨m, hm, hm', rfl⟩ := derives_of_mem_ofDecl h hclean hkind hp
  exact parameterType_isTypeName hm hm'

/-- The names of the parameters of a method or constructor are words. -/
theorem parameterNames_areWords (h : Derives .member n) (hclean : n.Clean)
    (hkind : n.kind = .methodDecl ∨ n.kind = .constructorDecl) :
    ∀ p ∈ Parameter.ofDecl n, p.name.IsWord := by
  intro p hp
  obtain ⟨m, hm, hm', rfl⟩ := derives_of_mem_ofDecl h hclean hkind hp
  exact parameterName_isWord hm hm'

end Words

section Tables

/-- What is found under a name is in the table with the name. -/
theorem Text.exists_of_find? {α : Type} {table : List (String × α)} {name : Text} {value : α}
    (h : Text.find? table name = some value) :
    ∃ key, (key, value) ∈ table ∧ Text.ofString key = name := by
  induction table with
  | nil => cases h
  | cons entry rest ih =>
    rw [Text.find?] at h
    split at h
    · next hname => exact ⟨entry.1, Option.some.inj h ▸ List.mem_cons_self, hname⟩
    · obtain ⟨key, hmem, hkey⟩ := ih h
      exact ⟨key, List.mem_cons_of_mem _ hmem, hkey⟩

/-- A value that is found under a name is in the table. -/
theorem Text.mem_of_find? {α : Type} {table : List (String × α)} {name : Text} {value : α}
    (h : Text.find? table name = some value) : value ∈ table.map Prod.snd := by
  obtain ⟨key, hmem, -⟩ := Text.exists_of_find? h
  exact List.mem_map_of_mem hmem

end Tables

section Keys

/-- Configured types whose targets hold no comma. -/
def TypeMapper.CommaFree (mapper : TypeMapper) : Prop :=
  ∀ entry ∈ mapper.overrides, Text.byte ',' ∉ entry.2

/-- A registry whose classes have the names under which they are known. -/
def Registry.Named (r : Registry) : Prop :=
  ∀ entry ∈ r.entries, entry.2.target.name = entry.1

variable {mapper : TypeMapper} {r : Registry} {name : Text}

/-- A predefined class has the name it is found by. -/
theorem predefined?_name {c : ClassRef} (h : ClassRef.predefined? name = some c) :
    c.name = name := by
  unfold ClassRef.predefined? at h
  split at h
  · cases h
    rfl
  · split at h
    · cases h
      rfl
    · cases h

/-- A class of the registry has the name it is found by. -/
theorem Registry.Named.lookup?_name (hr : r.Named) {c : ClassRef} (h : r.lookup? name = some c) :
    c.name = name := by
  rw [Registry.lookup?, Option.or_eq_some_iff] at h
  rcases h with h | ⟨-, h⟩
  · exact predefined?_name h
  · obtain ⟨e, he, rfl⟩ := Option.map_eq_some_iff.1 h
    exact hr (name, e) (mem_of_getKey? he)

/-- A resolved class has the name it is found by. -/
theorem Registry.Named.resolve_name (hr : r.Named) (name : Text) :
    (r.resolve name).name = name := by
  rw [Registry.resolve]
  cases h : r.lookup? name with
  | none => rfl
  | some c => exact hr.lookup?_name h

/-- The type that a configured target names has the target as its key. -/
theorem targetRef_key (hr : r.Named) {target : Text} (hne : target ≠ []) :
    (TypeMapper.targetRef r target).key = target := by
  unfold TypeMapper.targetRef
  split
  · simp [TypeRef.key, TypeRef.render, hne]
  · rw [TypeRef.key]
    cases h : r.lookup? target with
    | some c => exact hr.lookup?_name h
    | none =>
      rw [Option.getD_none, ClassRef.system]
      cases hpredefined : ClassRef.predefined? target with
      | none => rfl
      | some c => exact predefined?_name hpredefined

/-- A configured type has an item as its key. -/
theorem override?_key (hmapper : mapper.CommaFree) (hr : r.Named) {ref : TypeRef}
    (h : mapper.override? r name = some ref) : ref.key.IsItem := by
  unfold TypeMapper.override? at h
  split at h
  · next target htarget =>
    split at h
    · cases h
    · next hne =>
      rw [List.isEmpty_iff] at hne
      obtain rfl := Option.some.inj h
      rw [targetRef_key hr hne]
      refine ⟨hne, ?_⟩
      rw [Option.or_eq_some_iff] at htarget
      rcases htarget with htarget | ⟨-, htarget⟩
      · exact hmapper _ (mem_of_getKey? htarget)
      · exact hmapper _ (mem_of_getKey? htarget)
  · cases h

/-- The class of a type name has an item as its name. -/
theorem classOf_name (hmapper : mapper.CommaFree) (hr : r.Named) (hname : name.IsTypeName) :
    (mapper.classOf r name).name.IsItem := by
  unfold TypeMapper.classOf
  split
  · next target htarget =>
    obtain ⟨ref, href, hobject⟩ := Option.bind_eq_some_iff.1 htarget
    have hkey := override?_key hmapper hr href
    cases ref with
    | scalar _ => cases hobject
    | object c =>
      obtain rfl := Option.some.inj hobject
      exact hkey
  · cases h : libraryClass? name with
    | none =>
      rw [Option.getD_none, hr.resolve_name]
      exact hname.simpleName
    | some c =>
      obtain ⟨entry, hentry, rfl⟩ := Option.map_eq_some_iff.1 h
      have hall : ∀ entry ∈ libraryClasses, entry.1.name ≠ [] ∧ Text.byte ',' ∉ entry.1.name := by
        decide
      exact hall entry (List.mem_of_find?_eq_some hentry)

/-- The types that type names stand for have items as their keys. -/
theorem map_key (hmapper : mapper.CommaFree) (hr : r.Named) {t : JavaType}
    (ht : t.name.IsTypeName) : (mapper.map r t).key.IsItem := by
  unfold TypeMapper.map
  split
  · exact ⟨by decide, by decide⟩
  · split
    · next ref href => exact override?_key hmapper hr href
    · cases h : primitiveRef? t.name with
      | none => exact classOf_name hmapper hr ht
      | some ref =>
        obtain ⟨_, hscalar, rfl⟩ := Option.map_eq_some_iff.1 h
        obtain ⟨scalar, hfound, hpure⟩ := Option.bind_eq_some_iff.1 hscalar
        obtain rfl := Option.some.inj hpure
        have hall : ∀ scalar ∈ primitiveScalars.map Prod.snd,
            (TypeRef.scalar scalar).key ≠ [] ∧ Text.byte ',' ∉ (TypeRef.scalar scalar).key := by
          decide
        exact hall scalar (Text.mem_of_find? hfound)

end Keys

section Fresh

/-- The bytes of a decoded text were in the text. -/
theorem Text.mem_of_mem_runesFrom {fuel : Nat} {t : Text} {rune : Rune} {b : UInt8}
    (hrune : rune ∈ Text.runesFrom fuel t) (hb : b ∈ rune.bytes) : b ∈ t := by
  induction fuel generalizing t with
  | zero => cases hrune
  | succ fuel ih =>
    cases t with
    | nil => cases hrune
    | cons a rest =>
      rw [Text.runesFrom] at hrune
      rcases List.mem_cons.1 hrune with rfl | hlater
      · have hfirst : ∀ b ∈ (Text.firstRune a rest).bytes, b ∈ a :: rest := by
          unfold Text.firstRune
          split_ifs <;> (try split) <;> (try split_ifs) <;> simp [Rune.bytes]
        exact hfirst b hb
      · exact List.mem_of_mem_drop (ih hlater)

/-- Trimming a text adds no byte. -/
theorem Text.mem_of_mem_trim {t : Text} {b : UInt8} (h : b ∈ Text.trim t) : b ∈ t := by
  obtain ⟨rune, hrune, hb⟩ := List.mem_flatMap.1 h
  have hrune' : rune ∈ Text.runes t := by
    have hfront := (List.dropWhile_sublist _).mem (List.mem_reverse.1 hrune)
    exact (List.dropWhile_sublist _).mem (List.mem_reverse.1 hfront)
  exact Text.mem_of_mem_runesFrom hrune' hb

/-- Cleaning a configured target adds no byte. -/
theorem TypeMapper.mem_of_mem_cleanTarget {t : Text} {b : UInt8} (h : b ∈ cleanTarget t) :
    b ∈ t := by
  have hdropped := Text.mem_of_mem_trim h
  unfold Text.dropTail at hdropped
  split at hdropped
  · exact Text.mem_of_mem_trim (List.mem_of_mem_take hdropped)
  · exact Text.mem_of_mem_trim hdropped

/-- Targets without commas stay without commas. -/
theorem TypeMapper.ofEntries_commaFree {entries : List (Text × Text)}
    (h : ∀ entry ∈ entries, Text.byte ',' ∉ entry.2) : (ofEntries entries).CommaFree := by
  intro entry hentry hcomma
  obtain ⟨⟨source, target⟩, hmem, rfl⟩ := List.mem_map.1 hentry
  dsimp only at hcomma
  have htarget : Text.byte ',' ∈ target := mem_of_mem_cleanTarget hcomma
  exact h (source, target) hmem htarget

end Fresh

end JavaObjC
