import JavaObjC.Proofs.Coverage.Statements
import JavaObjC.Proofs.Generation
import JavaObjC.Proofs.Trees.Units

/-!
# What accepted sources do not hold

A source is accepted only if its tree has the forms of the grammar and code is
generated for all of its members. So nothing that is looked at in an accepted
source is without a counterpart.
-/

namespace JavaObjC

open Generating

/-- A row that matches some items and then others. -/
theorem Matches.split (items : List Item) {items' : List Item} {nodes : List Node}
    (h : Matches (items ++ items') nodes) :
    ∃ front back, nodes = front ++ back ∧ Matches items front ∧ Matches items' back := by
  induction items generalizing nodes with
  | nil => exact ⟨[], nodes, rfl, .nil, h⟩
  | cons item items ih =>
    cases item with
    | one c =>
      obtain ⟨first, rest, rfl, hfirst, hrest⟩ := one_iff.1 h
      obtain ⟨front, back, rfl, hfront, hback⟩ := ih hrest
      exact ⟨first :: front, back, rfl, .one hfirst hfront, hback⟩
    | optional c =>
      rcases optional_iff.1 h with hrest | ⟨first, rest, rfl, hfirst, hrest⟩
      · obtain ⟨front, back, rfl, hfront, hback⟩ := ih hrest
        exact ⟨front, back, rfl, .without hfront, hback⟩
      · obtain ⟨front, back, rfl, hfront, hback⟩ := ih hrest
        exact ⟨first :: front, back, rfl, .having hfirst hfront, hback⟩
    | many c =>
      obtain ⟨several, rest, rfl, hseveral, hrest⟩ := many_iff.1 h
      obtain ⟨front, back, rfl, hfront, hback⟩ := ih hrest
      exact ⟨several ++ front, back, by rw [List.append_assoc], of_all hseveral hfront, hback⟩

namespace Lowering

section Members

variable {n : Node}

/-- The head of a declaration needs no code, and no block stands in it. -/
theorem head_of_matches (items : List Item) {items' : List Item} {nodes : List Node}
    (hclean : ∀ m ∈ nodes, m.Clean) (hitems : Matches (items ++ items') nodes)
    (hplain : ∀ item ∈ items, item.category ∈ Category.plain) :
    ∃ front back, nodes = front ++ back ∧ (∀ m ∈ front, m.Fine ∧ m.kind ≠ .block) ∧
      Matches items' back := by
  obtain ⟨front, back, rfl, hfront, hback⟩ := Matches.split items hitems
  refine ⟨front, back, rfl, fun m hm => ?_, hback⟩
  have hm' := hclean m (List.mem_append_left _ hm)
  obtain ⟨item, hitem, hderives⟩ := hfront.mem hm
  have hnone : ∀ c ∈ Category.plain, NodeKind.block ∉ c.forms.map Form.kind := by decide
  exact ⟨hderives.fine_of_plain (hplain item hitem) hm',
    hderives.kind_ne hm' (hnone _ (hplain item hitem))⟩

/-- The field of one variable. -/
theorem fieldVariable_assures (hclean : n.Clean) (hn : Derives .declarator n) (shape : TargetField)
    (t : JavaType) : Assures (fieldVariable shape t n) n.Fine := by
  have h := covered n hclean
  obtain ⟨hkind, name, hname, heq | ⟨value, hvalue, heq⟩⟩ := declarator_children h hn
  · have hname := (h.child (heq ▸ List.mem_cons_self)).fine hname (by decide)
    exact .of_true (fine_of_children hkind rfl heq (by simpa using hname))
  · have hcovered : ∀ m ∈ [name, value], Covered m := fun m hm => h.child (heq ▸ hm)
    simp only [fieldVariable, declaredValue, heq, List.getElem?_cons_succ, List.getElem?_cons_zero]
    refine .imp (.first (Drafting.generate_assures
      (initialValue_assures (hcovered value (by simp)) hvalue t)))
      fun hvalue => fine_of_children hkind rfl heq ?_
    simpa using ⟨(hcovered name (by simp)).fine hname (by decide), hvalue⟩

theorem field_assures (hclean : n.Clean) (hkind : n.kind = .fieldDecl)
    (hitems : Matches [.one .modifiers, .one .type, .many .declarator] n.children)
    (isInterface : Bool) : Assures (field isInterface n) n.Fine := by
  obtain ⟨hdecls, hfine⟩ := declarators_of_matches (fun m hm => covered m (hclean.child hm)) hitems
  refine .second fun _ => .second fun _ => .imp (.forM fun m hm => ?_) fun hdecls =>
    Node.fine_of_isOpen (by rw [hkind]; rfl) (hfine hdecls)
  exact fieldVariable_assures (hclean.child (List.mem_of_mem_filter hm)) (hdecls m hm) _ _

/-- A method that is not refused has no type parameters, and one of an interface has no marks
and no body. -/
theorem of_methodFault?_eq_none {isInterface : Bool} (h : methodFault? isInterface n = none) :
    n.child? .typeParameters = none ∧ (isInterface = true →
      (Modifiers.ofDecl n).isDefault = false ∧ (Modifiers.ofDecl n).isStatic = false ∧
        n.child? .block = none) := by
  unfold methodFault? at h
  split at h
  · cases h
  · next hnone =>
    refine ⟨hnone, fun hinterface => ?_⟩
    rw [if_pos hinterface, interfaceMethodFault?] at h
    split_ifs at h with hdefault hstatic
    rw [Option.map_eq_none_iff] at h
    exact ⟨by simpa using hdefault, by simpa using hstatic, h⟩

/-- The body of a method is looked at unless the method is marked as abstract. -/
theorem addMethod_assures {block : Node} (hclean : block.Clean) (hblock : Derives .block block)
    (hfirst : n.child? .block = some block) (habstract : (Modifiers.ofDecl n).isAbstract = false) :
    Assures (addMethod false n) block.Fine := by
  refine .second fun _ => .second fun _ => .first ?_
  simp only [methodStatements, hfirst, habstract, Bool.or_self, Bool.false_eq_true, if_false]
  exact .map (Drafting.generate_assures (.second fun _ => (covered block hclean).block hblock)) _

/-- A method is fine if its body is, which is not looked at in abstract methods. -/
theorem fine_of_methodDecl {front back : List Node} (hkind : n.kind = .methodDecl)
    (hchildren : n.children = front ++ back) (hback : ∀ m ∈ back, m.Clean)
    (hends : DerivesAll .methodEnd back) (htypes : n.child? .typeParameters = none)
    (hfront : ∀ m ∈ front, m.Fine)
    (hblock : (Modifiers.ofDecl n).isAbstract = false → ∀ m ∈ back, m.kind = .block → m.Fine) :
    n.Fine := by
  refine (Node.fine_iff n).2 ⟨by simp [Node.isUntranslatable, hkind, htypes], fun m hm => ?_⟩
  simp only [Node.visited, hkind, hchildren, List.mem_filter, List.mem_append, Bool.or_eq_true,
    Bool.and_eq_true, decide_eq_true_eq, Bool.not_eq_true'] at hm
  obtain ⟨hm | hm, hhead | ⟨hm', habstract⟩⟩ := hm
  · exact hfront m hm
  · exact hfront m hm
  · have hforms : ∀ f ∈ Category.methodEnd.forms, Node.headKinds.contains f.kind →
        f ∈ Category.word.forms := by decide
    have hword : Derives .word m := (hends m hm).of_kind (hback m hm) fun f hf hf' =>
      hforms f hf (hf' ▸ hhead)
    exact hword.fine_of_plain (by decide) (hback m hm)
  · exact hblock habstract m hm hm'

theorem method_assures (hclean : n.Clean) (hkind : n.kind = .methodDecl)
    (hitems : Matches [.one .modifiers, .optional .typeParameters, .one .type, .one .word,
      .one .parameters, .optional .throwsList, .optional .methodEnd] n.children)
    (isInterface : Bool) :
    Assures (method isInterface n) (n.Fine ∧ (isInterface = true → n.isMarkedMethod = false)) := by
  unfold method
  cases hfault : methodFault? isInterface n with
  | some fault => exact Drafting.refuse_assures _ _
  | none =>
    obtain ⟨htypes, hmarks⟩ := of_methodFault?_eq_none hfault
    obtain ⟨front, back, hchildren, hfront, hback⟩ := head_of_matches
      [.one .modifiers, .optional .typeParameters, .one .type, .one .word,
        .one .parameters, .optional .throwsList] (fun m => hclean.child) hitems (by decide)
    have hends : DerivesAll .methodEnd back := hback.all (by decide)
    have hback' : ∀ m ∈ back, m.Clean := fun m hm => hclean.child (by simp [hchildren, hm])
    have hmarked : isInterface = true → n.isMarkedMethod = false := fun hinterface => by
      simp [Node.isMarkedMethod, hmarks hinterface]
    have hfine := fine_of_methodDecl hkind hchildren hback' hends htypes fun m hm => (hfront m hm).1
    cases hbody : n.child? .block with
    | none =>
      refine .of_true ⟨hfine fun _ m hm hblock => ?_, hmarked⟩
      have := List.find?_eq_none.1 hbody m (by simp [hchildren, hm])
      exact absurd hblock (by simpa using this)
    | some block =>
      have hnone : front.find? (·.kind = .block) = none := by
        simpa using fun m hm => (hfront m hm).2
      have hlast : back.find? (·.kind = .block) = some block := by
        rwa [Node.child?, hchildren, List.find?_append, hnone, Option.none_or] at hbody
      have hmem := List.mem_of_find?_eq_some hlast
      have hblock : Derives .block block := (hends block hmem).of_kind_eq (hback' block hmem)
        (by simpa using List.find?_some hlast) (by decide)
      have honly : ∀ m ∈ back, m = block := by
        rw [Matches.optional_iff, Matches.nil_iff] at hback
        obtain rfl | ⟨last, _, rfl, -, hnil⟩ := hback
        · cases hmem
        · obtain rfl := Matches.nil_iff.1 hnil
          simpa using (List.mem_singleton.1 hmem).symm
      by_cases habstract : (Modifiers.ofDecl n).isAbstract = true
      · exact .of_true ⟨hfine fun h => absurd habstract (by simp [h]), hmarked⟩
      · cases isInterface with
        | true => exact absurd (hmarks rfl).2.2 (by simp [hbody])
        | false =>
          refine .imp
            (addMethod_assures (hback' block hmem) hblock hbody (by simpa using habstract))
            fun hblock => ⟨hfine fun _ m hm _ => honly m hm ▸ hblock, hmarked⟩

/-- The message a constructor starts with looks at its arguments. -/
theorem constructorCall_assures (hclean : n.Clean) (hn : Derives .constructorCall n) :
    n.kind = .constructorCall ∧ Assures (constructorCall (attributed n).parts) n.Fine := by
  have hcovered : ∀ m ∈ n.children, Covered m := fun m hm => covered m (hclean.child hm)
  obtain ⟨f, hf, hkind, -, hitems⟩ := hn.form hclean
  obtain rfl := List.mem_singleton.1 hf
  refine ⟨hkind, ?_⟩
  obtain ⟨front, back, hchildren, hfront, hback⟩ := Matches.split
    [.optional .typeArguments, .optional .selfReference] hitems
  simp only [Matches.one_iff, Matches.nil_iff] at hback
  obtain ⟨list, _, rfl, hlist, rfl⟩ := hback
  rw [hchildren] at hcovered
  have hlist' := hcovered list (by simp)
  have hfront' : ∀ m ∈ front, m.Fine ∧ m.kind ≠ .parameters := fun m hm => by
    have hm' := (hcovered m (by simp [hm])).clean
    obtain ⟨item, hitem, hderives⟩ := hfront.mem hm
    have hplain : ∀ item ∈ [Item.optional .typeArguments, .optional .selfReference],
        item.category ∈ Category.plain ∧
          NodeKind.parameters ∉ item.category.forms.map Form.kind := by decide
    exact ⟨hderives.fine_of_plain (hplain item hitem).1 hm',
      hderives.kind_ne hm' (hplain item hitem).2⟩
  have hfirst : n.children.find? (·.kind = .parameters) = some list := by
    have hnone : front.find? (·.kind = .parameters) = none := by
      simpa using fun m hm => (hfront' m hm).2
    have hlist₀ : list.kind = .parameters := by
      simpa [Category.forms] using hlist.kind_mem hlist'.clean
    simp [hchildren, List.find?_append, hnone, hlist₀]
  have hfine : list.Fine → n.Fine := fun hlist => by
    refine fine_of_children hkind rfl hchildren fun m hm => ?_
    rcases List.mem_append.1 hm with hm | hm
    · exact (hfront' m hm).1
    · exact List.mem_singleton.1 hm ▸ hlist
  unfold constructorCall
  split
  · exact Attributed.refuse_assures _ _
  · rw [attributed_parts]
    exact .imp (.first (arguments_assures hlist' hlist hfirst)) hfine

/-- The body of a constructor. -/
theorem constructorBody_assures (hclean : n.Clean) (hn : Derives .constructorBody n)
    (parameters : List Parameter) :
    n.kind = .block ∧ Assures (constructorBody parameters n) n.Fine := by
  have hcovered : ∀ m ∈ n.children, Covered m := fun m hm => covered m (hclean.child hm)
  obtain ⟨f, hf, hkind, -, hitems⟩ := hn.form hclean
  obtain rfl := List.mem_singleton.1 hf
  refine ⟨hkind, ?_⟩
  have hfine : (∀ m ∈ n.children, m.Fine) → n.Fine := Node.fine_of_isOpen (by rw [hkind]; rfl)
  refine .imp (.second fun _ => ?_) hfine
  rw [attributed_parts]
  rcases Matches.optional_iff.1 hitems with hall | ⟨call, rest, heq, hcall, hrest⟩
  · have hall : DerivesAll .statement n.children := hall.all (by decide)
    cases hchildren : n.children with
    | nil => exact .of_true (by simp)
    | cons first rest =>
      rw [hchildren] at hcovered hall
      have hfirst : first.kind ≠ .constructorCall :=
        (hall first (by simp)).kind_ne (hcovered first (by simp)).clean (by decide)
      simp only [List.map_cons, attributed_kind, hfirst, if_false]
      exact .first (blockBody_assures hcovered hall)
  · rw [heq] at hcovered ⊢
    obtain ⟨hcallkind, hassures⟩ := constructorCall_assures (hcovered call (by simp)).clean hcall
    simp only [List.map_cons, attributed_kind, hcallkind, if_true]
    refine .imp (.and (.first hassures) (.second fun _ => .first (blockBody_assures
      (fun m hm => hcovered m (List.mem_cons_of_mem _ hm)) (hrest.all (by decide)))))
      fun hboth => ?_
    exact List.forall_mem_cons.2 hboth

theorem constructor_assures (hclean : n.Clean) (hkind : n.kind = .constructorDecl)
    (hitems : Matches [.one .modifiers, .optional .typeParameters, .one .word, .one .parameters,
      .optional .throwsList, .one .constructorBody] n.children) :
    Assures (constructor n) n.Fine := by
  unfold constructor
  cases htypes : n.child? .typeParameters with
  | some list => exact Drafting.refuse_assures _ _
  | none =>
    obtain ⟨front, back, hchildren, hfront, hback⟩ := head_of_matches
      [.one .modifiers, .optional .typeParameters, .one .word, .one .parameters,
        .optional .throwsList] (fun m => hclean.child) hitems (by decide)
    simp only [Matches.one_iff, Matches.nil_iff] at hback
    obtain ⟨block, _, rfl, hblock, rfl⟩ := hback
    have hblock' : block.Clean := hclean.child (by simp [hchildren])
    obtain ⟨hblockkind, hassures⟩ :=
      constructorBody_assures hblock' hblock (Parameter.ofDecl n)
    have hbody : n.child? .block = some block := by
      have hnone : front.find? (·.kind = .block) = none := by
        simpa using fun m hm => (hfront m hm).2
      simp [Node.child?, hchildren, List.find?_append, hnone, hblockkind]
    refine .second fun _ => .ite (fun _ => Drafting.refuse_assures _ _) fun _ => ?_
    refine .second fun _ => ?_
    simp only [hbody, Drafting.require, pure_bind]
    refine .imp (.first (Drafting.generate_assures hassures)) fun hblock =>
      (Node.fine_iff n).2 ⟨by simp [Node.isUntranslatable, hkind, htypes], ?_⟩
    simp only [Node.visited, hkind, hchildren]
    intro m hm
    rcases List.mem_append.1 hm with hm | hm
    · exact (hfront m hm).1
    · exact List.mem_singleton.1 hm ▸ hblock

/-- A name is no statement. -/
theorem statements_of_identifier {p : Prop} (hkind : n.kind = .identifier) :
    Assures (attributed n).statements p := by
  simp only [attributed_statements, statements, statement, hkind]
  exact .first (Lower.refuse_assures _ _)

/-- An initializer block of the class or of its objects. -/
theorem initializerMember_assures (hclean : n.Clean) (hkind : n.kind = .block)
    (hitems : Matches [.many .statement] n.children ∨
      Matches [.one .mark, .one .block] n.children) :
    Assures (initializerMember n) n.Fine := by
  have hcovered : ∀ m ∈ n.children, Covered m := fun m hm => covered m (hclean.child hm)
  have hfine : (∀ m ∈ n.children, m.Fine) → n.Fine := Node.fine_of_isOpen (by rw [hkind]; rfl)
  change Assures (Drafting.generate _ (blockBody (attributed (initializerBlock n).1).parts) >>= _) _
  refine .first (Drafting.generate_assures ?_)
  rcases hitems with hitems | hitems
  · have hall : DerivesAll .statement n.children := hitems.all (by decide)
    have hblock : initializerBlock n = (n, false) := by
      unfold initializerBlock
      split
      · next mark block heq =>
        have hmark : mark.kind ≠ .identifier := (hall mark (by simp [heq])).kind_ne
          (hcovered mark (by simp [heq])).clean (by decide)
        rw [if_neg fun h => hmark h.1]
      · rfl
    rw [hblock, attributed_parts]
    exact .imp (blockBody_assures hcovered hall) hfine
  · simp only [Matches.one_iff, Matches.nil_iff] at hitems
    obtain ⟨mark, _, heq, hmark, block, _, rfl, hblock, rfl⟩ := hitems
    rw [heq] at hcovered
    have hmark' := (hcovered mark (by simp)).fine hmark (by decide)
    have hmark₀ : mark.kind = .identifier := by
      simpa [Category.forms, Category.markForms] using
        hmark.kind_mem (hcovered mark (by simp)).clean
    simp only [initializerBlock, heq]
    split_ifs
    · refine .imp ((hcovered block (by simp)).block hblock) fun hblock => hfine ?_
      simpa [heq] using ⟨hmark', hblock⟩
    · simp only [attributed_parts, heq, List.map_cons, List.map_nil]
      refine Lower.withScope_assures (.first ?_)
      rw [List.mapM_cons]
      exact .first (statements_of_identifier hmark₀)

/-- A member that is not refused is fine and declares no type; one of an interface is not
marked. -/
theorem member_assures (hclean : n.Clean) (hn : Derives .member n) (isInterface : Bool) :
    Assures (member isInterface n) (n.Fine ∧ n.isTypeDeclaration = false ∧
      (isInterface = true → n.isMarkedMethod = false)) := by
  cases hkind : n.kind with
  | block =>
    simp only [member, hkind]
    refine .imp (initializerMember_assures hclean hkind
      (hn.items_or_of_kind hclean hkind (by decide))) fun hfine => ⟨hfine, ?_⟩
    simp [Node.isTypeDeclaration, Node.isMarkedMethod, hkind]
  | emptyStmt =>
    simp only [member, hkind]
    have hnone := Matches.nil_iff.1 (hn.items_of_kind hclean hkind (by decide))
    refine .of_true ⟨fine_of_children hkind rfl hnone (by simp), ?_⟩
    simp [Node.isTypeDeclaration, Node.isMarkedMethod, hkind]
  | fieldDecl =>
    simp only [member, hkind]
    refine .imp (field_assures hclean hkind (hn.items_of_kind hclean hkind (by decide)) isInterface)
      fun hfine => ⟨hfine, ?_⟩
    simp [Node.isTypeDeclaration, Node.isMarkedMethod, hkind]
  | methodDecl =>
    simp only [member, hkind]
    refine .imp (method_assures hclean hkind (hn.items_of_kind hclean hkind (by decide))
      isInterface) fun hboth => ⟨hboth.1, ?_, hboth.2⟩
    simp [Node.isTypeDeclaration, hkind]
  | constructorDecl =>
    simp only [member, hkind]
    refine .imp (constructor_assures hclean hkind (hn.items_of_kind hclean hkind (by decide)))
      fun hfine => ⟨hfine, ?_⟩
    simp [Node.isTypeDeclaration, Node.isMarkedMethod, hkind]
  | _ =>
    simp only [member, hkind]
    exact Drafting.refuse_assures _ _

/-- The declaration of a class or interface: a head and a body. -/
theorem typeDecl_children (hclean : n.Clean) (hn : Derives .typeDecl n)
    (hkind : n.kind = .classDecl ∨ n.kind = .interfaceDecl) :
    ∃ front block, n.children = front ++ [block] ∧ (∀ m ∈ front, m.Fine) ∧
      Derives .classBody block ∧ n.child? .block = some block := by
  obtain ⟨f, hf, hfkind, -, hitems⟩ := hn.form hclean
  have hforms : ∀ f ∈ Category.typeDecl.forms, f.kind = .classDecl ∨ f.kind = .interfaceDecl →
      f.items = f.items.dropLast ++ [.one .classBody] ∧
        ∀ item ∈ f.items.dropLast, item.category ∈ Category.plain := by decide
  obtain ⟨hsplit, hplain⟩ := hforms f hf (hfkind ▸ hkind)
  rw [hsplit] at hitems
  obtain ⟨front, back, hchildren, hfront, hback⟩ :=
    head_of_matches _ (fun m => hclean.child) hitems hplain
  simp only [Matches.one_iff, Matches.nil_iff] at hback
  obtain ⟨block, _, rfl, hblock, rfl⟩ := hback
  have hblock₀ : block.kind = .block := by
    simpa [Category.forms] using hblock.kind_mem (hclean.child (by simp [hchildren]))
  refine ⟨front, block, hchildren, fun m hm => (hfront m hm).1, hblock, ?_⟩
  have hnone : front.find? (·.kind = .block) = none := by simpa using fun m hm => (hfront m hm).2
  simp [Node.child?, hchildren, List.find?_append, hnone, hblock₀]

/-- The declaration of a class or interface looks at all members. -/
theorem typeDeclaration_assures (hclean : n.Clean) (hn : Derives .typeDecl n)
    (hkind : n.kind = .classDecl ∨ n.kind = .interfaceDecl) :
    Assures (typeDeclaration n) n.Fine := by
  obtain ⟨front, block, hchildren, hfront, hblock, hbody⟩ := typeDecl_children hclean hn hkind
  have hblock' : block.Clean := hclean.child (by simp [hchildren])
  obtain ⟨hblock₀, hall⟩ : block.kind = .block ∧ DerivesAll .member block.children :=
    hblock.uniform hblock' (by decide)
  have hfine : (∀ m ∈ block.children, m.Fine ∧ m.isTypeDeclaration = false ∧
      ((ClassSignature.ofDecl n).isInterface = true → m.isMarkedMethod = false)) → n.Fine := by
    intro hmembers
    have hmembers₀ : n.members = block.children := by rw [Node.members, hbody]; rfl
    have hnested : n.members.any Node.isTypeDeclaration = false := by
      simpa [hmembers₀] using fun m hm => (hmembers m hm).2.1
    refine (Node.fine_iff n).2 ⟨?_, fun m hm => ?_⟩
    · rcases hkind with hkind | hkind
      · simpa [Node.isUntranslatable, hkind] using hnested
      · have hmarked : n.members.any Node.isMarkedMethod = false := by
          simpa [hmembers₀] using fun m hm => (hmembers m hm).2.2 (by simp [hkind])
        simp only [Node.isUntranslatable, hkind]
        rw [List.any_eq_false] at hnested hmarked ⊢
        simpa using fun m hm => ⟨by simpa using hnested m hm, by simpa using hmarked m hm⟩
    · have hm : m ∈ front ++ [block] := by
        rcases hkind with hkind | hkind <;> simpa [Node.visited, hkind, hchildren] using hm
      rcases List.mem_append.1 hm with hm | hm
      · exact hfront m hm
      · obtain rfl := List.mem_singleton.1 hm
        exact fine_of_children hblock₀ rfl rfl fun m hm => (hmembers m hm).1
  unfold typeDeclaration
  refine .ite (fun _ => Drafting.refuse_assures _ _) fun _ => ?_
  refine .second fun _ => .second fun _ => .imp ?_ hfine
  rw [hbody]
  exact .forM fun m hm => member_assures (hblock'.child hm) (hall m hm) _

/-- A top-level declaration is kept exactly if it declares a type, which is then a class or an
interface and the only one. -/
theorem topLevel_keeps (primary : Option Node) (n : Node) :
    Leads (fun _ => True) (topLevel primary n) fun kept _ =>
      kept.toList = primary.toList ++ [n].filter Node.isTypeDeclaration ∧
        (n.isTypeDeclaration → declaresType n) := by
  have hany : ∀ x : Drafting Unit, Leads (fun _ => True) x fun _ _ => True :=
    fun _ _ _ _ _ _ _ => trivial
  unfold topLevel
  cases hkind : n.kind with
  | packageDecl =>
    exact (hany _).bind fun _ => .pure fun _ _ => by simp [Node.isTypeDeclaration, hkind]
  | importDecl =>
    exact (hany _).bind fun _ => .pure fun _ _ => by simp [Node.isTypeDeclaration, hkind]
  | classDecl =>
    refine .ite (fun _ => Drafting.refuse_leads _ _) fun hnone => .pure fun _ _ => ?_
    rw [Bool.not_eq_true, Option.isSome_eq_false_iff, Option.isNone_iff_eq_none] at hnone
    simp [Node.isTypeDeclaration, declaresType, hkind, hnone]
  | interfaceDecl =>
    refine .ite (fun _ => Drafting.refuse_leads _ _) fun hnone => .pure fun _ _ => ?_
    rw [Bool.not_eq_true, Option.isSome_eq_false_iff, Option.isNone_iff_eq_none] at hnone
    simp [Node.isTypeDeclaration, declaresType, hkind, hnone]
  | emptyStmt => exact .pure fun _ _ => by simp [Node.isTypeDeclaration, hkind]
  | _ => exact Drafting.refuse_leads _ _

theorem topLevels_keep (nodes : List Node) (primary : Option Node) :
    Leads (fun _ => True) (nodes.foldlM topLevel primary) fun kept _ =>
      kept.toList = primary.toList ++ nodes.filter Node.isTypeDeclaration ∧
        ∀ n ∈ nodes, n.isTypeDeclaration → declaresType n := by
  induction nodes generalizing primary with
  | nil => exact .pure fun _ _ => by simp
  | cons n nodes ih =>
    rw [List.foldlM_cons]
    refine (topLevel_keeps primary n).bind fun kept around d kept' d' hkept hresult => ?_
    obtain ⟨hlist, hall⟩ := ih kept around d kept' d' trivial hresult
    refine ⟨?_, List.forall_mem_cons.2 ⟨hkept.2, hall⟩⟩
    rw [hlist, hkept.1, List.append_assoc, ← List.filter_append, List.singleton_append]

/-- A class or interface at the top of a unit has the form of one. -/
theorem derives_typeDecl (hclean : n.Clean) (hn : Derives .unit n) {m : Node}
    (hm : m ∈ n.children) (hdeclares : declaresType m) : Derives .typeDecl m := by
  obtain ⟨f, hf, -, -, hitems⟩ := hn.form hclean
  obtain rfl := List.mem_singleton.1 hf
  obtain ⟨item, hitem, hm'⟩ := hitems.mem hm
  have hforms : ∀ item ∈ [Item.optional .packageDecl, .many .importDecl, .many .typeDecl],
      ∀ f ∈ item.category.forms, f.kind = .classDecl ∨ f.kind = .interfaceDecl →
        f ∈ Category.typeDecl.forms := by decide
  exact hm'.of_kind (hclean.child hm) fun f hf hf' => hforms item hitem f hf (hf' ▸ hdeclares)

/-- Generating a unit assures that nothing that is looked at in it is without a counterpart. -/
theorem compilationUnit_assures (hclean : n.Clean) (hn : Derives .unit n) :
    Assures (compilationUnit n) n.Fine := by
  obtain ⟨f, hf, hkind, -, hitems⟩ := hn.form hclean
  obtain rfl := List.mem_singleton.1 hf
  refine (topLevels_keep n.children none).bind
    fun kept around d a d' ⟨hkept, hdeclares⟩ hresult => ?_
  have htypes : ∀ m ∈ n.children, m.isTypeDeclaration = true → m.Fine := by
    intro m hm htype
    have hmem : m ∈ kept.toList := by
      rw [hkept]
      exact List.mem_append_right _ (List.mem_filter.2 ⟨hm, htype⟩)
    obtain rfl := Option.mem_toList.1 hmem
    have hdecl : Derives .typeDecl m := derives_typeDecl hclean hn hm (hdeclares m hm htype)
    exact typeDeclaration_assures (hclean.child hm) hdecl (hdeclares m hm htype) around d a d'
      trivial hresult
  refine (Node.fine_iff n).2 ⟨?_, fun m hm => ?_⟩
  · rw [Option.toList_none, List.nil_append] at hkept
    have hone : (n.children.filter Node.isTypeDeclaration).length ≤ 1 := by
      rw [← hkept, Option.length_toList]
      cases kept <;> simp
    simpa [Node.isUntranslatable, hkind] using hone
  · have hm : m ∈ n.children := by simpa [Node.visited, hkind] using hm
    by_cases htype : m.isTypeDeclaration = true
    · exact htypes m hm htype
    · obtain ⟨item, hitem, hm'⟩ := hitems.mem hm
      simp only [List.mem_cons, List.not_mem_nil, or_false] at hitem
      rcases hitem with rfl | rfl | rfl
      · exact hm'.fine_of_plain (by decide) (hclean.child hm)
      · exact hm'.fine_of_plain (by decide) (hclean.child hm)
      · have hkinds := hm'.kind_mem (hclean.child hm)
        simp only [Item.category, Category.forms, Category.typeDeclForms, List.map_cons,
          List.map_nil, List.mem_cons, List.not_mem_nil, or_false] at hkinds
        exact absurd (by simpa [Node.isTypeDeclaration, or_assoc] using hkinds) htype

end Members

end Lowering

/-- What is parsed for generation is what was read, and nothing was wrong with it. -/
theorem read_of_parseForGeneration {path source : Text} {cu : Node}
    (h : parseForGeneration path source = .ok cu) :
    (Parsed.ofSource .compilationUnit source).problems = [] ∧
      (Entry.read .compilationUnit source).1 = cu := by
  have htree : (Parsed.ofSource .compilationUnit source).tree =
      (Entry.read .compilationUnit source).1 := rfl
  rw [← htree]
  unfold parseForGeneration parseUnit at h
  cases hproblems : (Parsed.ofSource .compilationUnit source).problems with
  | nil =>
    simp only [hproblems] at h
    exact ⟨rfl, Except.ok.inj h⟩
  | cons problem rest =>
    simp only [hproblems] at h
    cases h

/-- A source that is parsed for generation gives the clean tree of a unit. -/
theorem derives_of_parseForGeneration {path source : Text} {cu : Node}
    (h : parseForGeneration path source = .ok cu) : Derives .unit cu ∧ cu.Clean := by
  obtain ⟨hproblems, rfl⟩ := read_of_parseForGeneration h
  exact derives_of_accepted hproblems

/-- The tree of a unit is a compilation unit. -/
theorem Derives.unit_kind {cu : Node} (h : Derives .unit cu) (hclean : cu.Clean) :
    cu.kind = .compilationUnit := by
  simpa [Category.forms] using h.kind_mem hclean

/-- A unit that is generated is one whose members were all generated. -/
theorem generateUnit_ok {g : Generator} {path : Text} {cu : Node} {unit : GeneratedUnit}
    (hkind : cu.kind = .compilationUnit) (hclean : cu.Clean)
    (h : g.generateUnit path cu = .ok unit) :
    ∃ d, result (Lowering.compilationUnit cu) g.surroundings { file := path } = (.ok (), d) := by
  rw [generateUnit_eq hkind hclean] at h
  cases hresult : result (Lowering.compilationUnit cu) g.surroundings { file := path } with
  | mk outcome d =>
    rw [hresult] at h
    cases outcome with
    | ok _ => exact ⟨d, rfl⟩
    | error refusal => cases h

/-- A source that is generated has no problems, and neither are there in its tree. -/
theorem Generator.generateSource_ok {g g' : Generator} {path source : Text} {unit : GeneratedUnit}
    (h : g.generateSource path source = (.ok unit, g')) :
    (Parsed.ofSource .compilationUnit source).problems = [] ∧
      (g.declareUnit (Entry.compilationUnit.read source).1).generateUnit path
        (Entry.compilationUnit.read source).1 = .ok unit := by
  have hproblems : (Parsed.ofSource .compilationUnit source).problems = [] := by
    by_contra hproblems
    obtain ⟨e, he⟩ := generateSource_of_rejected g path hproblems
    rw [he] at h
    cases h
  refine ⟨hproblems, ?_⟩
  rw [generateSource_of_accepted g path hproblems] at h
  rw [← generateParsed_answer, h]

/-- No construct without a counterpart stands in a source that is generated, wherever the tree is
looked at. -/
theorem Generator.generated_without_untranslatable {g g' : Generator} {path source : Text}
    {unit : GeneratedUnit} (h : g.generateSource path source = (.ok unit, g')) :
    ∀ m, Node.Reached (Entry.compilationUnit.read source).1 m → m.isUntranslatable = false := by
  obtain ⟨hproblems, hunit⟩ := generateSource_ok h
  obtain ⟨htree, hclean⟩ := derives_of_accepted hproblems
  obtain ⟨d, hresult⟩ := generateUnit_ok (Entry.read_kind source) hclean hunit
  exact Lowering.compilationUnit_assures hclean htree _ _ _ _ trivial hresult

/-- A class with a try statement, which has no resources. -/
def guardedSource : Text :=
  "class A \x7b void f() \x7b try \x7b int x = 1; \x7d finally \x7b \x7d \x7d \x7d"

/-- The source with a try statement is generated, so nothing in it is without a counterpart. -/
theorem Generator.generated_without_untranslatable_guarded :
    (({} : Generator).generateSource "A.java" guardedSource).1.isOk = true ∧
      ∀ m, Node.Reached (Entry.compilationUnit.read guardedSource).1 m →
        m.isUntranslatable = false := by
  have hok : (({} : Generator).generateSource "A.java" guardedSource).1.isOk = true := by
    decide +kernel
  refine ⟨hok, ?_⟩
  cases hresult : ({} : Generator).generateSource "A.java" guardedSource with
  | mk answer g' =>
    rw [hresult] at hok
    cases answer with
    | ok unit => exact generated_without_untranslatable hresult
    | error f => exact absurd hok Bool.false_ne_true

/-- A try statement with an expression as its resource is generated, and the resource is not
looked at. -/
theorem expression_resource_passed_over :
    (({} : Generator).generateSource "A.java"
        "class A \x7b void f(Object r) \x7b try (r) \x7b \x7d finally \x7b \x7d \x7d \x7d").1.isOk = true ∧
      (Entry.compilationUnit.read
        "class A \x7b void f(Object r) \x7b try (r) \x7b \x7d finally \x7b \x7d \x7d \x7d").1.walk.any
          (fun n => n.kind = .tryStmt && n.children.any (·.kind = .identifier) &&
            n.visited.all (·.kind ≠ .identifier)) = true := by
  decide +kernel

end JavaObjC
