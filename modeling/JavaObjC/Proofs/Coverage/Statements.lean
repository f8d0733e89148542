import JavaObjC.Proofs.Coverage.Expressions

/-!
# What statements assure

Generating code for a statement assures the same as for an expression: nothing
that is looked at in it is without a counterpart. With the expressions this
covers every tree without error nodes.
-/

namespace JavaObjC

open Generating

namespace Lowering

section Statements

variable {n : Node} {nodes : List Node}

/-- Statements one after the other. -/
theorem sequence_assures (hcovered : ∀ m ∈ nodes, Covered m) (hall : DerivesAll .statement nodes) :
    Assures (sequence (nodes.map attributed)) (∀ m ∈ nodes, m.Fine) := by
  rw [sequence, List.mapM_map]
  exact .first (.mapM fun m hm => (hcovered m hm).here.statements (hall m hm))

theorem blockBody_assures (hcovered : ∀ m ∈ nodes, Covered m) (hall : DerivesAll .statement nodes) :
    Assures (blockBody (nodes.map attributed)) (∀ m ∈ nodes, m.Fine) :=
  Lower.withScope_assures (sequence_assures hcovered hall)

/-- The statements of a block. -/
theorem block_assures (hclean : n.Clean) (hcovered : ∀ m ∈ n.children, Covered m)
    (hn : Derives .block n) : Assures (blockBody (n.children.map attributed)) n.Fine := by
  obtain ⟨hkind, hall⟩ : n.kind = .block ∧ DerivesAll .statement n.children :=
    hn.uniform hclean (by decide)
  exact .imp (blockBody_assures hcovered hall) (Node.fine_of_isOpen (by rw [hkind]; rfl))

theorem Covered.block (h : Covered n) (hn : Derives .block n) :
    Assures (blockBody (attributed n).parts) n.Fine := by
  rw [attributed_parts]
  exact block_assures h.clean (fun m hm => h.child hm) hn

/-- The body of a compound statement. -/
theorem body_assures (h : Covered n) (hn : Derives .statement n) :
    Assures (body (attributed n)) n.Fine := by
  simp only [body, attributed_kind]
  refine .ite (fun hkind => .first (h.block ?_)) fun _ => ?_
  · exact hn.of_kind_eq h.clean hkind (by decide)
  · exact .first (Lower.withScope_assures (h.here.statements hn))

/-- A declared variable and its initial value. -/
theorem declarator_children (h : Covered n) (hn : Derives .declarator n) :
    n.kind = .varDeclarator ∧ ∃ name, Derives .word name ∧ (n.children = [name] ∨
      ∃ value, Derives .initializer value ∧ n.children = [name, value]) := by
  obtain ⟨f, hf, hkind, -, hitems⟩ := h.form hn
  obtain rfl := List.mem_singleton.1 hf
  simp only [Matches.one_iff, Matches.optional_iff, Matches.nil_iff] at hitems
  obtain ⟨name, _, heq, hname, rfl | ⟨value, _, rfl, hvalue, rfl⟩⟩ := hitems
  · exact ⟨hkind, name, hname, .inl heq⟩
  · exact ⟨hkind, name, hname, .inr ⟨value, hvalue, heq⟩⟩

theorem localVariable_assures (h : Covered n) (hn : Derives .declarator n) (t : JavaType) :
    Assures (localVariable t (attributed n)) n.Fine := by
  obtain ⟨hkind, name, hname, heq | ⟨value, hvalue, heq⟩⟩ := declarator_children h hn
  · have hname := (h.child (heq ▸ List.mem_cons_self)).fine hname (by decide)
    exact .of_true (fine_of_children hkind rfl heq (by simpa using hname))
  · have hcovered : ∀ m ∈ [name, value], Covered m := fun m hm => h.child (heq ▸ hm)
    simp only [localVariable, attributed_parts, heq, List.map_cons, List.map_nil]
    refine .imp (.first (.map (initialValue_assures (hcovered value (by simp)) hvalue t) _))
      fun hvalue => fine_of_children hkind rfl heq ?_
    simpa using ⟨(hcovered name (by simp)).fine hname (by decide), hvalue⟩

/-- The declared variables among the children of a declaration, which need be looked at alone. -/
theorem declarators_of_matches (hcovered : ∀ m ∈ n.children, Covered m)
    (hitems : Matches [.one .modifiers, .one .type, .many .declarator] n.children) :
    DerivesAll .declarator (n.childrenOf .varDeclarator) ∧
      ((∀ m ∈ n.childrenOf .varDeclarator, m.Fine) → ∀ m ∈ n.children, m.Fine) := by
  simp only [Matches.one_iff, Matches.many_iff, Matches.nil_iff] at hitems
  obtain ⟨mods, _, heq, hmods, type, _, rfl, htype, decls, _, rfl, hdecls, rfl⟩ := hitems
  rw [List.append_nil] at heq
  rw [heq] at hcovered
  have hmods' := hcovered mods (by simp)
  have htype' := hcovered type (by simp)
  have hfilter : n.childrenOf .varDeclarator = decls := by
    have hmods₀ : mods.kind ≠ .varDeclarator := hmods.kind_ne hmods'.clean (by decide)
    have htype₀ : type.kind ≠ .varDeclarator := htype.kind_ne htype'.clean (by decide)
    have hdecls₀ : ∀ m ∈ decls, m.kind = .varDeclarator := fun m hm =>
      (declarator_children (hcovered m (by simp [hm])) (hdecls m hm)).1
    simpa [Node.childrenOf, heq, hmods₀, htype₀] using hdecls₀
  rw [hfilter, heq]
  refine ⟨hdecls, fun hfine => ?_⟩
  simpa using ⟨hmods'.fine hmods (by decide), htype'.fine htype (by decide), hfine⟩

/-- The variables of a declaration. -/
theorem localVariables_assures (hclean : n.Clean) (hcovered : ∀ m ∈ n.children, Covered m)
    (hn : Derives .localVariable n) :
    Assures (localVariables (n.children.map attributed)) n.Fine := by
  obtain ⟨f, hf, hkind, -, hitems⟩ := hn.form hclean
  obtain rfl := List.mem_singleton.1 hf
  obtain ⟨hdecls, hfine⟩ := declarators_of_matches hcovered hitems
  rw [localVariables]
  refine .second fun _ => ?_
  rw [ofKind_map, List.mapM_map]
  refine .imp (.mapM fun m hm => ?_) fun hdecls =>
    Node.fine_of_isOpen (by rw [hkind]; rfl) (hfine hdecls)
  exact localVariable_assures (hcovered m (List.mem_of_mem_filter hm)) (hdecls m hm) _

/-- An expression or a declaration in the first clause of a loop. -/
theorem loopStart_assures (h : Covered n)
    (hn : Derives .localVariable n ∨ Derives .expression n) :
    Assures (loopStart (attributed n)) n.Fine := by
  simp only [loopStart, attributed_kind, attributed_parts]
  rcases hn with hn | hn
  · have hkind : n.kind = .localVarDecl := by
      simpa [Category.forms, Category.localVariableForms] using hn.kind_mem h.clean
    rw [if_pos hkind]
    exact .first (localVariables_assures h.clean (fun m hm => h.child hm) hn)
  · rw [if_neg (hn.kind_ne h.clean (by decide))]
    exact .first (h.value hn)

/-- The head of a loop is made of clauses and a condition. -/
theorem loopClause_assures (h : Covered n)
    (hn : Derives .forInit n ∨ Derives .expression n ∨ Derives .forUpdate n)
    (clauses : LoopClauses) : Assures (loopClause clauses (attributed n)) n.Fine := by
  simp only [loopClause, attributed_kind, attributed_parts]
  rcases hn with hn | hn | hn
  · obtain ⟨f, hf, hkind, -, hitems⟩ := h.form hn
    have hforms : ∀ f ∈ Category.forInit.forms, f.kind = .forInit ∧ ∀ item ∈ f.items,
        item.category = .localVariable ∨ item.category = .expression := by decide
    rw [(hforms f hf).1] at hkind
    simp only [hkind, List.mapM_map]
    refine .imp (.first (.mapM fun m hm => loopStart_assures (h.child hm) ?_))
      (Node.fine_of_isOpen (by rw [hkind]; rfl))
    obtain ⟨item, hitem, hm⟩ := hitems.mem hm
    rcases (hforms f hf).2 item hitem with hc | hc
    · exact .inl (hc ▸ hm)
    · exact .inr (hc ▸ hm)
  · have hinit : n.kind ≠ .forInit := hn.kind_ne h.clean (by decide)
    have hupdate : n.kind ≠ .forUpdate := hn.kind_ne h.clean (by decide)
    split
    · next hkind => exact absurd hkind hinit
    · next hkind => exact absurd hkind hupdate
    · exact .first (.first (h.value hn))
  · obtain ⟨hkind, hall⟩ : n.kind = .forUpdate ∧ DerivesAll .expression n.children :=
      hn.uniform h.clean (by decide)
    simp only [hkind, List.mapM_map]
    exact .imp (.first (.mapM fun m hm => (h.child hm).value (hall m hm)))
      (Node.fine_of_isOpen (by rw [hkind]; rfl))

/-- A loop with clauses in front of its body. -/
theorem forLoop_assures (nodes : List Node) {inner : Node} (hcovered : ∀ m ∈ n.children, Covered m)
    (hnodes : ∀ m ∈ nodes, Derives .forInit m ∨ Derives .expression m ∨ Derives .forUpdate m)
    (hinner : Derives .statement inner) (hkind : n.kind = .forStmt)
    (hchildren : n.children = nodes ++ [inner]) :
    Assures (forLoop (n.children.map attributed)) n.Fine := by
  rw [hchildren] at hcovered ⊢
  have hlast : Parts.lastChild ((nodes ++ [inner]).map attributed) = pure (attributed inner) := by
    rw [Parts.lastChild, List.map_append, List.map_singleton, List.getLast?_concat]
    rfl
  refine Lower.withScope_assures ?_
  rw [hlast, ← List.map_dropLast, List.dropLast_concat, List.foldlM_map]
  refine .imp (p := (∀ m ∈ nodes, m.Fine) ∧ inner.Fine) (.and ?_ ?_) fun hboth => ?_
  · exact .first (.foldlM (fun clauses m hm =>
      loopClause_assures (hcovered m (by simp [hm])) (hnodes m hm) clauses) _)
  · refine .second fun _ => ?_
    rw [pure_bind]
    exact .first (body_assures (hcovered inner (by simp)) hinner)
  · refine fine_of_children hkind rfl hchildren fun m hm => ?_
    rcases List.mem_append.1 hm with hm | hm
    · exact hboth.1 m hm
    · exact List.mem_singleton.1 hm ▸ hboth.2

/-- A loop over a collection. -/
theorem forEach_assures (nodes : List Node) {collection inner : Node}
    (hcovered : ∀ m ∈ n.children, Covered m) (hnodes : ∀ m ∈ nodes, m.Fine)
    (hcollection : Derives .expression collection) (hinner : Derives .statement inner)
    (hkind : n.kind = .enhancedForStmt)
    (hchildren : n.children = nodes ++ [collection, inner]) :
    Assures (forEach (n.children.map attributed)) n.Fine := by
  rw [hchildren] at hcovered ⊢
  have hlast : Parts.lastChild ((nodes ++ [collection, inner]).map attributed) =
      pure (attributed inner) := by
    rw [Parts.lastChild, List.map_append, List.getLast?_append]
    rfl
  have hbefore : Lower.require ((nodes ++ [collection, inner]).map attributed).dropLast.getLast? =
      pure (attributed collection) := by
    rw [← List.map_dropLast, List.dropLast_append_of_ne_nil (by simp)]
    simp [Lower.require]
  rw [forEach, hlast, hbefore, pure_bind]
  refine .imp (p := collection.Fine ∧ inner.Fine) (.and ?_ ?_) fun hboth => ?_
  · exact .first ((hcovered collection (by simp)).value hcollection)
  · refine .second fun _ => Lower.withScope_assures (.second fun _ => ?_)
    rw [pure_bind]
    exact .first (body_assures (hcovered inner (by simp)) hinner)
  · refine fine_of_children hkind rfl hchildren fun m hm => ?_
    simp only [List.mem_append, List.mem_cons, List.not_mem_nil, or_false] at hm
    rcases hm with hm | rfl | rfl
    · exact hnodes m hm
    · exact hboth.1
    · exact hboth.2

/-- The labels or a statement of a switch group. -/
theorem switchPart_assures (h : Covered n) (hn : Derives .switchLabel n ∨ Derives .statement n)
    (group : List Text × List Stmt) : Assures (switchPart group (attributed n)) n.Fine := by
  simp only [switchPart, attributed_kind, attributed_parts]
  rcases hn with hn | hn
  · obtain ⟨hkind, hall⟩ : n.kind = .switchLabel ∧ DerivesAll .expression n.children :=
      hn.uniform h.clean (by decide)
    rw [if_pos hkind, List.mapM_map]
    exact .imp (.first (.mapM fun m hm => .first ((h.child hm).value (hall m hm))))
      (Node.fine_of_isOpen (by rw [hkind]; rfl))
  · rw [if_neg (hn.kind_ne h.clean (by decide))]
    exact .first (h.here.statements hn)

/-- A group of a switch. -/
theorem switchGroup_assures (h : Covered n) (hn : Derives .switchCase n) :
    n.kind = .switchCase ∧ Assures (switchGroup (attributed n)) n.Fine := by
  obtain ⟨f, hf, hkind, -, hitems⟩ := h.form hn
  obtain rfl := List.mem_singleton.1 hf
  refine ⟨hkind, ?_⟩
  rw [switchGroup, attributed_parts, List.foldlM_map]
  refine .imp (.first (.foldlM (fun group m hm => switchPart_assures (h.child hm) ?_ group) _))
    (Node.fine_of_isOpen (by rw [hkind]; rfl))
  obtain ⟨item, hitem, hm⟩ := hitems.mem hm
  simp only [List.mem_cons, List.not_mem_nil, or_false] at hitem
  rcases hitem with rfl | rfl
  · exact .inl hm
  · exact .inr hm

/-- A switch over groups. -/
theorem switching_assures {subject : Node} (hcovered : ∀ m ∈ n.children, Covered m)
    (hsubject : Derives .expression subject) (hnodes : DerivesAll .switchCase nodes)
    (hkind : n.kind = .switchStmt) (hchildren : n.children = subject :: nodes) :
    Assures (switching (n.children.map attributed)) n.Fine := by
  rw [hchildren] at hcovered
  have hsubject' := hcovered subject (by simp)
  have hgroups := fun m hm => switchGroup_assures (hcovered m (List.mem_cons_of_mem _ hm))
    (hnodes m hm)
  have hfilter : n.children.filter (·.kind = .switchCase) = nodes := by
    have hsubject₀ : subject.kind ≠ .switchCase := hsubject.kind_ne hsubject'.clean (by decide)
    simpa [hchildren, hsubject₀] using fun m hm => (hgroups m hm).1
  rw [switching, ofKind_map, hfilter, hchildren]
  simp only [List.map_cons, child_zero, pure_bind]
  refine .imp (.and (.first (hsubject'.value hsubject)) (.second fun v => ?_)) fun hboth =>
    fine_of_children hkind rfl hchildren (List.forall_mem_cons.2 hboth)
  refine .ite (fun _ => Attributed.refuse_assures _ _) fun _ => Lower.withScope_assures ?_
  rw [List.mapM_map]
  exact .first (.mapM fun m hm => (hgroups m hm).2)

/-- A catch clause looks at its block. -/
theorem catchClause_assures (h : Covered n) (hn : Derives .catchClause n) :
    n.kind = .catchClause ∧ Assures (catchClause (attributed n)) n.Fine := by
  obtain ⟨f, hf, hkind, -, hitems⟩ := h.form hn
  obtain rfl := List.mem_singleton.1 hf
  simp only [Matches.one_iff, Matches.nil_iff] at hitems
  obtain ⟨mods, _, heq, hmods, group, _, rfl, hgroup, name, _, rfl, hname, block, _, rfl, hblock,
    rfl⟩ := hitems
  have hcovered : ∀ m ∈ [mods, group, name, block], Covered m := fun m hm => h.child (heq ▸ hm)
  have hmods₀ : mods.kind ≠ .block := hmods.kind_ne (hcovered mods (by simp)).clean (by decide)
  have hgroup₀ : group.kind ≠ .block := hgroup.kind_ne (hcovered group (by simp)).clean (by decide)
  have hname₀ : name.kind ≠ .block := hname.kind_ne (hcovered name (by simp)).clean (by decide)
  have hblock' := hcovered block (by simp)
  have hblock₀ : block.kind = .block := by
    simpa [Category.forms, Category.blockForms] using hblock.kind_mem hblock'.clean
  have hfirst : n.children.find? (·.kind = .block) = some block := by
    simp [heq, hmods₀, hgroup₀, hname₀, hblock₀]
  refine ⟨hkind, ?_⟩
  rw [catchClause, attributed_parts, require_first?_map hfirst]
  refine .second fun _ => .imp (p := block.Fine) ?_ fun hblock =>
    fine_of_children hkind rfl heq ?_
  · -- One type or several are caught; the rest of the clause is the same.
    split
    all_goals
      refine .second fun _ => Lower.withScope_assures (.second fun _ => ?_)
      rw [pure_bind]
      exact .first (hblock'.block hblock)
  · simp only [List.forall_mem_cons, List.not_mem_nil, IsEmpty.forall_iff, implies_true, and_true]
    exact ⟨(hcovered mods (by simp)).fine hmods (by decide),
      (hcovered group (by simp)).fine hgroup (by decide),
      (hcovered name (by simp)).fine hname (by decide), hblock⟩

/-- A part of a try statement is looked at, unless it is an expression given as a resource. -/
theorem tryPart_assures {c : Category} (h : Covered n) (hn : Derives c n)
    (hc : c ∈ [.resource, .block, .catchClause, .finallyClause]) (hkind : n.kind ≠ .localVarDecl)
    (s : TryParts) :
    Assures (tryPart s (attributed n)) (Node.tryKinds.contains n.kind → n.Fine) := by
  simp only [List.mem_cons, List.not_mem_nil, or_false] at hc
  simp only [tryPart, attributed_kind, attributed_parts]
  rcases hc with rfl | rfl | rfl | rfl
  · refine .of_true fun hwanted => absurd (hn.kind_mem h.clean) ?_
    simp only [Node.tryKinds, List.contains_eq_mem, List.mem_cons, List.not_mem_nil, or_false,
      hkind, false_or, decide_eq_true_eq] at hwanted
    rcases hwanted with hwanted | hwanted | hwanted <;> rw [hwanted] <;> decide
  · have hblock : n.kind = .block := by
      simpa [Category.forms, Category.blockForms] using hn.kind_mem h.clean
    simp only [hblock]
    exact .imp (.first (block_assures h.clean (fun m hm => h.child hm) hn)) fun hfine _ => hfine
  · obtain ⟨hcatch, hassures⟩ := catchClause_assures h hn
    simp only [hcatch]
    exact .imp (.first hassures) fun hfine _ => hfine
  · obtain ⟨f, hf, hlast, -, hitems⟩ := h.form hn
    obtain rfl := List.mem_singleton.1 hf
    simp only [Matches.one_iff, Matches.nil_iff] at hitems
    obtain ⟨block, _, heq, hblock, rfl⟩ := hitems
    have hblock' : Covered block := h.child (heq ▸ List.mem_cons_self)
    have hblock₀ : block.kind = .block := by
      simpa [Category.forms, Category.blockForms] using hblock.kind_mem hblock'.clean
    have hfirst : n.children.find? (·.kind = .block) = some block := by simp [heq, hblock₀]
    simp only [hlast, require_first?_map hfirst, pure_bind]
    refine .imp (.first (hblock'.block hblock)) fun hfine _ => ?_
    exact fine_of_children hlast rfl heq (by simpa using hfine)

/-- A try statement that declares no resources. -/
theorem trying_assures (hcovered : ∀ m ∈ n.children, Covered m) (hkind : n.kind = .tryStmt)
    (hitems : Matches [.many .resource, .one .block, .many .catchClause, .optional .finallyClause]
      n.children) : Assures (trying (n.children.map attributed)) n.Fine := by
  rw [trying, first?_map]
  cases hresource : n.children.find? (·.kind = .localVarDecl) with
  | some resource => exact Attributed.refuse_assures _ _
  | none =>
    have hnone : ∀ m ∈ n.children, m.kind ≠ .localVarDecl := by
      simpa using List.find?_eq_none.1 hresource
    simp only [Option.map_none, List.foldlM_map]
    refine .imp (.first (.foldlM (P := fun m => Node.tryKinds.contains m.kind → m.Fine)
      (fun s m hm => ?_) _)) fun hfine => (Node.fine_iff n).2 ⟨?_, ?_⟩
    · obtain ⟨item, hitem, hm'⟩ := hitems.mem hm
      refine tryPart_assures (hcovered m hm) hm' ?_ (hnone m hm) s
      have hall : ∀ item ∈ [Item.many .resource, .one .block, .many .catchClause,
          .optional .finallyClause],
          item.category ∈ [Category.resource, .block, .catchClause, .finallyClause] := by decide
      exact hall item hitem
    · simp [Node.isUntranslatable, hkind, Node.child?, hresource]
    · simp only [Node.visited, hkind, List.mem_filter]
      exact fun m hm => hfine m hm.1 hm.2

/-- A jump without a label. -/
theorem jump_assures {construct : Text} {s : Stmt}
    (hkind : n.kind = .breakStmt ∨ n.kind = .continueStmt) :
    Assures (jump n (n.children.map attributed) construct s) n.Fine := by
  refine .ite (fun hnone => .of_true ?_) fun _ => Lower.refuse_assures _ _
  simp only [List.isEmpty_iff, List.map_eq_nil_iff] at hnone
  rw [Node.fine_iff]
  rcases hkind with hkind | hkind <;> simp [Node.isUntranslatable, Node.visited, hkind, hnone]

/-- A choice between two statements, the second of which may be missing. -/
theorem conditional_assures {test yes : Node} (hcovered : ∀ m ∈ n.children, Covered m)
    (htest : Derives .expression test) (hyes : Derives .statement yes)
    (hnodes : DerivesAll .statement nodes) (hone : nodes.length ≤ 1) (hkind : n.kind = .ifStmt)
    (hchildren : n.children = test :: yes :: nodes) :
    Assures (conditional (n.children.map attributed)) n.Fine := by
  rw [hchildren] at hcovered ⊢
  have htest' := (hcovered test (by simp)).value htest
  have hyes' := body_assures (hcovered yes (by simp)) hyes
  refine .imp (p := test.Fine ∧ yes.Fine ∧ ∀ m ∈ nodes, m.Fine) ?_ fun hfine =>
    fine_of_children hkind rfl hchildren (by simpa using hfine)
  simp only [conditional, List.map_cons, child_zero, child_succ, pure_bind]
  refine .and (.first (.first htest')) (.second fun _ => .and (.first hyes') (.second fun _ => ?_))
  match nodes, hone with
  | [], _ => exact .of_true (by simp)
  | [no], _ =>
    have hno := body_assures (hcovered no (by simp)) (hnodes no (by simp))
    exact .imp (.first hno) fun hno => by simpa using hno

/-- Generating code for a statement assures that nothing in it is without a counterpart. -/
def StatementAssures (n : Node) : Prop :=
  Assures (statement n (n.children.map attributed)) n.Fine

namespace Examined

variable (h : Examined .statement n)

include h

/-- An expression that is a statement, or whose value is thrown. -/
theorem ofValue (hkind : n.kind = .exprStmt ∨ n.kind = .throwStmt) : StatementAssures n := by
  obtain ⟨value, heq, hvalue⟩ : ∃ m, n.children = [m] ∧ Derives .expression m := by
    rcases hkind with hkind | hkind
    all_goals exact h.derives.one_of_kind h.clean hkind (by decide)
  have hvalue₀ := h.covered value (by simp [heq])
  rw [StatementAssures, heq]
  rcases hkind with hkind | hkind
  all_goals
    simp only [statement, hkind]
    exact .imp (.first (hvalue₀.value hvalue)) fun hvalue =>
      fine_of_children hkind rfl heq (by simpa using hvalue)

/-- A choice with or without an `else`. -/
theorem conditional (hkind : n.kind = .ifStmt) : StatementAssures n := by
  have hitems : Matches [.one .expression, .one .statement, .optional .statement] n.children :=
    h.items hkind (by decide)
  simp only [Matches.one_iff, Matches.optional_iff, Matches.nil_iff] at hitems
  simp only [StatementAssures, statement, hkind]
  obtain ⟨test, _, heq, htest, yes, _, rfl, hyes, rfl | ⟨no, _, rfl, hno, rfl⟩⟩ := hitems
  · exact conditional_assures h.covered htest hyes .nil (by simp) hkind heq
  · exact conditional_assures h.covered htest hyes (by simpa using hno) (by simp) hkind heq

/-- A loop with clauses, of which the condition may be missing. -/
theorem forLoop (hkind : n.kind = .forStmt) : StatementAssures n := by
  have hitems : Matches [.one .forInit, .optional .expression, .one .forUpdate, .one .statement]
      n.children := h.items hkind (by decide)
  simp only [Matches.one_iff, Matches.optional_iff, Matches.nil_iff] at hitems
  simp only [StatementAssures, statement, hkind]
  obtain ⟨init, _, heq, hinit, ⟨update, _, rfl, hupdate, inner, _, rfl, hinner, rfl⟩ |
    ⟨test, _, rfl, htest, update, _, rfl, hupdate, inner, _, rfl, hinner, rfl⟩⟩ := hitems
  · exact forLoop_assures [init, update] h.covered (by simp [hinit, hupdate]) hinner hkind heq
  · exact forLoop_assures [init, test, update] h.covered (by simp [hinit, htest, hupdate]) hinner
      hkind heq

/-- A loop over a collection. -/
theorem forEach (hkind : n.kind = .enhancedForStmt) : StatementAssures n := by
  have hitems : Matches [.one .modifiers, .one .type, .one .word, .one .expression,
      .one .statement] n.children := h.items hkind (by decide)
  simp only [Matches.one_iff, Matches.nil_iff] at hitems
  obtain ⟨mods, _, heq, hmods, type, _, rfl, htype, name, _, rfl, hname, collection, _, rfl,
    hcollection, inner, _, rfl, hinner, rfl⟩ := hitems
  simp only [StatementAssures, statement, hkind]
  refine forEach_assures [mods, type, name] h.covered ?_ hcollection hinner hkind heq
  simpa using ⟨(h.covered mods (by simp [heq])).fine hmods (by decide),
    (h.covered type (by simp [heq])).fine htype (by decide),
    (h.covered name (by simp [heq])).fine hname (by decide)⟩

/-- A loop with its condition in front. -/
theorem whileLoop (hkind : n.kind = .whileStmt) : StatementAssures n := by
  obtain ⟨test, inner, heq, htest, hinner⟩ := h.derives.two_of_kind (a := .expression)
    (b := .statement) h.clean hkind (by decide)
  have htest₀ := h.covered test (by simp [heq])
  have hinner₀ := h.covered inner (by simp [heq])
  rw [StatementAssures, heq]
  simp only [statement, hkind, List.map_cons, List.map_nil, child_zero, child_succ, pure_bind]
  refine .imp (.and (.first (.first (htest₀.value htest)))
    (.second fun _ => .first (body_assures hinner₀ hinner))) fun hboth => ?_
  exact fine_of_children hkind rfl heq (by simpa using hboth)

/-- A loop with its condition behind. -/
theorem doWhile (hkind : n.kind = .doStmt) : StatementAssures n := by
  obtain ⟨inner, test, heq, hinner, htest⟩ := h.derives.two_of_kind (a := .statement)
    (b := .expression) h.clean hkind (by decide)
  have htest₀ := h.covered test (by simp [heq])
  have hinner₀ := h.covered inner (by simp [heq])
  rw [StatementAssures, heq]
  simp only [statement, hkind, List.map_cons, List.map_nil, child_zero, child_succ, pure_bind]
  refine .imp (.and (.first (body_assures hinner₀ hinner))
    (.second fun _ => .first (.first (htest₀.value htest)))) fun hboth => ?_
  exact fine_of_children hkind rfl heq (by simpa using hboth)

/-- A switch over groups. -/
theorem switching (hkind : n.kind = .switchStmt) : StatementAssures n := by
  have hitems : Matches [.one .expression, .many .switchCase] n.children :=
    h.items hkind (by decide)
  simp only [Matches.one_iff, Matches.many_iff, Matches.nil_iff] at hitems
  obtain ⟨subject, _, heq, hsubject, groups, _, rfl, hgroups, rfl⟩ := hitems
  rw [List.append_nil] at heq
  simp only [StatementAssures, statement, hkind]
  exact switching_assures h.covered hsubject hgroups hkind heq

/-- A return with or without a value. -/
theorem returning (hkind : n.kind = .returnStmt) : StatementAssures n := by
  have hitems : Matches [.optional .expression] n.children := h.items hkind (by decide)
  simp only [Matches.optional_iff, Matches.nil_iff] at hitems
  simp only [StatementAssures, statement, hkind]
  obtain hnone | ⟨value, _, heq, hvalue, rfl⟩ := hitems
  · exact .of_true (fine_of_children hkind rfl hnone (by simp))
  · have hvalue₀ := h.covered value (by simp [heq])
    rw [heq]
    exact .imp (.second fun _ => .first (hvalue₀.value hvalue)) fun hvalue =>
      fine_of_children hkind rfl heq (by simpa using hvalue)

/-- A block behind a lock. -/
theorem synchronizing (hkind : n.kind = .synchronizedStmt) : StatementAssures n := by
  obtain ⟨lock, inner, heq, hlock, hinner⟩ := h.derives.two_of_kind (a := .expression)
    (b := .block) h.clean hkind (by decide)
  have hlock₀ := h.covered lock (by simp [heq])
  have hinner₀ := h.covered inner (by simp [heq])
  rw [StatementAssures, heq]
  simp only [statement, hkind, Parts.valueAt, List.map_cons, List.map_nil, child_zero, child_succ,
    pure_bind]
  refine .imp (.and (.first (hlock₀.value hlock)) (.second fun _ => .first (hinner₀.block hinner)))
    fun hboth => ?_
  exact fine_of_children hkind rfl heq (by simpa using hboth)

/-- Every kind of statement that gives one statement; what is no statement is refused. -/
theorem statement (hkind₀ : n.kind ≠ .emptyStmt) (hkind₁ : n.kind ≠ .localVarDecl) :
    StatementAssures n := by
  cases hkind : n.kind with
  | block =>
    simp only [StatementAssures, Lowering.statement, hkind]
    exact .map (block_assures h.clean h.covered (h.derives.of_kind_eq h.clean hkind (by decide))) _
  | localVarDecl => exact absurd hkind hkind₁
  | emptyStmt => exact absurd hkind hkind₀
  | exprStmt => exact h.ofValue (.inl hkind)
  | ifStmt => exact h.conditional hkind
  | forStmt => exact h.forLoop hkind
  | enhancedForStmt => exact h.forEach hkind
  | whileStmt => exact h.whileLoop hkind
  | doStmt => exact h.doWhile hkind
  | switchStmt => exact h.switching hkind
  | returnStmt => exact h.returning hkind
  | breakStmt =>
    simp only [StatementAssures, Lowering.statement, hkind]
    exact jump_assures (.inl hkind)
  | continueStmt =>
    simp only [StatementAssures, Lowering.statement, hkind]
    exact jump_assures (.inr hkind)
  | throwStmt => exact h.ofValue (.inr hkind)
  | tryStmt =>
    simp only [StatementAssures, Lowering.statement, hkind]
    exact trying_assures h.covered hkind (h.items hkind (by decide))
  | synchronizedStmt => exact h.synchronizing hkind
  | _ =>
    simp only [StatementAssures, Lowering.statement, hkind]
    exact Lower.refuse_assures _ _

end Examined

/-- Generating the statements of a node assures that nothing in it is without a counterpart. -/
theorem statements_assures (h : Examined .statement n) :
    Assures (statements n (n.children.map attributed)) n.Fine := by
  unfold statements
  split
  · next hkind =>
    have hnone : n.children = [] := Matches.nil_iff.1 (h.items hkind (by decide))
    exact .of_true (fine_of_children hkind rfl hnone (by simp))
  · next hkind =>
    exact .first (localVariables_assures h.clean h.covered
      (h.derives.of_kind_eq h.clean hkind (by decide)))
  · next hkind₀ hkind₁ => exact .first (h.statement hkind₀ hkind₁)

/-- Every tree without error nodes is covered. -/
theorem covered (n : Node) (hclean : n.Clean) : Covered n := by
  induction n using Node.induction with
  | h n ih =>
    have hchildren : ∀ m ∈ n.children, Covered m := fun m hm => ih m hm (hclean.child hm)
    refine .intro ⟨hclean, fun hn => ?_, fun hn => ?_, ?_, fun hn => ?_⟩ hchildren
    · rw [attributed_value]
      exact Examined.expression ⟨hclean, hchildren, hn⟩
    · rw [attributed_operands]
      exact leftOperands_assures ⟨hclean, hchildren, hn⟩
    · simp only [attributed_array]
      exact arrayLiteral_assures hchildren hclean
    · rw [attributed_statements]
      exact statements_assures ⟨hclean, hchildren, hn⟩

end Statements

end Lowering

end JavaObjC
