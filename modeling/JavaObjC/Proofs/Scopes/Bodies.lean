import JavaObjC.Proofs.Scopes.Statements

/-!
# Locals are found by the rules of scopes

The generator keeps a stack of scopes while it walks a body: it opens and closes
scopes around the parts of statements, in an order that differs from statement
to statement, and any part may refuse. What it makes of a body is what the rules
of scopes say: an induction over the tree shows that each expression meets the
scopes that the rules give where it stands. Whatever happens inside a statement,
no scope but the innermost one is changed by it, and none by an expression.
-/

namespace JavaObjC

open Generating Lower Lowering

namespace Lowering

variable {around : Surroundings} {scopes : List Scope} {n : Node} {nodes : List Node}
  {parts parts' : Parts} {isStatement : NodeKind → Bool}

section Rules

/-- An empty scope hides nothing. -/
theorem findLocal?_nil_cons (name : Text) : findLocal? name ([] :: scopes) = findLocal? name scopes :=
  rfl

/-- An empty scope makes no difference to expressions. -/
theorem located_nil_cons (n : Node) : located ([] :: scopes) n = located scopes n := by
  have hmeaning : locatedMeaning ([] :: scopes) = locatedMeaning scopes := by
    funext n parts
    rw [locatedMeaning, locatedMeaning, identifierIn, identifierIn, findLocal?_nil_cons]
  rw [located, located, hmeaning]

/-- A node is resolved first, and the others at the scopes it leaves. -/
theorem inOrder_cons (n : Node) :
    inOrder around isStatement none scopes (n :: nodes) =
      let here :=
        if isStatement n.kind then resolved around scopes n else (located scopes n, scopes)
      let rest := inOrder around isStatement none here.2 nodes
      (here.1 :: rest.1, rest.2) := by
  cases nodes <;> rfl

/-- A node that is not the last one is no body. -/
theorem inOrder_cons_cons (body : Option (List Scope)) (n m : Node) :
    inOrder around isStatement body scopes (n :: m :: nodes) =
      let here :=
        if isStatement n.kind then resolved around scopes n else (located scopes n, scopes)
      let rest := inOrder around isStatement body here.2 (m :: nodes)
      (here.1 :: rest.1, rest.2) := by
  cases body <;> rfl

/-- The last node is a body behind the others. -/
theorem inOrder_concat (inner : List Scope) (n : Node) :
    inOrder around isStatement (some inner) scopes (nodes ++ [n]) =
      let heads := inOrder around isStatement none scopes nodes
      (heads.1 ++ [(resolved around (bodyScopes (inner ++ heads.2) n.kind) n).1], heads.2) := by
  induction nodes generalizing scopes with
  | nil => rfl
  | cons first rest ih =>
    rw [inOrder_cons]
    cases rest with
    | nil => rfl
    | cons second rest =>
      rw [List.cons_append, List.cons_append, inOrder_cons_cons, ← List.cons_append]
      dsimp only
      rw [ih]
      rfl

/-- A node without statements below it is an expression, or has only expressions below it. -/
theorem resolved_open (h : n.kind ∉ closedKinds) :
    resolved around scopes n = (located scopes n, scopes) := by
  obtain ⟨kind, span, token, problem, children⟩ := n
  unfold resolved
  dsimp only at h ⊢
  split <;> first | rfl | exact absurd (by decide) h

/-- What is decorated is the node itself. -/
theorem resolved_closed (around : Surroundings) (scopes : List Scope) (h : n.kind ∈ closedKinds) :
    ∃ parts, (resolved around scopes n).1 = ⟨n, meaning n parts, parts⟩ := by
  obtain ⟨kind, span, token, problem, children⟩ := n
  unfold resolved
  dsimp only at h ⊢
  split
  case h_15 =>
    have hkind : kind ≠ .identifier := by rintro rfl; exact absurd h (by decide)
    rw [located, Attributed.ofNode_eq, locatedMeaning]
    exact ⟨_, by rw [if_neg (by exact hkind)]⟩
  all_goals exact ⟨_, rfl⟩

end Rules

end Lowering

namespace Bounds

variable {b : Bounds} {env after : List Scope} {n : Node} {nodes : List Node} {parts parts' : Parts}
  {isStatement : NodeKind → Bool} {around : Surroundings}

section Nodes

/-- Nodes with statements below them refuse to be expressions. -/
theorem closed_tied (hn : n.Over b.literals b.names) (hkind : n.kind ∈ closedKinds)
    (hnodes : parts.map Attributed.node = n.children) :
    b.Tied env ⟨n, meaning n parts, parts⟩ ⟨n, meaning n parts', parts'⟩ :=
  .intro rfl hn (absurd hkind) (b.meaning_tied hn hnodes (absurd hkind))

/-- Attributed nodes keep their nodes. -/
theorem map_node_attributed (nodes : List Node) :
    (nodes.map attributed).map Attributed.node = nodes := by
  simp [Function.comp_def, attributed, Attributed.ofNode_node]

/-- As an expression a node can be decorated with an empty scope more. -/
theorem resolved_tied (hn : n.OverTree b.literals b.names) {scopes : List Scope}
    (hscopes : scopes = env ∨ scopes = [] :: env) :
    b.Tied env (attributed n) (resolved around scopes n).1 := by
  by_cases hkind : n.kind ∈ closedKinds
  · obtain ⟨parts, hresolved⟩ := resolved_closed around scopes hkind
    rw [hresolved, attributed_eq]
    exact closed_tied hn.here hkind (map_node_attributed _)
  · rw [resolved_open hkind]
    rcases hscopes with rfl | rfl
    · exact located_tied _ hn
    · rw [located_nil_cons]
      exact located_tied _ hn

/-- What the rules make of a node can stand in its place. -/
def Resolves (b : Bounds) (around : Surroundings) (n : Node) : Prop :=
  n.OverTree b.literals b.names ∧ ∀ scopes,
    b.Placed scopes (resolved around scopes n).2 (attributed n) (resolved around scopes n).1

/-- The nodes one after the other that the rules decorate. -/
theorem inOrder_threaded (isStatement : NodeKind → Bool) (env : List Scope)
    (hnodes : ∀ n ∈ nodes, b.Resolves around n) :
    b.Threaded isStatement env (nodes.map attributed) (inOrder around isStatement none env nodes).1
      (inOrder around isStatement none env nodes).2 := by
  induction nodes generalizing env with
  | nil => exact .nil env
  | cons n rest ih =>
    rw [List.forall_mem_cons] at hnodes
    rw [inOrder_cons, List.map_cons]
    dsimp only
    split
    · next hkind =>
      exact .statement (by rwa [attributed_kind]) (hnodes.1.2 env) (ih _ hnodes.2)
    · next hkind =>
      have hexpression : isStatement (attributed n).kind = false := by
        rw [attributed_kind, ← Bool.not_eq_true]
        exact hkind
      exact .expression hexpression (located_tied _ hnodes.1.1) (ih _ hnodes.2)

/-- A body is tied to its resolved form, block or not. -/
theorem resolved_body (h : b.Resolves around n) :
    b.Ties env (body (attributed n)) (body (resolved around (bodyScopes env n.kind) n).1)
      fun _ => True := by
  have hplaced := h.2 (bodyScopes env n.kind)
  rw [← attributed_kind] at hplaced ⊢
  exact body_ties hplaced

/-- The bodies of a statement are resolved one by one at the same scopes. -/
theorem bodies_embodied (env : List Scope) (hnodes : ∀ n ∈ nodes, b.Resolves around n) :
    List.Forall₂ (b.Embodied env) (nodes.map attributed) (bodies around env nodes) := by
  induction nodes with
  | nil => exact .nil
  | cons n rest ih =>
    rw [List.forall_mem_cons] at hnodes
    refine .cons ⟨resolved_tied hnodes.1.1 ?_, resolved_body hnodes.1⟩ (ih hnodes.2)
    unfold bodyScopes
    split
    · exact .inl rfl
    · exact .inr rfl

end Nodes

section Kinds

/-- The kinds of nodes that are more than one statement, or only a part of one. -/
def jointKinds : List NodeKind :=
  [.block, .localVarDecl, .switchCase, .forInit, .catchClause, .finallyClause]

/-- Blocks and clauses of a try statement declare nothing around them. -/
theorem forall_blocks_stay (kind : NodeKind)
    (h : decide (kind ∈ [.block, .catchClause, .finallyClause]) = true) :
    kind ∉ [.localVarDecl, .switchCase, .forInit] := by
  revert h
  cases kind <;> decide

/-- A single statement. -/
theorem placed_single {a a' : Attributed} (hkind : a.kind ∉ jointKinds) (htied : b.Tied env a a')
    (hstatements : b.Ties env a.statements a'.statements fun _ => True) :
    b.Placed env env a a' := by
  have hother : ∀ {kind}, kind ∈ jointKinds → a.kind ≠ kind := fun h heq => hkind (heq ▸ h)
  exact
    { behind := rfl
      tied := htied
      value := Ties.moves (htied.value.mono fun _ _ => trivial)
      statements := hstatements.moves
      stays := fun _ => rfl
      block := fun h => absurd h (hother (by decide))
      locals := fun h => absurd h (hother (by decide))
      start := fun h => absurd h (hother (by decide))
      group := fun h => absurd h (hother (by decide))
      catching := fun h => absurd h (hother (by decide))
      final := fun h => absurd h (hother (by decide)) }

variable {span : Span} {token : Option Token} {problem : Option Problem} {children : List Node}

/-- A compound statement. -/
theorem placed_compound {kind : NodeKind} {parts' : Parts}
    (hn : Node.Over b.literals b.names ⟨kind, span, token, problem, children⟩) (hkind : kind ∈ closedKinds)
    (hsingle : kind ∉ jointKinds)
    (h : b.Ties env (statements ⟨kind, span, token, problem, children⟩ (children.map attributed))
      (statements ⟨kind, span, token, problem, children⟩ parts') fun _ => True) :
    b.Placed env env (attributed ⟨kind, span, token, problem, children⟩)
      ⟨⟨kind, span, token, problem, children⟩,
        meaning ⟨kind, span, token, problem, children⟩ parts', parts'⟩ := by
  rw [attributed_eq]
  exact placed_single hsingle (closed_tied hn hkind (map_node_attributed _)) h

/-- A conditional or a loop without head leaves the scopes as they are. -/
theorem bodies_placed {kind : NodeKind} (hkind : kind ∈ [.ifStmt, .whileStmt, .doStmt])
    (hn : Node.Over b.literals b.names ⟨kind, span, token, problem, children⟩)
    (hchildren : ∀ m ∈ children, b.Resolves around m) :
    b.Placed env env (attributed ⟨kind, span, token, problem, children⟩)
      ⟨⟨kind, span, token, problem, children⟩,
        meaning ⟨kind, span, token, problem, children⟩ (bodies around env children),
        bodies around env children⟩ := by
  have hparts := bodies_embodied env hchildren
  simp only [List.mem_cons, List.not_mem_nil, or_false] at hkind
  rcases hkind with rfl | rfl | rfl
  all_goals refine placed_compound hn (by decide) (by decide) ?_
  · exact (conditional_ties hparts).bind fun _ _ => .pure trivial
  · refine Coincide.bind (P := fun _ => True) ?_ fun _ _ => .pure trivial
    refine Ties.require_bind (rel_getElem? hparts 0) fun _ _ _ htest => ?_
    refine (condition_ties htest.tied).bind fun _ _ => ?_
    exact Ties.require_bind (rel_getElem? hparts 1) fun _ _ _ h => h.body.bind fun _ _ =>
      .pure trivial
  · refine Coincide.bind (P := fun _ => True) ?_ fun _ _ => .pure trivial
    refine Ties.require_bind (rel_getElem? hparts 0) fun _ _ _ h => h.body.bind fun _ _ => ?_
    exact Ties.require_bind (rel_getElem? hparts 1) fun _ _ _ htest =>
      (condition_ties htest.tied).bind fun _ _ => .pure trivial

/-- A loop resolves its clauses and its body in one scope. -/
theorem forStmt_placed (hn : Node.Over b.literals b.names ⟨.forStmt, span, token, problem, children⟩)
    (hchildren : ∀ m ∈ children, b.Resolves around m) :
    b.Placed env (resolved around env ⟨.forStmt, span, token, problem, children⟩).2
      (attributed ⟨.forStmt, span, token, problem, children⟩)
      (resolved around env ⟨.forStmt, span, token, problem, children⟩).1 := by
  refine placed_compound hn (by decide) (by decide) ?_
  refine Coincide.bind (P := fun _ => True) ?_ fun _ _ => .pure trivial
  rcases List.eq_nil_or_concat children with rfl | ⟨heads, last, rfl⟩
  · have hnone : forLoop [] = (withScope (throw .malformed) : Lower Stmt) := rfl
    have hscope : ([] :: env).drop 1 = env := rfl
    change b.Ties env (forLoop []) (forLoop []) _
    rw [hnone]
    exact withScope_ties Moves.refused hscope
  · rw [List.concat_eq_append] at hchildren ⊢
    rw [List.forall_mem_append, List.forall_mem_singleton] at hchildren
    rw [inOrder_concat, List.map_append]
    exact forLoop_ties (inOrder_threaded _ _ hchildren.1) (resolved_body hchildren.2)

/-- An enhanced loop resolves its collection outside the scope of its variable. -/
theorem enhancedForStmt_placed (haround : ∀ a, b.around a → a = around)
    (hn : Node.Over b.literals b.names ⟨.enhancedForStmt, span, token, problem, children⟩)
    (hchildren : ∀ m ∈ children, b.Resolves around m) :
    b.Placed env (resolved around env ⟨.enhancedForStmt, span, token, problem, children⟩).2
      (attributed ⟨.enhancedForStmt, span, token, problem, children⟩)
      (resolved around env ⟨.enhancedForStmt, span, token, problem, children⟩).1 := by
  refine placed_compound hn (by decide) (by decide) ?_
  refine Coincide.bind (P := fun _ => True) ?_ fun _ _ => .pure trivial
  rcases List.eq_nil_or_concat children with rfl | ⟨heads, last, rfl⟩
  · exact .refused (r := .malformed)
  rw [List.concat_eq_append] at hchildren ⊢
  have hover : ∀ part ∈ (heads ++ [last]).map attributed,
      part.kind = .type ∨ part.kind = .arrayType → part.type.Over b.names := by
    rw [List.forall_mem_map]
    intro m hm
    rw [Attributed.kind, Attributed.type, attributed, Attributed.ofNode_node]
    exact hn.parts List.mem_cons_self m (by simpa using hm)
  rw [List.forall_mem_append, List.forall_mem_singleton] at hchildren
  have hheads := inOrder_threaded (fun _ => false) env hchildren.1
  have htied : b.PartsTied env _ _ :=
    (hheads.settled fun _ h => absurd h Bool.false_ne_true).imp fun _ _ h => h.tied
  have hlast : (resolved around (bodyScopes ([[loopLocal around env
      ((heads ++ [last]).map attributed)]] ++ env) last.kind) last).1.node = (attributed last).node :=
    (hchildren.2.2 _).tied.node_eq
  have hnodes := List.rel_append htied.sameNodes (.cons hlast .nil)
  rw [inOrder_concat]
  dsimp only
  rw [hheads.stays fun _ h => absurd h Bool.false_ne_true]
  rw [List.map_append, List.map_singleton] at hnodes hover ⊢
  refine forEach_ties haround hnodes hover htied ?_ (resolved_body hchildren.2)
  rw [Parts.Formed, List.forall_mem_map]
  exact fun m _ => attributed_formed m

/-- A switch resolves its groups in one scope. -/
theorem switchStmt_placed (hn : Node.Over b.literals b.names ⟨.switchStmt, span, token, problem, children⟩)
    (hchildren : ∀ m ∈ children, b.Resolves around m) :
    b.Placed env (resolved around env ⟨.switchStmt, span, token, problem, children⟩).2
      (attributed ⟨.switchStmt, span, token, problem, children⟩)
      (resolved around env ⟨.switchStmt, span, token, problem, children⟩).1 := by
  refine placed_compound hn (by decide) (by decide) ?_
  refine (switching_ties ?_ (inOrder_threaded _ _ hchildren)).bind fun _ _ => .pure trivial
  cases children with
  | nil => exact .none
  | cons n rest =>
    have hn := (hchildren n (List.mem_cons_self ..)).1
    rw [inOrder_cons]
    refine .some ?_
    split
    · exact resolved_tied hn (.inr rfl)
    · rw [located_nil_cons]
      exact located_tied _ hn

/-- A try statement resolves its parts at the same scopes. -/
theorem tryStmt_placed (hn : Node.Over b.literals b.names ⟨.tryStmt, span, token, problem, children⟩)
    (hchildren : ∀ m ∈ children, b.Resolves around m) :
    b.Placed env (resolved around env ⟨.tryStmt, span, token, problem, children⟩).2
      (attributed ⟨.tryStmt, span, token, problem, children⟩)
      (resolved around env ⟨.tryStmt, span, token, problem, children⟩).1 := by
  refine placed_compound hn (by decide) (by decide) ?_
  have hparts := (inOrder_threaded _ env hchildren).settled forall_blocks_stay
  exact (trying_ties hparts).bind fun _ _ => .pure trivial

/-- A synchronized statement resolves its lock outside the scope of its block. -/
theorem synchronizedStmt_placed
    (hn : Node.Over b.literals b.names ⟨.synchronizedStmt, span, token, problem, children⟩)
    (hchildren : ∀ m ∈ children, b.Resolves around m)
    (hinner : ∀ m ∈ children[1]?, ∀ inner ∈ m.children, b.Resolves around inner) :
    b.Placed env (resolved around env ⟨.synchronizedStmt, span, token, problem, children⟩).2
      (attributed ⟨.synchronizedStmt, span, token, problem, children⟩)
      (resolved around env ⟨.synchronizedStmt, span, token, problem, children⟩).1 := by
  refine placed_compound hn (by decide) (by decide) ?_
  refine Coincide.bind (P := fun _ => True) ?_ fun _ _ => .pure trivial
  cases children with
  | nil => exact .refused (r := .malformed)
  | cons lock rest =>
    rw [List.forall_mem_cons] at hchildren
    refine (located_tied _ hchildren.1.1).value.bind fun _ _ => ?_
    cases rest with
    | nil => exact .refused (r := .malformed)
    | cons block rest =>
      obtain ⟨kind, span, token, problem, inner⟩ := block
      have hblock := blockBody_ties (inOrder_threaded (fun _ => true) ([] :: env) (hinner _ rfl))
      rw [List.map_cons, List.map_cons, attributed_eq ⟨kind, span, token, problem, inner⟩]
      exact hblock.bind fun _ _ => .pure trivial

end Kinds

section Joint

variable {span : Span} {token : Option Token} {problem : Option Problem} {children : List Node}

/-- A block resolves its statements one after another in a scope of its own. -/
theorem block_placed (hn : Node.Over b.literals b.names ⟨.block, span, token, problem, children⟩)
    (hchildren : ∀ m ∈ children, b.Resolves around m) :
    b.Placed env (resolved around env ⟨.block, span, token, problem, children⟩).2
      (attributed ⟨.block, span, token, problem, children⟩)
      (resolved around env ⟨.block, span, token, problem, children⟩).1 := by
  have hblock := blockBody_ties (inOrder_threaded (fun _ => true) ([] :: env) hchildren)
  have htied : b.Tied env _ (resolved around env ⟨.block, span, token, problem, children⟩).1 :=
    closed_tied hn (show NodeKind.block ∈ closedKinds by decide) (map_node_attributed children)
  rw [attributed_eq]
  exact
    { behind := rfl
      tied := htied
      value := Moves.refused
      statements := Ties.moves (P := fun _ => True) <|
        (hblock.map (f := Stmt.block) (Q := fun _ => True) fun _ _ => trivial).bind fun _ _ =>
          .pure trivial
      stays := fun _ => rfl
      block := fun _ => hblock }

/-- Resolved declarators keep their nodes. -/
theorem map_node_locatedLocals {t : JavaType} (nodes : List Node) :
    (locatedLocals around t env nodes).1.map Attributed.node = nodes := by
  induction nodes generalizing env with
  | nil => rfl
  | cons n rest ih =>
    rw [locatedLocals, List.map_cons, ih, located, Attributed.ofNode_node]

/-- The written type of a declaration is its second part. -/
theorem localVariables_eq (h : parts.map Attributed.node = children) :
    localVariables parts = Lower.require children[1]? >>= fun written =>
      (parts.ofKind .varDeclarator).mapM (localVariable (JavaType.ofNode written)) := by
  subst h
  rw [localVariables, Parts.child, List.getElem?_map]
  cases parts[1]? <;> rfl

/-- A declaration leaves the scopes with its locals. -/
theorem localVarDecl_placed (haround : ∀ a, b.around a → a = around)
    (hn : Node.Over b.literals b.names ⟨.localVarDecl, span, token, problem, children⟩)
    (hchildren : ∀ m ∈ children, b.Resolves around m) :
    b.Placed env (resolved around env ⟨.localVarDecl, span, token, problem, children⟩).2
      (attributed ⟨.localVarDecl, span, token, problem, children⟩)
      (resolved around env ⟨.localVarDecl, span, token, problem, children⟩).1 := by
  have hkind : NodeKind.localVarDecl ∈ closedKinds := by decide
  have hplaced : ∀ m ∈ children[1]?, (JavaType.ofNode m).Over b.names := hn.placed 1 rfl
  have hbehind := drop_locatedLocals around
    (((children[1]?).map JavaType.ofNode).getD .unknown) env children
  have hlocals : b.Moves env (resolved around env ⟨.localVarDecl, span, token, problem, children⟩).2
      (localVariables (children.map attributed)) (localVariables
        (resolved around env ⟨.localVarDecl, span, token, problem, children⟩).1.parts)
      fun _ => True := by
    unfold resolved
    dsimp only [Attributed.parts]
    rw [localVariables_eq (map_node_attributed children),
      localVariables_eq (map_node_locatedLocals children)]
    generalize children[1]? = o at hplaced ⊢
    cases o with
    | none => exact Moves.refused (r := .malformed)
    | some written =>
      exact locals_move haround (hplaced written rfl) fun m hm => (hchildren m hm).1
  rw [attributed_eq]
  exact
    { behind := hbehind
      tied := closed_tied hn hkind (map_node_attributed children)
      value := Moves.refused
      statements := hlocals.bind hbehind fun _ _ => .pure trivial
      stays := fun h => absurd (List.mem_cons_self ..) h
      locals := fun _ => hlocals }

/-- The groups of a switch and the locals in the head of a loop. -/
theorem switchCase_placed (hn : Node.Over b.literals b.names ⟨.switchCase, span, token, problem, children⟩)
    (hchildren : ∀ m ∈ children, b.Resolves around m) :
    b.Placed env (resolved around env ⟨.switchCase, span, token, problem, children⟩).2
      (attributed ⟨.switchCase, span, token, problem, children⟩)
      (resolved around env ⟨.switchCase, span, token, problem, children⟩).1 := by
  have hkind : NodeKind.switchCase ∈ closedKinds := by decide
  have hparts := inOrder_threaded (fun _ => true) env hchildren
  rw [attributed_eq]
  exact
    { behind := hparts.behind
      tied := closed_tied hn hkind (map_node_attributed children)
      value := Moves.refused
      statements := Moves.refused
      stays := fun h => absurd (by simp [Attributed.kind]) h
      group := fun _ => switchGroup_moves hparts }

/-- The first clause of a loop leaves the scopes with the locals it declares. -/
theorem forInit_placed (hn : Node.Over b.literals b.names ⟨.forInit, span, token, problem, children⟩)
    (hchildren : ∀ m ∈ children, b.Resolves around m) :
    b.Placed env (resolved around env ⟨.forInit, span, token, problem, children⟩).2
      (attributed ⟨.forInit, span, token, problem, children⟩)
      (resolved around env ⟨.forInit, span, token, problem, children⟩).1 := by
  have hkind : NodeKind.forInit ∈ closedKinds := by decide
  have hparts := inOrder_threaded (fun _ => true) env hchildren
  rw [attributed_eq]
  exact
    { behind := hparts.behind
      tied := closed_tied hn hkind (map_node_attributed children)
      value := Moves.refused
      statements := Moves.refused
      stays := fun h => absurd (by simp [Attributed.kind]) h
      start := fun _ => hparts.mapM (fun _ _ => rfl) fun _ h => loopStart_moves h }

/-- A clause resolves its block below the caught exception. -/
theorem catchClause_placed (haround : ∀ a, b.around a → a = around)
    (hn : Node.Over b.literals b.names ⟨.catchClause, span, token, problem, children⟩)
    (hchildren : ∀ m ∈ children, b.Resolves around m) :
    b.Placed env (resolved around env ⟨.catchClause, span, token, problem, children⟩).2
      (attributed ⟨.catchClause, span, token, problem, children⟩)
      (resolved around env ⟨.catchClause, span, token, problem, children⟩).1 := by
  have hkind : NodeKind.catchClause ∈ closedKinds := by decide
  have hparts := (inOrder_threaded (· = .block)
    ([caughtLocal around env (children.map attributed)] :: env) hchildren).settled
      fun kind h => by rw [of_decide_eq_true h]; decide
  rw [attributed_eq]
  exact
    { behind := rfl
      tied := closed_tied hn hkind (map_node_attributed children)
      value := Moves.refused
      statements := Moves.refused
      stays := fun _ => rfl
      catching := fun _ => catchClause_ties haround hparts }

/-- A last block is resolved at the scopes of its statement. -/
theorem finallyClause_placed
    (hn : Node.Over b.literals b.names ⟨.finallyClause, span, token, problem, children⟩)
    (hchildren : ∀ m ∈ children, b.Resolves around m) :
    b.Placed env (resolved around env ⟨.finallyClause, span, token, problem, children⟩).2
      (attributed ⟨.finallyClause, span, token, problem, children⟩)
      (resolved around env ⟨.finallyClause, span, token, problem, children⟩).1 := by
  have hkind : NodeKind.finallyClause ∈ closedKinds := by decide
  have hparts := (inOrder_threaded _ env hchildren).settled forall_blocks_stay
  rw [attributed_eq]
  exact
    { behind := rfl
      tied := closed_tied hn hkind (map_node_attributed children)
      value := Moves.refused
      statements := Moves.refused
      stays := fun _ => rfl
      final := fun _ => block_rel hparts (by decide) }

end Joint

section Trees

/-- A node without statements below it. -/
theorem open_placed (hn : n.OverTree b.literals b.names) (hkind : n.kind ∉ closedKinds) :
    b.Placed env (resolved around env n).2 (attributed n) (resolved around env n).1 := by
  have htied := located_tied env hn
  have hjoint : ∀ kind ∈ jointKinds, kind ∈ closedKinds := by decide
  have hparts : b.PartsTied env (attributed n).parts (located env n).parts :=
    htied.inner (by rwa [attributed_kind])
  have hsame : ∀ parts, (locatedMeaning env n parts).statements = statements n parts := by
    intro parts
    unfold locatedMeaning
    dsimp only
    split <;> rfl
  rw [resolved_open hkind]
  refine placed_single (fun h => hkind ?_) htied ?_
  · rw [attributed_kind] at h
    exact hjoint _ h
  · rw [attributed_eq, located, Attributed.ofNode_eq] at hparts ⊢
    change b.Ties env (statements n _) (locatedMeaning env n _).statements _
    rw [hsame]
    exact statements_ties hkind hparts

/-- Trees in which the parts of what is synchronized, which is taken for a block, have the property as
well, whatever it is. -/
inductive Locked (b : Bounds) : Node → Prop where
  | intro {n : Node}
    (here : n.kind = .synchronizedStmt →
      ∀ m ∈ n.children[1]?, ∀ inner ∈ m.children, inner.OverTree b.literals b.names)
    (children : ∀ m ∈ n.children, Locked b m) : Locked b n

namespace Locked

/-- The lock of a synchronized statement is over the vocabulary. -/
theorem here (h : b.Locked n) : n.kind = .synchronizedStmt →
    ∀ m ∈ n.children[1]?, ∀ inner ∈ m.children, inner.OverTree b.literals b.names := by
  cases h
  assumption

theorem children (h : b.Locked n) : ∀ m ∈ n.children, b.Locked m := by
  cases h
  assumption

end Locked

/-- A node resolves when its children do: one case for each kind of statement. -/
theorem resolves_of_children (haround : ∀ a, b.around a → a = around)
    (hn : n.OverTree b.literals b.names)
    (hchildren : n.kind ≠ .parameter → ∀ m ∈ n.children, b.Resolves around m)
    (hinner : n.kind = .synchronizedStmt →
      ∀ m ∈ n.children[1]?, ∀ inner ∈ m.children, b.Resolves around inner) :
    b.Resolves around n := by
  refine ⟨hn, fun env => ?_⟩
  by_cases hopen : n.kind ∉ closedKinds
  · exact open_placed hn hopen
  rw [not_not] at hopen
  obtain ⟨kind, span, token, problem, children⟩ := n
  dsimp only at hopen hchildren hinner
  cases kind with
  | parameter => exact placed_single (by simp [jointKinds]) (resolved_tied hn (.inl rfl)) .refused
  | block => exact block_placed hn.here (hchildren (by decide))
  | localVarDecl => exact localVarDecl_placed haround hn.here (hchildren (by decide))
  | switchCase => exact switchCase_placed hn.here (hchildren (by decide))
  | forInit => exact forInit_placed hn.here (hchildren (by decide))
  | ifStmt => exact bodies_placed (by decide) hn.here (hchildren (by decide))
  | whileStmt => exact bodies_placed (by decide) hn.here (hchildren (by decide))
  | doStmt => exact bodies_placed (by decide) hn.here (hchildren (by decide))
  | synchronizedStmt => exact synchronizedStmt_placed hn.here (hchildren (by decide)) (hinner rfl)
  | forStmt => exact forStmt_placed hn.here (hchildren (by decide))
  | enhancedForStmt => exact enhancedForStmt_placed haround hn.here (hchildren (by decide))
  | switchStmt => exact switchStmt_placed hn.here (hchildren (by decide))
  | tryStmt => exact tryStmt_placed hn.here (hchildren (by decide))
  | catchClause => exact catchClause_placed haround hn.here (hchildren (by decide))
  | finallyClause => exact finallyClause_placed hn.here (hchildren (by decide))
  | _ => exact absurd hopen (by decide)

/-- The rules of scopes give what the generator finds: by induction over the tree, where a block that
is synchronized is two steps down. -/
theorem resolves (haround : ∀ a, b.around a → a = around) (n : Node) (hn : n.OverTree b.literals b.names)
    (hlocked : b.Locked n) : b.Resolves around n := by
  have hall : (n.OverTree b.literals b.names → b.Locked n → b.Resolves around n) ∧
      ∀ m ∈ n.children, m.OverTree b.literals b.names → b.Locked m → b.Resolves around m := by
    clear hn hlocked
    induction n using Node.induction with
    | h n ih =>
      refine ⟨fun hn hlocked => ?_, fun m hm => (ih m hm).1⟩
      refine resolves_of_children haround hn
        (fun hkind m hm => (ih m hm).1 (hn.child hkind hm) (hlocked.children m hm)) ?_
      intro hkind m hm inner hinner
      have hmem : m ∈ n.children := List.mem_of_getElem? hm
      exact (ih m hmem).2 inner hinner (hlocked.here hkind m hm inner hinner)
        ((hlocked.children m hmem).children inner hinner)
  exact hall.1 hn hlocked

end Trees

end Bounds

end JavaObjC
