import JavaObjC.Proofs.Scopes.Bodies

/-!
# Locals of a body

In every body, of a method, of a constructor or of an initializer, a name means
what the rules of scopes say: the latest declaration of the innermost scope that
has one, among the parameters, locals, loop variables and caught exceptions that
are in scope there. Whatever a statement does, it leaves as many scopes as it
found, and none but the innermost one is changed; an expression changes none.
-/

namespace JavaObjC

open Generating Lower Lowering

section Everything

/-- Types, of whose names nothing is asked. -/
theorem JavaType.over_true : ∀ t : JavaType, t.Over fun _ => True
  | ⟨_, arguments, _⟩ => .intro trivial fun a _ => JavaType.over_true a
termination_by t => sizeOf t
decreasing_by
  rename_i h
  have hlt := List.sizeOf_lt_of_mem h
  simp only [JavaType.mk.sizeOf_spec] at hlt ⊢
  omega

/-- Every node is over all names. -/
theorem Node.over_true (n : Node) : n.Over (fun _ => True) fun _ => True :=
  ⟨fun _ => trivial, fun _ => JavaType.over_true _, fun _ _ _ _ => JavaType.over_true _,
    fun _ _ _ _ => JavaType.over_true _, fun _ _ _ _ => trivial, fun _ => JavaType.over_true _⟩

/-- Every tree is over all names. -/
theorem Node.overTree_true (n : Node) : n.OverTree (fun _ => True) fun _ => True := by
  induction n using Node.induction with
  | h n ih => exact .intro n.over_true fun _ => ih

/-- Every signature is over all names. -/
theorem ClassSignature.over_true (c : ClassSignature) : c.Over fun _ => True :=
  ⟨.inr trivial, fun _ _ => trivial, fun _ _ => (JavaType.over_true _).known,
    fun _ _ => (JavaType.over_true _).known⟩

/-- In given surroundings, of which nothing is asked. -/
def Bounds.ofSurroundings (around : Surroundings) : Bounds where
  literals := fun _ => True
  names := fun _ => True
  vocabulary := ⟨fun _ _ => trivial, fun _ _ => trivial⟩
  around := (· = around)
  bounded := fun _ c _ => c.over_true
  classes := fun _ _ _ => trivial
  kept := fun _ => True
  mapped := fun _ _ _ _ => trivial
  named := fun _ _ _ => trivial
  used := fun _ _ _ => trivial

variable {around : Surroundings} {env : List Scope}

/-- Bounds that ask for nothing but surroundings hold in every state. -/
theorem Bounds.at_ofSurroundings (r : References) (env : List Scope) :
    (ofSurroundings around).At env ⟨r, env⟩ :=
  ⟨rfl, fun _ _ _ _ => (JavaType.over_true _).known, trivial⟩

/-- Bounds that ask for nothing but surroundings lock every tree. -/
theorem Bounds.locked_ofSurroundings (n : Node) : (ofSurroundings around).Locked n := by
  induction n using Node.induction with
  | h n ih => exact .intro (fun _ _ _ inner _ => inner.overTree_true) ih

/-- In any surroundings the rules of scopes give what the generator finds. -/
theorem Bounds.resolves_ofSurroundings (around : Surroundings) (n : Node) :
    (ofSurroundings around).Resolves around n :=
  resolves (fun _ h => h) n n.overTree_true (locked_ofSurroundings n)

end Everything

section Lookups

variable {name : Text} {t : JavaType} {scope : Scope}

/-- A name is not found in a scope exactly when nothing there has it. -/
theorem getKey?_eq_none_iff_forall : getKey? name scope = none ↔ ∀ e ∈ scope, e.1 ≠ name := by
  induction scope with
  | nil => simp [getKey?]
  | cons e rest ih =>
    rw [getKey?, List.forall_mem_cons, ← ih]
    by_cases h : e.1 = name <;> simp [h]

/-- In one scope the latest declaration of a name counts. -/
theorem getKey?_eq_some_iff_append : getKey? name scope = some t ↔
    ∃ later earlier, scope = later ++ (name, t) :: earlier ∧ ∀ e ∈ later, e.1 ≠ name := by
  induction scope with
  | nil => simp [getKey?]
  | cons e rest ih =>
    obtain ⟨key, value⟩ := e
    rw [getKey?]
    constructor
    · intro h
      split at h
      · next hkey =>
        cases h
        exact ⟨[], rest, by rw [hkey]; rfl, List.forall_mem_nil _⟩
      · next hkey =>
        obtain ⟨later, earlier, rfl, hlater⟩ := ih.1 h
        exact ⟨(key, value) :: later, earlier, rfl, List.forall_mem_cons.2 ⟨hkey, hlater⟩⟩
    · rintro ⟨later, earlier, heq, hlater⟩
      cases later with
      | nil =>
        cases heq
        rw [if_pos rfl]
      | cons first later =>
        obtain ⟨rfl, hrest⟩ := List.cons.inj heq
        rw [List.forall_mem_cons] at hlater
        rw [if_neg hlater.1]
        exact ih.2 ⟨later, earlier, hrest, hlater.2⟩

/-- The innermost scope that has a declaration of a name counts. -/
theorem findLocal?_eq_some_iff {scopes : List Scope} : findLocal? name scopes = some t ↔
    ∃ inner later earlier outer, scopes = inner ++ (later ++ (name, t) :: earlier) :: outer ∧
      (∀ scope ∈ inner, ∀ e ∈ scope, e.1 ≠ name) ∧ ∀ e ∈ later, e.1 ≠ name := by
  rw [findLocal?, List.findSome?_eq_some_iff]
  simp only [getKey?_eq_none_iff_forall, getKey?_eq_some_iff_append]
  constructor
  · rintro ⟨inner, scope, outer, rfl, ⟨later, earlier, rfl, hlater⟩, hinner⟩
    exact ⟨inner, later, earlier, outer, rfl, hinner, hlater⟩
  · rintro ⟨inner, later, earlier, outer, rfl, hinner, hlater⟩
    exact ⟨inner, _, outer, rfl, ⟨later, earlier, rfl, hlater⟩, hinner⟩

end Lookups

namespace Lower

variable {α β : Type} {x : Lower α}

/-- An action that changes at most the innermost of the open scopes, whether it succeeds or
refuses. -/
def KeepsOuter (x : Lower α) : Prop := ∀ around r scope outer,
  ∃ top, (Generating.result x around ⟨r, scope :: outer⟩).2.scopes = top :: outer

/-- Every action on a body closes each scope that it opens. -/
theorem Formed.keepsOuter (h : Formed x) : KeepsOuter x := by
  induction h with
  | pure a => exact fun _ _ scope _ => ⟨scope, rfl⟩
  | refused r => exact fun _ _ scope _ => ⟨scope, rfl⟩
  | @bind α β x f hx hf ihx ihf =>
    intro around r scope outer
    obtain ⟨top, htop⟩ := ihx around r scope outer
    rw [bind_result]
    generalize Generating.result x around ⟨r, scope :: outer⟩ = p at htop ⊢
    obtain ⟨outcome, r', scopes⟩ := p
    dsimp only at htop
    subst htop
    cases outcome with
    | ok a => exact ihf a around r' top outer
    | error e => exact ⟨top, rfl⟩
  | read _ _ ih => exact fun around r scope outer => ih around around r scope outer
  | mapType t =>
    intro around r scope outer
    obtain ⟨ref, noted, hrecords, -⟩ := mapType_records around t (scope :: outer)
    exact ⟨scope, by rw [hrecords.result_eq]⟩
  | classNamed name =>
    intro around r scope outer
    obtain ⟨c, noted, hrecords, -⟩ := classNamed_records around name (scope :: outer)
    exact ⟨scope, by rw [hrecords.result_eq]⟩
  | refer _ => exact fun _ _ scope _ => ⟨scope, rfl⟩
  | declareLocal name t => exact fun _ _ scope _ => ⟨(name, t) :: scope, rfl⟩
  | localType? name => exact fun _ _ scope _ => ⟨scope, rfl⟩
  | @withScope α x _ ih =>
    intro around r scope outer
    obtain ⟨top, htop⟩ := ih around r [] (scope :: outer)
    refine ⟨scope, ?_⟩
    change (Generating.result x around ⟨r, [] :: scope :: outer⟩).2.scopes.drop 1 = _
    rw [htop]
    rfl

end Lower

namespace Lowering

variable {around : Surroundings} {parameters : List Parameter} {block : Node}

/-- The scope of parameters, of which the last one of a name hides the others. -/
def parameterScope (parameters : List Parameter) : Scope :=
  (parameters.map fun p => (p.name, p.type)).reverse

/-- Statements of a body with parameters, each expression where the scopes are open that the rules
give. -/
def resolvedStatements (around : Surroundings) (parameters : List Parameter) (nodes : List Node) :
    Parts :=
  (inOrder around (fun _ => true) none [[], parameterScope parameters] nodes).1

/-- The statements of a method whose names are found by the rules. -/
def resolvedMethodBody (around : Surroundings) (parameters : List Parameter) (block : Node) :
    Lower (List Stmt) := do
  declareParameters parameters
  blockBody (resolvedStatements around parameters block.children)

/-- The initializer message and the statements of a constructor whose names are found by the
rules. -/
def resolvedConstructorBody (around : Surroundings) (parameters : List Parameter) (block : Node) :
    Lower (Text × List Stmt) := do
  declareParameters parameters
  match block.children with
  | first :: rest =>
    if first.kind = .constructorCall then
      let start ← constructorCall (located [parameterScope parameters] first).parts
      return (start, ← blockBody (resolvedStatements around parameters rest))
    return ([], ← blockBody (resolvedStatements around parameters (first :: rest)))
  | [] => return ([], ← blockBody [])

/-- Parameters are declared one after the other. -/
theorem declareParameters_moves {b : Bounds} (scope : Scope) (outer : List Scope)
    (h : ∀ p ∈ parameters, p.type.Known b.names) :
    b.Moves (scope :: outer) ((parameterScope parameters ++ scope) :: outer)
      (declareParameters parameters) (declareParameters parameters) fun _ => True := by
  induction parameters generalizing scope with
  | nil => exact .pure trivial
  | cons p rest ih =>
    rw [List.forall_mem_cons] at h
    have hscope : parameterScope (p :: rest) ++ scope =
        parameterScope rest ++ ((p.name, p.type) :: scope) := by simp [parameterScope]
    rw [hscope]
    exact (Bounds.declareLocal_moves h.1 p.name).bind rfl fun _ _ => ih _ h.2

/-- An explicit constructor call keeps the scopes. -/
theorem constructorCall_ties {b : Bounds} {env : List Scope} {parts parts' : Parts}
    (h : b.PartsTied env parts parts') :
    b.Ties env (constructorCall parts) (constructorCall parts') fun _ => True := by
  have harguments := h.first? .typeArguments
  have hself := h.first? .thisRef
  unfold constructorCall
  generalize parts.first? .typeArguments = o at harguments ⊢
  generalize parts'.first? .typeArguments = o' at harguments ⊢
  cases harguments with
  | some list => exact list.refuse _
  | none =>
    have hsome : (parts'.first? .thisRef).isSome = (parts.first? .thisRef).isSome := by
      generalize parts.first? .thisRef = o at hself ⊢
      generalize parts'.first? .thisRef = o' at hself ⊢
      cases hself <;> rfl
    refine h.arguments.bind fun arguments _ => Coincide.read fun around _ => ?_
    rw [hsome]
    refine .ite (fun _ => Bounds.sendInit_ties _ _ _ _) fun _ => .ite (fun _ => ?_) fun _ =>
      Bounds.sendInit_ties _ _ _ _
    exact .pure trivial

/-- A block behind the parameters. -/
theorem resolvedStatements_ties (nodes : List Node) :
    (Bounds.ofSurroundings around).Ties [parameterScope parameters]
      (blockBody (nodes.map attributed)) (blockBody (resolvedStatements around parameters nodes))
      fun _ => True :=
  Bounds.blockBody_ties (Bounds.inOrder_threaded _ _ fun n _ =>
    Bounds.resolves_ofSurroundings around n)

/-- Behind its parameters a body does what the rules of scopes say. -/
theorem parameters_ties {α : Type} {x y : Lower α}
    (h : (Bounds.ofSurroundings around).Ties [parameterScope parameters] x y fun _ => True)
    (r : References) :
    Generating.result (declareParameters parameters >>= fun _ => x) around ⟨r, [[]]⟩ =
      Generating.result (declareParameters parameters >>= fun _ => y) around ⟨r, [[]]⟩ := by
  have hparameters := declareParameters_moves (b := .ofSurroundings around) [] []
    fun p (_ : p ∈ parameters) => (JavaType.over_true p.type).known
  rw [List.append_nil] at hparameters
  have hboth := hparameters.bind rfl fun _ _ => h.moves
  exact (hboth around ⟨r, [[]]⟩ rfl (Bounds.at_ofSurroundings r _)).1.symm

variable (around parameters block)

/-- The statements of a method. -/
theorem methodBody_eq (r : References) :
    Generating.result (methodBody parameters block) around ⟨r, [[]]⟩ =
      Generating.result (resolvedMethodBody around parameters block) around ⟨r, [[]]⟩ := by
  rw [methodBody, attributed_parts]
  exact parameters_ties (resolvedStatements_ties block.children) r

/-- The initializer message and the statements of a constructor. -/
theorem constructorBody_eq (r : References) :
    Generating.result (constructorBody parameters block) around ⟨r, [[]]⟩ =
      Generating.result (resolvedConstructorBody around parameters block) around ⟨r, [[]]⟩ := by
  rw [constructorBody, resolvedConstructorBody, attributed_parts]
  refine parameters_ties ?_ r
  have hstatements : ∀ nodes, (Bounds.ofSurroundings around).Ties [parameterScope parameters]
      (blockBody (nodes.map attributed)) (blockBody (resolvedStatements around parameters nodes))
      fun _ => True := resolvedStatements_ties
  cases block.children with
  | nil => exact (hstatements []).bind fun _ _ => .pure trivial
  | cons first rest =>
    rw [List.map_cons]
    dsimp only
    rw [attributed_kind]
    refine .ite (fun hkind => ?_) fun _ => (hstatements (first :: rest)).bind fun _ _ =>
      .pure trivial
    have htied := Bounds.located_tied (b := .ofSurroundings around)
      [parameterScope parameters] first.overTree_true
    refine (constructorCall_ties (htied.inner ?_)).bind fun _ _ =>
      (hstatements rest).bind fun _ _ => .pure trivial
    rw [attributed_kind, hkind]
    decide

/-- The statements of an initializer, which has no parameters. -/
theorem initializer_eq (r : References) :
    Generating.result (blockBody (attributed block).parts) around ⟨r, [[]]⟩ =
      Generating.result (blockBody (resolvedStatements around [] block.children)) around
        ⟨r, [[]]⟩ := by
  have hbody : (Bounds.ofSurroundings around).Ties [parameterScope []]
      (blockBody (block.children.map attributed))
      (blockBody (resolvedStatements around [] block.children)) fun _ => True :=
    resolvedStatements_ties block.children
  rw [attributed_parts]
  exact (hbody around ⟨r, [[]]⟩ rfl (Bounds.at_ofSurroundings r _)).1.symm

/-- Expressions leave all scopes as they are. -/
theorem value_keeps_scopes (n : Node) (s : BodyState) :
    (Generating.result (attributed n).value around s).2.scopes = s.scopes := by
  have htied := Bounds.located_tied (b := .ofSurroundings around) s.scopes n.overTree_true
  have hleft := (htied.value around s rfl (Bounds.at_ofSurroundings s.references s.scopes)).2
  generalize Generating.result (attributed n).value around s = p at hleft ⊢
  obtain ⟨outcome, s'⟩ := p
  cases outcome with
  | ok v => exact hleft.2.scopes
  | error e => exact hleft.scopes

end Lowering

open Lowering

/-- The bodies of methods, constructors and initializers are what they are if every node is
generated where the scopes are open that the rules give. -/
structure BodiesResolved (around : Surroundings) : Prop where
  method : ∀ parameters block r, Generating.result (methodBody parameters block) around ⟨r, [[]]⟩ =
    Generating.result (resolvedMethodBody around parameters block) around ⟨r, [[]]⟩
  constructor : ∀ parameters block r,
    Generating.result (constructorBody parameters block) around ⟨r, [[]]⟩ =
      Generating.result (resolvedConstructorBody around parameters block) around ⟨r, [[]]⟩
  initializer : ∀ block r, Generating.result (blockBody (attributed block).parts) around ⟨r, [[]]⟩ =
    Generating.result (blockBody (resolvedStatements around [] block.children)) around ⟨r, [[]]⟩

/-- Every way of generating a node, or nodes in order, keeps the scopes outside the innermost one. -/
structure StatementsKeepOuter (n : Node) (nodes : List Node) : Prop where
  blockBody : KeepsOuter (blockBody (nodes.map attributed))
  sequence : KeepsOuter (sequence (nodes.map attributed))
  body : KeepsOuter (body (attributed n))
  statements : KeepsOuter (attributed n).statements
  statement : KeepsOuter (statement n (nodes.map attributed))
  forLoop : KeepsOuter (forLoop (nodes.map attributed))
  forEach : KeepsOuter (forEach (nodes.map attributed))
  switching : KeepsOuter (switching (nodes.map attributed))
  catchClause : KeepsOuter (catchClause (attributed n))

/-- Locals are what the rules of scopes say. -/
structure LocalsByScopes (around : Surroundings) : Prop where
  bodies : BodiesResolved around
  /-- A name means the latest declaration in the innermost scope that has one. -/
  latest : ∀ name t scopes, findLocal? name scopes = some t ↔
    ∃ inner later earlier outer, scopes = inner ++ (later ++ (name, t) :: earlier) :: outer ∧
      (∀ scope ∈ inner, ∀ e ∈ scope, e.1 ≠ name) ∧ ∀ e ∈ later, e.1 ≠ name
  /-- Behind a node of the rules only the innermost scope has changed. -/
  behind : ∀ scopes n, (resolved around scopes n).2.drop 1 = scopes.drop 1
  /-- It has changed only if the node declares locals for what follows. -/
  declares : ∀ scopes n, (resolved around scopes n).2 = scopes ∨
    n.kind ∈ [.localVarDecl, .switchCase, .forInit]
  /-- Whether it succeeds or refuses, a statement changes no scope but the innermost one. -/
  statements : ∀ n nodes, StatementsKeepOuter n nodes
  /-- Whether it succeeds or refuses, an expression changes no scope. -/
  expressions : ∀ n s, (Generating.result (attributed n).value around s).2.scopes = s.scopes

/-- The generator finds locals by the rules of scopes. In the bodies of methods, constructors and
initializers each name means what it means where the scopes are open that the rules give: the latest
declaration in the innermost scope that has one, with its type. Behind a node of the rules only the
innermost scope has changed, and only if the node declares locals for what follows. Whether it
succeeds or refuses, a statement changes no scope but the innermost one, and an expression none. -/
theorem locals_found_by_scopes (around : Surroundings) : LocalsByScopes around where
  bodies :=
    { method := methodBody_eq around
      constructor := constructorBody_eq around
      initializer := initializer_eq around }
  latest _ _ _ := findLocal?_eq_some_iff
  behind scopes n := ((Bounds.resolves_ofSurroundings around n).2 scopes).behind
  declares scopes n := by
    have hplaced := (Bounds.resolves_ofSurroundings around n).2 scopes
    refine or_iff_not_imp_right.2 fun hkind => hplaced.stays ?_
    rwa [attributed_kind]
  statements n nodes := by
    have hpart := attributed_formed n
    have hparts : Parts.Formed (nodes.map attributed) :=
      List.forall_mem_map.2 fun m _ => attributed_formed m
    exact
      { blockBody := (blockBody_formed hparts).keepsOuter
        sequence := ((Formed.mapM fun a ha => (hparts a ha).statements).bind
          fun _ => .pure _).keepsOuter
        body := (body_formed hpart).keepsOuter
        statements := hpart.statements.keepsOuter
        statement := (statement_formed hparts).keepsOuter
        forLoop := (forLoop_formed hparts).keepsOuter
        forEach := (forEach_formed hparts).keepsOuter
        switching := (switching_formed hparts).keepsOuter
        catchClause := (catchClause_formed hpart).keepsOuter }
  expressions := value_keeps_scopes around

end JavaObjC
