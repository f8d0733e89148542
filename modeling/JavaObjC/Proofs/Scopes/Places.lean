import JavaObjC.Proofs.Scopes.Locals

/-!
# Where names stand in generated code

Generated code has the scopes of the source, and around the body of a loop over
primitives one variable more, which the loop enumerates. The places of a body are
the expressions in it, each with what is open around it. Without the variables
that are enumerated these are the scopes that the rules give: the places of a
body are the expressions of the decorated tree, one for one.

A variable that is enumerated can hide another one. A name reads the innermost
variable that is spelled like it, so it reads an enumerated one exactly if it
stands in a loop that enumerates a variable of this name, and no local of the
name is declared inside of that loop.
-/

namespace JavaObjC

open Lower Lowering

/-- The variable that a loop over primitives enumerates. -/
def boxedVariable (name : Text) : Text := name ++ "Boxed"

/-- What is open around a place in generated code. -/
inductive Layer where
  /-- A scope of the source. -/
  | scope (locals : Scope)
  /-- The variable that a loop enumerates. -/
  | enumerated (name : Text)

namespace Layer

/-- The scope of the source, if it is one. -/
def scope? : Layer → Option Scope
  | .scope locals => some locals
  | .enumerated _ => none

/-- The scopes of the source among layers. -/
def scopes (layers : List Layer) : List Scope := layers.filterMap scope?

/-- The layers with a local declared in the innermost scope. -/
def declare (name : Text) (t : JavaType) : List Layer → List Layer
  | [] => [.scope [(name, t)]]
  | .scope locals :: outer => .scope ((name, t) :: locals) :: outer
  | .enumerated x :: outer => .enumerated x :: declare name t outer

/-- The layers around a body of a kind. A block opens its own scope. -/
def around (layers : List Layer) (kind : NodeKind) : List Layer :=
  if kind = .block then layers else .scope [] :: layers

/-- The layers that a loop over elements adds around its collection: its variable, if the elements
are primitives. -/
def ofLoop (variable' : Text × JavaType) : List Layer :=
  if variable'.2.isPrimitive then [.enumerated (boxedVariable variable'.1)] else []

/-- A scope is among the scopes of its layers. -/
@[simp] theorem scopes_scope (locals : Scope) (outer : List Layer) :
    scopes (.scope locals :: outer) = locals :: scopes outer := rfl

/-- A loop that enumerates adds a layer but no scope. -/
@[simp] theorem scopes_enumerated (x : Text) (outer : List Layer) :
    scopes (.enumerated x :: outer) = scopes outer := rfl

/-- The scopes of layers inside others. -/
@[simp] theorem scopes_append (inner outer : List Layer) :
    scopes (inner ++ outer) = scopes inner ++ scopes outer := List.filterMap_append

/-- The layer of an enhanced loop has no scope of its own. -/
@[simp] theorem scopes_ofLoop (variable' : Text × JavaType) : scopes (ofLoop variable') = [] := by
  unfold ofLoop
  split <;> rfl

/-- A local is declared in the innermost scope of the source. -/
@[simp] theorem scopes_declare (name : Text) (t : JavaType) (layers : List Layer) :
    scopes (declare name t layers) = declareIn name t (scopes layers) := by
  induction layers with
  | nil => rfl
  | cons layer outer ih =>
    cases layer with
    | scope locals => rfl
    | enumerated x => exact ih

/-- A body has the scopes that its kind opens. -/
@[simp] theorem scopes_around (layers : List Layer) (kind : NodeKind) :
    scopes (around layers kind) = bodyScopes (scopes layers) kind := by
  unfold around bodyScopes
  split <;> rfl

end Layer

/-- An expression, and what is open around it. -/
structure Place where
  node : Node
  layers : List Layer

namespace Place

/-- The expression with the meaning that it has at the place. -/
def located (p : Place) : Attributed := Lowering.located (Layer.scopes p.layers) p.node

end Place

namespace Attributed

mutual

/-- The expressions in a decorated tree, from the outside in. -/
def expressions : Attributed → List Attributed
  | ⟨n, meaning, parts⟩ =>
    if n.kind = .synchronizedStmt then expressionsOfLock parts
    else (if n.kind ∈ closedKinds then [] else [⟨n, meaning, parts⟩]) ++ expressionsOfAll parts

/-- The expressions in several decorated trees. -/
def expressionsOfAll : Parts → List Attributed
  | [] => []
  | a :: rest => expressions a ++ expressionsOfAll rest

/-- The expressions in a lock and the blocks behind it. -/
def expressionsOfLock : Parts → List Attributed
  | [] => []
  | lock :: rest => expressions lock ++ expressionsOfBlocks rest

/-- The expressions in what is taken for blocks. -/
def expressionsOfBlocks : Parts → List Attributed
  | [] => []
  | ⟨_, _, parts⟩ :: rest => expressionsOfAll parts ++ expressionsOfBlocks rest

end

end Attributed

namespace Lowering

/-- The places in an expression. -/
def placesIn (layers : List Layer) (n : Node) : List Place :=
  (located (Layer.scopes layers) n).expressions.map fun a => ⟨a.node, layers⟩

/-- The places in the declarators of a declaration, and the layers behind them. -/
def placesOfLocals (around : Surroundings) (declared : JavaType) (layers : List Layer) :
    List Node → List Place × List Layer
  | [] => ([], layers)
  | n :: rest =>
    let local' := declaredLocal around (Layer.scopes layers) declared (attributed n)
    let behind := if n.kind = .varDeclarator then Layer.declare local'.1 local'.2 layers else layers
    let (places, last) := placesOfLocals around declared behind rest
    (placesIn layers n ++ places, last)

mutual

/-- The places in a statement where given layers are open, and the layers behind it. -/
def places (around : Surroundings) (layers : List Layer) : Node → List Place × List Layer
  | ⟨kind, span, token, problem, children⟩ =>
    let n : Node := ⟨kind, span, token, problem, children⟩
    match kind with
    | .block =>
      ((placesInOrder around (fun _ => true) none (.scope [] :: layers) children).1, layers)
    | .localVarDecl =>
      placesOfLocals around (((children[1]?).map JavaType.ofNode).getD .unknown) layers children
    | .switchCase | .forInit => placesInOrder around (fun _ => true) none layers children
    | .ifStmt | .whileStmt | .doStmt => (placesOfBodies around layers children, layers)
    | .forStmt =>
      ((placesInOrder around (· = .forInit) (some []) (.scope [] :: layers) children).1, layers)
    | .enhancedForStmt =>
      -- the variable of the enumeration is in scope in the collection, too
      let variable' := loopLocal around (Layer.scopes layers) (children.map attributed)
      ((placesInOrder around (fun _ => false) (some [.scope [variable']])
        (Layer.ofLoop variable' ++ layers) children).1, layers)
    | .switchStmt =>
      ((placesInOrder around (· = .switchCase) none (.scope [] :: layers) children).1, layers)
    | .catchClause =>
      let parameter := caughtLocal around (Layer.scopes layers) (children.map attributed)
      ((placesInOrder around (· = .block) none (.scope [parameter] :: layers) children).1, layers)
    | .synchronizedStmt => (placesOfLock around layers children, layers)
    | .tryStmt | .finallyClause =>
      ((placesInOrder around (· ∈ [.block, .catchClause, .finallyClause]) none layers children).1,
        layers)
    | _ => (placesIn layers n, layers)

/-- The places in nodes one after the other, and the layers behind them. -/
def placesInOrder (around : Surroundings) (isStatement : NodeKind → Bool)
    (body : Option (List Layer)) (layers : List Layer) : List Node → List Place × List Layer
  | [] => ([], layers)
  | n :: rest =>
    match rest, body with
    | [], some inner => ((places around (Layer.around (inner ++ layers) n.kind) n).1, layers)
    | _, _ =>
      let (here, behind) :=
        if isStatement n.kind then places around layers n else (placesIn layers n, layers)
      let (others, last) := placesInOrder around isStatement body behind rest
      (here ++ others, last)

/-- The places in the bodies of a compound statement. -/
def placesOfBodies (around : Surroundings) (layers : List Layer) : List Node → List Place
  | [] => []
  | n :: rest =>
    (places around (Layer.around layers n.kind) n).1 ++ placesOfBodies around layers rest

/-- The places in a lock and the blocks behind it. -/
def placesOfLock (around : Surroundings) (layers : List Layer) : List Node → List Place
  | [] => []
  | lock :: rest => placesIn layers lock ++ placesOfBlocks around layers rest

/-- The places in what is taken for blocks. -/
def placesOfBlocks (around : Surroundings) (layers : List Layer) : List Node → List Place
  | [] => []
  | ⟨_, _, _, _, children⟩ :: rest =>
    (placesInOrder around (fun _ => true) none (.scope [] :: layers) children).1
      ++ placesOfBlocks around layers rest

end

end Lowering

namespace Attributed

/-- The expressions of parts, part after part. -/
theorem expressionsOfAll_eq (parts : Parts) : expressionsOfAll parts = parts.flatMap expressions := by
  induction parts with
  | nil => rfl
  | cons a rest ih => rw [expressionsOfAll, ih, List.flatMap_cons]

/-- The expressions of the parts inside blocks, block after block. -/
theorem expressionsOfBlocks_eq (parts : Parts) :
    expressionsOfBlocks parts = parts.flatMap fun a => a.parts.flatMap expressions := by
  induction parts with
  | nil => rfl
  | cons a rest ih =>
    obtain ⟨n, meaning, parts⟩ := a
    rw [expressionsOfBlocks, ih, expressionsOfAll_eq, List.flatMap_cons]
    rfl

/-- The expressions in a tree that is decorated for one place have the meaning that they have
there. -/
theorem eq_located_of_mem_expressions (scopes : List Scope) (n : Node) :
    ∀ a ∈ (located scopes n).expressions, a = located scopes a.node := by
  -- what stands in a block behind a lock is two steps below the node
  suffices h : (∀ a ∈ (located scopes n).expressions, a = located scopes a.node) ∧
      ∀ m ∈ n.children, ∀ a ∈ (located scopes m).expressions, a = located scopes a.node from h.1
  induction n using Node.induction with
  | h n ih =>
    have hchildren : ∀ m ∈ n.children, ∀ a ∈ (located scopes m).expressions,
        a = located scopes a.node := fun m hm => (ih m hm).1
    refine ⟨fun a ha => ?_, hchildren⟩
    have hparts : ∀ m ∈ n.children, (located scopes m).parts = m.children.map (located scopes) :=
      fun m _ => by rw [located, Attributed.ofNode_eq]; rfl
    have hwhole : located scopes n =
        ⟨n, locatedMeaning scopes n (n.children.map (located scopes)),
          n.children.map (located scopes)⟩ := by
      rw [located, Attributed.ofNode_eq]
      rfl
    rw [hwhole, expressions] at ha
    split at ha
    · cases hnodes : n.children with
      | nil =>
        rw [hnodes] at ha
        cases ha
      | cons lock rest =>
        rw [hnodes] at ha hchildren hparts
        rw [List.map_cons, expressionsOfLock, expressionsOfBlocks_eq, List.mem_append,
          List.mem_flatMap] at ha
        rcases ha with ha | ⟨block, hblock, ha⟩
        · exact hchildren lock List.mem_cons_self a ha
        · obtain ⟨m, hm, rfl⟩ := List.mem_map.1 hblock
          rw [hparts m (List.mem_cons_of_mem lock hm), List.flatMap_map] at ha
          obtain ⟨inner, hinner, ha⟩ := List.mem_flatMap.1 ha
          have hm' : m ∈ n.children := hnodes ▸ List.mem_cons_of_mem lock hm
          exact (ih m hm').2 inner hinner a ha
    · rw [expressionsOfAll_eq, List.flatMap_map, List.mem_append] at ha
      rcases ha with ha | ha
      · split at ha
        · cases ha
        · rw [List.mem_singleton.1 ha, hwhole]
      · obtain ⟨m, hm, ha⟩ := List.mem_flatMap.1 ha
        exact hchildren m hm a ha

end Attributed

namespace Lowering

variable {around : Surroundings} {layers : List Layer} {nodes : List Node} {n : Node}

/-- The places in an expression are the expressions of its tree. -/
theorem placesIn_located (layers : List Layer) (n : Node) :
    (placesIn layers n).map Place.located = (located (Layer.scopes layers) n).expressions := by
  rw [placesIn, List.map_map]
  refine (List.map_congr_left fun a ha => ?_).trans (List.map_id _)
  exact (Attributed.eq_located_of_mem_expressions _ n a ha).symm

/-- The places in a node are the expressions of the tree that the rules of scopes decorate, and what
is open behind it are the scopes that they give. -/
structure HasPlaces (around : Surroundings) (n : Node) : Prop where
  expressions : ∀ layers, (places around layers n).1.map Place.located =
    (resolved around (Layer.scopes layers) n).1.expressions
  behind : ∀ layers, Layer.scopes (places around layers n).2 =
    (resolved around (Layer.scopes layers) n).2

/-- A node that is no body, in front of others. -/
theorem placesInOrder_cons (isStatement : NodeKind → Bool) (body : Option (List Layer)) (n : Node)
    (h : nodes ≠ [] ∨ body = none) :
    placesInOrder around isStatement body layers (n :: nodes) =
      let here := if isStatement n.kind then places around layers n else (placesIn layers n, layers)
      let rest := placesInOrder around isStatement body here.2 nodes
      (here.1 ++ rest.1, rest.2) := by
  cases nodes with
  | nil =>
    obtain rfl := h.resolve_left (absurd rfl)
    rfl
  | cons m rest => cases body <;> rfl

/-- The places in nodes one after the other. -/
theorem placesInOrder_located (isStatement : NodeKind → Bool) (body : Option (List Layer))
    (h : ∀ n ∈ nodes, HasPlaces around n) (layers : List Layer) :
    (placesInOrder around isStatement body layers nodes).1.map Place.located =
        Attributed.expressionsOfAll (inOrder around isStatement (body.map Layer.scopes)
          (Layer.scopes layers) nodes).1 ∧
      Layer.scopes (placesInOrder around isStatement body layers nodes).2 =
        (inOrder around isStatement (body.map Layer.scopes) (Layer.scopes layers) nodes).2 := by
  induction nodes generalizing layers with
  | nil => exact ⟨rfl, rfl⟩
  | cons n rest ih =>
    rw [List.forall_mem_cons] at h
    by_cases hlast : rest ≠ [] ∨ body = none
    · have hrules : inOrder around isStatement (body.map Layer.scopes) (Layer.scopes layers)
          (n :: rest) =
          let here := if isStatement n.kind then resolved around (Layer.scopes layers) n
            else (located (Layer.scopes layers) n, Layer.scopes layers)
          let others := inOrder around isStatement (body.map Layer.scopes) here.2 rest
          (here.1 :: others.1, others.2) := by
        cases rest with
        | nil =>
          obtain rfl := hlast.resolve_left (absurd rfl)
          exact inOrder_cons n
        | cons m rest => exact inOrder_cons_cons _ n m
      rw [placesInOrder_cons isStatement body n hlast, hrules]
      dsimp only
      cases isStatement n.kind with
      | true =>
        obtain ⟨hplaces, hbehind⟩ := ih h.2 (places around layers n).2
        rw [h.1.behind] at hplaces hbehind
        simp only [if_true, List.map_append, Attributed.expressionsOfAll, hplaces, hbehind,
          h.1.expressions, and_self]
      | false =>
        obtain ⟨hplaces, hbehind⟩ := ih h.2 layers
        simp only [Bool.false_eq_true, if_false, List.map_append, Attributed.expressionsOfAll,
          hplaces, hbehind, placesIn_located, and_self]
    · rw [not_or, not_not] at hlast
      obtain ⟨rfl, hbody⟩ := hlast
      obtain ⟨inner, rfl⟩ := Option.ne_none_iff_exists'.1 hbody
      have hinner := h.1.expressions (Layer.around (inner ++ layers) n.kind)
      rw [Layer.scopes_around, Layer.scopes_append] at hinner
      exact ⟨hinner.trans (List.append_nil _).symm, rfl⟩

/-- The places in the bodies of a compound statement. -/
theorem placesOfBodies_located (h : ∀ n ∈ nodes, HasPlaces around n) (layers : List Layer) :
    (placesOfBodies around layers nodes).map Place.located =
      Attributed.expressionsOfAll (bodies around (Layer.scopes layers) nodes) := by
  induction nodes with
  | nil => rfl
  | cons n rest ih =>
    rw [List.forall_mem_cons] at h
    rw [placesOfBodies, bodies, Attributed.expressionsOfAll, List.map_append, ih h.2,
      h.1.expressions, Layer.scopes_around]

/-- The places in what is taken for blocks, whose nodes are two steps down. -/
theorem placesOfBlocks_located (h : ∀ n ∈ nodes, ∀ m ∈ n.children, HasPlaces around m)
    (layers : List Layer) :
    (placesOfBlocks around layers nodes).map Place.located =
      Attributed.expressionsOfBlocks (blocks around (Layer.scopes layers) nodes) := by
  induction nodes with
  | nil => rfl
  | cons n rest ih =>
    rw [List.forall_mem_cons] at h
    obtain ⟨kind, span, token, problem, children⟩ := n
    have hinner := (placesInOrder_located (fun _ => true) none h.1 (.scope [] :: layers)).1
    rw [placesOfBlocks, blocks, Attributed.expressionsOfBlocks, List.map_append, ih h.2, hinner]
    rfl

/-- The places in the declarators of a declaration. -/
theorem placesOfLocals_located (declared : JavaType) (layers : List Layer) :
    (placesOfLocals around declared layers nodes).1.map Place.located =
        Attributed.expressionsOfAll
          (locatedLocals around declared (Layer.scopes layers) nodes).1 ∧
      Layer.scopes (placesOfLocals around declared layers nodes).2 =
        (locatedLocals around declared (Layer.scopes layers) nodes).2 := by
  induction nodes generalizing layers with
  | nil => exact ⟨rfl, rfl⟩
  | cons n rest ih =>
    rw [placesOfLocals, locatedLocals]
    dsimp only
    split
    · next hkind =>
      obtain ⟨hplaces, hbehind⟩ := ih (Layer.declare
        (declaredLocal around (Layer.scopes layers) declared (attributed n)).1
        (declaredLocal around (Layer.scopes layers) declared (attributed n)).2 layers)
      rw [Layer.scopes_declare] at hplaces hbehind
      rw [List.map_append, Attributed.expressionsOfAll, placesIn_located, hplaces]
      exact ⟨rfl, hbehind⟩
    · obtain ⟨hplaces, hbehind⟩ := ih layers
      rw [List.map_append, Attributed.expressionsOfAll, placesIn_located, hplaces]
      exact ⟨rfl, hbehind⟩

section Kinds

/-- A node without statements below it is an expression, or has only expressions below it. -/
theorem places_open (h : n.kind ∉ closedKinds ∨ n.kind = .parameter) :
    places around layers n = (placesIn layers n, layers) := by
  obtain ⟨kind, span, token, problem, children⟩ := n
  unfold places
  dsimp only at h ⊢
  split <;> first | rfl | exact absurd h (by decide)

/-- Such a node has the places of its expressions. -/
theorem hasPlaces_open (h : n.kind ∉ closedKinds ∨ n.kind = .parameter) : HasPlaces around n := by
  have hresolved : ∀ scopes, resolved around scopes n = (located scopes n, scopes) := by
    intro scopes
    rcases h with hopen | hparameter
    · exact resolved_open hopen
    · obtain ⟨kind, span, token, problem, children⟩ := n
      obtain rfl : kind = .parameter := hparameter
      rfl
  refine ⟨fun layers => ?_, fun layers => ?_⟩
  · rw [places_open h, hresolved, placesIn_located]
  · rw [places_open h, hresolved]

/-- A node with statements below it is no expression itself, so its places are those of its parts. -/
theorem hasPlaces_closed (hkind : n.kind ∈ closedKinds) (hlock : n.kind ≠ .synchronizedStmt)
    (h : ∀ layers, ∃ meaning' parts behind,
      resolved around (Layer.scopes layers) n = (⟨n, meaning', parts⟩, behind) ∧
      (places around layers n).1.map Place.located = Attributed.expressionsOfAll parts ∧
      Layer.scopes (places around layers n).2 = behind) : HasPlaces around n := by
  refine ⟨fun layers => ?_, fun layers => ?_⟩
  all_goals
    obtain ⟨meaning', parts, behind, hresolved, hplaces, hbehind⟩ := h layers
    rw [hresolved]
  · rw [hplaces, Attributed.expressions, if_neg hlock, if_pos hkind, List.nil_append]
  · exact hbehind

variable {span : Span} {token : Option Token} {problem : Option Problem} {children : List Node}

/-- A synchronized statement has the places of its lock, and those of the block behind it. -/
theorem hasPlaces_synchronized (hinner : ∀ m ∈ children, ∀ o ∈ m.children, HasPlaces around o) :
    HasPlaces around ⟨.synchronizedStmt, span, token, problem, children⟩ := by
  refine ⟨fun layers => ?_, fun _ => rfl⟩
  cases children with
  | nil => rfl
  | cons lock rest =>
    rw [List.forall_mem_cons] at hinner
    change (placesIn layers lock ++ placesOfBlocks around layers rest).map Place.located =
      (located (Layer.scopes layers) lock).expressions ++
        Attributed.expressionsOfBlocks (blocks around (Layer.scopes layers) rest)
    rw [List.map_append, placesIn_located, placesOfBlocks_located hinner.2]

/-- A node has its places where its children have theirs, and those below the children. -/
theorem hasPlaces_of_children (h : ∀ m ∈ n.children, HasPlaces around m)
    (hinner : ∀ m ∈ n.children, ∀ o ∈ m.children, HasPlaces around o) : HasPlaces around n := by
  by_cases hopen : n.kind ∉ closedKinds
  · exact hasPlaces_open (.inl hopen)
  obtain ⟨kind, span, token, problem, children⟩ := n
  dsimp only at hopen h hinner
  rw [not_not] at hopen
  by_cases hlock : kind = .synchronizedStmt
  · subst hlock
    exact hasPlaces_synchronized hinner
  by_cases hparameter : kind = .parameter
  · exact hasPlaces_open (.inr hparameter)
  refine hasPlaces_closed hopen hlock fun layers => ?_
  cases kind with
  | parameter => exact absurd rfl hparameter
  | synchronizedStmt => exact absurd rfl hlock
  | block => exact ⟨_, _, _, rfl, (placesInOrder_located _ none h (.scope [] :: layers)).1, rfl⟩
  | localVarDecl => exact ⟨_, _, _, rfl, placesOfLocals_located _ layers⟩
  | switchCase => exact ⟨_, _, _, rfl, placesInOrder_located _ none h layers⟩
  | forInit => exact ⟨_, _, _, rfl, placesInOrder_located _ none h layers⟩
  | ifStmt => exact ⟨_, _, _, rfl, placesOfBodies_located h layers, rfl⟩
  | whileStmt => exact ⟨_, _, _, rfl, placesOfBodies_located h layers, rfl⟩
  | doStmt => exact ⟨_, _, _, rfl, placesOfBodies_located h layers, rfl⟩
  | forStmt =>
    exact ⟨_, _, _, rfl, (placesInOrder_located _ (some []) h (.scope [] :: layers)).1, rfl⟩
  | enhancedForStmt =>
    refine ⟨_, _, _, rfl, ?_, rfl⟩
    have hloop := (placesInOrder_located (fun _ => false) (some [.scope
      [loopLocal around (Layer.scopes layers) (children.map attributed)]]) h
      (Layer.ofLoop (loopLocal around (Layer.scopes layers) (children.map attributed))
        ++ layers)).1
    rw [Layer.scopes_append, Layer.scopes_ofLoop, List.nil_append] at hloop
    exact hloop
  | switchStmt => exact ⟨_, _, _, rfl, (placesInOrder_located _ none h (.scope [] :: layers)).1, rfl⟩
  | tryStmt => exact ⟨_, _, _, rfl, (placesInOrder_located _ none h layers).1, rfl⟩
  | catchClause =>
    exact ⟨_, _, _, rfl, (placesInOrder_located _ none h (.scope [_] :: layers)).1, rfl⟩
  | finallyClause => exact ⟨_, _, _, rfl, (placesInOrder_located _ none h layers).1, rfl⟩
  | _ => exact absurd hopen (by decide)

/-- Every node has its places: by induction over the tree, where a block behind a lock is two steps
down. -/
theorem hasPlaces (around : Surroundings) (n : Node) : HasPlaces around n := by
  suffices h : HasPlaces around n ∧ ∀ m ∈ n.children, HasPlaces around m from h.1
  induction n using Node.induction with
  | h n ih =>
    have hchildren : ∀ m ∈ n.children, HasPlaces around m := fun m hm => (ih m hm).1
    exact ⟨hasPlaces_of_children hchildren fun m hm => (ih m hm).2, hchildren⟩

end Kinds

section Growth

/-- The layers that open inside of given ones, where the locals have given names. -/
inductive Grows (names : Text → Prop) (layers : List Layer) : List Layer → Prop where
  | refl : Grows names layers layers
  | scope {inner : List Layer} (h : Grows names layers inner) :
    Grows names layers (.scope [] :: inner)
  | declare {inner : List Layer} {x : Text} (h : Grows names layers inner) (hx : names x)
    (t : JavaType) : Grows names layers (Layer.declare x t inner)
  | enumerated {inner : List Layer} {x : Text} (h : Grows names layers inner) (hx : names x) :
    Grows names layers (.enumerated (boxedVariable x) :: inner)

/-- The kinds of nodes that declare a local. -/
def declaringKinds : List NodeKind := [.varDeclarator, .enhancedForStmt, .catchClause]

/-- All locals that are declared in a tree have given names. -/
def DeclaresOnly (names : Text → Prop) (n : Node) : Prop :=
  ∀ m ∈ n.walk, m.kind ∈ declaringKinds → names (declaredName m)

variable {names : Text → Prop} {inner outer : List Layer}

/-- A tree that declares only some names does so below its root. -/
theorem DeclaresOnly.child {m : Node} (h : DeclaresOnly names n) (hm : m ∈ n.children) :
    DeclaresOnly names m := fun o ho => h o (Node.mem_walk_of_child hm ho)

/-- Layers that grow twice have grown. -/
theorem Grows.trans (h : Grows names layers inner) (h' : Grows names inner outer) :
    Grows names layers outer := by
  induction h' with
  | refl => exact h
  | scope _ ih => exact ih.scope
  | declare _ hx t ih => exact ih.declare hx t
  | enumerated _ hx ih => exact ih.enumerated hx

/-- A body adds at most an empty scope. -/
theorem Grows.body (h : Grows names layers inner) (kind : NodeKind) :
    Grows names layers (Layer.around inner kind) := by
  unfold Layer.around
  split
  · exact h
  · exact h.scope

/-- A scope with one local. -/
theorem Grows.local (h : Grows names layers inner) {x : Text} (hx : names x) (t : JavaType) :
    Grows names layers (.scope [(x, t)] :: inner) := h.scope.declare hx t

/-- A loop adds its variable. -/
theorem Grows.ofLoop (h : Grows names layers inner) {variable' : Text × JavaType}
    (hx : names variable'.1) : Grows names layers (Layer.ofLoop variable' ++ inner) := by
  unfold Layer.ofLoop
  split
  · exact h.enumerated hx
  · exact h

/-- What is open at the places in a node, and behind it, has opened inside of it. -/
structure GrowsIn (names : Text → Prop) (layers : List Layer) (found : List Place × List Layer) :
    Prop where
  places : ∀ p ∈ found.1, Grows names layers p.layers
  behind : Grows names layers found.2

/-- All places inside one expression have the same layers. -/
theorem placesIn_grow (h : Grows names layers inner) (n : Node) :
    ∀ p ∈ placesIn inner n, Grows names layers p.layers := by
  intro p hp
  obtain ⟨a, -, rfl⟩ := List.mem_map.1 hp
  exact h

/-- Places found before others. -/
theorem GrowsIn.append {here : List Place} {found : List Place × List Layer}
    (hhere : ∀ p ∈ here, Grows names layers p.layers) (h : GrowsIn names layers found) :
    GrowsIn names layers (here ++ found.1, found.2) :=
  ⟨List.forall_mem_append.2 ⟨hhere, h.places⟩, h.behind⟩

/-- What grows from layers that have grown has grown. -/
theorem GrowsIn.trans {found : List Place × List Layer} (h : Grows names layers inner)
    (h' : GrowsIn names inner found) : GrowsIn names layers found :=
  ⟨fun p hp => h.trans (h'.places p hp), h.trans h'.behind⟩

/-- Nodes whose places have what opens inside of them, wherever they stand. -/
def Growing (names : Text → Prop) (around : Surroundings) (n : Node) : Prop :=
  ∀ layers, GrowsIn names layers (Lowering.places around layers n)

/-- Nodes in order grow the layers one after another. -/
theorem placesInOrder_grow (isStatement : NodeKind → Bool) (body : Option (List Layer))
    (hbody : ∀ opened ∈ body, ∀ layers, Grows names layers (opened ++ layers))
    (h : ∀ n ∈ nodes, Growing names around n) (layers : List Layer) :
    GrowsIn names layers (placesInOrder around isStatement body layers nodes) := by
  induction nodes generalizing layers with
  | nil => exact ⟨List.forall_mem_nil _, .refl⟩
  | cons n rest ih =>
    rw [List.forall_mem_cons] at h
    by_cases hlast : rest ≠ [] ∨ body = none
    · rw [placesInOrder_cons isStatement body n hlast]
      dsimp only
      cases isStatement n.kind with
      | true => exact .append (h.1 layers).places (.trans (h.1 layers).behind (ih h.2 _))
      | false => exact .append (placesIn_grow .refl n) (ih h.2 layers)
    · rw [not_or, not_not] at hlast
      obtain ⟨rfl, hsome⟩ := hlast
      obtain ⟨opened, rfl⟩ := Option.ne_none_iff_exists'.1 hsome
      have hopened := (hbody opened rfl layers).body n.kind
      exact ⟨(GrowsIn.trans hopened (h.1 _)).places, .refl⟩

/-- Bodies beside each other grow from the same layers. -/
theorem placesOfBodies_grow (h : ∀ n ∈ nodes, Growing names around n) (layers : List Layer) :
    ∀ p ∈ placesOfBodies around layers nodes, Grows names layers p.layers := by
  induction nodes with
  | nil => exact List.forall_mem_nil _
  | cons n rest ih =>
    rw [List.forall_mem_cons] at h
    rw [placesOfBodies]
    refine List.forall_mem_append.2 ⟨?_, ih h.2⟩
    exact (GrowsIn.trans (Grows.refl.body n.kind) (h.1 _)).places

/-- The statements of blocks beside each other grow from the same layers. -/
theorem placesOfBlocks_grow (h : ∀ n ∈ nodes, ∀ m ∈ n.children, Growing names around m)
    (layers : List Layer) :
    ∀ p ∈ placesOfBlocks around layers nodes, Grows names layers p.layers := by
  induction nodes with
  | nil => exact List.forall_mem_nil _
  | cons n rest ih =>
    rw [List.forall_mem_cons] at h
    obtain ⟨kind, span, token, problem, children⟩ := n
    rw [placesOfBlocks]
    refine List.forall_mem_append.2 ⟨?_, ih h.2⟩
    exact (GrowsIn.trans Grows.refl.scope (placesInOrder_grow _ none (by simp) h.1 _)).places

/-- The declared name of a node is that among its attributed children. -/
theorem name_map_attributed (n : Node) :
    Parts.name (n.children.map attributed) = declaredName n := by
  rw [Parts.name, first?_map, Option.map_map, declaredName]
  congr 2
  funext m
  simp [Attributed.literal, attributed, Attributed.ofNode_node]

/-- Declarators grow the innermost scope one after another. -/
theorem placesOfLocals_grow (declared : JavaType)
    (h : ∀ n ∈ nodes, DeclaresOnly names n) (layers : List Layer) :
    GrowsIn names layers (placesOfLocals around declared layers nodes) := by
  induction nodes generalizing layers with
  | nil => exact ⟨List.forall_mem_nil _, .refl⟩
  | cons n rest ih =>
    rw [List.forall_mem_cons] at h
    rw [placesOfLocals]
    dsimp only
    refine .append (placesIn_grow .refl n) ?_
    split
    · next hkind =>
      have hname : names (declaredLocal around (Layer.scopes layers) declared (attributed n)).1 := by
        rw [declaredLocal, attributed_parts, name_map_attributed]
        exact h.1 n n.mem_walk (by simp [declaringKinds, hkind])
      exact .trans (Grows.refl.declare hname _) (ih h.2 _)
    · exact ih h.2 layers

/-- A block behind a lock is what opens inside of the whole. -/
theorem growing_synchronized
    (hinner : ∀ m ∈ n.children, ∀ o ∈ m.children, Growing names around o)
    (hkind : n.kind = .synchronizedStmt) : Growing names around n := by
  obtain ⟨kind, span, token, problem, children⟩ := n
  obtain rfl : kind = .synchronizedStmt := hkind
  dsimp only at hinner
  refine fun layers => ⟨?_, .refl⟩
  cases children with
  | nil => exact List.forall_mem_nil _
  | cons lock rest =>
    rw [List.forall_mem_cons] at hinner
    exact List.forall_mem_append.2 ⟨placesIn_grow .refl lock, placesOfBlocks_grow hinner.2 layers⟩

/-- A loop over a collection opens what it enumerates and a scope for its variable. -/
theorem growing_enhancedFor (h : ∀ m ∈ n.children, Growing names around m)
    (hown : names (declaredName n)) (hkind : n.kind = .enhancedForStmt) :
    Growing names around n := by
  obtain ⟨kind, span, token, problem, children⟩ := n
  obtain rfl : kind = .enhancedForStmt := hkind
  dsimp only at h
  intro layers
  have hname : names (loopLocal around (Layer.scopes layers) (children.map attributed)).1 := by
    have hsame := name_map_attributed ⟨.enhancedForStmt, span, token, problem, children⟩
    dsimp only at hsame
    rw [loopLocal, hsame]
    exact hown
  have hloop := placesInOrder_grow (fun _ => false)
    (some [.scope [loopLocal around (Layer.scopes layers) (children.map attributed)]])
    (by
      intro opened hopened layers
      obtain rfl := Option.some.inj hopened
      exact Grows.refl.local hname _) h
    (Layer.ofLoop (loopLocal around (Layer.scopes layers) (children.map attributed)) ++ layers)
  exact ⟨(GrowsIn.trans (Grows.refl.ofLoop hname) hloop).places, .refl⟩

/-- A catch clause opens a scope with what is caught. -/
theorem growing_catchClause (h : ∀ m ∈ n.children, Growing names around m)
    (hown : names (declaredName n)) (hkind : n.kind = .catchClause) : Growing names around n := by
  obtain ⟨kind, span, token, problem, children⟩ := n
  obtain rfl : kind = .catchClause := hkind
  dsimp only at h
  intro layers
  have hname : names (caughtLocal around (Layer.scopes layers) (children.map attributed)).1 := by
    have hsame := name_map_attributed ⟨.catchClause, span, token, problem, children⟩
    dsimp only at hsame
    rw [caughtLocal, hsame]
    exact hown
  have hblock := placesInOrder_grow (· = .block) none (by simp) h
    (.scope [caughtLocal around (Layer.scopes layers) (children.map attributed)] :: layers)
  exact ⟨(GrowsIn.trans (Grows.refl.local hname _) hblock).places, .refl⟩

/-- What opens inside of a node is what its children open, a scope, and the locals that it declares
itself. -/
theorem growing_of_children (hn : DeclaresOnly names n)
    (h : ∀ m ∈ n.children, Growing names around m)
    (hinner : ∀ m ∈ n.children, ∀ o ∈ m.children, Growing names around o) :
    Growing names around n := by
  by_cases hopen : n.kind ∉ closedKinds
  · intro layers
    rw [places_open (.inl hopen)]
    exact ⟨placesIn_grow .refl n, .refl⟩
  rw [not_not] at hopen
  have hown : n.kind ∈ declaringKinds → names (declaredName n) := hn n n.mem_walk
  have hloop := growing_enhancedFor (n := n) h
  have hcaught := growing_catchClause (n := n) h
  have hlock := growing_synchronized hinner
  obtain ⟨kind, span, token, problem, children⟩ := n
  dsimp only at hopen h hown
  cases kind with
  | synchronizedStmt => exact hlock rfl
  | enhancedForStmt => exact hloop (hown (by decide)) rfl
  | catchClause => exact hcaught (hown (by decide)) rfl
  | parameter => exact fun layers => ⟨placesIn_grow .refl _, .refl⟩
  | block =>
    exact fun layers =>
      ⟨(GrowsIn.trans Grows.refl.scope (placesInOrder_grow _ none (by simp) h _)).places, .refl⟩
  | localVarDecl => exact placesOfLocals_grow _ (fun m hm => hn.child hm)
  | switchCase => exact placesInOrder_grow _ none (by simp) h
  | forInit => exact placesInOrder_grow _ none (by simp) h
  | ifStmt => exact fun layers => ⟨placesOfBodies_grow h layers, .refl⟩
  | whileStmt => exact fun layers => ⟨placesOfBodies_grow h layers, .refl⟩
  | doStmt => exact fun layers => ⟨placesOfBodies_grow h layers, .refl⟩
  | forStmt =>
    intro layers
    have hclauses := placesInOrder_grow (· = .forInit) (some []) (by simp [Grows.refl]) h
      (.scope [] :: layers)
    exact ⟨(GrowsIn.trans Grows.refl.scope hclauses).places, .refl⟩
  | switchStmt =>
    exact fun layers =>
      ⟨(GrowsIn.trans Grows.refl.scope (placesInOrder_grow _ none (by simp) h _)).places, .refl⟩
  | tryStmt => exact fun layers => ⟨(placesInOrder_grow _ none (by simp) h layers).places, .refl⟩
  | finallyClause =>
    exact fun layers => ⟨(placesInOrder_grow _ none (by simp) h layers).places, .refl⟩
  | _ => exact absurd hopen (by decide)

/-- What opens inside of a node are scopes, the locals that are declared in it, and the variables that
are named for them: by induction over the tree, where a block behind a lock is two steps down. -/
theorem places_grow (hn : DeclaresOnly names n) : Growing names around n := by
  suffices h : Growing names around n ∧ ∀ m ∈ n.children, Growing names around m from h.1
  induction n using Node.induction with
  | h n ih =>
    have hchildren : ∀ m ∈ n.children, Growing names around m :=
      fun m hm => (ih m hm (hn.child hm)).1
    exact ⟨growing_of_children hn hchildren fun m hm => (ih m hm (hn.child hm)).2, hchildren⟩

/-- A local is declared in front of what is open around the innermost scope. -/
theorem declare_append (x : Text) (t : JavaType) (front : List Layer) (locals : Scope) :
    ∃ front' locals', Layer.declare x t (front ++ .scope locals :: outer) =
      front' ++ .scope locals' :: outer := by
  induction front with
  | nil => exact ⟨[], (x, t) :: locals, rfl⟩
  | cons layer rest ih =>
    cases layer with
    | scope locals' => exact ⟨.scope ((x, t) :: locals') :: rest, locals, rfl⟩
    | enumerated y =>
      obtain ⟨front', locals', heq⟩ := ih
      exact ⟨.enumerated y :: front', locals', congrArg (Layer.enumerated y :: ·) heq⟩

/-- What opens inside of a scope leaves what is open around the scope as it is. -/
theorem Grows.exists_append {locals : Scope} (h : Grows names (.scope locals :: outer) inner) :
    ∃ front locals', inner = front ++ .scope locals' :: outer := by
  induction h with
  | refl => exact ⟨[], locals, rfl⟩
  | scope _ ih =>
    obtain ⟨front, locals', rfl⟩ := ih
    exact ⟨.scope [] :: front, locals', rfl⟩
  | declare _ _ t ih =>
    obtain ⟨front, locals', rfl⟩ := ih
    exact declare_append _ t front locals'
  | enumerated _ _ ih =>
    obtain ⟨front, locals', rfl⟩ := ih
    exact ⟨.enumerated _ :: front, locals', rfl⟩

/-- The places in the head and the body of a loop that opens a scope for its body. -/
theorem exists_append_of_mem_head {locals : Scope} {p : Place}
    (hp : p ∈ (placesInOrder around (fun _ => false) (some [.scope locals]) layers nodes).1) :
    ∃ front, p.layers = front ++ layers := by
  induction nodes with
  | nil => cases hp
  | cons n rest ih =>
    by_cases hlast : rest ≠ [] ∨ (some [Layer.scope locals]) = none
    · rw [placesInOrder_cons _ _ n hlast] at hp
      simp only [Bool.false_eq_true, if_false] at hp
      rcases List.mem_append.1 hp with hhere | hrest
      · obtain ⟨a, -, rfl⟩ := List.mem_map.1 hhere
        exact ⟨[], rfl⟩
      · exact ih hrest
    · rw [not_or, not_not] at hlast
      obtain ⟨rfl, -⟩ := hlast
      have hgrows : Grows (fun _ => True) (.scope locals :: layers) p.layers :=
        (GrowsIn.trans (Grows.refl.body n.kind) (places_grow (fun _ _ _ => trivial) _)).places p hp
      obtain ⟨front, locals', heq⟩ := hgrows.exists_append
      exact ⟨front ++ [.scope locals'], by rw [heq, List.append_assoc]; rfl⟩

/-- Every place in a loop over elements stands inside of the variable that the loop enumerates. -/
theorem exists_append_of_mem_loop (hkind : n.kind = .enhancedForStmt) {p : Place}
    (hp : p ∈ (places around layers n).1) : ∃ front, p.layers = front ++ (Layer.ofLoop
      (loopLocal around (Layer.scopes layers) (n.children.map attributed)) ++ layers) := by
  obtain ⟨kind, span, token, problem, children⟩ := n
  obtain rfl : kind = .enhancedForStmt := hkind
  exact exists_append_of_mem_head hp

end Growth

end Lowering

end JavaObjC
