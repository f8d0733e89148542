import JavaObjC.Proofs.Scopes.Rules
import JavaObjC.Proofs.Typing.Expressions
import JavaObjC.Proofs.Lowering.Recording

/-!
# Statements and their scopes

Every function that generates a statement does the same on a tree and on the
tree that the rules of scopes decorate. An expression leaves the open scopes as
they are; a statement leaves those that the rules give behind it. A refusal can
leave more locals in the innermost scope, but nothing else: so each scope that a
compound statement opens is closed behind it in any case.
-/

namespace JavaObjC

open Generating Lower Lowering

namespace Bounds

variable (b : Bounds) (env : List Scope) {after mid : List Scope} {α β : Type} {P : α → Prop}
  {Q : β → Prop}

/-- States whose open scopes differ from given ones in the innermost one at most. -/
structure Within (s : BodyState) : Prop where
  scopes : s.scopes.drop 1 = env.drop 1
  kept : b.kept s.references

/-- Two actions do the same where given scopes are open, and leave the scopes that are given behind
them. A refusal leaves all but the innermost one as they are. -/
abbrev Moves (after : List Scope) (x y : Lower α) (P : α → Prop) : Prop :=
  Coincide b.around (b.At env) (b.At after) (b.Within env) x y P

variable {b env}

theorem At.within {s : BodyState} (h : b.At env s) : b.Within env s := ⟨by rw [h.scopes], h.kept⟩

/-- An action that keeps the scopes moves from them to themselves. -/
theorem Ties.moves {x y : Lower α} (h : b.Ties env x y P) : b.Moves env env x y P := by
  intro around s haround hs
  obtain ⟨hsame, hleft⟩ := h around s haround hs
  refine ⟨hsame, ?_⟩
  generalize Generating.result x around s = p at hleft ⊢
  obtain ⟨outcome, s'⟩ := p
  cases outcome with
  | ok a => exact hleft
  | error e => exact hleft.within

namespace Moves

/-- A refusal moves nowhere. -/
theorem refused {r : Refusal} :
    b.Moves env after (throw r : Lower α) (throw r) P := fun _ _ _ hs => ⟨rfl, hs.within⟩

/-- Two moves in a row, the first of which changes the innermost scope only. -/
theorem bind {x y : Lower α} {f g : α → Lower β} (hx : b.Moves env mid x y P)
    (hmid : mid.drop 1 = env.drop 1) (hf : ∀ a, P a → b.Moves mid after (f a) (g a) Q) :
    b.Moves env after (x >>= f) (y >>= g) Q := by
  refine Coincide.bind hx fun a ha around s haround hs => ?_
  obtain ⟨hsame, hleft⟩ := hf a ha around s haround hs
  refine ⟨hsame, ?_⟩
  generalize Generating.result (f a) around s = p at hleft ⊢
  obtain ⟨outcome, s'⟩ := p
  cases outcome with
  | ok a => exact hleft
  | error e => exact ⟨hleft.scopes.trans hmid, hleft.kept⟩

end Moves

/-- An action in a scope of its own leaves the open scopes as they are. -/
theorem withScope_ties {x y : Lower α} (h : b.Moves ([] :: env) after x y P)
    (hafter : after.drop 1 = env) : b.Ties env (withScope x) (withScope y) P := by
  intro around s haround hs
  have hinner : b.At ([] :: env) { s with scopes := [] :: s.scopes } :=
    ⟨by rw [hs.scopes], List.forall_mem_cons.2 ⟨nofun, hs.known⟩, hs.kept⟩
  obtain ⟨hsame, hleft⟩ := h around _ haround hinner
  have hresult : ∀ z : Lower α, Generating.result (withScope z) around s =
      (fun p : Except Refusal α × BodyState =>
        (p.1, { p.2 with scopes := p.2.scopes.drop 1 }))
        (Generating.result z around { s with scopes := [] :: s.scopes }) := fun _ => rfl
  rw [hresult, hresult, hsame]
  refine ⟨rfl, ?_⟩
  generalize Generating.result x around { s with scopes := [] :: s.scopes } = p at hleft ⊢
  obtain ⟨outcome, s'⟩ := p
  cases outcome with
  | ok a => exact ⟨hleft.1, by simp [hleft.2.scopes, hafter], hs.known, hleft.2.kept⟩
  | error e => exact ⟨by simpa using hleft.scopes, hs.known, hleft.kept⟩

/-- A declaration goes to the innermost scope. -/
theorem drop_declareIn (name : Text) (t : JavaType) (scopes : List Scope) :
    (declareIn name t scopes).drop 1 = scopes.drop 1 := by
  cases scopes <;> rfl

/-- Declaring a local moves to the scopes with it. -/
theorem declareLocal_moves {t : JavaType} (ht : t.Known b.names) (name : Text) :
    b.Moves env (declareIn name t env) (declareLocal name t) (declareLocal name t)
      fun _ => True := by
  intro around s haround hs
  refine ⟨rfl, trivial, by rw [← hs.scopes], ?_, hs.kept⟩
  have hknown := hs.known
  cases env with
  | nil => simpa [declareIn] using ht
  | cons scope outer =>
    rw [List.forall_mem_cons] at hknown
    exact List.forall_mem_cons.2 ⟨List.forall_mem_cons.2 ⟨ht, hknown.1⟩, hknown.2⟩

/-- A name that stands alone does the same if the open scopes are given. -/
theorem identifierIn_ties (env : List Scope) {name : Text} (hname : b.literals name) :
    b.Ties env (identifier name) (identifierIn env name) (Value.Over b.names) := by
  intro around s haround hs
  have hsame : Generating.result (identifierIn env name) around s =
      Generating.result (identifier name) around s := by
    have hfound : Generating.result (Lower.localType? name) around s =
        (.ok (findLocal? name env), s) := by rw [← hs.scopes]; rfl
    rw [identifier, bind_result, hfound]
    unfold identifierIn
    cases findLocal? name env <;> rfl
  rw [hsame]
  exact identifier_ties hname around s haround hs

/-- What an action gives depends on the surroundings and the open scopes only. -/
theorem Ties.given {around : Surroundings} (haround : ∀ a, b.around a → a = around)
    {x y : Lower α} (h : b.Ties env x y P) (hx : x.Formed) :
    b.Ties env x y fun a => P a ∧ given? around env x = some a := by
  intro other s hother hs
  obtain rfl := haround other hother
  obtain ⟨hsame, hleft⟩ := h other s hother hs
  refine ⟨hsame, ?_⟩
  obtain ⟨outcome, noted, left, hrecords⟩ := hx.records other env
  have hresult : Generating.result x other s =
      (outcome, ⟨s.references.addAll other.ownName noted, left⟩) := by
    rw [← hrecords.result_eq, ← hs.scopes]
  have hgiven : given? other env x = outcome.toOption :=
    congrArg (fun p : Except Refusal α × BodyState => p.1.toOption) (hrecords.result_eq {})
  rw [hresult] at hleft ⊢
  cases outcome with
  | ok a => exact ⟨⟨hleft.1, hgiven⟩, hleft.2⟩
  | error e => exact hleft

/-- What a parent may ask of a statement where given scopes are open, and those behind it. -/
structure Placed (b : Bounds) (env after : List Scope) (a a' : Attributed) : Prop where
  behind : after.drop 1 = env.drop 1
  /-- As an expression, which it need not be. -/
  tied : b.Tied env a a'
  value : b.Moves env after a.value a'.value fun _ => True
  statements : b.Moves env after a.statements a'.statements fun _ => True
  /-- Only some statements change the scopes. -/
  stays : a.kind ∉ [.localVarDecl, .switchCase, .forInit] → after = env
  block : a.kind = .block →
    b.Ties env (blockBody a.parts) (blockBody a'.parts) fun _ => True := by intro h; cases h
  locals : a.kind = .localVarDecl →
    b.Moves env after (localVariables a.parts) (localVariables a'.parts) fun _ => True := by
      intro h; cases h
  start : a.kind = .forInit →
    b.Moves env after (a.parts.mapM loopStart) (a'.parts.mapM loopStart) fun _ => True := by
      intro h; cases h
  group : a.kind = .switchCase →
    b.Moves env after (switchGroup a) (switchGroup a') fun _ => True := by intro h; cases h
  catching : a.kind = .catchClause →
    b.Ties env (catchClause a) (catchClause a') fun _ => True := by intro h; cases h
  final : a.kind = .finallyClause →
    Option.Rel (fun c c' => b.Ties env (blockBody c.parts) (blockBody c'.parts) fun _ => True)
      (a.parts.first? .block) (a'.parts.first? .block) := by intro h; cases h

/-- Parts one after the other. Those of some kinds are statements, each of which starts where the
one before it ends; the others are expressions. -/
inductive Threaded (b : Bounds) (isStatement : NodeKind → Bool) :
    List Scope → Parts → Parts → List Scope → Prop where
  | nil (env : List Scope) : Threaded b isStatement env [] [] env
  | statement {env mid after : List Scope} {a a' : Attributed} {parts parts' : Parts}
    (hkind : isStatement a.kind = true) (here : b.Placed env mid a a')
    (rest : Threaded b isStatement mid parts parts' after) :
    Threaded b isStatement env (a :: parts) (a' :: parts') after
  | expression {env after : List Scope} {a a' : Attributed} {parts parts' : Parts}
    (hkind : isStatement a.kind = false) (here : b.Tied env a a')
    (rest : Threaded b isStatement env parts parts' after) :
    Threaded b isStatement env (a :: parts) (a' :: parts') after

/-- A part that is tied, and a statement if it is of some kinds. -/
structure Settled (b : Bounds) (isStatement : NodeKind → Bool) (env : List Scope)
    (a a' : Attributed) : Prop where
  tied : b.Tied env a a'
  placed : isStatement a.kind = true → b.Placed env env a a'

/-- A part that is tied, also as a body. -/
structure Embodied (b : Bounds) (env : List Scope) (a a' : Attributed) : Prop where
  tied : b.Tied env a a'
  body : b.Ties env (body a) (body a') fun _ => True

variable {b : Bounds} {env after mid : List Scope} {a a' : Attributed} {parts parts' : Parts}
  {n : Node} {α β : Type} {isStatement : NodeKind → Bool}

namespace Threaded

/-- Parts that are threaded change the innermost scope only. -/
theorem behind (h : b.Threaded isStatement env parts parts' after) :
    after.drop 1 = env.drop 1 := by
  induction h with
  | nil => rfl
  | statement _ here _ ih => exact ih.trans here.behind
  | expression _ _ _ ih => exact ih

/-- Statements in a row, each at the scopes that the one before left. -/
theorem mapM (h : b.Threaded isStatement env parts parts' after) {f : Attributed → Lower α}
    (hall : ∀ a ∈ parts, isStatement a.kind = true)
    (hf : ∀ {env mid a a'}, isStatement a.kind = true → b.Placed env mid a a' →
      b.Moves env mid (f a) (f a') fun _ => True) :
    b.Moves env after (parts.mapM f) (parts'.mapM f) fun _ => True := by
  induction h with
  | nil => exact .pure trivial
  | statement hkind here rest ih =>
    rw [List.forall_mem_cons] at hall
    rw [List.mapM_cons, List.mapM_cons]
    exact (hf hkind here).bind here.behind fun _ _ =>
      (ih hall.2).bind rest.behind fun _ _ => .pure trivial
  | expression hkind =>
    rw [List.forall_mem_cons, hkind] at hall
    cases hall.1

/-- Clauses in a row: declarations move the scopes, expressions keep them. -/
theorem foldlM (h : b.Threaded isStatement env parts parts' after) {f : β → Attributed → Lower β}
    (hstatement : ∀ {s env mid a a'}, isStatement a.kind = true → b.Placed env mid a a' →
      b.Moves env mid (f s a) (f s a') fun _ => True)
    (hexpression : ∀ {s env a a'}, isStatement a.kind = false → b.Tied env a a' →
      b.Ties env (f s a) (f s a') fun _ => True) (s : β) :
    b.Moves env after (parts.foldlM f s) (parts'.foldlM f s) fun _ => True := by
  induction h generalizing s with
  | nil => exact .pure trivial
  | statement hkind here _ ih =>
    rw [List.foldlM_cons, List.foldlM_cons]
    exact (hstatement hkind here).bind here.behind fun s _ => ih s
  | expression hkind here _ ih =>
    rw [List.foldlM_cons, List.foldlM_cons]
    exact (hexpression hkind here).moves.bind rfl fun s _ => ih s

/-- Those parts of a kind that are statements. -/
theorem ofKind {kind : NodeKind} (h : b.Threaded (· = kind) env parts parts' after) :
    b.Threaded (· = kind) env (parts.ofKind kind) (parts'.ofKind kind) after := by
  induction h with
  | nil => exact .nil _
  | statement hkind here _ ih =>
    rw [Parts.ofKind, Parts.ofKind, List.filter_cons_of_pos (by exact hkind),
      List.filter_cons_of_pos (by rwa [here.tied.kind_eq])]
    exact .statement hkind here ih
  | expression hkind here _ ih =>
    rw [Parts.ofKind, Parts.ofKind, List.filter_cons_of_neg (by simpa using hkind),
      List.filter_cons_of_neg (by rw [here.kind_eq]; simpa using hkind)]
    exact ih

/-- Statements that do not change the scopes leave them as they are. -/
theorem stays (h : b.Threaded isStatement env parts parts' after)
    (hstays : ∀ kind, isStatement kind = true → kind ∉ [.localVarDecl, .switchCase, .forInit]) :
    after = env := by
  induction h with
  | nil => rfl
  | statement hkind here _ ih => exact ih.trans (here.stays (hstays _ hkind))
  | expression _ _ _ ih => exact ih

/-- Such statements all start where the first one does. -/
theorem settled (h : b.Threaded isStatement env parts parts' after)
    (hstays : ∀ kind, isStatement kind = true → kind ∉ [.localVarDecl, .switchCase, .forInit]) :
    List.Forall₂ (b.Settled isStatement env) parts parts' := by
  induction h with
  | nil => exact .nil
  | statement hkind here _ ih =>
    obtain rfl := here.stays (hstays _ hkind)
    exact .cons ⟨here.tied, fun _ => here⟩ ih
  | expression hkind here _ ih =>
    exact .cons ⟨here, fun h => absurd h (by rw [hkind]; decide)⟩ ih

end Threaded

section Blocks

/-- Statements in a scope of their own. -/
theorem blockBody_ties (h : b.Threaded (fun _ => true) ([] :: env) parts parts' after) :
    b.Ties env (blockBody parts) (blockBody parts') fun _ => True :=
  withScope_ties ((h.mapM (fun _ _ => rfl) fun _ h => h.statements).bind h.behind fun _ _ =>
    .pure trivial) h.behind

/-- The body of a compound statement, where a block opens its own scope. -/
theorem body_ties (h : b.Placed (bodyScopes env a.kind) after a a') :
    b.Ties env (body a) (body a') fun _ => True := by
  unfold body
  rw [h.tied.kind_eq]
  unfold bodyScopes at h
  refine .ite (fun hkind => ?_) fun hkind => ?_
  · rw [if_pos hkind] at h
    exact (h.block hkind).bind fun _ _ => .pure trivial
  · rw [if_neg hkind] at h
    refine (withScope_ties h.statements h.behind).bind fun several _ => ?_
    split <;> exact .pure trivial

/-- The first block among parts that are settled. -/
theorem block_rel (h : List.Forall₂ (b.Settled isStatement env) parts parts')
    (hblock : isStatement .block = true) :
    Option.Rel (fun c c' => b.Ties env (blockBody c.parts) (blockBody c'.parts) fun _ => True)
      (parts.first? .block) (parts'.first? .block) := by
  have hfirst := rel_find? h (p := fun c => decide (c.kind = .block))
    (q := fun c => decide (c.kind = .block)) fun hab => by rw [hab.tied.kind_eq]
  have hfound : ∀ c ∈ parts.first? .block, c.kind = .block :=
    fun c hc => by simpa using List.find?_some hc
  change Option.Rel _ (parts.first? .block) (parts'.first? .block) at hfirst
  generalize parts.first? .block = o at hfirst hfound ⊢
  generalize parts'.first? .block = o' at hfirst ⊢
  cases hfirst with
  | none => exact .none
  | some hab => exact .some ((hab.placed (by rw [hfound _ rfl, hblock])).block (hfound _ rfl))

end Blocks

section Expressions

/-- An expression does the same if the open scopes are given where it stands. -/
theorem located_tied (env : List Scope) (hn : n.OverTree b.literals b.names) :
    b.Tied env (attributed n) (located env n) := by
  refine b.tied_ofNode (fun {n parts parts'} hover hnodes hparts => ?_) n hn
  have htied := b.meaning_tied hover hnodes hparts
  unfold locatedMeaning
  dsimp only
  split
  · next hkind =>
    have hvalue := identifierIn_ties env (hover.literal hkind)
    have hidentifier : ∀ parts, expression n parts = identifier n.literal :=
      fun _ => by rw [expression, hkind]
    refine ⟨?_, ?_, htied.array⟩
    · rw [meaning, hidentifier]
      exact hvalue
    · rw [meaning, leftOperands, hkind, hidentifier]
      exact hvalue.bind fun v hv => .pure (List.forall_mem_singleton.2 hv)
  · exact htied

end Expressions

section Locals

variable {t : JavaType}

/-- The text of the type of a local depends on the type only. -/
theorem localTypeText_ties (ht : t.Known b.names) :
    b.Ties env (localTypeText t) (localTypeText t) fun _ => True := by
  refine .ite (fun _ => .pure trivial) fun hwritten => ?_
  rcases ht with rfl | ht
  · exact absurd (by decide) hwritten
  · exact (mapType_ties ht).bind fun _ _ => .pure trivial

/-- A local is declared behind its written type. -/
theorem declaration_moves (ht : t.Known b.names) (name : Text) (f : Text → β) :
    b.Moves env (declareIn name t env)
      (do let text ← localTypeText t; declareLocal name t; return f text)
      (do let text ← localTypeText t; declareLocal name t; return f text) fun _ => True :=
  (Ties.moves (localTypeText_ties ht)).bind rfl fun _ _ =>
    (declareLocal_moves ht name).bind (drop_declareIn _ _ _) fun _ _ => .pure trivial

/-- A declarator declares its local behind the initial value. -/
theorem localVariable_moves {around : Surroundings} (haround : ∀ a, b.around a → a = around)
    (ht : t.Over b.names) (h : b.Tied env a a') (ha : a.Formed) (hkind : a.kind = .varDeclarator) :
    b.Moves env
      (declareIn (declaredLocal around env t a).1 (declaredLocal around env t a).2 env)
      (localVariable t a) (localVariable t a') fun _ => True := by
  have hparts := h.inner (by rw [hkind]; decide)
  have hstart := rel_getElem? hparts 1
  have hformed : ∀ part ∈ a.parts[1]?, part.Formed :=
    fun part hpart => ha.parts part (List.mem_of_getElem? hpart)
  unfold localVariable declaredLocal
  rw [hparts.name_eq]
  generalize a.parts[1]? = o at hstart hformed ⊢
  generalize a'.parts[1]? = o' at hstart ⊢
  cases hstart with
  | none => exact declaration_moves ht.known _ _
  | some hpart =>
    have hvalue := (initialValue_ties hpart ht).given haround
      (initialValue_formed (hformed _ rfl) t)
    refine (Ties.moves (hvalue.map (f := some) (Q := fun start => ∃ v : Value, start = some v ∧
      v.Over b.names ∧ given? around env (initialValue _ t) = some v)
      fun v hv => ⟨v, rfl, hv⟩)).bind rfl ?_
    rintro _ ⟨v, rfl, hv, hgiven⟩
    have htype := congrArg (fun o => (o.map Value.type).getD .unknown) hgiven
    dsimp only [typeIn]
    rw [htype]
    refine declaration_moves ?_ _ _
    split
    · exact hv.type
    · exact ht.known

/-- Locals are declared in the innermost scope. -/
theorem drop_locatedLocals (around : Surroundings) (t : JavaType) (env : List Scope)
    (nodes : List Node) :
    (locatedLocals around t env nodes).2.drop 1 = env.drop 1 := by
  induction nodes generalizing env with
  | nil => rfl
  | cons n rest ih =>
    unfold locatedLocals
    dsimp only
    rw [ih]
    split
    · exact drop_declareIn _ _ _
    · rfl

/-- Declarators declare their locals one after the other. -/
theorem locals_move {around : Surroundings} (haround : ∀ a, b.around a → a = around)
    (ht : t.Over b.names) {nodes : List Node} (hnodes : ∀ n ∈ nodes, n.OverTree b.literals b.names) :
    b.Moves env (locatedLocals around t env nodes).2
      ((Parts.ofKind (nodes.map attributed) .varDeclarator).mapM (localVariable t))
      (((locatedLocals around t env nodes).1.ofKind .varDeclarator).mapM (localVariable t))
      fun _ => True := by
  induction nodes generalizing env with
  | nil => exact .pure trivial
  | cons n rest ih =>
    rw [List.forall_mem_cons] at hnodes
    have htied := located_tied env hnodes.1
    have hkind : (located env n).kind = n.kind := htied.kind_eq.trans (attributed_kind n)
    unfold locatedLocals Parts.ofKind
    dsimp only
    rw [List.map_cons, List.filter_cons, List.filter_cons, attributed_kind, hkind]
    by_cases hdeclarator : n.kind = .varDeclarator
    · rw [if_pos hdeclarator, if_pos (by simpa using hdeclarator),
        if_pos (by simpa using hdeclarator), List.mapM_cons, List.mapM_cons]
      refine (localVariable_moves haround ht htied (attributed_formed n)
        (by rwa [attributed_kind])).bind (drop_declareIn _ _ _) fun _ _ => ?_
      exact (ih hnodes.2).bind (drop_locatedLocals _ _ _ _) fun _ _ => .pure trivial
    · rw [if_neg hdeclarator, if_neg (by simpa using hdeclarator),
        if_neg (by simpa using hdeclarator)]
      exact ih hnodes.2

end Locals

section Loops

/-- An expression or a declaration in the first clause of a loop. -/
theorem loopStart_moves (h : b.Placed env after a a') :
    b.Moves env after (loopStart a) (loopStart a') fun _ => True := by
  unfold loopStart
  rw [h.tied.kind_eq]
  refine .ite (fun hkind => ?_) fun _ => ?_
  · exact (h.locals hkind).bind h.behind fun _ _ => .pure trivial
  · exact h.value.bind h.behind fun _ _ => .pure trivial

/-- A condition keeps the scopes. -/
theorem condition_ties (h : b.Tied env a a') :
    b.Ties env (condition a) (condition a') fun _ => True :=
  h.value.bind fun _ _ => .pure trivial

/-- The clauses of a loop, of which the first one may declare locals. -/
theorem loopClauses_move (h : b.Threaded (· = .forInit) env parts parts' after)
    (clauses : LoopClauses) :
    b.Moves env after (parts.foldlM loopClause clauses) (parts'.foldlM loopClause clauses)
      fun _ => True := by
  refine h.foldlM (fun {s env mid a a'} hkind hplaced => ?_) (fun {s env a a'} hkind htied => ?_) _
  · have hkind : a.kind = .forInit := by simpa using hkind
    unfold loopClause
    rw [hplaced.tied.kind_eq, hkind]
    exact (hplaced.start hkind).bind hplaced.behind fun _ _ => .pure trivial
  · unfold loopClause
    rw [htied.kind_eq]
    split
    · next hinit => simp [hinit] at hkind
    · next hupdate =>
      have hparts := htied.inner (by rw [hupdate]; decide)
      exact (Coincide.mapM (P := fun _ => True) hparts fun _ _ h =>
        h.value.mono fun _ _ => trivial).bind fun _ _ => .pure trivial
    · exact (condition_ties htied).bind fun _ _ => .pure trivial

/-- The scope of a loop holds its head and its body and is left with it. -/
theorem forLoop_ties (h : b.Threaded (· = .forInit) ([] :: env) parts parts' after)
    (hbody : b.Ties after (body a) (body a') fun _ => True) :
    b.Ties env (forLoop (parts ++ [a])) (forLoop (parts' ++ [a'])) fun _ => True := by
  unfold forLoop Parts.lastChild
  rw [List.dropLast_concat, List.dropLast_concat, List.getLast?_concat, List.getLast?_concat]
  refine withScope_ties ((loopClauses_move h {}).bind h.behind fun _ _ => ?_) h.behind
  exact hbody.moves.bind rfl fun _ _ => .pure trivial

/-- The element type of a known type is known. -/
theorem known_elementOf {t : JavaType} (ht : t.Known b.names) : (elementOf t).Over b.names := by
  unfold elementOf
  rcases ht with rfl | ht
  · exact b.vocabulary.object
  · split
    · exact ht.with_depth _
    · cases hfound : t.arguments.head? with
      | none => exact b.vocabulary.object
      | some argument => exact ht.arguments argument (List.mem_of_mem_head? hfound)

/-- The type in the head of a loop is read from its node. -/
theorem loopType_eq (h : SameNodes parts parts') : loopType parts' = loopType parts := by
  have hfound := h.find? fun k => k = .type || k = .arrayType
  unfold loopType
  generalize List.find? _ parts = o at hfound ⊢
  generalize List.find? _ parts' = o' at hfound ⊢
  cases hfound with
  | none => rfl
  | some hab => simp [Attributed.type, hab]

/-- The type in the head of a loop is over the vocabulary. -/
theorem over_loopType (h : ∀ a ∈ parts, a.kind = .type ∨ a.kind = .arrayType → a.type.Over b.names) :
    (loopType parts).Over b.names := by
  unfold loopType
  cases hfound : List.find? (fun p => p.kind = .type || p.kind = .arrayType) parts with
  | none => exact b.vocabulary.over_of_mem (by decide)
  | some a =>
    have hkind : a.kind = .type ∨ a.kind = .arrayType := by simpa using List.find?_some hfound
    exact h a (List.mem_of_find?_eq_some hfound) hkind

/-- A loop over the elements of a collection, whose variable is in scope in the body only. -/
theorem forEach_ties {around : Surroundings} (haround : ∀ a, b.around a → a = around)
    (hnodes : SameNodes (parts ++ [a]) (parts' ++ [a']))
    (hover : ∀ part ∈ parts ++ [a],
      part.kind = .type ∨ part.kind = .arrayType → part.type.Over b.names)
    (h : b.PartsTied env parts parts') (hparts : parts.Formed)
    (hbody : b.Ties ([loopLocal around env (parts ++ [a])] :: env) (body a) (body a')
      fun _ => True) :
    b.Ties env (forEach (parts ++ [a])) (forEach (parts' ++ [a'])) fun _ => True := by
  have hwritten := over_loopType hover
  have hlast := rel_getLast? h
  have hformed : ∀ part ∈ parts.getLast?, part.Formed :=
    fun part hpart => hparts part (List.mem_of_getLast? hpart)
  unfold forEach Parts.lastChild
  dsimp only
  rw [hnodes.name_eq, loopType_eq hnodes]
  unfold loopLocal at hbody
  rw [List.getLast?_concat, List.getLast?_concat]
  simp only [List.dropLast_concat] at hbody ⊢
  generalize parts.getLast? = o at hlast hformed hbody ⊢
  generalize parts'.getLast? = o' at hlast ⊢
  cases hlast with
  | none => exact .refused (r := .malformed)
  | some hcollection =>
    refine (Ties.given haround hcollection.value (hformed _ rfl).value).bind fun v hv => ?_
    have htype := congrArg (fun o => (o.map Value.type).getD .unknown) hv.2
    simp only [Option.map_some, Option.getD_some, typeIn, htype] at hbody
    have helement : (if (loopType (parts ++ [a])).isVar then elementOf v.type
        else loopType (parts ++ [a])).Over b.names := by
      split
      · exact known_elementOf hv.1.type
      · exact hwritten
    refine withScope_ties ((declareLocal_moves helement.known _).bind rfl fun _ _ =>
      (Ties.moves hbody).bind rfl fun inner _ => Ties.moves ?_) rfl
    refine .ite (fun _ => ?_) fun _ => (mapType_ties helement).bind fun _ _ => .pure trivial
    exact (mapType_ties helement).bind fun _ _ =>
      (refer_ties fun ha hr => b.used ha (by simp) hr).bind fun _ _ => .pure trivial

end Loops

section Switches

/-- A label keeps the scopes. -/
theorem switchLabel_ties (h : b.Tied env a a') :
    b.Ties env (switchLabel a) (switchLabel a') fun _ => True :=
  h.value.bind fun _ _ => .ite (fun _ => h.refuse _) fun _ => .pure trivial

/-- The groups of a switch hand on the locals that they declare. -/
theorem switchGroup_moves (h : b.Threaded (fun _ => true) env a.parts a'.parts after) :
    b.Moves env after (switchGroup a) (switchGroup a') fun _ => True := by
  refine (h.foldlM (fun {s env mid a a'} _ hplaced => ?_) (fun h => by cases h) _).bind h.behind
    fun _ _ => .pure trivial
  unfold switchPart
  rw [hplaced.tied.kind_eq]
  refine .ite (fun hkind => ?_) fun _ => ?_
  · obtain rfl := hplaced.stays (by rw [hkind]; decide)
    have hparts := hplaced.tied.inner (by rw [hkind]; decide)
    refine Ties.moves (P := fun _ => True) ?_
    exact (Coincide.mapM hparts fun _ _ h => switchLabel_ties h).bind fun _ _ => .pure trivial
  · exact hplaced.statements.bind hplaced.behind fun _ _ => .pure trivial

/-- The groups of a switch are threaded through its one scope. -/
theorem switching_ties (hsubject : Option.Rel (b.Tied env) parts[0]? parts'[0]?)
    (h : b.Threaded (· = .switchCase) ([] :: env) parts parts' after) :
    b.Ties env (switching parts) (switching parts') fun _ => True := by
  refine Ties.require_bind hsubject fun subject subject' _ htied => ?_
  refine htied.value.bind fun v _ => .ite (fun _ => htied.refuse _) fun _ => ?_
  refine withScope_ties ?_ h.behind
  have hall : ∀ a ∈ parts.ofKind .switchCase, decide (a.kind = .switchCase) = true :=
    fun a ha => (List.mem_filter.1 ha).2
  exact (h.ofKind.mapM hall fun hkind h => h.group (by simpa using hkind)).bind h.behind
    fun _ _ => .pure trivial

end Switches

section Tries

/-- The type that several types are caught as. -/
theorem caughtType_ties {first : JavaType} {others : List JavaType} (hfirst : first.Over b.names)
    (hothers : ∀ t ∈ others, t.Over b.names) :
    b.Ties env (caughtType first others) (caughtType first others) fun p =>
      p.1.Over b.names := by
  refine Coincide.read fun around _ => (mapType_ties hfirst).bind fun ref _ => ?_
  refine Coincide.foldlM (T := fun t t' => t' = t ∧ t.Over b.names)
    (List.forall₂_same.2 fun t ht => ⟨rfl, hothers t ht⟩) (fun {caught t t'} hcaught ht => ?_) hfirst
  obtain ⟨rfl, ht⟩ := ht
  refine (mapType_ties ht).bind fun ref _ => .pure ?_
  split
  · exact hcaught
  · exact b.vocabulary.over_of_mem (by decide +kernel)

/-- What a catch clause does with the type that it catches. -/
theorem caught_ties {around : Surroundings} (haround : ∀ a, b.around a → a = around)
    {caught : Lower (JavaType × TypeRef)} (hformed : caught.Formed)
    (hover : b.Ties env caught caught fun p => p.1.Over b.names) (name : Text)
    {block block' : Option Attributed}
    (hblock : Option.Rel (fun c c' =>
      b.Ties ([(name, ((given? around env caught).map Prod.fst).getD .unknown)] :: env)
        (blockBody c.parts) (blockBody c'.parts) fun _ => True) block block') :
    let clause := fun (block : Option Attributed) (p : JavaType × TypeRef) =>
      Lower.withScope do
        Lower.declareLocal name p.1
        let inner ← blockBody (← Lower.require block).parts
        return (⟨p.2.render, name, inner⟩ : CatchClause)
    b.Ties env (caught >>= clause block) (caught >>= clause block') fun _ => True := by
  refine (Ties.given haround hover hformed).bind fun p hp => ?_
  simp only [hp.2, Option.map_some, Option.getD_some] at hblock
  have hbehind : ([(name, p.1)] :: env).drop 1 = env := rfl
  refine withScope_ties ((declareLocal_moves hp.1.known name).bind rfl fun _ _ => ?_) hbehind
  exact Ties.moves (Ties.require_bind hblock fun _ _ _ h => h.bind fun _ _ => .pure trivial)

/-- The block of a clause has the scope of the caught exception around it. -/
theorem catchClause_ties {around : Surroundings} (haround : ∀ a, b.around a → a = around)
    (h : List.Forall₂ (b.Settled (· = .block) ([caughtLocal around env a.parts] :: env))
      a.parts a'.parts) :
    b.Ties env (catchClause a) (catchClause a') fun _ => True := by
  have hparts : b.PartsTied _ a.parts a'.parts := h.imp fun _ _ h => h.tied
  have hblock := block_rel h rfl
  have hgroup := hparts.first? .type
  have hkind : ∀ c ∈ a.parts.first? .type, c.kind = .type :=
    fun c hc => by simpa using List.find?_some hc
  unfold catchClause
  unfold caughtLocal at hblock hgroup
  rw [hparts.name_eq]
  generalize a.parts.first? .type = o at hgroup hkind hblock ⊢
  generalize a'.parts.first? .type = o' at hgroup ⊢
  cases hgroup with
  | none => exact .refused (r := .malformed)
  | @some group group' htied =>
    have htypes := htied.inner (by rw [hkind _ rfl]; decide)
    have hover : ∀ t ∈ (group.parts.ofKind .type).map Attributed.type, t.Over b.names := by
      simp only [List.forall_mem_map]
      intro c hc
      obtain ⟨hmem, htype⟩ := List.mem_filter.1 hc
      exact (htypes.bounded c hmem).type (of_decide_eq_true htype)
    change b.Ties env (pure group >>= _) (pure group' >>= _) _
    rw [pure_bind, pure_bind, htypes.map_type_ofKind, htied.type_eq]
    dsimp only at hblock
    generalize (group.parts.ofKind .type).map Attributed.type = types at hover hblock ⊢
    cases types with
    | nil =>
      exact caught_ties haround (caughtType_formed _ _)
        (caughtType_ties (htied.over_type (hkind _ rfl)) (List.forall_mem_nil _)) _ hblock
    | cons first others =>
      rw [List.forall_mem_cons] at hover
      exact caught_ties haround (caughtType_formed _ _) (caughtType_ties hover.1 hover.2) _ hblock

/-- A part of a try statement. -/
theorem tryPart_ties (h : b.Settled (· ∈ [.block, .catchClause, .finallyClause]) env a a')
    (s : TryParts) : b.Ties env (tryPart s a) (tryPart s a') fun _ => True := by
  unfold tryPart
  rw [h.tied.kind_eq]
  split
  · next hkind => exact ((h.placed (by simp [hkind])).block hkind).bind fun _ _ => .pure trivial
  · next hkind =>
    exact ((h.placed (by simp [hkind])).catching hkind).bind fun _ _ => .pure trivial
  · next hkind =>
    exact Ties.require_bind ((h.placed (by simp [hkind])).final hkind) fun _ _ _ h =>
      h.bind fun _ _ => .pure trivial
  · exact .pure trivial

/-- The parts of a try statement do not see each other's locals. -/
theorem trying_ties (h : List.Forall₂
    (b.Settled (· ∈ [.block, .catchClause, .finallyClause]) env) parts parts') :
    b.Ties env (trying parts) (trying parts') fun _ => True := by
  have hresource := rel_find? h (p := fun c => decide (c.kind = .localVarDecl))
    (q := fun c => decide (c.kind = .localVarDecl)) fun hab => by rw [hab.tied.kind_eq]
  change Option.Rel _ (parts.first? .localVarDecl) (parts'.first? .localVarDecl) at hresource
  unfold trying
  generalize parts.first? .localVarDecl = o at hresource ⊢
  generalize parts'.first? .localVarDecl = o' at hresource ⊢
  cases hresource with
  | some hab => exact hab.tied.refuse _
  | none =>
    have hread : b.Ties env (parts.foldlM tryPart {}) (parts'.foldlM tryPart {}) fun _ => True :=
      Coincide.foldlM h (fun {s _ _} _ hpart => tryPart_ties hpart s) trivial
    refine hread.bind fun s _ => ?_
    exact (Ties.require (P := fun _ => True) fun _ _ => trivial).bind fun _ _ => .pure trivial

end Tries

section Others

/-- The branches of a conditional do not see each other's locals. -/
theorem conditional_ties (h : List.Forall₂ (b.Embodied env) parts parts') :
    b.Ties env (conditional parts) (conditional parts') fun _ => True := by
  have hno := rel_getElem? h 2
  refine Ties.require_bind (rel_getElem? h 0) fun test test' _ htest => ?_
  refine (condition_ties htest.tied).bind fun _ _ => ?_
  refine Ties.require_bind (rel_getElem? h 1) fun yes yes' _ hyes => hyes.body.bind fun _ _ => ?_
  generalize parts[2]? = o at hno ⊢
  generalize parts'[2]? = o' at hno ⊢
  cases hno with
  | none => exact .pure trivial
  | some hbody => exact hbody.body.bind fun _ _ => .pure trivial

/-- A return keeps the scopes. -/
theorem returning_ties (h : b.PartsTied env parts parts') :
    b.Ties env (returning parts) (returning parts') fun _ => True := by
  refine Coincide.read fun around _ => ?_
  cases h with
  | nil => exact .pure trivial
  | cons hab _ => exact hab.value.bind fun _ _ => .pure trivial

/-- A jump keeps the scopes. -/
theorem jump_ties (h : b.PartsTied env parts parts') (construct : Text) (s : Stmt) :
    b.Ties env (jump n parts construct s) (jump n parts' construct s) fun _ => True := by
  have hempty : parts'.isEmpty = parts.isEmpty := by cases h <;> rfl
  unfold jump
  rw [hempty]
  exact .ite (fun _ => .pure trivial) fun _ => .refused

/-- A statement without statements below it. -/
theorem statement_ties (hkind : n.kind ∉ closedKinds) (h : b.PartsTied env parts parts') :
    b.Ties env (statement n parts) (statement n parts') fun _ => True := by
  unfold statement
  split
  case h_2 => exact (h.valueAt 0).bind fun _ _ => .pure trivial
  case h_9 => exact returning_ties h
  case h_10 => exact jump_ties h _ _
  case h_11 => exact jump_ties h _ _
  case h_12 => exact (h.valueAt 0).bind fun _ _ => .pure trivial
  all_goals first
    | exact .refused
    | next heq => exact absurd (by rw [heq]; decide) hkind

/-- A statement that is no compound keeps the scopes. -/
theorem statements_ties (hkind : n.kind ∉ closedKinds) (h : b.PartsTied env parts parts') :
    b.Ties env (statements n parts) (statements n parts') fun _ => True := by
  unfold statements
  split
  · exact .pure trivial
  · next heq => exact absurd (by rw [heq]; decide) hkind
  · exact (statement_ties hkind h).bind fun _ _ => .pure trivial

end Others

end Bounds

end JavaObjC
