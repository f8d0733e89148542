import JavaObjC.Proofs.Dimensions.Brackets
import JavaObjC.Proofs.Links.Members

/-!
# Dimensions of declared names

A declaration of several names has one type, which the member table, the local
scope and the generated code all read. It has the brackets behind all of its
names, so a name has the type that is written for it exactly if the other names
have no brackets. In the first clause of a loop, where the names share one
written type, only the first one gets its star. A parameter has the brackets
behind its own name, and the brackets behind the parameters of a method are lost.
-/

namespace JavaObjC

open Cursor Generating JavaObjC.Parser JavaObjC.Grammar Lowering Lower

/-- What follows a parser runs on its result where the parser ended. -/
theorem bind_run {α β : Type} (p : Parser α) (f : α → Parser β) (c : Cursor) :
    (p >>= f).run c = (f (p.run c).1).run (p.run c).2 := rfl

section Nodes

variable {marks type : Node} {nodes : List Node}

/-- The node of a type is a type or an array of one. -/
theorem IsTypeNode.kind_ne {kind : NodeKind} (h : IsTypeNode type) (htype : kind ≠ .type)
    (harray : kind ≠ .arrayType) : type.kind ≠ kind := by
  rcases h with h | h
  · exact fun hkind => htype (hkind.symm.trans h)
  · exact fun hkind => harray (hkind.symm.trans h)

/-- Modifiers are read into a node of their kind. -/
theorem modifiers_kind (rule : Rules) (c : Cursor) :
    ((modifiers rule).run c).1.kind = .modifiers := by
  rw [modifiers, bind_run, bind_run]
  rfl

/-- The children of a declaration that declare a name. -/
theorem filter_declarators (hmarks : marks.kind = .modifiers) (htype : IsTypeNode type)
    (hnodes : ∀ m ∈ nodes, m.kind = .varDeclarator) :
    (marks :: type :: nodes).filter (·.kind = .varDeclarator) = nodes := by
  have hmarks' : marks.kind ≠ .varDeclarator := by
    rw [hmarks]
    decide
  have htype' : type.kind ≠ .varDeclarator := htype.kind_ne (by decide) (by decide)
  rw [List.filter_cons_of_neg (by simpa using hmarks'),
    List.filter_cons_of_neg (by simpa using htype'), List.filter_eq_self]
  simpa using hnodes

end Nodes

section Fields

variable {n marks type : Node} {nodes : List Node} {t : JavaType}

/-- The fields of a declaration have one type, in the member table and in the generated class. -/
structure FieldsHave (t : JavaType) (n : Node) (nodes : List Node) : Prop where
  /-- The member table gets a field of the type for each name, in order. -/
  members : ∀ s : ClassSignature, (s.addFields n).fields = s.fields ++ nodes.map fun m =>
    ⟨declaredName m, t, (Modifiers.ofDecl n).isStatic || s.isInterface⟩
  /-- The class gets a field of the mapped type for each name, in order. -/
  generated : ∀ (isInterface : Bool) (around : Surroundings) (d d' : UnitDraft),
    result (field isInterface n) around d = (.ok (), d') →
    ∃ ref fields, (mapType t).outcome (Drafting.surroundings around d) = .ok ref ∧
      List.Forall₂ (FieldOf (Drafting.surroundings around d)
        (fieldShape isInterface (Modifiers.ofDecl n) ref) t) nodes fields ∧
      UnitDraft.Extends (fields.map .field) d d'

/-- The fields of a declaration have the type of its type node. -/
theorem fieldsHave_type (hkind : n.kind = .fieldDecl) (hchildren : n.children = marks :: type :: nodes)
    (hmarks : marks.kind = .modifiers) (htype : IsTypeNode type)
    (hnodes : ∀ m ∈ nodes, m.kind = .varDeclarator) : FieldsHave (JavaType.ofNode type) n nodes := by
  have hdeclarators : n.childrenOf .varDeclarator = nodes := by
    rw [Node.childrenOf, hchildren, filter_declarators hmarks htype hnodes]
  have hsecond : n.children[1]? = some type := by rw [hchildren]; rfl
  refine ⟨fun s => ?_, fun isInterface around d d' h => ?_⟩
  · rw [ClassSignature.addFields, hdeclarators, hsecond]
    rfl
  · obtain ⟨parts, hcontributes, hextends⟩ := field_ok hkind h
    cases hcontributes with
    | method h =>
      cases h with
      | method hmethod => exact absurd (hkind.symm.trans hmethod) (by decide)
      | constructor hconstructor => exact absurd (hkind.symm.trans hconstructor) (by decide)
    | fields _ htype' href hfields =>
      obtain rfl : type = _ := Option.some.inj (hsecond.symm.trans htype')
      rw [hdeclarators] at hfields
      exact ⟨_, _, href, hfields, hextends⟩
    | block hblock => exact absurd (hkind.symm.trans hblock) (by decide)
    | empty hempty => exact absurd (hkind.symm.trans hempty) (by decide)

/-- A field declaration puts the brackets of all its declarators around its one type. -/
theorem fieldDecl_run (rule : Rules) (marks type : Node) (c : Cursor) :
    ∃ declared, Declares rule c declared ∧ ((fieldDecl rule marks type).run c).1.kind = .fieldDecl ∧
      ((fieldDecl rule marks type).run c).1.children =
        marks :: inArrays (totalPairs declared) type :: declared.map Prod.fst := by
  obtain ⟨declared, c', hdeclared, hread⟩ := declarators_run rule c
  have hhere : here.run c = ((c.tokenAt 0).span.start, c) := rfl
  refine ⟨declared, hdeclared, ?_⟩
  rw [fieldDecl, bind_of_run hhere, bind_of_run hread, bind_run]
  exact ⟨rfl, rfl⟩

end Fields

section Locals

variable {around : Surroundings} {s s' : BodyState} {n marks type : Node} {nodes : List Node}
  {t : JavaType}

/-- What a type becomes does not depend on what was generated before. -/
theorem mapType_fst (t : JavaType) (around : Surroundings) (s : BodyState) :
    (result (mapType t) around s).1 = (mapType t).outcome around := by
  have hrun : ∀ s : BodyState, (result (mapType t) around s).1 = .ok
      (if around.isParameterType t then .object .id else around.mapper.map around.registry t) := by
    intro s
    change (result (if around.isParameterType t then pure (TypeRef.object .id) else _) _ _).1 = _
    split
    · rfl
    · cases around.mapper.map around.registry t <;> rfl
  rw [outcome, hrun, hrun]

/-- The text of a type does not depend on what was generated before. -/
theorem localTypeText_ok {text : Text} (h : result (localTypeText t) around s = (.ok text, s')) :
    (localTypeText t).outcome around = .ok text := by
  unfold localTypeText at h ⊢
  split at h
  · next hauto =>
    rw [if_pos hauto]
    obtain ⟨rfl, -⟩ := pure_ok h
    rfl
  · next hauto =>
    rw [if_neg hauto]
    obtain ⟨ref, s₁, hmap, hpure⟩ := bind_ok h
    obtain ⟨rfl, -⟩ := pure_ok hpure
    have houtcome : (mapType t).outcome around = .ok ref := by rw [← mapType_fst t around s, hmap]
    have hstart : result (mapType t) around { scopes := [[]] } = (.ok ref, _) :=
      Prod.ext houtcome rfl
    rw [outcome, bind_result, hstart]
    rfl

/-- A local that was just declared is found. -/
theorem findLocal?_declareIn (name : Text) (t : JavaType) (scopes : List Scope) :
    findLocal? name (declareIn name t scopes) = some t := by
  cases scopes <;> simp [declareIn, findLocal?, getKey?]

/-- The locals of a declaration have one type, in their scope and in the generated code. -/
structure LocalsHave (t : JavaType) (n : Node) (nodes : List Node) : Prop where
  /-- Each name is declared with the type, in order. -/
  declares : localVariables (n.children.map attributed) =
    nodes.mapM fun m => localVariable t (attributed m)
  /-- A declared name is found with the type. -/
  found : ∀ m ∈ nodes, ∀ (around : Surroundings) (s s' : BodyState) (l : LocalText),
    result (localVariable t (attributed m)) around s = (.ok l, s') → t.isVar = false →
    findLocal? l.name s'.scopes = some t
  /-- A declared name is written with the type. -/
  generated : ∀ m ∈ nodes, ∀ (around : Surroundings) (s s' : BodyState) (l : LocalText),
    result (localVariable t (attributed m)) around s = (.ok l, s') → t.isVar = false →
    (localTypeText t).outcome around = .ok l.type
  /-- In the first clause of a loop the same names are declared. -/
  clause : loopStart (attributed n) =
    loopVariables <$> nodes.mapM fun m => localVariable t (attributed m)

/-- A declared local has its type in the scope and in the code. -/
theorem localVariable_ok {decl : Attributed} {l : LocalText}
    (h : result (localVariable t decl) around s = (.ok l, s')) (ht : t.isVar = false) :
    findLocal? l.name s'.scopes = some t ∧ (localTypeText t).outcome around = .ok l.type := by
  have hstarted : ∃ start s₁,
      result (startedVariable t decl.parts.name start) around s₁ = (.ok l, s') := by
    unfold localVariable at h
    dsimp only at h
    split at h <;>
    · obtain ⟨start, s₁, -, hrest⟩ := bind_ok h
      exact ⟨start, s₁, hrest⟩
  obtain ⟨start, s₁, h⟩ := hstarted
  unfold startedVariable at h
  obtain ⟨text, s₂, htext, h⟩ := bind_ok h
  obtain ⟨_, s₃, hdeclare, h⟩ := bind_ok h
  obtain ⟨rfl, rfl⟩ := pure_ok h
  cases hdeclare
  cases start with
  | none => exact ⟨findLocal?_declareIn _ _ _, localTypeText_ok htext⟩
  | some v =>
    have hwritten : (if t.isVar then v.type else t) = t := if_neg (by simp [ht])
    dsimp only at htext
    rw [hwritten] at htext
    refine ⟨?_, localTypeText_ok htext⟩
    change findLocal? _ (declareIn _ (if t.isVar then v.type else t) _) = _
    rw [hwritten]
    exact findLocal?_declareIn _ _ _

/-- An attributed node stands for the type of the node. -/
theorem attributed_type (n : Node) : (attributed n).type = JavaType.ofNode n := by
  rw [attributed_eq]
  rfl

/-- The locals of a declaration have the type of its type node. -/
theorem localsHave_type (hkind : n.kind = .localVarDecl)
    (hchildren : n.children = marks :: type :: nodes)
    (hmarks : marks.kind = .modifiers) (htype : IsTypeNode type)
    (hnodes : ∀ m ∈ nodes, m.kind = .varDeclarator) :
    LocalsHave (JavaType.ofNode type) n nodes := by
  have hdeclares : localVariables (n.children.map attributed) =
      nodes.mapM fun m => localVariable (JavaType.ofNode type) (attributed m) := by
    rw [localVariables, ofKind_map, hchildren, filter_declarators hmarks htype hnodes,
      List.map_cons, List.map_cons, child_succ, child_zero, pure_bind, attributed_type,
      List.mapM_map]
    rfl
  refine ⟨hdeclares, fun m _ around s s' l h hvar => (localVariable_ok h hvar).1,
    fun m _ around s s' l h hvar => (localVariable_ok h hvar).2, ?_⟩
  rw [loopStart, attributed_kind, if_pos hkind, attributed_parts, hdeclares, map_eq_pure_bind]

/-- The type node of a local variable declaration, and where the names begin. -/
def localHead (rule : Rules) (c : Cursor) : Node × Cursor :=
  (localType rule).run ((modifiers rule).run c).2

/-- A local declaration puts the brackets of all its declarators around its one type. -/
theorem localVarDecl_run (rule : Rules) (c : Cursor) :
    ∃ declared marks, Declares rule (localHead rule c).2 declared ∧ marks.kind = .modifiers ∧
      ((localVarDecl rule).run c).1.kind = .localVarDecl ∧
      ((localVarDecl rule).run c).1.children =
        marks :: inArrays (totalPairs declared) (localHead rule c).1 :: declared.map Prod.fst := by
  obtain ⟨declared, c', hdeclared, hread⟩ := declarators_run rule (localHead rule c).2
  have hhere : here.run c = ((c.tokenAt 0).span.start, c) := rfl
  refine ⟨declared, ((modifiers rule).run c).1, hdeclared, modifiers_kind rule c, ?_⟩
  rw [localVarDecl, bind_of_run hhere, bind_run, bind_run, ← localHead, bind_of_run hread]
  exact ⟨rfl, rfl⟩

end Locals

section Clauses

/-- Locals of the type of the first as one declaration, in which the star of a type stands at each
name. -/
def starredVariables : List LocalText → Text
  | [] => []
  | first :: more =>
    first.start (joinDeclaration first.type first.name) ++ more.flatMap fun l =>
      l.start (", " ++ (if Text.endsWith first.type "*" then "*" ++ l.name else l.name))

/-- The start of the text of a local adds its length to what stands before. -/
theorem length_start (l : LocalText) (head : Text) :
    (l.start head).length = head.length + (l.start []).length := by
  unfold LocalText.start
  split
  · simp
  · simp

/-- The first clause of a loop has a star at each name if the type has none or there is one name
only. -/
theorem loopVariables_eq_iff (first : LocalText) (more : List LocalText) :
    loopVariables (first :: more) = starredVariables (first :: more) ↔
      more = [] ∨ Text.endsWith first.type "*" = false := by
  rw [loopVariables, starredVariables, List.append_cancel_left_eq]
  cases hstar : Text.endsWith first.type "*" with
  | false => simp
  | true =>
    -- The texts of a further name differ in length by its star.
    have hlonger : ∀ l : LocalText, (l.start (", " ++ ("*" ++ l.name))).length =
        (l.start (", " ++ l.name)).length + 1 := by
      intro l
      have hstar : ("*" : Text).length = 1 := rfl
      rw [length_start, length_start l (", " ++ l.name)]
      simp only [List.length_append, hstar]
      omega
    have htotal : (more.flatMap fun l => l.start (", " ++ ("*" ++ l.name))).length =
        (more.flatMap fun l => l.start (", " ++ l.name)).length + more.length := by
      induction more with
      | nil => rfl
      | cons l more ih =>
        rw [List.flatMap_cons, List.flatMap_cons, List.length_append, List.length_append, ih,
          hlonger, List.length_cons]
        omega
    simp only [if_true, Bool.true_eq_false, or_false]
    refine ⟨fun heq => ?_, fun hnone => by rw [hnone]; rfl⟩
    rw [heq] at htotal
    exact List.eq_nil_of_length_eq_zero (by omega)

end Clauses

section Parameters

/-- The type node of a parameter, and where its dots or its name are. -/
def parameterHead (rule : Rules) (c : Cursor) : Node × Cursor :=
  (type rule).run ((modifiers rule).run c).2

/-- Whether a parameter stands for any number of arguments. -/
def hasDots (c : Cursor) : Bool := (c.tokenAt 0).kind = Symbol.ellipsis

/-- Where the name behind optional dots is. -/
def pastDots (c : Cursor) : Cursor := if hasDots c then c.step else c

/-- The dots of a parameter are read if they are there. -/
theorem dots_run (c : Cursor) :
    (Parser.optional (check Symbol.ellipsis) (leaf .identifier)).run c =
      (if hasDots c then [Node.ofToken .identifier (c.tokenAt 0)] else [], pastDots c) := by
  have hcheck : (check Symbol.ellipsis).run c = ((c.tokenAt 0).kind == Symbol.ellipsis, c) := rfl
  rw [Parser.optional, bind_of_run hcheck]
  by_cases hdots : (c.tokenAt 0).kind = Symbol.ellipsis
  · simp [hasDots, pastDots, hdots]
    rfl
  · simp [hasDots, pastDots, hdots]
    rfl

/-- A parameter has the brackets behind its name around its own type. -/
theorem parameter_run (rule : Rules) (c : Cursor) :
    ∃ marks, marks.kind = .modifiers ∧ ((parameter rule).run c).1.children =
      marks :: inArrays (pairsBehindName (pastDots (parameterHead rule c).2).rest)
          (parameterHead rule c).1 ::
        (if hasDots (parameterHead rule c).2 then
          [Node.ofToken .identifier ((parameterHead rule c).2.tokenAt 0)] else []) ++
        (name.run (pastDots (parameterHead rule c).2)).1 := by
  have hhere : here.run c = ((c.tokenAt 0).span.start, c) := rfl
  refine ⟨((modifiers rule).run c).1, modifiers_kind rule c, ?_⟩
  rw [parameter, bind_of_run hhere, bind_run, bind_run, ← parameterHead,
    bind_of_run (dots_run _), bind_run, bind_run, bracketPairs_count, leadingPairs_name]
  rfl

/-- A token that does not end the file is among those ahead. -/
theorem tokenAt_mem {c : Cursor} (h : (c.tokenAt 0).kind ≠ .eof) : c.tokenAt 0 ∈ c.rest := by
  cases hrest : c.rest with
  | nil => exact absurd (by simp [tokenAt, hrest]) h
  | cons t rest =>
    rw [tokenAt_zero_cons hrest]
    exact List.mem_cons_self

/-- What stands behind the dots stood ahead before. -/
theorem rest_pastDots {c : Cursor} {t : Token} (h : t ∈ (pastDots c).rest) : t ∈ c.rest := by
  unfold pastDots at h
  split at h
  · have hstep : c.step.rest = c.rest.tail := by
      cases hrest : c.rest <;> simp [Cursor.step, hrest]
    rw [hstep] at h
    exact List.mem_of_mem_tail h
  · exact h

/-- The name of a parameter leaves its type and its dots alone. -/
theorem addNode_name (p : Parameter × Bool) {c : Cursor}
    (hdots : ∀ t ∈ c.rest, t.literal = "..." ↔ t.kind = Symbol.ellipsis) :
    ((name.run c).1.foldl Parameter.addNode p).1.type = p.1.type ∧
      ((name.run c).1.foldl Parameter.addNode p).2 = p.2 := by
  rw [name_nodes]
  split
  · next hname =>
    have hkind : (c.tokenAt 0).kind ≠ Symbol.ellipsis := by
      intro hkind
      rw [hkind] at hname
      cases hname
    have heof : (c.tokenAt 0).kind ≠ .eof := by
      intro heof
      rw [heof] at hname
      cases hname
    have hliteral : (c.tokenAt 0).literal ≠ "..." :=
      fun hliteral => hkind ((hdots _ (tokenAt_mem heof)).1 hliteral)
    simp [Parameter.addNode, Node.ofToken, Node.literal, hliteral]
  · exact ⟨rfl, rfl⟩

/-- A parameter has the type that is written for it. -/
theorem parameter_type (rule : Rules) (c : Cursor) (htype : IsTypeNode (parameterHead rule c).1)
    (hdots : ∀ t ∈ (parameterHead rule c).2.rest, t.literal = "..." ↔ t.kind = Symbol.ellipsis) :
    (Parameter.ofNode ((parameter rule).run c).1).type =
      (JavaType.ofNode (parameterHead rule c).1).addDepth
        (pairsBehindName (pastDots (parameterHead rule c).2).rest +
          if hasDots (parameterHead rule c).2 then 1 else 0) := by
  obtain ⟨marks, hmarks, hchildren⟩ := parameter_run rule c
  generalize (parameterHead rule c).1 = declared at *
  generalize (parameterHead rule c).2 = behind at *
  generalize pairsBehindName (pastDots behind).rest = depth at *
  obtain ⟨hwrapped, hwrappedType⟩ := inArrays_type depth htype
  have hfirst : Parameter.addNode ({}, false) marks = ({}, false) := by
    simp [Parameter.addNode, hmarks]
  have hsecond : Parameter.addNode ({}, false) (inArrays depth declared) =
      ({ type := (JavaType.ofNode declared).addDepth depth }, false) := by
    have hadded : Parameter.addNode ({}, false) (inArrays depth declared) =
        ({ type := JavaType.ofNode (inArrays depth declared) }, false) := if_pos hwrapped
    rw [hadded, hwrappedType]
  have hthird : (if hasDots behind then [Node.ofToken .identifier (behind.tokenAt 0)] else
      []).foldl Parameter.addNode ({ type := (JavaType.ofNode declared).addDepth depth }, false) =
      ({ type := (JavaType.ofNode declared).addDepth depth }, hasDots behind) := by
    cases hit : hasDots behind with
    | false => rfl
    | true =>
      have hkind : (behind.tokenAt 0).kind = Symbol.ellipsis := by simpa [hasDots] using hit
      have hliteral : (behind.tokenAt 0).literal = "..." :=
        (hdots _ (tokenAt_mem (by rw [hkind]; decide))).2 hkind
      simp [Parameter.addNode, Node.ofToken, Node.literal, hliteral]
  obtain ⟨htypeEnd, hdotsEnd⟩ := addNode_name
    ({ type := (JavaType.ofNode declared).addDepth depth }, hasDots behind)
    (c := pastDots behind) fun t ht => hdots t (rest_pastDots ht)
  rw [Parameter.ofNode, hchildren, List.foldl_append, List.foldl_cons, List.foldl_cons, hfirst,
    hsecond, hthird]
  dsimp only
  rw [hdotsEnd]
  cases hit : hasDots behind with
  | false =>
    rw [hit] at htypeEnd
    exact htypeEnd
  | true =>
    rw [hit] at htypeEnd
    exact congrArg (JavaType.addDepth · 1) htypeEnd

end Parameters

section Methods

variable {n marks result : Node} {generics rest : List Node} {t : JavaType}

/-- The method of a declaration has a result type, in the member table and in the generated
class. -/
structure MethodGives (t : JavaType) (n : Node) : Prop where
  /-- The member table gets a method with the result type. -/
  members : ∀ s : ClassSignature, ∃ m, (s.addMethod n).methods = s.methods ++ [m] ∧ m.result = t
  /-- The class gets a method with the mapped result type. -/
  generated : ∀ (isInterface : Bool) (around : Surroundings) (d d' : UnitDraft),
    Generating.result (addMethod isInterface n) around d = (.ok (), d') →
    ∃ m, UnitDraft.Extends [.method m] d d' ∧
      (mapType t).outcome (Drafting.surroundings around d) = .ok m.result

/-- The first child of a kind stands behind children of other kinds. -/
theorem find?_past {front : List Node} {m : Node} {kind : NodeKind}
    (hfront : ∀ x ∈ front, x.kind ≠ kind) (hm : m.kind = kind) :
    (front ++ m :: rest).find? (·.kind = kind) = some m := by
  rw [List.find?_append, List.find?_eq_none.2 (by simpa using hfront), Option.none_or,
    List.find?_cons_of_pos (by simpa using hm)]

/-- The result type of a method is read from its type node. -/
theorem resultNode_eq (hchildren : n.children = marks :: (generics ++ result :: rest))
    (hmarks : marks.kind = .modifiers) (hgenerics : ∀ g ∈ generics, g.kind = .typeParameters)
    (hresult : IsTypeNode result) (hrest : ∀ m ∈ rest, m.kind ≠ .type) :
    resultNode n = some result := by
  have hfront : ∀ m ∈ marks :: generics, m.kind ≠ .type ∧ m.kind ≠ .arrayType := by
    refine List.forall_mem_cons.2 ⟨by rw [hmarks]; decide, fun g hg => ?_⟩
    rw [hgenerics g hg]
    decide
  rw [← List.cons_append] at hchildren
  rcases hresult with hkind | hkind
  · have hfound : n.child? .type = some result := by
      rw [Node.child?, hchildren, find?_past (fun m hm => (hfront m hm).1) hkind]
    rw [resultNode, hfound]
    rfl
  · have hnone : n.child? .type = none := by
      rw [Node.child?, hchildren, List.find?_eq_none]
      intro m hm
      rcases List.mem_append.1 hm with hm | hm
      · simpa using (hfront m hm).1
      · rcases List.mem_cons.1 hm with rfl | hm
        · simp [hkind]
        · simpa using hrest m hm
    have hfound : n.child? .arrayType = some result := by
      rw [Node.child?, hchildren, find?_past (fun m hm => (hfront m hm).2) hkind]
    rw [resultNode, hnone, hfound]
    rfl

/-- A method gives the type of its result node, whatever stands behind the parentheses. -/
theorem methodGives_type (hkind : n.kind = .methodDecl) (hresult : resultNode n = some result) :
    MethodGives (JavaType.ofNode result) n := by
  refine ⟨fun s => ⟨_, rfl, by rw [hresult]; rfl⟩, fun isInterface around d d' h => ?_⟩
  obtain ⟨parts, hcontributes, hextends⟩ := addMethod_ok hkind h
  cases hcontributes with
  | method h =>
    cases h with
    | method _ _ href _ =>
      rw [hresult] at href
      exact ⟨_, hextends, href⟩
    | constructor hconstructor => exact absurd (hkind.symm.trans hconstructor) (by decide)
  | fields hfields => exact absurd (hkind.symm.trans hfields) (by decide)
  | block hblock => exact absurd (hkind.symm.trans hblock) (by decide)
  | empty hempty => exact absurd (hkind.symm.trans hempty) (by decide)

/-- Where the parameters of a method end. -/
def pastParameters (rule : Rules) (c : Cursor) : Cursor :=
  ((parameters rule).run (name.run c).2).2

/-- Where the head of a method ends. -/
def pastHead (rule : Rules) (c : Cursor) : Cursor :=
  ((Parser.optional (check Keyword.throwsKw) (throwsList rule)).run
    (skipResultBrackets.run (pastParameters rule c)).2).2

/-- An optional phrase is what its parser reads. -/
theorem forall_mem_optional {test : Parser Bool} {item : Parser Node} {c : Cursor}
    {P : Node → Prop} (hitem : ∀ c, P (item.run c).1) :
    ∀ m ∈ ((Parser.optional test item).run c).1, P m := by
  rw [Parser.optional, bind_run]
  split
  · exact List.forall_mem_singleton.2 (hitem _)
  · exact List.forall_mem_nil _

/-- The brackets behind the parentheses of a method leave no node. -/
theorem methodDecl_run (rule : Rules) (marks result : Node) (generics : List Node) (c : Cursor)
    (hend : ((pastHead rule c).tokenAt 0).kind ≠ Keyword.defaultKw) :
    ((methodDecl rule marks generics result).run c).1.kind = .methodDecl ∧
      ∃ rest, ((methodDecl rule marks generics result).run c).1.children =
        marks :: (generics ++ result :: rest) ∧ ∀ m ∈ rest, m.kind ≠ .type := by
  have hhere : here.run c = ((c.tokenAt 0).span.start, c) := rfl
  have hlabel : ∀ m ∈ (name.run c).1, m.kind ≠ .type := by
    rw [name_nodes]
    split
    · exact List.forall_mem_singleton.2 (by simp [Node.ofToken])
    · exact List.forall_mem_nil _
  have hdeclared : ((parameters rule).run (name.run c).2).1.kind ≠ .type := by
    rw [parameters, bind_run, bind_run, bind_run, bind_run]
    exact (by decide : NodeKind.parameters ≠ .type)
  have hthrown : ∀ m ∈ ((Parser.optional (check Keyword.throwsKw) (throwsList rule)).run
      (skipResultBrackets.run (pastParameters rule c)).2).1, m.kind ≠ .type := by
    have hkind : ∀ c, ((throwsList rule).run c).1.kind = .throwsList := fun c => by
      rw [throwsList, bind_run, bind_run, bind_run]
      rfl
    refine forall_mem_optional fun c => ?_
    rw [hkind]
    decide
  have hbody : ∀ m ∈ ((methodEnd rule).run (pastHead rule c)).1, m.kind ≠ .type := by
    have hkind : ∀ c, ((block rule).run c).1.kind = .block := fun c => by
      rw [block, bind_run, bind_run, bind_run, bind_run]
      rfl
    have hskip := skip_run Keyword.defaultKw (pastHead rule c)
    rw [if_neg hend] at hskip
    have hcheck : (check Symbol.lbrace).run (pastHead rule c) =
      (((pastHead rule c).tokenAt 0).kind == .symbol .lbrace, pastHead rule c) := rfl
    have hpure : ∀ (l : List Node) (c : Cursor), ((pure l : Parser (List Node)).run c).1 = l :=
      fun _ _ => rfl
    rw [methodEnd, bind_of_run hcheck]
    split
    · rw [bind_run, hpure, List.forall_mem_singleton, hkind]
      decide
    · rw [bind_of_run hskip, if_neg (by decide), bind_run, hpure]
      exact List.forall_mem_nil _
  rw [methodDecl, bind_of_run hhere, bind_run, bind_run, ← pastParameters, bind_run, bind_run,
    ← pastHead, bind_run]
  have hchildren : ∀ (l : List Node) (start : Position) (c : Cursor),
      ((finish .methodDecl start l).run c).1.children = l := fun _ _ _ => rfl
  refine ⟨rfl, ?_⟩
  rw [hchildren]
  generalize (name.run c).1 = label at hlabel ⊢
  generalize ((parameters rule).run (name.run c).2).1 = declared at hdeclared ⊢
  generalize ((Parser.optional (check Keyword.throwsKw) (throwsList rule)).run
    (skipResultBrackets.run (pastParameters rule c)).2).1 = thrown at hthrown ⊢
  generalize ((methodEnd rule).run (pastHead rule c)).1 = body at hbody ⊢
  refine ⟨label ++ declared :: (thrown ++ body), by simp, List.forall_mem_append.2 ⟨hlabel, ?_⟩⟩
  exact List.forall_mem_cons.2 ⟨hdeclared, List.forall_mem_append.2 ⟨hthrown, hbody⟩⟩

end Methods

section Dimensions

/-- Names that are declared together have one type: the declared one with the brackets behind all of
them. It is what the member table and the class hold for each field, and the scope and the code for
each local, and it is right for a name exactly if there are no brackets behind the others. The
first clause of a loop is right unless further names lack the star of their type. A parameter has
the brackets behind its own name, and a method none of those behind its parameters. -/
theorem declared_dimensions (rule : Rules) (c : Cursor) :
    (∀ marks type : Node, marks.kind = .modifiers → IsTypeNode type →
      ∃ declared, Declares rule c declared ∧
        FieldsHave ((JavaType.ofNode type).addDepth (totalPairs declared))
          ((fieldDecl rule marks type).run c).1 (declared.map Prod.fst)) ∧
    (IsTypeNode (localHead rule c).1 →
      ∃ declared, Declares rule (localHead rule c).2 declared ∧
        LocalsHave ((JavaType.ofNode (localHead rule c).1).addDepth (totalPairs declared))
          ((localVarDecl rule).run c).1 (declared.map Prod.fst)) ∧
    (∀ (t : JavaType) (before after : List (Node × Nat)) (p : Node × Nat),
      t.addDepth (totalPairs (before ++ p :: after)) = t.addDepth p.2 ↔
        ∀ q ∈ before ++ after, q.2 = 0) ∧
    (∀ (first : LocalText) (more : List LocalText),
      loopVariables (first :: more) = starredVariables (first :: more) ↔
        more = [] ∨ Text.endsWith first.type "*" = false) ∧
    (IsTypeNode (parameterHead rule c).1 →
      (∀ t ∈ (parameterHead rule c).2.rest, t.literal = "..." ↔ t.kind = Symbol.ellipsis) →
      (Parameter.ofNode ((parameter rule).run c).1).type =
        (JavaType.ofNode (parameterHead rule c).1).addDepth
          (pairsBehindName (pastDots (parameterHead rule c).2).rest +
            if hasDots (parameterHead rule c).2 then 1 else 0)) ∧
    (∀ (marks result : Node) (generics : List Node), marks.kind = .modifiers →
      (∀ g ∈ generics, g.kind = .typeParameters) → IsTypeNode result →
      ((pastHead rule c).tokenAt 0).kind ≠ Keyword.defaultKw →
      MethodGives (JavaType.ofNode result) ((methodDecl rule marks generics result).run c).1 ∧
        (JavaType.ofNode result =
            (JavaType.ofNode result).addDepth (leadingPairs (pastParameters rule c).rest) ↔
          leadingPairs (pastParameters rule c).rest = 0)) := by
  refine ⟨fun marks type hmarks htype => ?_, fun htype => ?_,
    fun t before after p => addDepth_totalPairs_iff, loopVariables_eq_iff, parameter_type rule c,
    fun marks result generics hmarks hgenerics hresult hend => ⟨?_, ?_⟩⟩
  · obtain ⟨declared, hdeclared, hkind, hchildren⟩ := fieldDecl_run rule marks type c
    obtain ⟨hwrapped, hdepth⟩ := inArrays_type (totalPairs declared) htype
    refine ⟨declared, hdeclared, hdepth ▸ fieldsHave_type hkind hchildren hmarks hwrapped ?_⟩
    simpa using hdeclared.kind_eq
  · obtain ⟨declared, marks, hdeclared, hmarks, hkind, hchildren⟩ := localVarDecl_run rule c
    obtain ⟨hwrapped, hdepth⟩ := inArrays_type (totalPairs declared) htype
    refine ⟨declared, hdeclared, hdepth ▸ localsHave_type hkind hchildren hmarks hwrapped ?_⟩
    simpa using hdeclared.kind_eq
  · obtain ⟨hkind, rest, hchildren, hrest⟩ := methodDecl_run rule marks result generics c hend
    exact methodGives_type hkind (resultNode_eq hchildren hmarks hgenerics hresult hrest)
  · have hsame : JavaType.ofNode result = (JavaType.ofNode result).addDepth 0 :=
      (JavaType.addDepth_zero _).symm
    refine ⟨fun h => ?_, fun h => h ▸ hsame⟩
    exact (JavaType.addDepth_inj.1 (hsame.symm.trans h)).symm

/-- The phrases of a text of few tokens. -/
def shortRules : Rules := parse 8

/-- A cursor in front of a text. -/
def inFrontOf (text : Text) : Cursor := .ofTokens (Lexeme.tokens text)

/-- No modifiers. -/
def noMarks : Node := ⟨.modifiers, {}, none, none, []⟩

/-- The type node of `int`. -/
def intNode : Node := ⟨.type, {}, some ⟨Keyword.intKw, {}, "int"⟩, none, []⟩

/-- In `int a, b[]` both names are arrays, `int a[]` declares a parameter that is one, and the
brackets in `int f()[]` are lost. -/
theorem declared_dimensions_mixed :
    (∃ declared, Declares shortRules (inFrontOf "a, b[];") declared ∧ totalPairs declared = 1 ∧
      FieldsHave ((JavaType.named "int").addDepth 1)
        ((fieldDecl shortRules noMarks intNode).run (inFrontOf "a, b[];")).1
        (declared.map Prod.fst)) ∧
    (∃ declared, LocalsHave ((JavaType.named "int").addDepth (totalPairs declared))
      ((localVarDecl shortRules).run (inFrontOf "int a, b[]")).1 (declared.map Prod.fst)) ∧
    (Parameter.ofNode ((parameter shortRules).run (inFrontOf "int a[]")).1).type =
      (JavaType.named "int").addDepth 1 ∧
    MethodGives (.named "int")
      ((methodDecl shortRules noMarks [] intNode).run (inFrontOf "f()[]\x7b\x7d")).1 ∧
    leadingPairs (pastParameters shortRules (inFrontOf "f()[]\x7b\x7d")).rest = 1 := by
  have hint : JavaType.ofNode intNode = .named "int" := by
    rw [intNode, JavaType.ofNode]
  -- one evaluation, so that the words are looked up once
  obtain ⟨hdepths, hlocal, htype, hparameter, hread, hmethodName, hpairs⟩ :
      ((ClassSignature.addFields ⟨"A", false, none, [], [], [], [], []⟩
        ((fieldDecl shortRules noMarks intNode).run (inFrontOf "a, b[];")).1).fields.map
          (·.type.depth)) = [1, 1] ∧
      (localHead shortRules (inFrontOf "int a, b[]")).1.kind = .type ∧
      JavaType.ofNode (localHead shortRules (inFrontOf "int a, b[]")).1 = .named "int" ∧
      ((parameterHead shortRules (inFrontOf "int a[]")).1.kind = .type ∧
        ∀ t ∈ (parameterHead shortRules (inFrontOf "int a[]")).2.rest,
          t.literal = "..." ↔ t.kind = Symbol.ellipsis) ∧
      (JavaType.ofNode (parameterHead shortRules (inFrontOf "int a[]")).1 = .named "int" ∧
        pairsBehindName (pastDots (parameterHead shortRules (inFrontOf "int a[]")).2).rest = 1 ∧
        hasDots (parameterHead shortRules (inFrontOf "int a[]")).2 = false) ∧
      ((pastHead shortRules (inFrontOf "f()[]\x7b\x7d")).tokenAt 0).kind ≠ Keyword.defaultKw ∧
      leadingPairs (pastParameters shortRules (inFrontOf "f()[]\x7b\x7d")).rest = 1 := by
    decide +kernel
  refine ⟨?_, ?_, ?_, ?_, hpairs⟩
  · obtain ⟨declared, hdeclared, hfields⟩ :=
      (declared_dimensions shortRules (inFrontOf "a, b[];")).1 noMarks intNode rfl (.inl rfl)
    rw [hint] at hfields
    have htotal : totalPairs declared = 1 := by
      rw [hfields.members, List.nil_append, List.map_map, List.map_map] at hdepths
      cases declared with
      | nil => cases hdepths
      | cons p declared => simpa [JavaType.addDepth, JavaType.named] using (List.cons.inj hdepths).1
    exact ⟨declared, hdeclared, htotal, htotal ▸ hfields⟩
  · obtain ⟨declared, -, hlocals⟩ :=
      (declared_dimensions shortRules (inFrontOf "int a, b[]")).2.1 (.inl hlocal)
    exact ⟨declared, htype ▸ hlocals⟩
  · have htype := (declared_dimensions shortRules (inFrontOf "int a[]")).2.2.2.2.1
      (.inl hparameter.1) hparameter.2
    rw [hread.1, hread.2.1, hread.2.2] at htype
    exact htype
  · have hmethod := (declared_dimensions shortRules (inFrontOf "f()[]\x7b\x7d")).2.2.2.2.2 noMarks
      intNode [] rfl (List.forall_mem_nil _) (.inl rfl) hmethodName
    exact hint ▸ hmethod.1

end Dimensions

end JavaObjC
