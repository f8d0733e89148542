import JavaObjC.Proofs.Effects.Operators
import JavaObjC.Proofs.Effects.Trees
import JavaObjC.Proofs.Coverage.Expressions

/-!
# Every call is written once

What generating code gives for a tree in which the name of a method is used
for its calls only, and in which no call stands where it would be dropped or
written again: the text has as many calls as the tree. This goes by induction
on the tree, with a construct of the language for each case. What a chain on a
builder begins with has to be remembered, since the next call of the chain
writes it again.
-/

namespace JavaObjC

open Fragments Generating Lower Lowering

/-- What generating code gives for an expression: its calls, and how it continues a chain. -/
structure Evaluates (f : MethodName) (n : Node) (v : Value) : Prop where
  calls : Calls f (n.calls f) v
  chain : ∀ b ∈ v.builder, n.appends = true ∧ CollectionKind.of? v.type = some .builder ∧
    Shows f (n.chainBase.calls f) b
  ended : v.builder = none → n.appends = true → CollectionKind.of? v.type ≠ some .builder

/-- A node whose calls are written once, in each place it can stand. -/
structure Written (f : MethodName) (n : Node) : Prop where
  keeps : n.Keeps f
  value : Derives .expression n → Returns f (attributed n).value (Evaluates f n)
  operands : Derives .expression n → Returns f (attributed n).meaning.operands
    (Summed f (n.calls f))
  array : Derives .arrayInit n → ∀ t, Returns f ((attributed n).meaning.array t)
    (Unchained f (n.calls f))

section Nodes

variable {f : MethodName} {n m l : Node} {c : Category} {nodes : List Node} {vals : List Value}

/-- Only calls append to what a chain began with. -/
theorem Node.appends_of_kind (h : n.kind ≠ .callExpr) : n.appends = false := by
  unfold Node.appends Node.sending?
  cases hparts : n.callParts? with
  | none => rfl
  | some parts => exact absurd (Node.kind_of_callParts? hparts) h

/-- An expression that neither is a chain nor goes on with one. -/
theorem Evaluates.of_unchained (hn : n.appends = false) {v : Value}
    (h : Unchained f (n.calls f) v) : Evaluates f n v where
  calls := h.toCalls
  chain := by simp [h.builder]
  ended _ happends := by rw [hn] at happends; cases happends

/-- A tree of a plain category has no calls. -/
theorem Node.Keeps.calls_of_plain (h : m.Keeps f) (hm : Derives c m) (hc : c ∈ Category.plain) :
    m.calls f = 0 := hm.calls_of_plain hc h.clean h.kept

/-- What is dropped or written again has no calls. -/
theorem Node.Keeps.distorted (h : n.Keeps f) (hm : m ∈ n.distorted) : m.calls f = 0 :=
  h.kept n n.mem_walk m hm

/-- Calls of values are those of the nodes they come from. -/
theorem counted_of_forall₂ (h : List.Forall₂ (Evaluates f) nodes vals) :
    Counted f vals ∧ f.callsInAll vals = (nodes.map (Node.calls f)).sum := by
  induction h with
  | nil => simp
  | cons hv _ ih =>
    refine ⟨counted_cons.2 ⟨hv.calls.counted, ih.1⟩, ?_⟩
    rw [MethodName.callsInAll_cons, hv.calls.callsIn_eq, ih.2, List.map_cons, List.sum_cons]

/-- The word of a name that is not the method's. -/
theorem Node.Keeps.spared (h : m.Keeps f) (hm : Derives .word m) :
    m.literal.IsWord ∧ f.Spares m.literal := by
  have hkind : m.kind = .identifier := by
    simpa [Category.forms, Category.wordForms] using hm.kind_mem h.clean
  exact ⟨hm.literal_isWord h.clean, h.confines.spares hkind⟩

/-- The simple name of a written type does not show the method. -/
theorem Node.Keeps.showsType (h : n.Keeps f) (hn : Derives .type n) :
    Shows f 0 (JavaType.ofNode n).simple := by
  obtain ⟨hword, hne⟩ := h.typeName hn
  exact .of_isWord hword hne

/-- A group of types stands for its first one. -/
theorem ofNode_typeGroup (hn : Derives .typeGroup n) (hclean : n.Clean) :
    ∃ first rest, n.children = first :: rest ∧ Derives .type first ∧
      JavaType.ofNode n = JavaType.ofNode first := by
  obtain ⟨form, hform, hkind, htoken, hitems⟩ := hn.form hclean
  obtain rfl := List.mem_singleton.1 hform
  obtain ⟨first, rest, heq, hfirst, -⟩ := Matches.one_iff.1 hitems
  refine ⟨first, rest, heq, hfirst, ?_⟩
  have hfirst' : first.kind = .type ∨ first.kind = .arrayType := by
    have hmem := hfirst.kind_mem (hclean.child (heq ▸ List.mem_cons_self))
    simpa [Category.forms, Category.typeForms] using hmem
  obtain ⟨kind, span, token, problem, children⟩ := n
  obtain ⟨kind', span', token', problem', children'⟩ := first
  dsimp only at hkind heq hfirst'
  obtain rfl : token = none := htoken
  subst hkind heq
  rw [ofNode_type]
  rcases hfirst' with rfl | rfl
  · rw [JavaType.ofParts, List.isEmpty_nil, if_pos rfl]
  · rw [JavaType.ofParts, List.isEmpty_nil, if_pos rfl]

end Nodes

section Expressions

variable {f : MethodName} {n l r op c : Node} {nodes front : List Node}

/-- What is written with its calls has them in its value. -/
theorem written_value (h : Written f l) (hl : Derives .expression l) :
    Returns f (attributed l).value (Calls f (l.calls f)) :=
  (h.value hl).mono fun _ hv => hv.calls

/-- Access to a field of a value. -/
theorem fieldAccess_returns (nodes : List Node) (hl : Written f l) (hl' : Derives .expression l)
    (hr : r.Keeps f)
    (hr' : Derives .word r) (hchildren : n.children = l :: nodes ++ [r]) :
    Returns f (fieldAccess n (n.children.map attributed)) (Unchained f (l.calls f)) := by
  obtain ⟨hw, hspares⟩ := hr.spared hr'
  have hlast : Parts.lastChild (n.children.map attributed) = pure (attributed r) := by
    rw [hchildren, List.map_append, Parts.lastChild, List.getLast?_append]
    rfl
  rw [fieldAccess, hlast, pure_bind]
  refine .ite (fun _ => .refuse _ _) fun _ => .ite (fun _ => .refuse _ _) fun _ => ?_
  rw [hchildren, List.cons_append, List.map_cons, child_zero, pure_bind]
  simp only [attributed_kind, attributed_literal]
  refine .ite (fun hself => ?_) fun _ => (written_value hl hl').bind fun v hv =>
    fieldOf_returns hv hw hspares
  have hself' : Derives .selfReference l := by
    have hforms : ∀ f ∈ Category.expression.forms, f.kind = .thisRef ∨ f.kind = .superRef →
        f ∈ Category.selfReference.forms := by decide
    exact hl'.of_kind hl.keeps.clean fun f hf hkind => hforms f hf (hkind ▸ hself)
  rw [hl.keeps.calls_of_plain hself' (by decide)]
  exact ownField_returns hw hspares

/-- Access to `this` or `super` of an outer class is refused. -/
theorem qualifiedSelf_returns {P : Value → Prop} (hr : r.Keeps f) (hr' : Derives .selfReference r)
    (hchildren : n.children = [l, r]) :
    Returns f (fieldAccess n (n.children.map attributed)) P := by
  have hself : r.kind = .thisRef ∨ r.kind = .superRef := by
    simpa [Category.forms, Category.selfForms] using hr'.kind_mem hr.clean
  have hlast : Parts.lastChild ([l, r].map attributed) = pure (attributed r) := rfl
  rw [hchildren, fieldAccess, hlast, pure_bind, attributed_kind]
  refine .ite (fun _ => .refuse _ _) fun hthis => .ite (fun _ => .refuse _ _) fun hsuper => ?_
  exact absurd hself (by simp [hthis, hsuper])

/-- The values of an argument list. -/
theorem arguments_return (hclean : r.Clean) (hr : Derives .arguments r)
    (hwritten : ∀ m ∈ r.children, Written f m) {before after : List Node}
    (hbefore : ∀ m ∈ before, m.kind ≠ .parameters) :
    Returns f (Parts.arguments ((before ++ r :: after).map attributed))
      (List.Forall₂ (Evaluates f) r.children) := by
  obtain ⟨hkind, hall⟩ : r.kind = .parameters ∧ DerivesAll .expression r.children :=
    hr.uniform hclean (by decide)
  have hfirst : (before ++ r :: after).find? (·.kind = .parameters) = some r := by
    rw [List.find?_append, List.find?_eq_none.2 (by simpa using hbefore), Option.none_or,
      List.find?_cons_of_pos (by simpa using hkind)]
  simp only [Parts.arguments, first?_map, hfirst, Option.map_some]
  rw [attributed_parts, List.mapM_map]
  exact .mapM fun m hm => (hwritten m hm).value (hall m hm)

/-- A new object of a class. -/
theorem newObject_returns (hl : l.Keeps f) (hl' : Derives .type l) (hr : r.Keeps f)
    (hr' : Derives .arguments r) (hwritten : ∀ m ∈ r.children, Written f m)
    (hchildren : n.children = [l, r]) :
    Returns f (newObject n (n.children.map attributed)) (Unchained f (r.calls f)) := by
  obtain ⟨hword, hne⟩ := hl.typeName hl'
  obtain ⟨hr₀, -⟩ : r.kind = .parameters ∧ DerivesAll .expression r.children :=
    hr'.uniform hr.clean (by decide)
  have hl₀ : l.kind ≠ .parameters := hl'.kind_ne hl.clean (by decide)
  have harguments : Returns f (Parts.arguments (([l] ++ [r]).map attributed))
      (List.Forall₂ (Evaluates f) r.children) :=
    arguments_return hr.clean hr' hwritten (by simpa using hl₀)
  unfold newObject
  rw [hchildren, List.map_cons, child_zero, pure_bind]
  refine .ite (fun _ => .refuse _ _) fun _ => ?_
  rw [← List.map_cons]
  split
  · exact .refuse _ _
  · refine harguments.bind fun vals hvals => Answers.read.bind fun around haround => ?_
    obtain ⟨hcounted, hcalls⟩ := counted_of_forall₂ hvals
    have htype : (attributed l).type = JavaType.ofNode l := by
      rw [Attributed.type, attributed_eq]
    rw [Node.calls_eq_sum (by rw [hr₀]; decide), ← hcalls, htype]
    have hlibrary : IfSome (Unchained f (f.callsInAll vals))
        (newLibraryObject? around (JavaType.ofNode l) vals) :=
      Unchained.newLibraryObject? hword hcounted
    split
    · next v hv =>
      rw [hv] at hlibrary
      exact .pure hlibrary
    · refine (classNamed_returns (.of_isWord hword hne)).bind fun target htarget => ?_
      refine (sendInit_returns ?_ (fun c hc => haround.members? hc) hcounted _).bind
        fun text htext => .pure (.typed htext _)
      exact htarget.message (.whole f (c := "alloc") (by simp [wholes]))

/-- A class with a body is refused. -/
theorem anonymousClass_returns {P : Value → Prop} (hbody : ∃ m ∈ n.children, m.kind = .block) :
    Returns f (newObject n (n.children.map attributed)) P := by
  unfold newObject
  refine .after fun type => .ite (fun _ => .refuse _ _) fun _ => ?_
  split
  · exact .refuse _ _
  · next hnone =>
    obtain ⟨m, hm, hkind⟩ := hbody
    rw [first?_map, Option.map_eq_none_iff, List.find?_eq_none] at hnone
    exact absurd hkind (by simpa using hnone m hm)

/-- A new array with its elements. What else stands in it has no calls. -/
theorem newArray_returns (hwritten : ∀ m ∈ n.children, Written f m)
    (hinit : ∀ m ∈ n.children, m.kind = .arrayInit → Derives .arrayInit m)
    (hcalls : ∀ m ∈ n.children, m.kind = .arrayInit → n.calls f = m.calls f) :
    Returns f (newArray n (n.children.map attributed)) (Unchained f (n.calls f)) := by
  unfold newArray
  rw [first?_map]
  cases hfirst : n.children.find? (·.kind = .arrayInit) with
  | none => exact .refuse _ _
  | some init =>
    have hmem := List.mem_of_find?_eq_some hfirst
    have hkind : init.kind = .arrayInit := by simpa using List.find?_some hfirst
    rw [hcalls init hmem hkind]
    exact .after fun _ => (hwritten init hmem).array (hinit init hmem hkind) _

/-- A class literal of a type or a name. -/
theorem classLiteralType_returns (hl : l.Keeps f) (hl' : Derives .classTarget l) :
    Returns f (classLiteralType (attributed l)) fun t =>
      t.isArray = false → Shows f 0 t.simple := by
  have htype : (attributed l).type = JavaType.ofNode l := by
    rw [Attributed.type, attributed_eq]
  simp only [classLiteralType, attributed_kind, htype, attributed_literal]
  split
  · next hkind =>
    have hl'' : Derives .type l := hl'.of_kind_eq hl.clean hkind (by decide)
    exact .pure fun _ => hl.showsType hl''
  · next hkind =>
    refine .pure fun harray => absurd harray ?_
    obtain ⟨kind, span, token, problem, children⟩ := l
    obtain rfl : kind = .arrayType := hkind
    cases children with
    | nil => simp [JavaType.ofNode, JavaType.isArray]
    | cons m rest => simp [JavaType.ofNode, JavaType.isArray, JavaType.addDepth]
  · next hkind =>
    have hl'' : Derives .word l := hl'.of_kind_eq hl.clean hkind (by decide)
    obtain ⟨hw, hspares⟩ := hl.spared hl''
    refine .pure fun _ => ?_
    rw [JavaType.simple, JavaType.named, simpleName_of_isWord hw]
    exact .spared hw hspares
  · exact .refuse _ _

/-- An element of an array in braces. -/
theorem arrayElement_returns (h : Written f l) (hl : Derives .initializer l) (t : JavaType) :
    Returns f (arrayElement t (attributed l)) (Shows f (l.calls f)) := by
  have hexpr : ∀ f ∈ Category.initializer.forms, f.kind ≠ .arrayInit →
      f ∈ Category.expression.forms := by decide
  simp only [arrayElement, attributed_kind]
  refine .ite (fun hkind => ?_) fun hkind => ?_
  · have hl' : Derives .arrayInit l := hl.of_kind_eq h.keeps.clean hkind (by decide)
    exact (h.array hl' t).bind fun v hv => .pure hv.text
  · have hl' : Derives .expression l :=
      hl.of_kind h.keeps.clean fun f hf hf' => hexpr f hf (hf' ▸ hkind)
    exact (written_value h hl').bind fun v hv => .pure (hv.coerce _)

/-- Values in braces. -/
theorem arrayInit_returns (hn : Derives .arrayInit n) (h : n.Keeps f)
    (hwritten : ∀ m ∈ n.children, Written f m) (t : JavaType) :
    Returns f (arrayLiteral (n.children.map attributed) t) (Unchained f (n.calls f)) := by
  obtain ⟨hkind, hall⟩ : n.kind = .arrayInit ∧ DerivesAll .initializer n.children :=
    hn.uniform h.clean (by decide)
  rw [Node.calls_eq_sum (by rw [hkind]; decide)]
  refine arrayLiteral_returns t (fun hnone => ?_) fun type => ?_
  · rw [List.map_eq_nil_iff] at hnone
    rw [hnone]
    rfl
  · rw [List.mapM_map]
    refine (Answers.mapM fun m hm => arrayElement_returns (hwritten m hm) (hall m hm) type).mono
      fun texts htexts => ?_
    clear hkind hall hn h hwritten
    generalize n.children = nodes at htexts ⊢
    induction htexts with
    | nil => exact .nil f
    | cons ht _ ih => exact .cons ht ih

end Expressions

section Calls

variable {f : MethodName} {n l r receiver name : Node} {rest : List Node} {vals : List Value}

/-- The name of a call and its arguments, when the method's name is used for its calls only. -/
structure Node.Naming (f : MethodName) (n r : Node) (w : Text) : Prop where
  names : ∀ vals : List Value, vals.length = r.children.length →
    f.Names (if n.isCallOf f then 1 else 0) w vals
  confines : ∀ m ∈ r.children, m.Confines f

/-- A call names the method without arguments, or something that is spared and is given only what is
confined. -/
theorem Node.Naming.of_cases {w : Text} (hw : w.IsWord) (hkind : r.kind ≠ .callExpr)
    (h : n.isCallOf f = false ∧ f.Spares w ∧ r.Confines f ∨
      n.isCallOf f = true ∧ w = f.text ∧ r.children = []) : n.Naming f r w := by
  rcases h with ⟨hcall, hspares, hr⟩ | ⟨hcall, rfl, hnone⟩
  · refine ⟨fun vals _ => ?_, fun m hm => hr.child hkind hm⟩
    rw [hcall]
    exact .other hw hspares
  · refine ⟨fun vals hlength => ?_, by simp [hnone]⟩
    rw [hnone] at hlength
    obtain rfl := List.length_eq_zero_iff.1 hlength
    rw [hcall]
    exact .own

/-- What a call of a method of a value gives goes on with the chain of the receiver. -/
theorem Evaluates.of_answers {r' v : Value} (hkind : n.kind = .callExpr)
    (hchildren : n.children = [l, r]) (hl : l.kind = .fieldAccess)
    (hparts : l.children = receiver :: rest ++ [name]) (hlength : vals.length = r.children.length)
    (hr : Evaluates f receiver r') (h : Answers f (n.calls f) r' name.literal vals v) :
    Evaluates f n v := by
  have happends : n.appends = true ↔
      LibraryCall.word name.literal = "append" ∧ r.children.length = 1 := by
    rw [Node.appends, Node.sending?_eq hkind hchildren hl hparts]
    simp
  refine ⟨h.calls, fun b hb => ?_, fun hnone hchain => ?_⟩
  · obtain ⟨hword, hone, hbuilder, hbuilder', rfl⟩ := h.chain b hb
    have hchain := happends.2 ⟨hword, hlength ▸ hone⟩
    refine ⟨hchain, hbuilder', ?_⟩
    rw [Node.chainBase_of_appends hkind hchildren hparts hchain]
    cases hb' : r'.builder with
    | some b' => exact (hr.chain b' hb').2.2
    | none =>
      have hfirst : receiver.appends = false := by
        rw [← Bool.not_eq_true]
        exact fun hmore => hr.ended hb' hmore hbuilder
      rw [Node.chainBase_of_not_appends hfirst]
      exact hr.calls.text
  · obtain ⟨hword, hone⟩ := happends.1 hchain
    exact h.ended hnone hword (hlength ▸ hone)

/-- Two properties of what an action returns hold together. -/
theorem Lower.Returns.and {α : Type} {P Q : α → Prop} {x : Lower α} (hP : Returns f x P)
    (hQ : Returns f x Q) : Returns f x fun a => P a ∧ Q a := fun around s a s' haround hresult =>
  ⟨hP around s a s' haround hresult, hQ around s a s' haround hresult⟩

/-- A method of an output stream gives nothing. -/
theorem streamCall_void (w : Text) (list : Parts) :
    Returns f (streamCall n w list vals) fun v => v.type = .void := by
  unfold streamCall
  split
  · exact .pure rfl
  · exact .pure rfl
  · exact .after fun _ => .after fun _ => .pure rfl
  · exact .after fun _ => .after fun _ => .pure rfl
  · exact .pure rfl
  · exact .pure rfl
  · exact .refuse _ _

/-- What a call with a receiver drops or writes again. -/
theorem Node.distorted_eq (hkind : n.kind = .callExpr) (hchildren : n.children = [l, r])
    (hl : l.kind = .fieldAccess) (hparts : l.children = receiver :: rest ++ [name]) :
    n.distorted = distortedChain receiver (LibraryCall.word name.literal) ++
      distortedArguments (LibraryCall.word name.literal) r.children := by
  rw [Node.distorted, hkind, hchildren, Node.sending?_eq hkind hchildren hl hparts]

/-- Arguments whose nodes have no calls. -/
theorem calls_eq_zero (h : List.Forall₂ (Evaluates f) rest vals)
    (hrest : ∀ m ∈ rest, m.calls f = 0) : f.callsInAll vals = 0 := by
  rw [(counted_of_forall₂ h).2, List.sum_eq_zero_iff_forall_eq_nat, List.forall_mem_map]
  exact hrest

/-- A call with a receiver: its parts, how its calls add up, and what its arguments give. -/
structure Node.Qualified (f : MethodName) (n l r receiver name : Node) (rest : List Node)
    (vals : List Value) : Prop where
  keeps : n.Keeps f
  kind : n.kind = .callExpr
  children : n.children = [l, r]
  access : l.kind = .fieldAccess
  parts : l.children = receiver :: rest ++ [name]
  calls : n.calls f =
    receiver.calls f + ((if n.isCallOf f then 1 else 0) + (r.children.map (Node.calls f)).sum)
  written : Written f receiver
  derives : Derives .expression receiver
  naming : n.Naming f r name.literal
  values : List.Forall₂ (Evaluates f) r.children vals

namespace Node.Qualified

variable (h : Qualified f n l r receiver name rest vals)

include h

/-- The calls of the whole are those of the receiver, of the name and of the values. -/
theorem calls_eq :
    n.calls f = receiver.calls f + ((if n.isCallOf f then 1 else 0) + f.callsInAll vals) := by
  rw [h.calls, (counted_of_forall₂ h.values).2]

/-- The name of the call, for the values of the arguments. -/
theorem names : f.Names (if n.isCallOf f then 1 else 0) name.literal vals :=
  h.naming.names vals h.values.length_eq.symm

theorem counted : Counted f vals :=
  (counted_of_forall₂ h.values).1

/-- The front of a chain that would be written again has no calls. -/
theorem chain :
    ∀ m ∈ distortedChain receiver (LibraryCall.word name.literal), m.calls f = 0 := fun _ hm =>
  h.keeps.distorted (distorted_eq h.kind h.children h.access h.parts ▸ List.mem_append_left _ hm)

/-- Arguments that would be dropped or written again have no calls. -/
theorem arguments :
    ∀ m ∈ distortedArguments (LibraryCall.word name.literal) r.children, m.calls f = 0 :=
  fun _ hm => h.keeps.distorted
    (distorted_eq h.kind h.children h.access h.parts ▸ List.mem_append_right _ hm)

/-- What a call of a method of the receiver gives is what the whole call evaluates to. -/
theorem evaluates {r' v : Value} (hr : Evaluates f receiver r')
    (ha : Answers f (receiver.calls f + ((if n.isCallOf f then 1 else 0) + f.callsInAll vals)) r'
      name.literal vals v) : Evaluates f n v :=
  .of_answers h.kind h.children h.access h.parts h.values.length_eq.symm hr (h.calls_eq ▸ ha)

/-- The arguments below the first one have no calls where only the first one is used. -/
theorem callsInAll_drop (hword : LibraryCall.word name.literal ∈ ["print", "println"]) :
    f.callsInAll (vals.drop 1) = 0 := by
  have harguments := h.arguments
  have hvals := h.values
  generalize r.children = nodes at harguments hvals
  cases hvals with
  | nil => rfl
  | cons _ hmore =>
    refine calls_eq_zero hmore fun o ho => harguments o ?_
    rcases List.mem_cons.1 hword with hword | hword
    · rwa [hword]
    · rwa [List.mem_singleton.1 hword]

/-- The operands that the first argument is printed from have the calls of its value. -/
theorem firstOperands (hwritten : ∀ m ∈ r.children, Written f m)
    (hall : DerivesAll .expression r.children) :
    ∀ a ∈ (r.children.map attributed).head?, Returns f a.meaning.operands fun p => Counted f p.1 ∧
    f.callsInAll p.1 = f.callsInAll (vals.take 1) := by
  intro a ha
  have hvals := h.values
  generalize r.children = nodes at ha hvals hwritten hall
  cases hvals with
  | nil => cases ha
  | @cons m u nodes us hfirst _ =>
    obtain rfl : attributed m = a := by simpa using ha
    refine ((hwritten m List.mem_cons_self).operands (hall m List.mem_cons_self)).mono
      fun p hp => ⟨hp.counted, ?_⟩
    simp [hp.calls, hfirst.calls.callsIn_eq]

/-- A call on `super`. -/
theorem super_returns (hsuper : receiver.kind = .superRef) :
    Returns f (superCall name.literal vals) (Evaluates f n) := by
  have hself : Derives .selfReference receiver :=
    h.derives.of_kind_eq h.written.keeps.clean hsuper (by decide)
  have hnone := h.written.keeps.calls_of_plain hself (by decide)
  have hreceiver : Evaluates f receiver (.typed "super" .unknown) := by
    refine .of_unchained (appends_of_kind (by rw [hsuper]; decide)) ?_
    rw [hnone]
    exact .typed (.whole f (by simp [wholes])) _
  refine (superCall_returns (r := .typed "super" .unknown) h.names h.counted).mono fun v hv =>
    h.evaluates hreceiver ?_
  rwa [hnone, Nat.zero_add]

/-- A call on an output stream: nothing is given, so no chain goes on. -/
theorem stream_returns {v : Value} (hv : Evaluates f receiver v) (hstream : v.isStream = true)
    (hr : r.kind = .parameters) (hwritten : ∀ m ∈ r.children, Written f m)
    (hall : DerivesAll .expression r.children) :
    Returns f
      (streamCall n name.literal
        (((Parts.first? ([l, r].map attributed) .parameters).map Attributed.parts).getD []) vals)
      (Evaluates f n) := by
  have hcalls := h.calls_eq
  rw [hv.calls.isStream hstream, Nat.zero_add] at hcalls
  have hlist : (((Parts.first? ([l, r].map attributed) .parameters).map
      Attributed.parts).getD []) = r.children.map attributed := by
    have hl : l.kind ≠ .parameters := by rw [h.access]; decide
    have hfirst : [l, r].find? (·.kind = .parameters) = some r := by simp [hl, hr]
    rw [first?_map, hfirst, Option.map_some, Option.map_some, Option.getD_some, attributed_parts]
  rw [hlist]
  refine ((streamCall_returns h.names h.counted (h.firstOperands hwritten hall)
    h.callsInAll_drop).and (streamCall_void _ _)).mono fun u hu => ?_
  have hvoid : CollectionKind.of? .void ≠ some .builder := by decide +kernel
  refine ⟨hcalls ▸ hu.1.toCalls, by simp [hu.1.builder], fun _ _ => ?_⟩
  rwa [hu.2]

/-- A call on a class. -/
theorem static_returns {v : Value} (hv : Evaluates f receiver v) {className : Text}
    (hclass : v.className = some className) :
    Returns f (staticCall n className name.literal vals) (Evaluates f n) := by
  obtain ⟨hnone, hword, hne⟩ := hv.calls.className className hclass
  have htime : LibraryCall.word name.literal ∈ ["currentTimeMillis", "nanoTime"] →
      f.callsInAll vals = 0 := by
    refine fun hlisted => calls_eq_zero h.values fun m hm => h.arguments m ?_
    rcases List.mem_cons.1 hlisted with hlisted | hlisted
    · rwa [hlisted]
    · rwa [List.mem_singleton.1 hlisted]
  refine (staticCall_returns (r := v) hword hne h.names h.counted htime).mono fun u hu =>
    h.evaluates hv ?_
  rwa [hnone, Nat.zero_add]

/-- What a chain began with, as often as the next call of the chain writes it again. -/
theorem builder_shows {v : Value} (hv : Evaluates f receiver v) {b : Text} (hb : b ∈ v.builder)
    (hlisted : LibraryCall.word name.literal ∈ ["append", "toString", "length"]) :
    Shows f (if LibraryCall.word name.literal = "length" then receiver.calls f else 0) b := by
  obtain ⟨happends, -, hshows⟩ := hv.chain b hb
  have hchain := h.chain
  rw [distortedChain, happends, Bool.not_true, if_neg (by decide)] at hchain
  split
  · next hword =>
    rw [if_pos hword, List.forall_mem_cons, List.forall_mem_singleton] at hchain
    rwa [hchain.1, ← hchain.2]
  · next hword =>
    have hlisted' : LibraryCall.word name.literal = "append" ∨
        LibraryCall.word name.literal = "toString" := by
      simpa [hword] using hlisted
    rw [if_neg hword, if_pos hlisted', List.forall_mem_singleton] at hchain
    rwa [← hchain]

/-- The start of a part of a string is written twice, so it has no calls. -/
theorem callsIn_start (hword : LibraryCall.word name.literal = "substring") {first stop : Value}
    (hargs : vals = [first, stop]) : f.callsIn first = 0 := by
  subst hargs
  obtain ⟨m, more, hfirst, hmore, heq⟩ := List.forall₂_cons_right_iff.1 h.values
  obtain ⟨m', none, -, hnone, rfl⟩ := List.forall₂_cons_right_iff.1 hmore
  obtain rfl := List.forall₂_nil_right_iff.1 hnone
  rw [hfirst.calls.callsIn_eq]
  exact h.arguments m (by simp [hword, heq, distortedArguments])

/-- A call on an object. -/
theorem instance_returns {v : Value} (hv : Evaluates f receiver v) :
    Returns f (instanceCall v name.literal vals) (Evaluates f n) :=
  (instanceCall_returns hv.calls h.names h.counted (fun b hb => (hv.chain b hb).2.1)
    (fun _ hb hlisted => h.builder_shows hv hb hlisted)
    fun hword _ _ hargs => h.callsIn_start hword hargs).mono fun _ hu => h.evaluates hv hu

end Node.Qualified

/-- A call with a receiver, by what the receiver is. -/
theorem qualifiedCall_returns (h : n.Qualified f l r receiver name rest vals)
    (hr : r.kind = .parameters) (hwritten : ∀ m ∈ r.children, Written f m)
    (hall : DerivesAll .expression r.children) :
    Returns f (qualifiedCall n ([l, r].map attributed) (l.children.map attributed) vals)
      (Evaluates f n) := by
  have hlast : Parts.lastChild (l.children.map attributed) = pure (attributed name) := by
    rw [h.parts, List.map_append, Parts.lastChild, List.getLast?_append]
    rfl
  unfold qualifiedCall
  rw [hlast, pure_bind, h.parts, List.cons_append, List.map_cons, child_zero, pure_bind]
  simp only [attributed_kind, attributed_literal]
  refine .ite (fun hsuper => h.super_returns hsuper) fun _ =>
    (h.written.value h.derives).bind fun v hv =>
      .ite (fun hstream => h.stream_returns hv hstream hr hwritten hall) fun _ => ?_
  cases hclass : v.className with
  | some className => exact h.static_returns hv hclass
  | none => exact h.instance_returns hv

/-- Below a child of a node, names are used for calls only if they are below its children. -/
theorem Node.Keeps.inner (h : n.Keeps f) {m o : Node} (hm : m ∈ n.children) (ho : o ∈ m.children)
    (hconfines : o.Confines f) : o.Keeps f where
  clean := (h.clean.child hm).child ho
  confines := hconfines
  proper p hp := h.proper p (Node.mem_walk_of_child hm (Node.mem_walk_of_child ho hp))
  kept p hp := h.kept p (Node.mem_walk_of_child hm (Node.mem_walk_of_child ho hp))

/-- A word has no calls. -/
theorem Derives.calls_of_word {m : Node} (hm : Derives .word m) (hclean : m.Clean) :
    m.kind = .identifier ∧ m.calls f = 0 := by
  obtain ⟨form, hform, hkind, -, hitems⟩ := hm.form hclean
  obtain rfl := List.mem_singleton.1 hform
  rw [Matches.nil_iff] at hitems
  refine ⟨hkind, ?_⟩
  rw [Node.calls_eq_sum (by rw [hkind]; decide), hitems]
  rfl

/-- The receiver and the name in the target of a call with a receiver. -/
theorem Node.Keeps.target (h : n.Keeps f) (hkind : n.kind = .callExpr)
    (hchildren : n.children = [l, r]) (hl : l.kind = .fieldAccess) (hl' : Derives .expression l) :
    ∃ receiver rest name, l.children = receiver :: rest ++ [name] ∧ Derives .expression receiver ∧
      DerivesAll .typeArguments rest ∧ Derives .word name := by
  have hclean : ∀ m ∈ l.children, m.Clean := fun m hm =>
    (h.clean.child (hchildren ▸ List.mem_cons_self)).child hm
  have hitems : Matches [.one .expression, .optional .typeArguments, .one .word] l.children ∨
      Matches [.one .expression, .one .selfReference] l.children :=
    hl'.items_or_of_kind (h.clean.child (hchildren ▸ List.mem_cons_self)) hl (by decide)
  rcases hitems with hitems | hitems
  · simp only [Matches.one_iff, Matches.optional_iff, Matches.nil_iff] at hitems
    obtain ⟨receiver, _, hparts, hreceiver, ⟨name, _, rfl, hname, rfl⟩ |
      ⟨list, _, rfl, hlist, name, _, rfl, hname, rfl⟩⟩ := hitems
    · exact ⟨receiver, [], name, hparts, hreceiver, by simp, hname⟩
    · exact ⟨receiver, [list], name, hparts, hreceiver, by simpa using hlist, hname⟩
  · simp only [Matches.one_iff, Matches.nil_iff] at hitems
    obtain ⟨receiver, _, hparts, -, self, _, rfl, hself, rfl⟩ := hitems
    have hname : self.kind = .identifier := by
      refine (h.proper n n.mem_walk).callName self ?_
      simp [Node.callName?, Node.callParts?_eq hkind hchildren, hl, hparts]
    have hself' : self.kind = .thisRef ∨ self.kind = .superRef := by
      have hmem := hself.kind_mem (hclean self (by simp [hparts]))
      simpa [Category.forms, Category.selfForms] using hmem
    rw [hname] at hself'
    exact absurd hself' (by decide)

/-- A call that keeps its calls, where everything below its two parts is written. -/
structure Node.Calling (f : MethodName) (n l r : Node) : Prop where
  keeps : n.Keeps f
  kind : n.kind = .callExpr
  children : n.children = [l, r]
  target : Derives .expression l
  listed : Derives .arguments r
  below : ∀ m ∈ n.children, ∀ o ∈ m.children, o.Keeps f → Written f o

namespace Node.Calling

variable (h : n.Calling f l r)

include h

theorem mem_left : l ∈ n.children := h.children ▸ List.mem_cons_self

theorem mem_right : r ∈ n.children := by simp [h.children]

theorem clean_left : l.Clean := h.keeps.clean.child h.mem_left

theorem clean_right : r.Clean := h.keeps.clean.child h.mem_right

/-- The second part is a list of expressions. -/
theorem arguments : r.kind = .parameters ∧ DerivesAll .expression r.children :=
  h.listed.uniform h.clean_right (by decide)

theorem right_ne : r.kind ≠ .callExpr := by
  rw [h.arguments.1]
  decide

/-- A call has the calls of what it is a call of and of the arguments, and may be one itself. -/
theorem calls_eq : n.calls f = (if n.isCallOf f then 1 else 0) +
    (l.calls f + (r.children.map (Node.calls f)).sum) := by
  rw [Node.calls_eq, h.children, ← Node.calls_eq_sum h.right_ne]
  simp

/-- The arguments are written unless the name of the method leaves some out. -/
theorem written {w : Text} (hnaming : n.Naming f r w) : ∀ m ∈ r.children, Written f m :=
  fun m hm => h.below r h.mem_right m hm (h.keeps.inner h.mem_right hm (hnaming.confines m hm))

/-- The values of the arguments. -/
theorem values_return {w : Text} (hnaming : n.Naming f r w) :
    Returns f (Parts.arguments (([l] ++ [r]).map attributed))
      (List.Forall₂ (Evaluates f) r.children) :=
  JavaObjC.arguments_return h.clean_right h.listed (h.written hnaming)
    (by simpa using h.target.kind_ne h.clean_left (by decide))

/-- A call without a receiver. -/
theorem unqualified (hl : l.kind = .identifier) :
    Returns f (call n (n.children.map attributed)) (Evaluates f n) := by
  have hword : Derives .word l := h.target.of_kind_eq h.clean_left hl (by decide)
  have hnaming : n.Naming f r l.literal := .of_cases (hword.literal_isWord h.clean_left) h.right_ne
    (h.keeps.confines.unqualified h.kind h.children hl)
  have happends : n.appends = false := by
    simp [Node.appends, Node.sending?, Node.callParts?_eq h.kind h.children, hl]
  unfold call
  rw [h.children, List.map_cons, child_zero, pure_bind, ← List.map_cons]
  simp only [attributed_kind, attributed_literal]
  refine (h.values_return hnaming).bind fun vals hvals => ?_
  rw [if_pos hl]
  obtain ⟨hcounted, hsum⟩ := counted_of_forall₂ hvals
  have hcalls := h.calls_eq
  rw [(hword.calls_of_word h.clean_left).2, Nat.zero_add, ← hsum] at hcalls
  refine (unqualifiedCall_returns (hnaming.names vals hvals.length_eq.symm) hcounted).mono
    fun v hv => .of_unchained happends (hcalls ▸ hv)

/-- A call with a receiver. -/
theorem qualified (hl : l.kind = .fieldAccess) :
    Returns f (call n (n.children.map attributed)) (Evaluates f n) := by
  obtain ⟨receiver, rest, name, hparts, hreceiver, hrest, hname⟩ :=
    h.keeps.target h.kind h.children hl h.target
  have hname_clean : name.Clean := h.clean_left.child (by simp [hparts])
  obtain ⟨hname₀, hname₁⟩ := hname.calls_of_word (f := f) hname_clean
  obtain ⟨hfront, hcases⟩ := h.keeps.confines.qualified h.kind h.children hl hparts hname₀
  have hnaming : n.Naming f r name.literal :=
    .of_cases (hname.literal_isWord hname_clean) h.right_ne hcases
  have hkeeps : ∀ m ∈ receiver :: rest, m.Keeps f := fun m hm =>
    h.keeps.inner h.mem_left (hparts ▸ List.mem_append_left _ hm) (hfront m hm)
  have hnone : (rest.map (Node.calls f)).sum = 0 := by
    rw [List.sum_eq_zero_iff_forall_eq_nat, List.forall_mem_map]
    exact fun m hm => (hkeeps m (List.mem_cons_of_mem _ hm)).calls_of_plain (hrest m hm) (by decide)
  have hcalls := h.calls_eq
  have hreceiver' : l.calls f = receiver.calls f := by
    rw [Node.calls_eq_sum (by rw [hl]; decide), hparts]
    simp [hnone, hname₁]
  rw [hreceiver', Nat.add_left_comm] at hcalls
  have hwritten : Written f receiver :=
    h.below l h.mem_left receiver (by simp [hparts]) (hkeeps receiver List.mem_cons_self)
  unfold call
  rw [h.children, List.map_cons, child_zero, pure_bind, ← List.map_cons]
  simp only [attributed_kind, attributed_parts]
  refine (h.values_return hnaming).bind fun vals hvals => ?_
  rw [if_neg (by rw [hl]; decide), if_pos hl]
  have hqualified : n.Qualified f l r receiver name rest vals :=
    ⟨h.keeps, h.kind, h.children, hl, hparts, hcalls, hwritten, hreceiver, hnaming, hvals⟩
  exact qualifiedCall_returns hqualified h.arguments.1 (h.written hnaming) h.arguments.2

/-- A call of a name or of a member; a call of anything else is refused. -/
theorem returns : Returns f (call n (n.children.map attributed)) (Evaluates f n) := by
  by_cases hname : l.kind = .identifier
  · exact h.unqualified hname
  · by_cases haccess : l.kind = .fieldAccess
    · exact h.qualified haccess
    · unfold call
      rw [h.children, List.map_cons, child_zero, pure_bind, ← List.map_cons]
      simp only [attributed_kind]
      refine .after fun _ => ?_
      rw [if_neg hname, if_neg haccess]
      exact .refuse _ _

end Node.Calling

end Calls

section Trees

variable {f : MethodName} {n m l r op : Node}

/-- An element of an array. -/
theorem element_parts (h : Written f l) (hl : Derives .expression l)
    (hbelow : ∀ o ∈ l.children, o.Keeps f → Written f o) (hkind : l.kind = .arrayAccess) :
    ∃ a b : Node, (attributed l).parts = [attributed a, attributed b] ∧
      l.calls f = a.calls f + b.calls f ∧ Returns f (attributed a).value (Calls f (a.calls f)) ∧
        Returns f (attributed b).value (Calls f (b.calls f)) := by
  obtain ⟨a, b, heq, ha, hb⟩ := arrayAccess_children h.keeps.clean hl hkind
  have hne : l.kind ≠ .callExpr := by rw [hkind]; decide
  have hwritten : ∀ m ∈ l.children, Written f m := fun m hm =>
    hbelow m hm (h.keeps.child hne hm)
  refine ⟨a, b, by rw [attributed_parts, heq]; rfl, ?_, ?_, ?_⟩
  · rw [Node.calls_eq_sum hne, heq]
    simp
  · exact written_value (hwritten a (by simp [heq])) ha
  · exact written_value (hwritten b (by simp [heq])) hb

/-- An increment or decrement. -/
theorem stepOf_returns (ho : isOperator op.literal = true) (hl : Written f l)
    (hl' : Derives .expression l) (hbelow : ∀ o ∈ l.children, o.Keeps f → Written f o)
    (hnone : l.calls f = 0) (isBefore : Bool) :
    Returns f (step (attributed l) op.literal isBefore) (Unchained f (l.calls f)) := by
  have hvalue := written_value hl hl'
  rw [hnone] at hvalue ⊢
  refine step_returns ho hvalue (fun hkind => ?_) isBefore
  rw [attributed_kind] at hkind
  obtain ⟨a, b, hparts, hcalls, ha, hb⟩ := element_parts hl hl' hbelow hkind
  rw [hnone] at hcalls
  obtain ⟨ha₀, hb₀⟩ := Nat.add_eq_zero_iff.1 hcalls.symm
  exact ⟨_, _, hparts, ha₀ ▸ ha, hb₀ ▸ hb⟩

/-- An assignment. -/
theorem assign_returns (ho : isOperator op.literal = true) (hl : Written f l) (hr : Written f r)
    (hl' : Derives .expression l) (hr' : Derives .expression r)
    (hbelow : ∀ o ∈ l.children, o.Keeps f → Written f o)
    (hrepeats : Node.repeats l op = true → l.calls f = 0) :
    Returns f (assign ([l, op, r].map attributed)) (Unchained f (l.calls f + r.calls f)) := by
  have hright := written_value hr hr'
  unfold assign
  simp only [List.map_cons, List.map_nil, child_zero, child_succ, pure_bind, attributed_kind,
    attributed_literal]
  refine .ite (fun hkind => ?_) fun hkind => ?_
  · obtain ⟨a, b, hparts, hcalls, ha, hb⟩ := element_parts hl hl' hbelow hkind
    rw [hcalls]
    refine assignElement_returns hparts ho ha hb hright fun hop => ?_
    rw [hcalls] at hrepeats
    exact Nat.add_eq_zero_iff.1 (hrepeats (by simp [Node.repeats, hkind, hop]))
  · refine assignVariable_returns ho (written_value hl hl') hright (hr.operands hr') fun hop => ?_
    exact hrepeats (by simpa [Node.repeats, hkind] using hop)

/-- What is the left end of a sum. -/
theorem leftOperands_returns (h : n.Keeps f) (hn : Derives .expression n)
    (hwritten : n.kind ≠ .callExpr → ∀ m ∈ n.children, Written f m)
    (hvalue : Returns f (expression n (n.children.map attributed)) (Evaluates f n)) :
    Returns f (leftOperands n (n.children.map attributed)) (Summed f (n.calls f)) := by
  have hsingle : Returns f (expression n (n.children.map attributed) >>= fun v =>
      Pure.pure ([v], isStringType v.type)) (Summed f (n.calls f)) :=
    hvalue.bind fun v hv => .pure ⟨counted_cons.2 ⟨hv.calls.counted, counted_nil f⟩,
      by simp [hv.calls.callsIn_eq], by simp, by simp⟩
  unfold leftOperands
  by_cases hkind : n.kind = .binaryExpr
  · have hne : n.kind ≠ .callExpr := by rw [hkind]; decide
    obtain ⟨l, op, r, heq, hl, hop, hr⟩ := hn.three_of_kind (a := .expression) (b := .mark)
      (d := .expression) h.clean hkind (by decide)
    have hl₁ := hwritten hne l (by simp [heq])
    have hr₁ := hwritten hne r (by simp [heq])
    have hop₁ : op.calls f = 0 := (h.child hne (by simp [heq])).calls_of_plain hop (by decide)
    have hcalls : n.calls f = l.calls f + r.calls f := by
      rw [Node.calls_eq_sum hne, heq]
      simp [hop₁]
    rw [if_pos hkind]
    refine .after fun isSum => .ite (fun _ => ?_) fun _ => hsingle
    rw [heq, hcalls]
    exact (sumOperands_returns (hl₁.operands hl) (written_value hr₁ hr)).mono fun p hp => hp.1
  · rw [if_neg hkind, pure_bind]
    exact hsingle

/-- A node that is no call, with its children and theirs written. -/
structure Node.Prepared (f : MethodName) (n : Node) : Prop where
  keeps : n.Keeps f
  noCall : n.kind ≠ .callExpr
  derives : Derives .expression n
  written : ∀ m ∈ n.children, Written f m
  below : ∀ m ∈ n.children, ∀ o ∈ m.children, o.Keeps f → Written f o

/-- Generating code for a node gives the calls of its tree and goes on with no chain. -/
def Node.GivesCalls (f : MethodName) (n : Node) : Prop :=
  Returns f (expression n (n.children.map attributed)) (Unchained f (n.calls f))

namespace Node.Prepared

variable {c : Category}

variable (h : n.Prepared f)

include h

/-- The children of a node of a kind with a single form. -/
theorem items {kind : NodeKind} (hkind : n.kind = kind) {items : List Item}
    (hforms : ∀ form ∈ Category.expression.forms, form.kind = kind → form.items = items) :
    Matches items n.children := h.derives.items_of_kind h.keeps.clean hkind hforms

theorem calls_eq : n.calls f = (n.children.map (Node.calls f)).sum :=
  Node.calls_eq_sum h.noCall

/-- A child of a plain category has no calls. -/
theorem calls_of_plain (hm : m ∈ n.children) (hderives : Derives c m) (hc : c ∈ Category.plain) :
    m.calls f = 0 :=
  (h.keeps.child h.noCall hm).calls_of_plain hderives hc

/-- The value of a child has the calls of the child. -/
theorem value (hm : m ∈ n.children) (hderives : Derives .expression m) :
    Returns f (attributed m).value (Calls f (m.calls f)) := written_value (h.written m hm) hderives

/-- The operator of a node is one of the language. -/
theorem isOperator_of {op : Node} (hop : op ∈ n.operator?) :
    isOperator op.literal = true := (h.keeps.proper n n.mem_walk).operator op hop

/-- A node without children has no calls. -/
theorem calls_of_leaf (hitems : Matches [] n.children) : n.calls f = 0 := by
  rw [h.calls_eq, Matches.nil_iff.1 hitems]
  rfl

/-- A literal is one token and has no calls. -/
theorem literal (hkind : n.kind = .literal) : n.GivesCalls f := by
  rw [GivesCalls, h.calls_of_leaf (h.items hkind (by decide))]
  simp only [expression, hkind]
  exact literal_returns (h.keeps.proper n n.mem_walk).token

/-- A name has no calls, whatever it is found to mean. -/
theorem identifier (hkind : n.kind = .identifier) : n.GivesCalls f := by
  have hword : Derives .word n := h.derives.of_kind_eq h.keeps.clean hkind (by decide)
  obtain ⟨hw, hspares⟩ := h.keeps.spared hword
  rw [GivesCalls, h.calls_of_leaf (h.items hkind (by decide))]
  simp only [expression, hkind]
  exact identifier_returns hw hspares

/-- `this` and `super` are written as words of their own. -/
theorem selfReference (hkind : n.kind = .thisRef ∨ n.kind = .superRef) : n.GivesCalls f := by
  rcases hkind with hkind | hkind
  all_goals
    rw [GivesCalls, h.calls_of_leaf (h.items hkind (by decide))]
    simp only [expression, hkind]
    exact .after fun _ => .pure (.typed (.whole f (by simp [wholes])) _)

/-- Parentheses have the calls of what they hold. -/
theorem parenthesis (hkind : n.kind = .parenExpr) : n.GivesCalls f := by
  obtain ⟨inner, heq, hinner⟩ := h.derives.one_of_kind (a := .expression) h.keeps.clean hkind
    (by decide)
  have hcalls : n.calls f = inner.calls f := by rw [h.calls_eq, heq]; simp
  rw [GivesCalls, hcalls, heq]
  simp only [expression, hkind]
  exact parenthesized_returns (h.value (by simp [heq]) hinner)

/-- Type arguments in front of a member have no calls. -/
theorem member (hkind : n.kind = .fieldAccess)
    (hitems : Matches [.one .expression, .optional .typeArguments, .one .word] n.children) :
    n.GivesCalls f := by
  simp only [Matches.one_iff, Matches.optional_iff, Matches.nil_iff] at hitems
  obtain ⟨l, nodes, r, heq, hl, hnodes, hr⟩ : ∃ l nodes r, n.children = l :: nodes ++ [r] ∧
      Derives .expression l ∧ DerivesAll .typeArguments nodes ∧ Derives .word r := by
    obtain ⟨l, _, heq, hl, ⟨r, _, rfl, hr, rfl⟩ | ⟨list, _, rfl, hlist, r, _, rfl, hr, rfl⟩⟩ :=
      hitems
    · exact ⟨l, [], r, heq, hl, .nil, hr⟩
    · exact ⟨l, [list], r, heq, hl, DerivesAll.cons_iff.2 ⟨hlist, .nil⟩, hr⟩
  have hnone : (nodes.map (Node.calls f)).sum = 0 := by
    rw [List.sum_eq_zero_iff_forall_eq_nat, List.forall_mem_map]
    exact fun m hm => h.calls_of_plain (by simp [heq, hm]) (hnodes m hm) (by decide)
  have hcalls : n.calls f = l.calls f := by
    rw [h.calls_eq, heq]
    simp [hnone, h.calls_of_plain (m := r) (by simp [heq]) hr (by decide)]
  rw [GivesCalls, hcalls]
  simp only [expression, hkind]
  exact fieldAccess_returns nodes (h.written l (by simp [heq])) hl
    (h.written r (by simp [heq])).keeps hr heq

/-- A member of a value, or a `this` or `super` behind the name of a class. -/
theorem fieldAccess (hkind : n.kind = .fieldAccess) : n.GivesCalls f := by
  have hitems : Matches [.one .expression, .optional .typeArguments, .one .word] n.children ∨
      Matches [.one .expression, .one .selfReference] n.children := 
      h.derives.items_or_of_kind h.keeps.clean hkind (by decide)
  rcases hitems with hitems | hitems
  · exact h.member hkind hitems
  · obtain ⟨l, _, heq, hl, hrest⟩ := Matches.one_iff.1 hitems
    obtain ⟨r, _, rfl, hr, hnone⟩ := Matches.one_iff.1 hrest
    obtain rfl := Matches.nil_iff.1 hnone
    simp only [GivesCalls, expression, hkind]
    exact qualifiedSelf_returns (h.keeps.child h.noCall (by simp [heq])) hr heq

/-- A new object of a class, or a class with a body, which is refused. -/
theorem creation (hkind : n.kind = .newExpr)
    (hitems : Matches [.one .type, .one .arguments, .optional .classBody] n.children) :
    n.GivesCalls f := by
  simp only [Matches.one_iff, Matches.optional_iff, Matches.nil_iff] at hitems
  obtain ⟨l, _, heq, hl, r, nodes, rfl, hr, rfl | ⟨body, _, rfl, hbody, rfl⟩⟩ := hitems
  · have hr₁ := (h.written r (by simp [heq])).keeps
    have hr₀ : r.kind ≠ .callExpr := hr.kind_ne hr₁.clean (by decide)
    have hcalls : n.calls f = r.calls f := by
      rw [h.calls_eq, heq]
      simp [h.calls_of_plain (m := l) (by simp [heq]) hl (by decide)]
    rw [GivesCalls, hcalls]
    simp only [expression, hkind]
    exact newObject_returns (h.written l (by simp [heq])).keeps hl hr₁ hr
      (fun m hm => h.below r (by simp [heq]) m hm (hr₁.child hr₀ hm)) heq
  · have hbody₀ := hbody.kind_mem (h.written body (by simp [heq])).keeps.clean
    simp only [GivesCalls, expression, hkind]
    exact anonymousClass_returns ⟨body, by simp [heq], by simpa [Category.forms] using hbody₀⟩

/-- A new object of an inner class is refused. -/
theorem newObject (hkind : n.kind = .newExpr) : n.GivesCalls f := by
  have hitems : Matches [.one .type, .one .arguments, .optional .classBody] n.children ∨
      Matches [.one .expression, .one .word, .optional .typeArguments, .one .arguments,
        .optional .classBody] n.children := 
      h.derives.items_or_of_kind h.keeps.clean hkind (by decide)
  rcases hitems with hitems | hitems
  · exact h.creation hkind hitems
  · obtain ⟨l, _, heq, hl, -⟩ := Matches.one_iff.1 hitems
    have htype : l.kind ≠ .type :=
      hl.kind_ne (h.written l (by simp [heq])).keeps.clean (by decide)
    simp only [GivesCalls, expression, hkind]
    rw [heq, Lowering.newObject]
    simp only [List.map_cons, child_zero, pure_bind, attributed_kind, htype, ne_eq,
      not_false_eq_true, if_true]
    exact .refuse _ _

/-- The type and the lengths of a new array are dropped, so they have no calls. -/
theorem newArray (hkind : n.kind = .newArrayExpr) : n.GivesCalls f := by
  have hitems : Matches [.one .type, .many .expression, .optional .arrayInit] n.children :=
    h.items hkind (by decide)
  simp only [Matches.one_iff, Matches.optional_iff, Matches.many_iff, Matches.nil_iff] at hitems
  obtain ⟨l, _, heq, hl, lengths, nodes, rfl, hlengths, hnodes⟩ := hitems
  have hclean : ∀ m ∈ n.children, m.Clean := fun m hm => (h.written m hm).keeps.clean
  have hne : ∀ m ∈ l :: lengths, m.kind ≠ .arrayInit := by
    refine List.forall_mem_cons.2 ⟨?_, fun m hm => ?_⟩
    · exact hl.kind_ne (hclean l (by simp [heq])) (by decide)
    · exact (hlengths m hm).kind_ne (hclean m (by simp [heq, hm])) (by decide)
  have hnone : ∀ m ∈ l :: lengths, m.calls f = 0 := fun m hm => by
    refine h.keeps.distorted ?_
    have hmem : m ∈ n.children := by
      rw [heq, ← List.cons_append]
      exact List.mem_append_left _ hm
    simpa [distorted, hkind, hmem] using hne m hm
  have hfront : ((l :: lengths).map (Node.calls f)).sum = 0 := by
    rw [List.sum_eq_zero_iff_forall_eq_nat, List.forall_mem_map]
    exact hnone
  have hlast : ∀ m ∈ n.children, m.kind = .arrayInit → m ∈ nodes := fun m hm hinit => by
    rw [heq, ← List.cons_append, List.mem_append] at hm
    exact hm.resolve_left fun hm => hne m hm hinit
  simp only [GivesCalls, expression, hkind]
  refine newArray_returns h.written (fun m hm hinit => ?_) fun m hm hinit => ?_
  · have hm' := hlast m hm hinit
    rcases hnodes with rfl | ⟨init, _, rfl, hinit', rfl⟩
    · cases hm'
    · exact List.mem_singleton.1 hm' ▸ hinit'
  · have hm' := hlast m hm hinit
    rw [h.calls_eq, heq, ← List.cons_append, List.map_append, List.sum_append, hfront]
    rcases hnodes with rfl | ⟨init, _, rfl, -, rfl⟩
    · cases hm'
    · simp [List.mem_singleton.1 hm']

/-- An element has the calls of the array and of the index, each once. -/
theorem arrayAccess (hkind : n.kind = .arrayAccess) : n.GivesCalls f := by
  obtain ⟨l, r, heq, hl, hr⟩ := h.derives.two_of_kind (a := .expression) (b := .expression)
    h.keeps.clean hkind (by decide)
  have hcalls : n.calls f = l.calls f + r.calls f := by rw [h.calls_eq, heq]; simp
  rw [GivesCalls, hcalls, heq]
  simp only [expression, hkind]
  exact arrayAccess_returns (h.value (by simp [heq]) hl) (h.value (by simp [heq]) hr)

/-- The operand of an operator that assigns is written again, so it has no calls. -/
theorem postfixOperator (hkind : n.kind = .postfixExpr) : n.GivesCalls f := by
  obtain ⟨l, op, heq, hl, hop⟩ := h.derives.two_of_kind (a := .expression) (b := .mark)
    h.keeps.clean hkind (by decide)
  have hcalls : n.calls f = l.calls f := by
    rw [h.calls_eq, heq]
    simp [h.calls_of_plain (m := op) (by simp [heq]) hop (by decide)]
  rw [GivesCalls, hcalls, heq]
  simp only [expression, hkind, Lowering.postfixOperator, List.map_cons, List.map_nil, child_zero,
    child_succ, pure_bind, attributed_literal]
  refine stepOf_returns (h.isOperator_of ?_) (h.written l (by simp [heq])) hl
    (h.below l (by simp [heq])) (h.keeps.distorted ?_) _
  · simp [operator?, hkind, heq]
  · simp [distorted, hkind, heq]

/-- A prefix operator assigns to its operand, negates it, or signs it. -/
theorem unary (hkind : n.kind = .unaryExpr) : n.GivesCalls f := by
  obtain ⟨op, l, heq, hop, hl⟩ := h.derives.two_of_kind (a := .mark) (b := .expression)
    h.keeps.clean hkind (by decide)
  have hcalls : n.calls f = l.calls f := by
    rw [h.calls_eq, heq]
    simp [h.calls_of_plain (m := op) (by simp [heq]) hop (by decide)]
  have hmarks : isOperator op.literal = true :=
    h.isOperator_of (by simp [operator?, hkind, heq])
  rw [GivesCalls, hcalls, heq]
  simp only [expression, hkind, Lowering.unary, List.map_cons, List.map_nil, child_zero,
    child_succ, pure_bind, attributed_literal]
  refine .ite (fun hstep => ?_) fun _ => (h.value (by simp [heq]) hl).bind fun v hv => .ite
    (fun _ => .pure (.typed (hv.unboxed.keyed (by simp [openings])) _)) fun _ =>
      .pure (.typed (hv.unboxed.signed hmarks) _)
  refine stepOf_returns hmarks (h.written l (by simp [heq])) hl (h.below l (by simp [heq]))
    (h.keeps.distorted ?_) _
  simp [distorted, hkind, heq, hstep]

/-- The type of a cast has no calls. -/
theorem cast (hkind : n.kind = .castExpr) : n.GivesCalls f := by
  obtain ⟨group, l, heq, hgroup, hl⟩ := h.derives.two_of_kind (a := .typeGroup) (b := .expression)
    h.keeps.clean hkind (by decide)
  have hgroup₁ := (h.written group (by simp [heq])).keeps
  have hcalls : n.calls f = l.calls f := by
    rw [h.calls_eq, heq]
    simp [h.calls_of_plain (m := group) (by simp [heq]) hgroup (by decide)]
  obtain ⟨first, rest, heq', hfirst, htype⟩ := ofNode_typeGroup hgroup hgroup₁.clean
  have hgroup₀ : group.kind ≠ .callExpr := hgroup.kind_ne hgroup₁.clean (by decide)
  have hfirst₁ := hgroup₁.child hgroup₀ (heq' ▸ List.mem_cons_self)
  rw [GivesCalls, hcalls, heq]
  simp only [expression, hkind]
  refine cast_returns (fun _ => ?_) (h.value (by simp [heq]) hl)
  rw [Attributed.type, attributed_eq, htype]
  exact hfirst₁.showsType hfirst

/-- A test for a type; a pattern in it is refused. -/
theorem instanceTest (hkind : n.kind = .instanceofExpr) : n.GivesCalls f := by
  have hitems : Matches [.one .expression, .one .type, .optional .word] n.children :=
    h.items hkind (by decide)
  simp only [Matches.one_iff, Matches.optional_iff, Matches.nil_iff] at hitems
  obtain ⟨l, _, heq, hl, r, _, rfl, hr, rfl | ⟨pattern, _, rfl, -, rfl⟩⟩ := hitems
  · have hr₁ := (h.written r (by simp [heq])).keeps
    have hcalls : n.calls f = l.calls f := by
      rw [h.calls_eq, heq]
      simp [hr₁.calls_of_plain hr (by decide)]
    rw [GivesCalls, hcalls, heq]
    simp only [expression, hkind]
    refine instanceTest_returns (h.value (by simp [heq]) hl) fun _ => ?_
    rw [Attributed.type, attributed_eq]
    exact hr₁.showsType hr
  · rw [GivesCalls, heq]
    simp only [expression, hkind]
    exact .refuse _ _

/-- Both operands are written, each with its calls, also where texts are joined. -/
theorem binary (hkind : n.kind = .binaryExpr) : n.GivesCalls f := by
  obtain ⟨l, op, r, heq, hl, hop, hr⟩ := h.derives.three_of_kind (a := .expression) (b := .mark)
    (d := .expression) h.keeps.clean hkind (by decide)
  have hcalls : n.calls f = l.calls f + r.calls f := by
    rw [h.calls_eq, heq]
    simp [h.calls_of_plain (m := op) (by simp [heq]) hop (by decide)]
  rw [GivesCalls, hcalls, heq]
  simp only [expression, hkind]
  refine binary_returns (h.value (by simp [heq]) hl) ((h.written l (by simp [heq])).operands hl)
    (h.value (by simp [heq]) hr) ?_
  rw [attributed_literal]
  exact h.isOperator_of (by simp [operator?, hkind, heq])

/-- The condition and both branches are written once. -/
theorem ternary (hkind : n.kind = .ternaryExpr) : n.GivesCalls f := by
  obtain ⟨c, l, r, heq, hc, hl, hr⟩ := h.derives.three_of_kind (a := .expression) (b := .expression)
    (d := .expression) h.keeps.clean hkind (by decide)
  have hcalls : n.calls f = c.calls f + (l.calls f + r.calls f) := by rw [h.calls_eq, heq]; simp
  rw [GivesCalls, hcalls, heq]
  simp only [expression, hkind]
  exact ternary_returns (h.value (by simp [heq]) hc) (h.value (by simp [heq]) hl)
    (h.value (by simp [heq]) hr)

/-- The left side of an assignment that writes it again has no calls. -/
theorem assign (hkind : n.kind = .assignExpr) : n.GivesCalls f := by
  obtain ⟨l, op, r, heq, hl, hop, hr⟩ := h.derives.three_of_kind (a := .expression) (b := .mark)
    (d := .expression) h.keeps.clean hkind (by decide)
  have hcalls : n.calls f = l.calls f + r.calls f := by
    rw [h.calls_eq, heq]
    simp [h.calls_of_plain (m := op) (by simp [heq]) hop (by decide)]
  rw [GivesCalls, hcalls, heq]
  simp only [expression, hkind]
  refine assign_returns (h.isOperator_of ?_) (h.written l (by simp [heq]))
    (h.written r (by simp [heq])) hl hr (h.below l (by simp [heq])) fun hrepeats =>
      h.keeps.distorted ?_
  · simp [operator?, hkind, heq]
  · simp [distorted, hkind, heq, hrepeats]

/-- The type of a class literal is written as a name, so it has no calls. -/
theorem classLiteral (hkind : n.kind = .classLiteral) : n.GivesCalls f := by
  obtain ⟨l, heq, hl⟩ := h.derives.one_of_kind (a := .classTarget) h.keeps.clean hkind (by decide)
  have hnone : l.calls f = 0 := h.keeps.distorted (by simp [distorted, hkind, heq])
  have hcalls : n.calls f = 0 := by rw [h.calls_eq, heq]; simp [hnone]
  rw [GivesCalls, hcalls, heq]
  simp only [expression, hkind]
  exact classLiteral_returns (classLiteralType_returns (h.written l (by simp [heq])).keeps hl)

/-- Every kind of expression but calls; what is no expression is refused. -/
theorem givesCalls : n.GivesCalls f := by
  cases hkind : n.kind with
  | literal => exact h.literal hkind
  | identifier => exact h.identifier hkind
  | thisRef => exact h.selfReference (.inl hkind)
  | superRef => exact h.selfReference (.inr hkind)
  | parenExpr => exact h.parenthesis hkind
  | fieldAccess => exact h.fieldAccess hkind
  | callExpr => exact absurd hkind h.noCall
  | newExpr => exact h.newObject hkind
  | newArrayExpr => exact h.newArray hkind
  | arrayAccess => exact h.arrayAccess hkind
  | postfixExpr => exact h.postfixOperator hkind
  | unaryExpr => exact h.unary hkind
  | castExpr => exact h.cast hkind
  | instanceofExpr => exact h.instanceTest hkind
  | binaryExpr => exact h.binary hkind
  | ternaryExpr => exact h.ternary hkind
  | assignExpr => exact h.assign hkind
  | classLiteral => exact h.classLiteral hkind
  | arrayInit => exact absurd hkind (h.derives.kind_ne h.keeps.clean (by decide))
  | _ =>
    simp only [GivesCalls, expression, hkind]
    exact .refuse _ _

end Node.Prepared

/-- What generating code for an expression gives has the calls of the tree. -/
theorem expression_returns (h : n.Keeps f) (hn : Derives .expression n)
    (hwritten : n.kind ≠ .callExpr → ∀ m ∈ n.children, Written f m)
    (hbelow : ∀ m ∈ n.children, ∀ o ∈ m.children, o.Keeps f → Written f o) :
    Returns f (expression n (n.children.map attributed)) (Evaluates f n) := by
  by_cases hcall : n.kind = .callExpr
  · have hitems : Matches [.one .expression, .one .arguments] n.children :=
      hn.items_of_kind h.clean hcall (by decide)
    simp only [Matches.one_iff, Matches.nil_iff] at hitems
    obtain ⟨l, _, heq, hl, r, _, rfl, hr, rfl⟩ := hitems
    simp only [expression, hcall]
    exact Node.Calling.returns ⟨h, hcall, heq, hl, hr, hbelow⟩
  · have hprepared : n.Prepared f := ⟨h, hcall, hn, hwritten hcall, hbelow⟩
    exact Answers.mono hprepared.givesCalls fun v =>
      Evaluates.of_unchained (Node.appends_of_kind hcall)

/-- Every node of a tree is written with its calls once, in each place it can stand. -/
theorem written_of_mem_walk (n : Node) : ∀ m ∈ n.walk, m.Keeps f → Written f m := by
  induction n using Node.induction with
  | h n ih =>
    have hchildren : ∀ m ∈ n.children, ∀ o ∈ m.walk, o.Keeps f → Written f o := ih
    intro m hm h
    obtain ⟨kind, span, token, problem, children⟩ := n
    rw [Node.walk, Node.walkAll_eq_flatMap, List.mem_cons, List.mem_flatMap] at hm
    rcases hm with rfl | ⟨child, hchild, hm⟩
    · set n : Node := ⟨kind, span, token, problem, children⟩
      have hwritten : n.kind ≠ .callExpr → ∀ m ∈ n.children, Written f m := fun hkind m hm =>
        hchildren m hm m m.mem_walk (h.child hkind hm)
      have hbelow : ∀ m ∈ n.children, ∀ o ∈ m.children, o.Keeps f → Written f o :=
        fun m hm o ho => hchildren m hm o (Node.mem_walk_of_child ho o.mem_walk)
      have hvalue := fun hn => expression_returns h hn hwritten hbelow
      refine ⟨h, fun hn => ?_, fun hn => ?_, fun hn t => ?_⟩
      · rw [attributed_value]
        exact hvalue hn
      · rw [attributed_operands]
        exact leftOperands_returns h hn hwritten (hvalue hn)
      · rw [attributed_array]
        have hkind : n.kind ≠ .callExpr := hn.kind_ne h.clean (by decide)
        exact arrayInit_returns hn h (hwritten hkind) t
    · exact hchildren child hchild m hm h

end Trees

end JavaObjC
