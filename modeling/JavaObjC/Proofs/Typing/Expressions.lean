import JavaObjC.Proofs.Typing.Matching
import JavaObjC.Proofs.Lowering.Attribution

/-!
# The types of expressions

Every function that generates an expression is tied to itself on tied parts: it
leaves the open scopes as they are, does the same on both sides, and gives a
value in whose type all names are bounded. So two trees over the same nodes are
tied if their leaves are, whatever else differs in what their nodes mean.
-/

namespace JavaObjC

open Generating Lower Lowering

/-- The kinds of nodes that have no expressions among their parts, but statements or the dots of a
parameter. -/
def closedKinds : List NodeKind :=
  [.parameter, .block, .localVarDecl, .switchCase, .forInit, .ifStmt, .whileStmt, .doStmt,
    .synchronizedStmt, .forStmt, .enhancedForStmt, .switchStmt, .tryStmt, .catchClause,
    .finallyClause]

/-- Meanings of a node that do the same as expressions, and give values of bounded types. -/
structure Bounds.MeaningTied (b : Bounds) (env : List Scope) (n : Node) (m m' : Meaning) : Prop where
  value : b.Ties env m.value m'.value (Value.Over b.names)
  operands : b.Ties env m.operands m'.operands fun p => ∀ v ∈ p.1, v.Over b.names
  array : n.kind = .arrayInit → ∀ t, t.Over b.names →
    b.Ties env (m.array t) (m'.array t) (Value.Over b.names)

/-- Attributed trees over the same nodes that mean the same as expressions in an environment. -/
inductive Bounds.Tied (b : Bounds) (env : List Scope) : Attributed → Attributed → Prop where
  | intro {a a' : Attributed} (node_eq : a'.node = a.node) (bounded : a.node.Over b.literals b.names)
    (parts : a.node.kind ∉ closedKinds → List.Forall₂ (Tied b env) a.children a'.children)
    (meaning : b.MeaningTied env a.node a.meaning a'.meaning) : Tied b env a a'

/-- Parts that are tied one by one. -/
abbrev Bounds.PartsTied (b : Bounds) (env : List Scope) (parts parts' : Parts) : Prop :=
  List.Forall₂ (b.Tied env) parts parts'

/-- Parts over the same nodes. -/
abbrev SameNodes (parts parts' : Parts) : Prop :=
  List.Forall₂ (fun a a' : Attributed => a'.node = a.node) parts parts'

namespace SameNodes

variable {parts parts' : Parts}

/-- The first parts that satisfy a test of the kind are over the same node. -/
theorem find? (h : SameNodes parts parts') (test : NodeKind → Bool) :
    Option.Rel (fun a a' : Attributed => a'.node = a.node)
      (List.find? (fun a => test a.kind) parts) (List.find? (fun a => test a.kind) parts') :=
  rel_find? h fun {a b} hab => by rw [show b.kind = a.kind from congrArg Node.kind hab]

theorem name_eq (h : SameNodes parts parts') : parts'.name = parts.name := by
  have hfirst := h.find? fun k => k = .identifier
  change Option.Rel _ (parts.first? .identifier) (parts'.first? .identifier) at hfirst
  rw [Parts.name, Parts.name]
  generalize parts.first? .identifier = o at hfirst ⊢
  generalize parts'.first? .identifier = o' at hfirst ⊢
  cases hfirst with
  | none => rfl
  | some hab => simp [Attributed.literal, hab]

end SameNodes

namespace Bounds

variable {b : Bounds} {env : List Scope} {a a' : Attributed} {parts parts' : Parts} {n : Node}
  {α : Type} {P : α → Prop}

namespace Tied

variable (h : b.Tied env a a')

include h

theorem node_eq : a'.node = a.node := by
  cases h
  assumption

theorem kind_eq : a'.kind = a.kind := congrArg Node.kind h.node_eq

theorem literal_eq : a'.literal = a.literal := congrArg Node.literal h.node_eq

theorem type_eq : a'.type = a.type := congrArg JavaType.ofNode h.node_eq

theorem bounded : a.node.Over b.literals b.names := by
  cases h
  assumption

theorem inner (hkind : a.kind ∉ closedKinds) : b.PartsTied env a.parts a'.parts := by
  cases h with
  | intro _ _ parts _ => exact parts hkind

theorem meaning : b.MeaningTied env a.node a.meaning a'.meaning := by
  cases h
  assumption

theorem value : b.Ties env a.value a'.value (Value.Over b.names) :=
  h.meaning.value

theorem operands :
    b.Ties env a.meaning.operands a'.meaning.operands fun p => ∀ v ∈ p.1, v.Over b.names :=
  h.meaning.operands

/-- Both refuse the same construct. -/
theorem refuse (construct : Text) :
    b.Ties env (a.refuse construct : Lower α) (a'.refuse construct) P := by
  rw [Attributed.refuse, Attributed.refuse, h.node_eq]
  exact .refused

theorem over_type (hkind : a.kind = .type) : a.type.Over b.names :=
  h.bounded.type hkind

end Tied

namespace PartsTied

variable (h : b.PartsTied env parts parts')

include h

/-- The first parts that satisfy a test of the kind are tied. -/
theorem find? (test : NodeKind → Bool) :
    Option.Rel (b.Tied env) (List.find? (fun a => test a.kind) parts)
    (List.find? (fun a => test a.kind) parts') := rel_find? h fun hab => by rw [hab.kind_eq]

theorem first? (kind : NodeKind) :
    Option.Rel (b.Tied env) (parts.first? kind) (parts'.first? kind) := h.find? fun k => k = kind

theorem bounded : ∀ a ∈ parts, a.node.Over b.literals b.names := by
  induction h with
  | nil => exact List.forall_mem_nil _
  | cons hab _ ih => exact List.forall_mem_cons.2 ⟨hab.bounded, ih⟩

/-- The types among the parts. -/
theorem map_type_ofKind (kind : NodeKind) :
    (parts'.ofKind kind).map Attributed.type = (parts.ofKind kind).map Attributed.type := by
  induction h with
  | nil => rfl
  | cons hab _ ih =>
    rw [Parts.ofKind, Parts.ofKind] at ih ⊢
    rw [List.filter_cons, List.filter_cons, hab.kind_eq]
    split
    · rw [List.map_cons, List.map_cons, hab.type_eq, ih]
    · exact ih

theorem sameNodes : SameNodes parts parts' :=
  h.imp fun _ _ h => h.node_eq

theorem name_eq : parts'.name = parts.name := h.sameNodes.name_eq

theorem child (i : Nat) {f g : Attributed → Lower α}
    (hf : ∀ a a', parts[i]? = some a → b.Tied env a a' → b.Ties env (f a) (g a') P) :
    b.Ties env (parts.child i >>= f) (parts'.child i >>= g) P :=
  Ties.require_bind (rel_getElem? h i) fun a a' ha haa => hf a a' ha haa

theorem lastChild {f g : Attributed → Lower α}
    (hf : ∀ a a', b.Tied env a a' → b.Ties env (f a) (g a') P) :
    b.Ties env (parts.lastChild >>= f) (parts'.lastChild >>= g) P :=
  Ties.require_bind (rel_getLast? h) fun a a' _ haa => hf a a' haa

theorem valueAt (i : Nat) : b.Ties env (parts.valueAt i) (parts'.valueAt i) (Value.Over b.names) :=
  h.child i fun _ _ _ haa => haa.value

theorem arguments :
    b.Ties env parts.arguments parts'.arguments fun vs => ∀ v ∈ vs, v.Over b.names := by
  have hfirst := h.first? .parameters
  have hkind : ∀ list ∈ parts.first? .parameters, list.kind = .parameters :=
    fun list hlist => by simpa using List.find?_some hlist
  rw [Parts.arguments, Parts.arguments]
  generalize parts.first? .parameters = o at hfirst hkind ⊢
  generalize parts'.first? .parameters = o' at hfirst ⊢
  cases hfirst with
  | none => exact .pure (List.forall_mem_nil _)
  | some hab =>
    exact .mapM (hab.inner (by rw [hkind _ rfl]; decide)) fun _ _ hcd => hcd.value

end PartsTied

section Names

theorem floatLiteral_ties (digits : Text) :
    b.Ties env (floatLiteral digits) (floatLiteral digits) (Value.Over b.names) := by
  refine (Ties.require (P := fun _ => True) fun _ _ => trivial).bind fun last _ => ?_
  have hgiven := b.vocabulary.constants
  refine .ite (fun _ => .pure ?_) fun _ => .ite (fun _ => .pure ?_) fun _ => .pure ?_
  all_goals simp [hgiven]

theorem literal_ties (n : Node) :
    b.Ties env (literal n) (literal n) (Value.Over b.names) := by
  have hgiven := b.vocabulary.constants
  have hinteger : ∀ digits, (integerLiteral digits).Over b.names := by
    intro digits
    unfold integerLiteral
    dsimp only
    split <;> simp [hgiven]
  unfold literal
  cases n.token with
  | none => exact .refused
  | some t =>
    dsimp only
    split
    · exact .ite (fun _ => .refused) fun _ =>
        .pure ⟨by simp [hgiven], fun _ hc => nomatch hc⟩
    all_goals
      first
      | exact .pure (by simp [hgiven])
      | exact .pure (hinteger _)
      | exact floatLiteral_ties _
      | exact .refused

/-- A name that stands alone. -/
theorem identifier_ties {name : Text} (hname : b.literals name) :
    b.Ties env (identifier name) (identifier name) (Value.Over b.names) := by
  refine (localType?_ties name).bind fun found hfound => ?_
  cases found with
  | some t => exact .pure (over_typed.2 (hfound.2 t rfl))
  | none =>
    refine Coincide.read fun around haround => ?_
    cases hfield : around.field? name with
    | some field =>
      have htype := (b.bounded haround).field? hfield
      refine Coincide.pure ?_
      split
      · exact over_typed.2 htype
      · exact over_typed.2 htype
    | none =>
      refine Coincide.pure ⟨.unknown, fun c hc => ?_⟩
      dsimp only at hc
      split at hc
      · next hclass =>
        cases hc
        exact b.classes haround hname hclass
      · cases hc

theorem ownField_ties (name : Text) :
    b.Ties env (ownField name) (ownField name) (Value.Over b.names) := by
  refine Coincide.read fun around haround => ?_
  cases hfield : around.field? name with
  | some field =>
    have htype := (b.bounded haround).field? hfield
    refine Coincide.pure ?_
    split
    · exact over_typed.2 htype
    · exact over_typed.2 htype
  | none => exact .pure ⟨.unknown, fun _ hc => nomatch hc⟩

theorem fieldOfClass_ties {className : Text} (hclass : b.names className) (name : Text) :
    b.Ties env (fieldOfClass className name) (fieldOfClass className name)
      (Value.Over b.names) := by
  unfold fieldOfClass
  cases hconstant : LibraryCall.constant? className name with
  | some v => exact .pure (LibraryCall.over_constant? b.vocabulary hconstant)
  | none =>
    refine Coincide.read fun around haround => ?_
    have hvalue : (Value.typed (simpleName className ++ "_" ++ name)
        (around.declaredFieldType className name)).Over b.names :=
      over_typed.2 (b.bounded haround).declaredFieldType
    exact .ite (fun _ => (classNamed_ties hclass).bind fun _ _ => .pure hvalue) fun _ =>
      .pure hvalue

theorem fieldOf_ties {receiver : Value} (hreceiver : receiver.Over b.names) (name : Text) :
    b.Ties env (fieldOf receiver name) (fieldOf receiver name) (Value.Over b.names) := by
  unfold fieldOf
  cases hclass : receiver.className with
  | some className =>
    refine .ite (fun _ => .pure ⟨.unknown, fun _ hc => nomatch hc⟩) fun _ => ?_
    exact fieldOfClass_ties (hreceiver.className className hclass) name
  | none =>
    refine .ite (fun _ => .pure (LibraryCall.over_size b.vocabulary)) fun _ => ?_
    exact Coincide.read fun around haround =>
      .pure (over_typed.2 (b.bounded haround).declaredFieldType)

theorem fieldAccess_ties (h : b.PartsTied env parts parts') :
    b.Ties env (fieldAccess n parts) (fieldAccess n parts') (Value.Over b.names) := by
  refine h.lastChild fun selected selected' hselected => ?_
  rw [hselected.kind_eq, hselected.literal_eq]
  refine .ite (fun _ => .refused) fun _ => .ite (fun _ => .refused) fun _ => ?_
  refine h.child 0 fun target target' _ htarget => ?_
  rw [htarget.kind_eq]
  refine .ite (fun _ => ownField_ties _) fun _ => ?_
  exact htarget.value.bind fun v hv => fieldOf_ties hv _

end Names

section Messages

variable {arguments : List Value}

theorem send_ties (receiver : Text) (keywords arguments : List Text) :
    b.Ties env (send receiver keywords arguments) (send receiver keywords arguments)
      fun _ => True := .require fun _ _ => trivial

theorem sendMethod_ties (receiver name : Text) {method : Option MethodSignature}
    (h : ∀ m ∈ method, m.result.Known b.names) (arguments : List Value) :
    b.Ties env (sendMethod receiver name method arguments)
      (sendMethod receiver name method arguments) (Value.Over b.names) := by
  cases method with
  | some m => exact (send_ties _ _ _).bind fun _ _ => .pure (over_typed.2 (h m rfl))
  | none =>
    exact (send_ties _ _ _).bind fun _ _ => .pure ⟨.unknown, fun _ hc => nomatch hc⟩

theorem unqualifiedCall_ties (name : Text) (arguments : List Value) :
    b.Ties env (unqualifiedCall name arguments) (unqualifiedCall name arguments)
      (Value.Over b.names) := by
  refine Coincide.read fun around haround => ?_
  refine (sendMethod_ties _ name (fun m hm => (b.bounded haround).method? hm) _).bind fun v hv => ?_
  exact .pure ⟨known_resultType b.vocabulary hv.type, hv.className⟩

theorem superCall_ties (name : Text) (arguments : List Value) :
    b.Ties env (superCall name arguments) (superCall name arguments) (Value.Over b.names) :=
  Coincide.read fun _ haround =>
    sendMethod_ties _ name (fun _ hm => (b.bounded haround).method? hm) _

theorem staticLibraryCall_ties (n : Node) {className : Text} (hclass : b.names className)
    (name : Text) (harguments : ∀ v ∈ arguments, v.Over b.names) :
    b.Ties env (staticLibraryCall n className name arguments)
      (staticLibraryCall n className name arguments) fun found => ∀ v ∈ found, v.Over b.names := by
  have hv := b.vocabulary
  refine .ite (fun _ => ?_) fun _ => .ite (fun _ => ?_) fun _ => .ite (fun _ => ?_) fun _ =>
    .ite (fun _ => ?_) fun _ => .ite (fun _ => ?_) fun _ => .pure fun _ hv => nomatch hv
  · cases hfound : LibraryCall.onMath? (LibraryCall.word name) arguments with
    | some v => exact .pure (by simpa using LibraryCall.over_onMath? hv harguments hfound)
    | none => exact .refused
  · cases hfound : LibraryCall.onSystem? (LibraryCall.word name) arguments with
    | some v => exact .pure (by simpa using LibraryCall.over_onSystem? hv hfound)
    | none => exact .refused
  · exact .pure fun v hfound => LibraryCall.over_onStringClass? hv hfound
  · exact .pure fun v hfound => LibraryCall.over_onThread? hv hfound
  · exact .pure fun v hfound => LibraryCall.over_onBoxedClass? hv hclass hfound

theorem staticCall_ties (n : Node) {className : Text} (hclass : b.names className) (name : Text)
    (harguments : ∀ v ∈ arguments, v.Over b.names) :
    b.Ties env (staticCall n className name arguments) (staticCall n className name arguments)
      (Value.Over b.names) := by
  refine (staticLibraryCall_ties n hclass name harguments).bind fun found hfound => ?_
  cases found with
  | some v => exact .pure (hfound v rfl)
  | none =>
    refine Coincide.read fun around haround => ?_
    have hsend : ∀ receiver, b.Ties env
        (sendMethod receiver name (around.method? className name arguments.length) arguments)
        (sendMethod receiver name (around.method? className name arguments.length) arguments)
        (Value.Over b.names) :=
      fun receiver => sendMethod_ties receiver name (fun m hm => (b.bounded haround).method? hm) _
    refine .ite (fun _ => (Coincide.pure (P := fun _ => True) trivial).bind fun _ _ => hsend _)
      fun _ => ?_
    exact ((classNamed_ties hclass).map (Q := fun _ => True) fun _ _ => trivial).bind
      fun _ _ => hsend _

/-- A library method of a value gives a value of a bounded type. -/
theorem over_libraryCall? {around : Surroundings} {receiver v : Value} {name : Text}
    (hreceiver : receiver.Over b.names)
    (hfound : libraryCall? around receiver name arguments = some v) : v.Over b.names := by
  have hv := b.vocabulary
  have hargument : ∀ i, (around.resultType (LibraryCall.typeArgument receiver.type i)).Over
      b.names := fun i => over_resultType hv (LibraryCall.over_typeArgument hv hreceiver.type i)
  unfold libraryCall? at hfound
  dsimp only at hfound
  rw [Option.or_eq_some_iff, Option.or_eq_some_iff, Option.or_eq_some_iff] at hfound
  rcases hfound with hstring | ⟨-, hcollection | ⟨-, hboxed | ⟨-, hobject⟩⟩⟩
  · split at hstring
    · exact LibraryCall.over_onString? hv hreceiver hstring
    · cases hstring
  · obtain ⟨kind, -, hcall⟩ := Option.bind_eq_some_iff.1 hcollection
    unfold collectionCall? at hcall
    dsimp only at hcall
    rw [Option.or_eq_some_iff] at hcall
    rcases hcall with hspecial | ⟨-, hany⟩
    · cases kind with
      | list => exact LibraryCall.over_onList? hv (hargument 0).known hspecial
      | map => exact LibraryCall.over_onMap? hv (hargument 0) (hargument 1) hspecial
      | set => exact LibraryCall.over_onSet? hv hspecial
      | builder => exact LibraryCall.over_onBuilder? hv hreceiver hspecial
      | array => cases hspecial
    · exact LibraryCall.over_onCollection? hv hany
  · split at hboxed
    · exact LibraryCall.over_onBoxed? hv hboxed
    · cases hboxed
  · exact LibraryCall.over_onObject? hv hobject

theorem instanceCall_ties {receiver : Value} (hreceiver : receiver.Over b.names) (name : Text)
    (arguments : List Value) :
    b.Ties env (instanceCall receiver name arguments) (instanceCall receiver name arguments)
      (Value.Over b.names) := by
  refine Coincide.read fun around haround => ?_
  cases hfound : libraryCall? around receiver name arguments with
  | some v => exact .pure (over_libraryCall? hreceiver hfound)
  | none => exact sendMethod_ties _ name (fun m hm => (b.bounded haround).method? hm) _

theorem streamCall_ties {list list' : Parts} (h : b.PartsTied env list list') (name : Text)
    (arguments : List Value) :
    b.Ties env (streamCall n name list arguments) (streamCall n name list' arguments)
      (Value.Over b.names) := by
  have hlog : ∀ format arguments, (logCall format arguments).Over b.names :=
    fun _ _ => over_typed.2 (by simp [b.vocabulary.constants])
  have hprint : b.Ties env (list.child 0 >>= printCall) (list'.child 0 >>= printCall)
      (Value.Over b.names) :=
    h.child 0 fun _ _ _ haa => haa.operands.bind fun _ _ => .pure (hlog _ _)
  unfold streamCall
  split <;> first | exact .pure (hlog _ _) | exact hprint | exact .refused

theorem qualifiedCall_ties (h : b.PartsTied env parts parts') {target target' : Parts}
    (htarget : b.PartsTied env target target') (harguments : ∀ v ∈ arguments, v.Over b.names) :
    b.Ties env (qualifiedCall n parts target arguments) (qualifiedCall n parts' target' arguments)
      (Value.Over b.names) := by
  refine htarget.lastChild fun selected selected' hselected => ?_
  rw [hselected.literal_eq]
  refine htarget.child 0 fun receiver receiver' _ hreceiver => ?_
  rw [hreceiver.kind_eq]
  refine .ite (fun _ => superCall_ties _ _) fun _ => hreceiver.value.bind fun v hv => ?_
  refine .ite (fun _ => streamCall_ties ?_ _ _) fun _ => ?_
  · have hfirst := h.first? .parameters
    have hkind : ∀ list ∈ parts.first? .parameters, list.kind = .parameters :=
      fun list hlist => by simpa using List.find?_some hlist
    generalize parts.first? .parameters = o at hfirst hkind ⊢
    generalize parts'.first? .parameters = o' at hfirst ⊢
    cases hfirst with
    | none => exact .nil
    | some hab => exact hab.inner (by rw [hkind _ rfl]; decide)
  · cases hclass : v.className with
    | some className => exact staticCall_ties n (hv.className className hclass) _ harguments
    | none => exact instanceCall_ties hv _ _

theorem call_ties (h : b.PartsTied env parts parts') :
    b.Ties env (call n parts) (call n parts') (Value.Over b.names) := by
  refine h.child 0 fun target target' _ htarget => h.arguments.bind fun arguments harguments => ?_
  rw [htarget.kind_eq, htarget.literal_eq]
  refine .ite (fun _ => unqualifiedCall_ties _ _) fun _ => .ite (fun hkind => ?_) fun _ =>
    htarget.refuse _
  exact qualifiedCall_ties h (htarget.inner (by rw [hkind]; decide)) harguments

theorem sendInit_ties (receiver : Text) (owner : Option ClassSignature) (arguments : List Value)
    (types : List JavaType) :
    b.Ties env (sendInit receiver owner arguments types) (sendInit receiver owner arguments types)
      fun _ => True := send_ties _ _ _

theorem over_newLibraryObject? {around : Surroundings} {t : JavaType} {v : Value}
    (ht : t.Known b.names) (hfound : newLibraryObject? around t arguments = some v) :
    v.Over b.names := by
  unfold newLibraryObject? at hfound
  split at hfound
  · cases hfound
  · dsimp only at hfound
    rw [Option.or_eq_some_iff] at hfound
    rcases hfound with hcollection | ⟨-, hfoundation⟩
    · obtain ⟨kind, -, hcall⟩ := Option.bind_eq_some_iff.1 hcollection
      obtain ⟨text, -, rfl⟩ := Option.map_eq_some_iff.1 hcall
      exact over_typed.2 ht
    · exact LibraryCall.over_newFoundation? b.vocabulary ht hfoundation

theorem newObject_ties (h : b.PartsTied env parts parts') :
    b.Ties env (newObject n parts) (newObject n parts') (Value.Over b.names) := by
  refine h.child 0 fun typeNode typeNode' _ htypeNode => ?_
  rw [htypeNode.kind_eq]
  refine .ite (fun _ => .refused) fun hkind => ?_
  have ht := htypeNode.over_type (not_not.1 hkind)
  have hfirst := h.first? .block
  have htype := htypeNode.type_eq
  generalize parts.first? .block = o at hfirst ⊢
  generalize parts'.first? .block = o' at hfirst ⊢
  cases hfirst with
  | some hbody => exact hbody.refuse _
  | none =>
    dsimp only
    rw [htype]
    refine h.arguments.bind fun arguments _ => Coincide.read fun around _ => ?_
    cases hfound : newLibraryObject? around typeNode.type arguments with
    | some v => exact .pure (over_newLibraryObject? ht.known hfound)
    | none =>
      refine (classNamed_ties ht.name).bind fun _ _ => ?_
      exact (sendInit_ties _ _ _ _).bind fun _ _ => .pure (over_typed.2 ht.known)

end Messages

section Operators

theorem sumOperands_ties (h : b.PartsTied env parts parts') :
    b.Ties env (sumOperands parts) (sumOperands parts') fun p => ∀ v ∈ p.1, v.Over b.names := by
  refine h.child 0 fun left left' _ hleft => hleft.operands.bind fun operands hoperands => ?_
  refine (h.valueAt 2).bind fun right hright => .ite (fun _ => .pure ?_) fun _ => ?_
  · exact List.forall_mem_append.2 ⟨hoperands, List.forall_mem_singleton.2 hright⟩
  · cases operands.1 with
    | nil => exact .refused
    | cons first more =>
      exact .pure (List.forall_mem_singleton.2 (over_typed.2 (b.vocabulary.promote _ _)))

theorem over_applyOperator (op : Text) {l : Value} (hl : l.Over b.names) (r : Value) :
    (applyOperator op l r).Over b.names := by
  have hgiven := b.vocabulary.constants
  unfold applyOperator
  dsimp only
  split
  all_goals try split
  all_goals simp [hgiven, b.vocabulary.promote, b.vocabulary.numericType hl.type]

theorem binary_ties (h : b.PartsTied env parts parts') :
    b.Ties env (binary parts) (binary parts') (Value.Over b.names) := by
  refine h.child 1 fun op op' _ hop => ?_
  rw [hop.literal_eq]
  refine .ite (fun _ => (sumOperands_ties h).bind fun operands hoperands => ?_) fun _ => ?_
  · split
    · exact .pure (hoperands _ (List.mem_singleton_self _))
    · exact .pure (over_concatenation b.vocabulary _)
  · exact (h.valueAt 0).bind fun l hl => (h.valueAt 2).bind fun r _ =>
      .pure (over_applyOperator _ hl r)

theorem arrayAccess_ties (h : b.PartsTied env parts parts') :
    b.Ties env (arrayAccess parts) (arrayAccess parts') (Value.Over b.names) :=
  (h.valueAt 0).bind fun _ harray => (h.valueAt 1).bind fun _ _ =>
    .pure (over_typed.2 harray.type.element)

theorem step_ties (h : b.Tied env a a') (op : Text) (isBefore : Bool) :
    b.Ties env (step a op isBefore) (step a' op isBefore) (Value.Over b.names) := by
  refine (Ties.require (P := fun _ => True) fun _ _ => trivial).bind fun sign _ => ?_
  rw [h.kind_eq]
  refine .ite (fun hkind => ?_) fun _ => ?_
  · have hparts := h.inner (by rw [hkind]; decide)
    refine (hparts.valueAt 0).bind fun array harray => (hparts.valueAt 1).bind fun index _ => ?_
    exact .ite (fun _ => h.refuse _) fun _ => .pure (over_typed.2 harray.type.element)
  · refine h.value.bind fun operand hoperand => ?_
    exact .ite (fun _ => .pure (over_typed.2 hoperand.type)) fun _ =>
      .pure (over_typed.2 hoperand.type)

theorem unary_ties (h : b.PartsTied env parts parts') :
    b.Ties env (unary parts) (unary parts') (Value.Over b.names) := by
  refine h.child 0 fun op op' _ hop => h.child 1 fun target target' _ htarget => ?_
  rw [hop.literal_eq]
  refine .ite (fun _ => step_ties htarget _ true) fun _ => htarget.value.bind fun v hv => ?_
  refine .ite (fun _ => .pure ?_) fun _ => .pure ?_
  · simp [b.vocabulary.constants]
  · exact over_typed.2 (b.vocabulary.numericType hv.type)

theorem postfixOperator_ties (h : b.PartsTied env parts parts') :
    b.Ties env (postfixOperator parts) (postfixOperator parts') (Value.Over b.names) := by
  refine h.child 0 fun target target' _ htarget => h.child 1 fun op op' _ hop => ?_
  rw [hop.literal_eq]
  exact step_ties htarget _ false

theorem ternary_ties (h : b.PartsTied env parts parts') :
    b.Ties env (ternary parts) (ternary parts') (Value.Over b.names) := by
  refine (h.valueAt 0).bind fun condition _ => (h.valueAt 1).bind fun yes hyes => ?_
  refine (h.valueAt 2).bind fun no hno => .pure (over_typed.2 ?_)
  split
  · exact hno.type
  · exact hyes.type

theorem assignElement_ties {left left' right right' : Attributed} (hleft : b.Tied env left left')
    (hkind : left.kind = .arrayAccess) (op : Text) (hright : b.Tied env right right') :
    b.Ties env (assignElement left op right) (assignElement left' op right')
      (Value.Over b.names) := by
  have hparts := hleft.inner (by rw [hkind]; decide)
  refine (hparts.valueAt 0).bind fun array harray => (hparts.valueAt 1).bind fun index _ => ?_
  have helement : ∀ text, (Value.typed text array.type.element).Over b.names :=
    fun _ => over_typed.2 harray.type.element
  refine hright.value.bind fun v _ => .ite (fun _ => .pure (helement _)) fun _ => ?_
  exact .ite (fun _ => hleft.refuse _) fun _ => .pure (helement _)

theorem assignVariable_ties {left left' right right' : Attributed} (hleft : b.Tied env left left')
    (op : Text) (hright : b.Tied env right right') :
    b.Ties env (assignVariable left op right) (assignVariable left' op right')
      (Value.Over b.names) := by
  refine hleft.value.bind fun target htarget => .ite (fun _ => ?_) fun _ => ?_
  · exact hright.operands.bind fun _ _ => .pure (over_typed.2 htarget.type)
  · refine hright.value.bind fun v _ => .ite (fun _ => .pure (over_typed.2 htarget.type)) fun _ => ?_
    exact .ite (fun _ => .pure (over_typed.2 htarget.type)) fun _ =>
      .pure (over_typed.2 htarget.type)

theorem assign_ties (h : b.PartsTied env parts parts') :
    b.Ties env (assign parts) (assign parts') (Value.Over b.names) := by
  refine h.child 0 fun left left' _ hleft => h.child 2 fun right right' _ hright => ?_
  refine h.child 1 fun op op' _ hop => ?_
  rw [hop.literal_eq, hleft.kind_eq]
  exact .ite (fun hkind => assignElement_ties hleft hkind _ hright) fun _ =>
    assignVariable_ties hleft _ hright

end Operators

section Arrays

variable {t : JavaType}

theorem arrayElement_ties (ht : t.Over b.names) (h : b.Tied env a a') :
    b.Ties env (arrayElement t a) (arrayElement t a') fun _ => True := by
  unfold arrayElement
  rw [h.kind_eq]
  exact .ite (fun hkind => (h.meaning.array hkind _ ht).bind fun _ _ => .pure trivial) fun _ =>
    h.value.bind fun _ _ => .pure trivial

theorem arrayLiteral_ties (h : b.PartsTied env parts parts') (ht : t.Over b.names) :
    b.Ties env (arrayLiteral parts t) (arrayLiteral parts' t) (Value.Over b.names) := by
  have harray : ((if t.isArray then t else { t with depth := 1 } : JavaType)).Over b.names := by
    split
    · exact ht
    · exact ht.with_depth 1
  have hempty : parts'.isEmpty = parts.isEmpty := by cases h <;> rfl
  unfold arrayLiteral
  dsimp only
  rw [hempty]
  refine (refer_ties fun ha hr => b.used ha (by simp) hr).bind fun _ _ => ?_
  refine .ite (fun _ => .pure (over_typed.2 harray.known)) fun _ => ?_
  refine (Coincide.mapM (P := fun _ => True) h fun _ _ haa =>
    arrayElement_ties (harray.with_depth _) haa).bind fun _ _ => ?_
  exact .pure (over_typed.2 harray.known)

theorem initialValue_ties (h : b.Tied env a a') (ht : t.Over b.names) :
    b.Ties env (initialValue a t) (initialValue a' t) (Value.Over b.names) := by
  unfold initialValue
  rw [h.kind_eq]
  exact .ite (fun hkind => h.meaning.array hkind _ ht) fun _ => h.value.bind fun v hv => .pure (hv.with_text _)

/-- The type that a node is written with at its place. -/
theorem over_placed (hn : n.Over b.literals b.names) (hnodes : parts.map Attributed.node = n.children)
    {i : Nat} (hplace : n.kind.typePlace? = some i) (ha : parts[i]? = some a) :
    a.type.Over b.names := by
  refine hn.placed i hplace a.node ?_
  rw [← hnodes, List.getElem?_map, ha]
  rfl

theorem newArray_ties (hn : n.Over b.literals b.names) (hnodes : parts.map Attributed.node = n.children)
    (hkind : n.kind = .newArrayExpr) (h : b.PartsTied env parts parts') :
    b.Ties env (newArray n parts) (newArray n parts') (Value.Over b.names) := by
  have hfirst := h.first? .arrayInit
  have hfound : ∀ init ∈ parts.first? .arrayInit, init.kind = .arrayInit :=
    fun init hinit => by simpa using List.find?_some hinit
  unfold newArray
  generalize parts.first? .arrayInit = o at hfirst hfound ⊢
  generalize parts'.first? .arrayInit = o' at hfirst ⊢
  cases hfirst with
  | none => exact .refused
  | some hinit =>
    refine h.child 0 fun element element' helement haa => ?_
    rw [haa.type_eq]
    have ht := over_placed hn hnodes (by rw [hkind]; rfl) helement
    exact hinit.meaning.array (hfound _ rfl) _ (ht.with_depth _)

end Arrays

section Types

theorem cast_ties (hn : n.Over b.literals b.names) (hnodes : parts.map Attributed.node = n.children)
    (hkind : n.kind = .castExpr) (h : b.PartsTied env parts parts') :
    b.Ties env (cast parts) (cast parts') (Value.Over b.names) := by
  refine h.child 0 fun target target' htarget haa => (h.valueAt 1).bind fun v _ => ?_
  rw [haa.type_eq]
  have ht := over_placed hn hnodes (by rw [hkind]; rfl) htarget
  refine .ite (fun _ => .pure (over_typed.2 ht.known)) fun _ => ?_
  refine .ite (fun _ => .pure (over_typed.2 ht.known)) fun _ => ?_
  exact (mapType_ties ht).bind fun _ _ => .pure (over_typed.2 ht.known)

theorem instanceTest_ties (hn : n.Over b.literals b.names) (hnodes : parts.map Attributed.node = n.children)
    (hkind : n.kind = .instanceofExpr) (h : b.PartsTied env parts parts') :
    b.Ties env (instanceTest parts) (instanceTest parts') (Value.Over b.names) := by
  have hgiven := b.vocabulary.constants
  have hpattern := rel_getElem? h 2
  unfold instanceTest
  generalize parts[2]? = o at hpattern ⊢
  generalize parts'[2]? = o' at hpattern ⊢
  cases hpattern with
  | some haa => exact haa.refuse _
  | none =>
    refine (h.valueAt 0).bind fun v _ => h.child 1 fun typeNode typeNode' htypeNode haa => ?_
    rw [haa.type_eq]
    have ht := over_placed hn hnodes (by rw [hkind]; rfl) htypeNode
    refine (mapType_ties ht).bind fun ref _ => ?_
    cases ref with
    | scalar _ => exact haa.refuse _
    | object c =>
      refine .ite (fun _ => haa.refuse _) fun _ => ?_
      exact .ite (fun _ => .pure (by simp [hgiven])) fun _ => .pure (by simp [hgiven])

/-- A node for an array stands for an array, whatever its elements are. -/
theorem isArray_ofNode {m : Node} (hkind : m.kind = .arrayType) : (JavaType.ofNode m).isArray = true := by
  obtain ⟨kind, span, token, problem, children⟩ := m
  obtain rfl : kind = .arrayType := hkind
  cases children with
  | nil => rfl
  | cons element rest => simp [JavaType.ofNode, JavaType.addDepth, JavaType.isArray]

theorem classLiteralType_ties (h : b.Tied env a a')
    (hname : a.kind = .identifier → b.names a.literal) :
    b.Ties env (classLiteralType a) (classLiteralType a') fun t =>
      t.Over b.names ∨ t.isArray = true := by
  have htype := h.type_eq
  have hliteral := h.literal_eq
  unfold classLiteralType
  rw [h.kind_eq, htype, hliteral]
  cases hkind : a.kind with
  | type => exact .pure (.inl (h.over_type hkind))
  | arrayType => exact .pure (.inr (isArray_ofNode hkind))
  | identifier => exact .pure (.inl (.named (hname hkind)))
  | _ => exact h.refuse _

theorem classLiteral_ties (hn : n.Over b.literals b.names)
    (hnodes : parts.map Attributed.node = n.children) (hkind : n.kind = .classLiteral)
    (h : b.PartsTied env parts parts') :
    b.Ties env (classLiteral n parts) (classLiteral n parts') (Value.Over b.names) := by
  have hgiven := b.vocabulary.constants
  refine h.child 0 fun part part' hfirst hpart => ?_
  have hname : part.kind = .identifier → b.names part.literal := by
    refine hn.named hkind part.node ?_
    rw [← hnodes, List.getElem?_map, hfirst]
    rfl
  refine (classLiteralType_ties hpart hname).bind fun t ht => ?_
  refine (ht.elim mapType_ties mapType_ties_of_isArray).bind fun ref _ => ?_
  cases ref with
  | scalar _ => exact .refused
  | object c => exact .ite (fun _ => .pure (by simp [hgiven])) fun _ => .pure (by simp [hgiven])

end Types

/-- An expression whose parts are tied is tied. -/
theorem expression_ties (hn : n.Over b.literals b.names) (hnodes : parts.map Attributed.node = n.children)
    (hparts : n.kind ∉ closedKinds → b.PartsTied env parts parts') :
    b.Ties env (expression n parts) (expression n parts') (Value.Over b.names) := by
  unfold expression
  cases hkind : n.kind with
  | parameter => exact .refused
  | literal => exact literal_ties n
  | identifier => exact identifier_ties (hn.literal hkind)
  | thisRef =>
    exact Coincide.read fun _ haround => .pure (over_typed.2 (.named (b.bounded haround).ownName))
  | superRef =>
    exact Coincide.read fun _ haround => .pure (over_typed.2 (.named (b.bounded haround).baseName))
  | newArrayExpr => exact newArray_ties hn hnodes hkind (hparts (by rw [hkind]; decide))
  | castExpr => exact cast_ties hn hnodes hkind (hparts (by rw [hkind]; decide))
  | instanceofExpr => exact instanceTest_ties hn hnodes hkind (hparts (by rw [hkind]; decide))
  | parenExpr =>
    exact ((hparts (by rw [hkind]; decide)).valueAt 0).bind fun v hv =>
      .pure ⟨hv.type, hv.className⟩
  | fieldAccess => exact fieldAccess_ties (hparts (by rw [hkind]; decide))
  | callExpr => exact call_ties (hparts (by rw [hkind]; decide))
  | newExpr => exact newObject_ties (hparts (by rw [hkind]; decide))
  | arrayInit =>
    exact arrayLiteral_ties (hparts (by rw [hkind]; decide))
      (b.vocabulary.object.with_depth 1)
  | arrayAccess => exact arrayAccess_ties (hparts (by rw [hkind]; decide))
  | assignExpr => exact assign_ties (hparts (by rw [hkind]; decide))
  | ternaryExpr => exact ternary_ties (hparts (by rw [hkind]; decide))
  | binaryExpr => exact binary_ties (hparts (by rw [hkind]; decide))
  | unaryExpr => exact unary_ties (hparts (by rw [hkind]; decide))
  | postfixExpr => exact postfixOperator_ties (hparts (by rw [hkind]; decide))
  | classLiteral => exact classLiteral_ties hn hnodes hkind (hparts (by rw [hkind]; decide))
  | _ => exact .refused

theorem leftOperands_ties (hn : n.Over b.literals b.names) (hnodes : parts.map Attributed.node = n.children)
    (hparts : n.kind ∉ closedKinds → b.PartsTied env parts parts') :
    b.Ties env (leftOperands n parts) (leftOperands n parts') fun p =>
      ∀ v ∈ p.1, v.Over b.names := by
  have hvalue : b.Ties env (do let v ← expression n parts; return ([v], isStringType v.type))
      (do let v ← expression n parts'; return ([v], isStringType v.type))
      fun p => ∀ v ∈ p.1, v.Over b.names :=
    (expression_ties hn hnodes hparts).bind fun v hv => .pure (List.forall_mem_singleton.2 hv)
  unfold leftOperands
  refine .ite (fun hkind => ?_) fun _ => hvalue
  have htied := hparts (by rw [hkind]; decide)
  refine htied.child 1 fun op op' _ hop => ?_
  rw [hop.literal_eq]
  exact .ite (fun _ => sumOperands_ties htied) fun _ => hvalue

/-- What a node means is tied if its parts are. -/
theorem meaning_tied (hn : n.Over b.literals b.names) (hnodes : parts.map Attributed.node = n.children)
    (hparts : n.kind ∉ closedKinds → b.PartsTied env parts parts') :
    b.MeaningTied env n (meaning n parts) (meaning n parts') where
  value := expression_ties hn hnodes hparts
  operands := leftOperands_ties hn hnodes hparts
  array := fun hkind _ ht => arrayLiteral_ties (hparts (by rw [hkind]; decide)) ht

/-- A tree in which all names are bounded is tied to every tree over it whose nodes mean the same
if their parts do. -/
theorem tied_ofNode {meaning' : Node → Parts → Meaning}
    (h : ∀ {n : Node} {parts parts' : Parts}, n.Over b.literals b.names →
      parts.map Attributed.node = n.children →
      (n.kind ∉ closedKinds → b.PartsTied env parts parts') →
      b.MeaningTied env n (meaning n parts) (meaning' n parts'))
    (n : Node) : n.OverTree b.literals b.names → b.Tied env (attributed n) (Attributed.ofNode meaning' n) := by
  induction n using Node.induction with
  | h n ih =>
    intro hn
    have hnodes : (n.children.map attributed).map Attributed.node = n.children := by
      simp [Function.comp_def, attributed, Attributed.ofNode_node]
    have hparts : n.kind ∉ closedKinds → b.PartsTied env (n.children.map attributed)
        (n.children.map (Attributed.ofNode meaning')) := by
      intro hkind
      rw [PartsTied, List.forall₂_map_left_iff, List.forall₂_map_right_iff, List.forall₂_same]
      exact fun m hm => ih m hm (hn.child (fun h => hkind (by rw [h]; decide)) hm)
    rw [attributed_eq, Attributed.ofNode_eq]
    exact .intro rfl hn.here hparts (h hn.here hnodes hparts)

end Bounds

end JavaObjC
