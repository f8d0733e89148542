import JavaObjC.Proofs.Effects.Access

/-!
# Calls of a method in a tree

The calls of a method that a tree has, and the trees in which the method's name
is used for such calls only. Some operands are dropped when code is generated,
or written more than once: those are the places where no call may stand if the
generated text is to have as many calls as the tree.
-/

namespace JavaObjC

open Text (separates)

namespace Node

/-- What a call names, and its arguments. -/
def callParts? (n : Node) : Option (Node × List Node) :=
  match n.kind, n.children with
  | .callExpr, [target, list] => some (target, list.children)
  | _, _ => none

/-- The name of the method that a call names. -/
def calledName (target : Node) : Text :=
  match target.kind with
  | .identifier => target.literal
  | .fieldAccess => (target.children.getLast?.map literal).getD []
  | _ => []

/-- A call of a method without arguments. -/
def isCallOf (f : MethodName) (n : Node) : Bool :=
  n.callParts?.any fun (target, arguments) =>
    target.calledName == f.text && arguments.isEmpty

/-- The number of calls of a method in a tree. -/
def calls (f : MethodName) (n : Node) : Nat := n.walk.countP (isCallOf f)

/-- A node that is not written with the name of a method. -/
def Spares (f : MethodName) (n : Node) : Prop :=
  (n.kind = .identifier → f.Spares n.literal) ∧ (n.kind = .type → n.literal ≠ f.text)

/-- In the tree the name of a method is used for calls of the method only. -/
inductive Confines (f : MethodName) : Node → Prop where
  | spared {n : Node} (here : n.Spares f) (children : ∀ m ∈ n.children, Confines f m) :
      Confines f n
  | called {n target : Node} (h : n.callParts? = some (target, []))
      (hname : target.kind = .identifier ∧ target.literal = f.text) : Confines f n
  | sent {n target name : Node} {front : List Node} (h : n.callParts? = some (target, []))
      (htarget : target.kind = .fieldAccess ∧ target.children = front ++ [name])
      (hname : name.literal = f.text) (hfront : ∀ m ∈ front, Confines f m) : Confines f n

/-- The receiver, the name and the arguments of a call with a receiver. -/
def sending? (n : Node) : Option (Node × String × List Node) :=
  n.callParts?.bind fun (target, arguments) =>
    match target.kind, target.children with
    | .fieldAccess, receiver :: _ => some (receiver, LibraryCall.word target.calledName, arguments)
    | _, _ => none

/-- A call that appends. -/
def appends (n : Node) : Bool :=
  n.sending?.any fun (_, name, arguments) => name == "append" && arguments.length == 1

/-- What a chain of calls that append begins with. -/
def chainBase : Node → Node
  | n@⟨.callExpr, _, _, _, [⟨_, _, _, _, receiver :: _⟩, _]⟩ =>
    if n.appends then chainBase receiver else n
  | n => n
termination_by structural n => n

/-- The arguments of a call that are dropped or written more than once, by the name of the
method: the begin of a part of a string, what is printed after the first argument, and what the
time is asked with. -/
def distortedArguments (name : String) (arguments : List Node) : List Node :=
  match name, arguments with
  | "substring", [first, _] => [first]
  | "print", _ :: more => more
  | "println", _ :: more => more
  | "currentTimeMillis", _ => arguments
  | "nanoTime", _ => arguments
  | _, _ => []

/-- What is distorted of a chain of calls that append, by the method that continues it: what it
begins with is written again, and for the length nothing else is written. -/
def distortedChain (receiver : Node) (name : String) : List Node :=
  if !receiver.appends then []
  else if name = "length" then [receiver, receiver.chainBase]
  else if name = "append" ∨ name = "toString" then [receiver.chainBase]
  else []

/-- An operator that writes what it is assigned to again. -/
def repeats (left op : Node) : Bool :=
  if left.kind = .arrayAccess then op.literal != "=" else op.literal == "+=" || op.literal == ">>>="

/-- The children of a node that are dropped when code is generated, or written more than once. -/
def distorted (n : Node) : List Node :=
  match n.kind, n.children with
  | .annotationUse, children => children
  | .classLiteral, children => children
  | .newArrayExpr, children => children.filter fun m => m.kind ≠ .arrayInit
  | .assignExpr, [left, op, _] => if repeats left op then [left] else []
  | .unaryExpr, [op, target] =>
    if op.literal = Text.ofString "++" ∨ op.literal = Text.ofString "--" then [target] else []
  | .postfixExpr, [target, _] => [target]
  | .callExpr, _ =>
    match n.sending? with
    | some (receiver, name, arguments) =>
      distortedChain receiver name ++ distortedArguments name arguments
    | none => []
  | _, _ => []

/-- The operator of a node that has one. -/
def operator? (n : Node) : Option Node :=
  match n.kind with
  | .binaryExpr | .assignExpr | .postfixExpr => n.children[1]?
  | .unaryExpr => n.children[0]?
  | _ => none

/-- What a call with a receiver names. -/
def callName? (n : Node) : Option Node :=
  n.callParts?.bind fun (target, _) =>
    if target.kind = .fieldAccess then target.children.getLast? else none

/-- A node whose token is what the language has for its kind, whose operator is made of marks,
and which calls nothing but names. -/
structure IsProper (n : Node) : Prop where
  token : ∀ t ∈ n.token, t.IsProper
  operator : ∀ op ∈ n.operator?, isOperator op.literal = true
  callName : ∀ name ∈ n.callName?, name.kind = .identifier

/-- A tree as the language has it, in which the name of a method is used for its calls only, and
no call stands where it would not be written exactly once. -/
structure Keeps (f : MethodName) (n : Node) : Prop where
  clean : n.Clean
  confines : n.Confines f
  proper : ∀ m ∈ n.walk, m.IsProper
  kept : ∀ m ∈ n.walk, ∀ o ∈ m.distorted, o.calls f = 0

section Walks

variable {f : MethodName} {n m o : Node}

/-- A tree is part of its own walk. -/
theorem mem_walk (n : Node) : n ∈ n.walk := by
  obtain ⟨kind, span, token, problem, children⟩ := n
  rw [walk]
  exact List.mem_cons_self

/-- The walk of a child is part of that of its parent. -/
theorem mem_walk_of_child (hm : m ∈ n.children) (ho : o ∈ m.walk) : o ∈ n.walk := by
  obtain ⟨kind, span, token, problem, children⟩ := n
  rw [walk, walkAll_eq_flatMap]
  exact List.mem_cons_of_mem _ (List.mem_flatMap.2 ⟨m, hm, ho⟩)

/-- The calls in a tree: itself, and those in its children. -/
theorem calls_eq (f : MethodName) (n : Node) :
    n.calls f = (if n.isCallOf f then 1 else 0) + (n.children.map (calls f)).sum := by
  obtain ⟨kind, span, token, problem, children⟩ := n
  have hchildren : (children.flatMap walk).countP (isCallOf f) =
      (children.map (calls f)).sum := by
    rw [List.countP_flatMap]
    rfl
  rw [calls, walk, walkAll_eq_flatMap, List.countP_cons, hchildren, Nat.add_comm]

/-- Only calls have a target and arguments. -/
theorem kind_of_callParts? {parts : Node × List Node} (h : n.callParts? = some parts) :
    n.kind = .callExpr := by
  unfold callParts? at h
  split at h
  · next hkind _ => exact hkind
  · cases h

/-- What is no call calls nothing. -/
theorem isCallOf_of_kind (h : n.kind ≠ .callExpr) : n.isCallOf f = false := by
  unfold isCallOf
  cases hparts : n.callParts? with
  | none => rfl
  | some parts => exact absurd (kind_of_callParts? hparts) h

/-- A node that is no call has the calls of its children. -/
theorem calls_eq_sum (h : n.kind ≠ .callExpr) : n.calls f = (n.children.map (calls f)).sum := by
  rw [calls_eq, isCallOf_of_kind h, if_neg (by simp), Nat.zero_add]

/-- Below a node that is no call, the name is used for calls only if it is below its children. -/
theorem Confines.child (h : n.Confines f) (hkind : n.kind ≠ .callExpr) (hm : m ∈ n.children) :
    m.Confines f := by
  cases h with
  | spared _ children => exact children m hm
  | called h _ => exact absurd (kind_of_callParts? h) hkind
  | sent h _ _ _ => exact absurd (kind_of_callParts? h) hkind

/-- A name that is used elsewhere than in a call. -/
theorem Confines.spares (h : n.Confines f) (hkind : n.kind = .identifier) :
    f.Spares n.literal := by
  have hcall : ∀ {parts : Node × List Node}, n.callParts? ≠ some parts := fun hparts =>
    absurd (kind_of_callParts? hparts) (by rw [hkind]; decide)
  cases h with
  | spared here _ => exact here.1 hkind
  | called h _ => exact absurd h hcall
  | sent h _ _ _ => exact absurd h hcall

/-- The children of a tree that is kept are kept, unless the tree is a call. -/
theorem Keeps.child (h : n.Keeps f) (hkind : n.kind ≠ .callExpr) (hm : m ∈ n.children) :
    m.Keeps f where
  clean := h.clean.child hm
  confines := h.confines.child hkind hm
  proper o ho := h.proper o (mem_walk_of_child hm ho)
  kept o ho := h.kept o (mem_walk_of_child hm ho)

end Walks

section Calls

variable {f : MethodName} {n l r receiver name : Node} {front : List Node}

/-- A call is its target and its list of arguments. -/
theorem callParts?_eq (hkind : n.kind = .callExpr) (hchildren : n.children = [l, r]) :
    n.callParts? = some (l, r.children) := by
  rw [callParts?, hkind, hchildren]

/-- A call calls the method it names if it has no arguments. -/
theorem isCallOf_eq (hkind : n.kind = .callExpr) (hchildren : n.children = [l, r]) :
    n.isCallOf f = (l.calledName == f.text && r.children.isEmpty) := by
  rw [isCallOf, callParts?_eq hkind hchildren, Option.any_some]

/-- A call without a receiver names another method, or has no arguments. -/
theorem Confines.unqualified (h : n.Confines f) (hkind : n.kind = .callExpr)
    (hchildren : n.children = [l, r]) (hl : l.kind = .identifier) :
    n.isCallOf f = false ∧ f.Spares l.literal ∧ r.Confines f ∨
      n.isCallOf f = true ∧ l.literal = f.text ∧ r.children = [] := by
  have hparts := callParts?_eq hkind hchildren
  have hname : l.calledName = l.literal := by rw [calledName, hl]
  rw [isCallOf_eq hkind hchildren, hname]
  cases h with
  | spared _ children =>
    rw [hchildren, List.forall_mem_cons] at children
    have hspares := children.1.spares hl
    exact .inl ⟨by simp [hspares.ne], hspares, children.2 r (by simp)⟩
  | called h hname =>
    obtain ⟨rfl, hnone⟩ := Prod.mk.inj (Option.some.inj (hparts.symm.trans h))
    exact .inr ⟨by simp [hname.2, hnone], hname.2, hnone⟩
  | sent h htarget _ _ =>
    obtain ⟨rfl, -⟩ := Prod.mk.inj (Option.some.inj (hparts.symm.trans h))
    rw [hl] at htarget
    cases htarget.1

/-- A call with a receiver names another method, or has no arguments. -/
theorem Confines.qualified (h : n.Confines f) (hkind : n.kind = .callExpr)
    (hchildren : n.children = [l, r]) (hl : l.kind = .fieldAccess)
    (hparts : l.children = front ++ [name]) (hname : name.kind = .identifier) :
    (∀ m ∈ front, m.Confines f) ∧
      (n.isCallOf f = false ∧ f.Spares name.literal ∧ r.Confines f ∨
        n.isCallOf f = true ∧ name.literal = f.text ∧ r.children = []) := by
  have hcall := callParts?_eq hkind hchildren
  have hcalled : l.calledName = name.literal := by
    rw [calledName, hl, hparts, List.getLast?_concat]
    rfl
  rw [isCallOf_eq hkind hchildren, hcalled]
  cases h with
  | spared _ children =>
    rw [hchildren, List.forall_mem_cons] at children
    have hbelow : ∀ m ∈ l.children, m.Confines f := fun m hm =>
      children.1.child (by rw [hl]; decide) hm
    rw [hparts, List.forall_mem_append] at hbelow
    have hspares := (hbelow.2 name (by simp)).spares hname
    exact ⟨hbelow.1, .inl ⟨by simp [hspares.ne], hspares, children.2 r (by simp)⟩⟩
  | called h htarget =>
    obtain ⟨rfl, -⟩ := Prod.mk.inj (Option.some.inj (hcall.symm.trans h))
    rw [hl] at htarget
    cases htarget.1
  | sent h htarget hname hfront =>
    obtain ⟨rfl, hnone⟩ := Prod.mk.inj (Option.some.inj (hcall.symm.trans h))
    obtain ⟨rfl, heq⟩ := List.append_inj' (hparts.symm.trans htarget.2) rfl
    obtain rfl := List.singleton_inj.1 heq
    exact ⟨hfront, .inr ⟨by simp [hname, hnone], hname, hnone⟩⟩

/-- The receiver, the name and the arguments of a call with a receiver. -/
theorem sending?_eq (hkind : n.kind = .callExpr) (hchildren : n.children = [l, r])
    (hl : l.kind = .fieldAccess) (hparts : l.children = receiver :: front ++ [name]) :
    n.sending? = some (receiver, LibraryCall.word name.literal, r.children) := by
  have hcalled : l.calledName = name.literal := by
    rw [calledName, hl, hparts, List.getLast?_concat]
    rfl
  simp only [sending?, callParts?_eq hkind hchildren, Option.bind_some, hcalled, hl, hparts,
    List.cons_append]

/-- A chain goes on with what it begins with. -/
theorem chainBase_of_appends (hkind : n.kind = .callExpr) (hchildren : n.children = [l, r])
    {rest : List Node} (hparts : l.children = receiver :: rest) (h : n.appends = true) :
    n.chainBase = receiver.chainBase := by
  obtain ⟨kind, span, token, problem, children⟩ := n
  obtain ⟨lkind, lspan, ltoken, lproblem, lchildren⟩ := l
  dsimp only at hkind hchildren hparts
  subst hkind hchildren hparts
  rw [chainBase, if_pos h]

/-- What does not append is the base of its own chain. -/
theorem chainBase_of_not_appends (h : n.appends = false) : n.chainBase = n := by
  unfold chainBase
  split
  · rw [h]
    rfl
  · rfl

end Calls

end Node

/-- In trees of plain categories there are no calls, unless in annotations. -/
theorem Derives.calls_of_plain {f : MethodName} {c : Category} (hc : c ∈ Category.plain)
    {n : Node} (h : Derives c n) (hclean : n.Clean)
    (hkept : ∀ m ∈ n.walk, ∀ o ∈ m.distorted, o.calls f = 0) : n.calls f = 0 := by
  have hforms : ∀ c ∈ Category.plain, ∀ f ∈ c.forms, f.kind ≠ .callExpr ∧
      (f.kind = .annotationUse ∨ ∀ item ∈ f.items, item.category ∈ Category.plain) := by
    decide
  induction n using Node.induction generalizing c with
  | h n ih =>
    obtain ⟨form, hform, hkind, -, hchildren⟩ := h.form hclean
    obtain ⟨hcall, hrest⟩ := hforms c hc form hform
    rw [Node.calls_eq_sum (hkind ▸ hcall), List.sum_eq_zero_iff_forall_eq_nat, List.forall_mem_map]
    intro m hm
    rcases hrest with huse | hitems
    · refine hkept n n.mem_walk m ?_
      rw [Node.distorted, hkind.trans huse]
      exact hm
    · obtain ⟨item, hitem, hderives⟩ := hchildren.mem hm
      exact ih m hm (hitems item hitem) hderives (hclean.child hm)
        fun o ho => hkept o (Node.mem_walk_of_child hm ho)

section TypeNames

variable {f : MethodName} {n : Node}

/-- Behind the last separator only the text behind any separator counts. -/
theorem Text.afterLast_append (b : UInt8) (s t : Text) :
    Text.afterLast b (s ++ b :: t) = Text.afterLast b t := by
  induction s with
  | nil =>
    rw [List.nil_append, Text.afterLast]
    split
    · rfl
    · next hnone =>
      rw [if_pos rfl]
      cases t with
      | nil => rfl
      | cons c rest =>
        rw [List.mem_cons, not_or] at hnone
        rw [Text.afterLast, if_neg hnone.2, if_neg (Ne.symm hnone.1)]
  | cons c s ih => rw [List.cons_append, Text.afterLast, if_pos (by simp), ih]

/-- The simple name is a word, and not the name of a method. -/
def MethodName.IsOther (f : MethodName) (t : Text) : Prop :=
  (simpleName t).IsWord ∧ simpleName t ≠ f.text

/-- Names other than the method's join to names other than it. -/
theorem MethodName.joinsNames (f : MethodName) : JoinsNames f.IsOther := by
  intro parts hne h
  have hdot : Text.ofString "." = [Text.byte '.'] := by decide
  induction parts with
  | nil => exact absurd rfl hne
  | cons t rest ih =>
    rw [List.forall_mem_cons] at h
    cases rest with
    | nil => exact h.1
    | cons t' rest =>
      rw [Text.join.eq_3 _ _ _ (by simp), MethodName.IsOther, simpleName, hdot, List.append_assoc,
        List.singleton_append, Text.afterLast_append]
      exact ih (by simp) h.2

/-- A node below which there are no calls of the method and its name is not used. -/
def Node.IsClear (f : MethodName) (n : Node) : Prop := n.Confines f ∧ n.calls f = 0

/-- Below a tree that is clear of the method all names are other than it. -/
theorem Node.namesBelow (f : MethodName) : NamesBelow (Node.IsClear f) f.IsOther := by
  have hspared : ∀ m : Node, m.IsClear f → m.Spares f ∧ ∀ c ∈ m.children, c.Confines f := by
    rintro m ⟨hconfines, hcalls⟩
    rw [Node.calls_eq, Nat.add_eq_zero_iff] at hcalls
    have hnot : ∀ {target : Node}, m.callParts? = some (target, []) →
        target.calledName ≠ f.text := by
      intro target htarget hname
      have hcall : m.isCallOf f = true := by simp [Node.isCallOf, htarget, hname]
      rw [if_pos hcall] at hcalls
      exact absurd hcalls.1 (by decide)
    cases hconfines with
    | spared here children => exact ⟨here, children⟩
    | called h hname => exact absurd (by rw [Node.calledName, hname.1]; exact hname.2) (hnot h)
    | sent h htarget hname _ =>
      refine absurd ?_ (hnot h)
      rw [Node.calledName, htarget.1, htarget.2, List.getLast?_concat]
      exact hname
  constructor
  · intro m hm c hc
    refine ⟨(hspared m hm).2 c hc, ?_⟩
    have hcalls := hm.2
    rw [Node.calls_eq, Nat.add_eq_zero_iff, List.sum_eq_zero_iff_forall_eq_nat,
      List.forall_mem_map] at hcalls
    exact hcalls.2 c hc
  · intro m hm hkind hword
    have hne : m.literal ≠ f.text := by
      obtain ⟨hidentifier, htype⟩ := (hspared m hm).1
      rcases hkind with hkind | hkind
      · exact (hidentifier hkind).ne
      · exact htype hkind
    rw [MethodName.IsOther, simpleName_of_isWord hword]
    exact ⟨hword, hne⟩

/-- The simple name of a written type. -/
theorem Node.Keeps.typeName (h : n.Keeps f) (hn : Derives .type n) :
    (JavaType.ofNode n).simple.IsWord ∧ (JavaType.ofNode n).simple ≠ f.text :=
  typeName_of_words f.joinsNames (Node.namesBelow f) hn h.clean
    ⟨h.confines, hn.calls_of_plain (by decide) h.clean h.kept⟩

end TypeNames

end JavaObjC
