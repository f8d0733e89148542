import JavaObjC.Proofs.Arithmetic
import JavaObjC.Proofs.Effects.Evaluation
import JavaObjC.Proofs.Links.Members

/-!
# What calls and chains on a builder are written as

A chain of calls that append becomes a sequence of messages to the object it
begins with, in the order of the calls. If the chain goes on with `toString`, a
message for a copy follows in the same sequence. If it goes on with `length`,
the sequence is left out: that is one of the places where calls are dropped.
The main statement counts the calls of a method outside of such places.
-/

namespace JavaObjC

open Fragments Lower Lowering Text

/-- An action gives a result in some state. -/
def GivesIn {α : Type} (around : Surroundings) (x : Lower α) (a : α) : Prop :=
  ∃ s s', x.run' around s = (.ok a, s')

section Results

variable {α β : Type} {around : Surroundings} {x : Lower α} {g : α → Lower β} {a : α} {b : β}

/-- What two actions in a row give, the second gives from an answer of the first. -/
theorem GivesIn.bind (h : GivesIn around (x >>= g) b) :
    ∃ a, GivesIn around x a ∧ GivesIn around (g a) b := by
  obtain ⟨s, s', h⟩ := h
  obtain ⟨a, s₁, hfirst, hsecond⟩ := Generating.bind_ok h
  exact ⟨a, ⟨s, s₁, hfirst⟩, ⟨s₁, s', hsecond⟩⟩

/-- A plain answer gives itself. -/
theorem GivesIn.pure {c : α} (h : GivesIn around (Pure.pure a) c) : a = c := by
  obtain ⟨s, s', h⟩ := h
  exact (Generating.pure_ok h).1

/-- Reading gives the surroundings. -/
theorem GivesIn.read {around' : Surroundings} (h : GivesIn around MonadReader.read around') :
    around' = around := by
  obtain ⟨s, s', h⟩ := h
  exact (Generating.read_ok h).1

/-- The results for the members of a list. -/
theorem GivesIn.mapM {l : List β} {g : β → Lower α} {as : List α}
    (h : GivesIn around (l.mapM g) as) :
    List.Forall₂ (fun c a => GivesIn around (g c) a) l as := by
  induction l generalizing as with
  | nil =>
    rw [List.mapM_nil] at h
    exact h.pure ▸ .nil
  | cons c l ih =>
    rw [List.mapM_cons] at h
    obtain ⟨a, ha, h⟩ := h.bind
    obtain ⟨rest, hrest, h⟩ := h.bind
    exact h.pure ▸ .cons ha (ih hrest)

end Results

namespace Node

/-- A call of a method of a value. -/
structure Sends (n receiver : Node) (word : String) (arguments : List Node) : Prop where
  isCall : n.kind = .callExpr
  shape : ∃ target list name, n.children = [target, list] ∧ target.kind = .fieldAccess ∧
    target.children = [receiver, name] ∧ LibraryCall.word name.literal = word ∧
      list.kind = .parameters ∧ list.children = arguments
  isOther : receiver.kind ≠ .superRef

/-- Several calls that append, from a receiver on. -/
inductive Appends (base : Node) : List Node → Node → Prop where
  | start : Appends base [] base
  | next {arguments : List Node} {receiver a n : Node} (h : Appends base arguments receiver)
      (hcall : n.Sends receiver "append" [a]) : Appends base (arguments ++ [a]) n

end Node

/-- A value that is a string builder. -/
structure IsBuilder (r : Value) : Prop where
  kind : CollectionKind.of? r.type = some .builder
  className : r.className = none
  isStream : r.isStream = false

/-- The chain of messages that append values to an object. -/
def appendingAll (target : Text) (type : JavaType) (vs : List Value) : Value where
  text := Text.join ", " (vs.map (LibraryCall.appending target))
  type := type
  builder := some target

section Chains

variable {around : Surroundings} {n base receiver : Node} {word : String}
  {arguments : List Node} {r v : Value} {vs : List Value}

/-- A call of a method of a value: the arguments, then the receiver, then the message. -/
theorem attributed_sent {target list name : Node} (hkind : n.kind = .callExpr)
    (hchildren : n.children = [target, list]) (htarget : target.kind = .fieldAccess)
    (hparts : target.children = [receiver, name]) (hlist : list.kind = .parameters)
    (hother : receiver.kind ≠ .superRef) :
    (attributed n).value = (do
      let vs ← list.children.mapM fun m => (attributed m).value
      let r ← (attributed receiver).value
      if r.isStream then streamCall n name.literal (attributed list).parts vs
      else match r.className with
        | some className => staticCall n className name.literal vs
        | none => instanceCall r name.literal vs) := by
  have hfirst : Parts.first? [attributed target, attributed list] .parameters =
      some (attributed list) := by
    simp [Parts.first?, attributed_kind, htarget, hlist]
  have hlast : Parts.lastChild (target.children.map attributed) = Pure.pure (attributed name) := by
    rw [hparts]
    rfl
  rw [attributed_value, expression]
  simp only [hkind, call, hchildren, List.map_cons, List.map_nil, child_zero, pure_bind,
    attributed_kind, htarget, attributed_parts target,
    arguments_pair (by simp [htarget] : target.kind ≠ .parameters) hlist]
  refine bind_congr fun vs => ?_
  rw [if_neg (by decide), if_pos trivial, qualifiedCall, hlast, pure_bind, hparts, List.map_cons,
    child_zero, pure_bind, attributed_kind, if_neg hother, hfirst, attributed_literal]
  rfl

/-- A call of a method of a value is generated from the arguments and the receiver. -/
theorem Node.Sends.givesIn (h : n.Sends receiver word arguments)
    (hn : GivesIn around (attributed n).value v) : ∃ name r vs, LibraryCall.word name = word ∧
      GivesIn around (attributed receiver).value r ∧
      List.Forall₂ (fun m u => GivesIn around (attributed m).value u) arguments vs ∧
      (r.className = none → r.isStream = false → GivesIn around (instanceCall r name vs) v) := by
  obtain ⟨target, list, name, hchildren, htarget, hparts, hword, hlist, rfl⟩ := h.shape
  rw [attributed_sent h.isCall hchildren htarget hparts hlist h.isOther] at hn
  obtain ⟨vs, hvs, hn⟩ := hn.bind
  obtain ⟨r, hr, hn⟩ := hn.bind
  refine ⟨name.literal, r, vs, hword, hr, hvs.mapM, fun hclass hstream => ?_⟩
  rwa [hstream, if_neg (by simp), hclass] at hn

/-- A library method of a value. -/
theorem givesIn_libraryCall {name : Text} {u : Value}
    (h : GivesIn around (instanceCall r name vs) v)
    (hu : libraryCall? around r name vs = some u) : v = u := by
  obtain ⟨around', hread, h⟩ := h.bind
  obtain rfl := hread.read
  rw [hu] at h
  exact h.pure.symm

/-- How a chain on a builder ends: a copy of the builder, or its length. -/
theorem libraryCall?_ended {name : Text} (hr : CollectionKind.of? r.type = some .builder)
    (hname : LibraryCall.word name = "toString" ∨ LibraryCall.word name = "length") :
    libraryCall? around r name [] = LibraryCall.onBuilder? r (LibraryCall.word name) [] := by
  have hstring : isStringType r.type = false := by
    rw [← Bool.not_eq_true]
    exact fun h => not_builder_of_isStringType h hr
  unfold libraryCall?
  dsimp only
  rw [hstring, hr, Option.bind_some, if_neg (by simp), Option.none_or]
  rcases hname with hname | hname
  · rw [hname, collectionCall?, LibraryCall.onBuilder?]
    split <;> rfl
  · rw [hname]
    rfl

/-- What is joined grows at its end. -/
theorem join_concat {sep t : Text} {ts : List Text} (hne : ts ≠ []) :
    Text.join sep (ts ++ [t]) = Text.join sep ts ++ sep ++ t := by
  induction ts with
  | nil => exact absurd rfl hne
  | cons first rest ih =>
    cases rest with
    | nil => rfl
    | cons second rest =>
      have hfirst : ∀ more : List Text, Text.join sep (first :: second :: more) =
          first ++ sep ++ Text.join sep (second :: more) :=
        fun more => Text.join.eq_3 _ _ _ (by simp)
      rw [List.cons_append, List.cons_append, hfirst, ← List.cons_append, ih (by simp), hfirst]
      simp only [List.append_assoc]

/-- A chain of calls that append is a sequence of messages to what it begins with. -/
theorem Node.Appends.givesIn (h : base.Appends arguments n) (hne : arguments ≠ [])
    (hn : GivesIn around (attributed n).value v) : ∃ r vs,
      GivesIn around (attributed base).value r ∧
      List.Forall₂ (fun m u => GivesIn around (attributed m).value u) arguments vs ∧
      (IsBuilder r → r.builder = none → v = appendingAll r.text r.type vs) := by
  induction h generalizing v with
  | start => exact absurd rfl hne
  | @next arguments receiver a n h hcall ih =>
    obtain ⟨name, r', us, hword, hr', hus, hcalled⟩ := hcall.givesIn hn
    obtain ⟨u, none, hu, hnone, rfl⟩ := List.forall₂_cons_left_iff.1 hus
    obtain rfl := List.forall₂_nil_left_iff.1 hnone
    have happend : CollectionKind.of? r'.type = some .builder → r'.className = none →
        r'.isStream = false → some v = LibraryCall.onBuilder? r' "append" [u] :=
      fun hkind hclass hstream => by
        have hlibrary : libraryCall? around r' name [u] = _ := libraryCall?_append hword u
        rw [if_pos hkind] at hlibrary
        exact congrArg some (givesIn_libraryCall (hcalled hclass hstream) hlibrary)
    cases h with
    | start =>
      refine ⟨r', [u], hr', by simpa using hu, fun hbuilder hnone => ?_⟩
      have hv := happend hbuilder.kind hbuilder.className hbuilder.isStream
      simp only [LibraryCall.onBuilder?, hnone, Option.isSome_none, Bool.false_eq_true, if_false,
        Option.getD_none, Option.some.injEq] at hv
      exact hv
    | next h' hcall' =>
      obtain ⟨r, vs, hr, hvs, hchain⟩ := ih (by simp) hr'
      refine ⟨r, vs ++ [u], hr, List.rel_append hvs (by simpa using hu), fun hbuilder hnone => ?_⟩
      obtain rfl := hchain hbuilder hnone
      have hv := happend hbuilder.kind rfl rfl
      have hvs' : vs.map (LibraryCall.appending r.text) ≠ [] := by
        have hlength := hvs.length_eq
        rw [List.length_append, List.length_singleton] at hlength
        exact List.ne_nil_of_length_pos (by simp [← hlength])
      simp only [LibraryCall.onBuilder?, appendingAll, Option.isSome_some, if_true,
        Option.getD_some, Option.some.injEq] at hv
      rw [hv, appendingAll, List.map_append, List.map_cons, List.map_nil, join_concat hvs',
        List.append_assoc]

/-- A chain that goes on with a call without arguments. -/
theorem Node.Appends.ended {last : Node} (h : base.Appends arguments n) (hne : arguments ≠ [])
    (hlast : last.Sends n word []) (hword : word = "toString" ∨ word = "length")
    (hn : GivesIn around (attributed last).value v) : ∃ r vs,
      GivesIn around (attributed base).value r ∧
      List.Forall₂ (fun m u => GivesIn around (attributed m).value u) arguments vs ∧
      (IsBuilder r → r.builder = none →
        LibraryCall.onBuilder? (appendingAll r.text r.type vs) word [] = some v) := by
  obtain ⟨name, chain, us, hname, hchain, hus, hcalled⟩ := hlast.givesIn hn
  obtain rfl := List.forall₂_nil_left_iff.1 hus
  obtain ⟨r, vs, hr, hvs, heq⟩ := h.givesIn hne hchain
  refine ⟨r, vs, hr, hvs, fun hbuilder hnone => ?_⟩
  obtain rfl := heq hbuilder hnone
  have hlibrary : libraryCall? around (appendingAll r.text r.type vs) name [] = _ :=
    libraryCall?_ended hbuilder.kind (by rwa [hname])
  cases hfound : LibraryCall.onBuilder? (appendingAll r.text r.type vs)
      (LibraryCall.word name) [] with
  | none =>
    rcases hword with rfl | rfl
    · rw [hname] at hfound
      simp [LibraryCall.onBuilder?, appendingAll] at hfound
    · rw [hname] at hfound
      simp [LibraryCall.onBuilder?] at hfound
  | some u =>
    rw [givesIn_libraryCall (hcalled rfl rfl) (hlibrary.trans hfound), ← hname, hfound]

end Chains

/-- A method that is used for nothing but its calls. -/
def tick : MethodName where
  text := "tick"
  front := by decide
  inner := by decide +kernel
  foreign := by
    simp only [Text.ofString_eq_bytes]
    decide +kernel
  unlisted := by decide

/-- The signature of the method. -/
def tickSignature : MethodSignature := { name := "tick", parameters := [], result := .int }

/-- A class with the method. -/
def tickSurroundings : Surroundings where
  unit := some { name := "A", isInterface := false, methods := [tickSignature] }

/-- Nothing in these surroundings is named like the method. -/
theorem tickSurroundings_avoid : tickSurroundings.Avoids tick where
  targets := by simp [tickSurroundings]
  classes := by simp [tickSurroundings]
  known := by
    have hword : Text.IsWord "A" ∧ Text.ofString "A" ≠ tick.text :=
      ⟨⟨by decide, by decide +kernel⟩, by decide +kernel⟩
    have hname : LibraryCall.word "tick" ≠ "append" := by decide
    simp only [Surroundings.knownClasses, tickSurroundings, Option.toList_some, List.map_cons,
      List.map_nil, List.filterMap_nil, List.append_nil, List.forall_mem_singleton]
    exact ⟨hword, by simp [tickSignature, MethodSignature.parameterNames], by simp,
      by simpa [tickSignature] using fun h => absurd h hname⟩

/-- A word of a chain. -/
def chainWord (word : Text) : Node := .ofToken .identifier ⟨.identifier, {}, word⟩

/-- An inner node of a chain. -/
def chainNode (kind : NodeKind) (children : List Node) : Node := ⟨kind, {}, none, none, children⟩

/-- A call of the method. -/
def tickCall : Node := chainNode .callExpr [chainWord "tick", chainNode .parameters []]

/-- A call that appends what the method gives. -/
def appendTick (receiver : Node) : Node :=
  chainNode .callExpr
    [chainNode .fieldAccess [receiver, chainWord "append"], chainNode .parameters [tickCall]]

/-- A chain of two calls that append. -/
def tickChain : Node := appendTick (appendTick (chainWord "b"))

/-- The words of the chain are words of the grammar. -/
theorem chainWord_derives {word : Text} (h : word.IsWord) : Derives .word (chainWord word) :=
  .node (f := { kind := .identifier, token := .word }) List.mem_cons_self ⟨_, rfl, h⟩ .nil

/-- Appending to an expression is an expression. -/
theorem appendTick_derives {receiver : Node} (h : Derives .expression receiver) :
    Derives .expression (appendTick receiver) := by
  have hword : ∀ word ∈ ["append", "tick"].map Text.ofString, Text.IsWord word := by
    unfold Text.IsWord
    decide +kernel
  have hcalls : ∀ {target list : Node}, Derives .expression target → Derives .arguments list →
      Derives .expression (chainNode .callExpr [target, list]) := fun htarget hlist =>
    .node (f := ⟨.callExpr, [.one .expression, .one .arguments], .absent⟩) (c := .expression)
      (by decide) rfl (.one htarget (.one hlist .nil))
  have hlists : ∀ {nodes : List Node}, DerivesAll .expression nodes →
      Derives .arguments (chainNode .parameters nodes) := fun hnodes =>
    .node (f := ⟨.parameters, [.many .expression], .absent⟩) (by decide) rfl (.of_all_last hnodes)
  have htick : Derives .expression tickCall :=
    hcalls ((chainWord_derives (hword _ (by simp))).mono (by decide)) (hlists .nil)
  refine hcalls (.node (f := ⟨.fieldAccess,
    [.one .expression, .optional .typeArguments, .one .word], .absent⟩)
      (c := .expression) (by decide) rfl ?_) (hlists (by simpa using htick))
  exact .one h (.without (.one (chainWord_derives (hword _ (by simp))) .nil))

/-- The chain is a tree for which the law of chains is stated. -/
theorem tickChain_keeps : tickChain.Keeps tick where
  clean := by
    unfold Node.Clean
    decide
  confines := by
    have hwords : ∀ word ∈ ["append", "b"].map Text.ofString, tick.Spares word := by
      unfold MethodName.Spares
      decide
    have hword : ∀ word ∈ ["append", "b"].map Text.ofString, (chainWord word).Confines tick :=
      fun word hmem => .spared ⟨fun _ => hwords word hmem, fun h => by cases h⟩
        (by simp [chainWord, Node.ofToken])
    have hinner : ∀ {kind : NodeKind} {children : List Node}, kind ≠ .identifier → kind ≠ .type →
        (∀ m ∈ children, m.Confines tick) → (chainNode kind children).Confines tick :=
      fun hkind hkind' hchildren =>
        .spared ⟨fun h => absurd h hkind, fun h => absurd h hkind'⟩ hchildren
    have htick : tickCall.Confines tick := .called rfl ⟨rfl, rfl⟩
    have happend : ∀ {receiver : Node}, receiver.Confines tick →
        (appendTick receiver).Confines tick := fun h => by
      refine hinner (by decide) (by decide) ?_
      simp only [List.forall_mem_cons, List.not_mem_nil, IsEmpty.forall_iff, implies_true, and_true]
      refine ⟨hinner (by decide) (by decide) ?_,
        hinner (by decide) (by decide) (by simpa using htick)⟩
      simpa using ⟨h, hword _ (by simp)⟩
    exact happend (happend (hword _ (by simp)))
  proper m hm := by
    have hall : tickChain.walk.all (fun m => m.token.all (·.kind = .identifier) &&
        m.operator?.isNone && m.callName?.all (·.kind = .identifier)) = true := by decide
    obtain ⟨⟨htoken, hoperator⟩, hname⟩ := by simpa using List.all_eq_true.1 hall m hm
    refine ⟨fun t ht => ?_, by simp [hoperator], fun name h => ?_⟩
    · have hkind : t.kind = .identifier := by simpa using (Option.all_eq_true _ _).1 htoken t ht
      simp [Token.IsProper, hkind]
    · simpa using (Option.all_eq_true _ _).1 hname name h
  kept := by decide

/-- A body with a string builder as its local. -/
def builderState : BodyState := { scopes := [[("b", .named "StringBuilder")]] }

/-- The call of the method is a message to the object. -/
theorem tickCall_value : (attributed tickCall).value.run' tickSurroundings builderState =
    (.ok (.typed "[self tick]" .int), builderState) := by
  have hmethod : tickSurroundings.method? tickSurroundings.ownName "tick" 0 =
      some tickSignature := by
    have hmembers : tickSurroundings.members? tickSurroundings.ownName =
        some { name := "A", isInterface := false, methods := [tickSignature] } := by decide
    have hfound : ClassSignature.method?
        { name := "A", isInterface := false, methods := [tickSignature] } "tick" 0 =
          some tickSignature := by decide
    rw [Surroundings.method?, Surroundings.hierarchy_of_members (by decide) hmembers,
      List.findSome?_cons, hfound]
  have hcall : (attributed tickCall).value = unqualifiedCall "tick" [] := rfl
  rw [hcall, unqualifiedCall]
  refine (run'_bind (a := tickSurroundings) rfl).trans ?_
  dsimp only [List.length_nil]
  rw [hmethod]
  rfl

/-- What appending the result of the call to the local gives, or appending it again. -/
def tickAppended (isAgain : Bool) : Value where
  text := (if isAgain then "[b appendFormat:@\"%d\", [self tick]], " else "" : String) ++
    "[b appendFormat:@\"%d\", [self tick]]"
  type := .named "StringBuilder"
  builder := some "b"

/-- Appending the call is what a call on the receiver gives. -/
theorem appendTick_value {receiver : Node} {r v : Value} (hother : receiver.kind ≠ .superRef)
    (h : (attributed receiver).value.run' tickSurroundings builderState = (.ok r, builderState))
    (hv : (instanceCall r "append" [.typed "[self tick]" .int]).run' tickSurroundings builderState =
      (.ok v, builderState)) (hclass : r.className = none) (hstream : r.isStream = false) :
    (attributed (appendTick receiver)).value.run' tickSurroundings builderState =
      (.ok v, builderState) := by
  have harguments : [tickCall].mapM (fun m => (attributed m).value) =
      (attributed tickCall).value >>= fun u => pure [u] := by simp [List.mapM_cons]
  rw [attributed_sent (n := appendTick receiver) rfl rfl rfl rfl rfl hother]
  refine (run'_bind (a := [.typed "[self tick]" .int]) ?_).trans ((run'_bind h).trans ?_)
  · exact harguments ▸ run'_bind tickCall_value
  · rw [hstream, if_neg (by simp), hclass]
    exact hv

/-- The chain keeps its appended value in a string builder. -/
theorem tickChain_value : (attributed tickChain).value.run' tickSurroundings builderState =
    (.ok (tickAppended true), builderState) := by
  have hb : (attributed (chainWord "b")).value.run' tickSurroundings builderState =
      (.ok (.typed "b" (.named "StringBuilder")), builderState) := rfl
  have hfirst : (attributed (appendTick (chainWord "b"))).value.run' tickSurroundings builderState =
      (.ok (tickAppended false), builderState) := appendTick_value (by decide) hb rfl rfl rfl
  exact appendTick_value (by decide) hfirst rfl rfl rfl

end JavaObjC
