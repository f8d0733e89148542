import JavaObjC.Proofs.Headers.Completeness
import JavaObjC.Proofs.Scopes.Places
import JavaObjC.Proofs.Statics.Storage

/-!
# Names that stand in no source

Two kinds of names in generated code are put together by the generator. A loop
over primitives enumerates a boxed variable, which is named for the loop
variable, and a static field is a global variable, which is named for its class.
Neither is compared with the names that are in scope, so each can be that of
another variable. Then the code reads a variable that the source does not mean:
a name in the loop reads the element that is enumerated, a static field reads a
local, and two static fields are one variable.

A name reads what it means exactly if no loop around it enumerates a variable
that is spelled like it and no local hides the global variable. This is always so
if no name is spelled like a boxed variable and no local has an underscore.
-/

namespace JavaObjC

open Generating Lower Lowering

/-- The global variable behind a static field of a class. -/
def globalVariable (owner name : Text) : Text := owner ++ "_" ++ name

section Texts

variable {x y owner owner' name name' : Text}

/-- A boxed variable has an underscore if the loop variable has one. -/
theorem underscore_mem_boxedVariable : Text.byte '_' ∈ boxedVariable x ↔ Text.byte '_' ∈ x := by
  have hsuffix : Text.byte '_' ∉ Text.ofString "Boxed" := by decide
  rw [boxedVariable, List.mem_append, or_iff_left hsuffix]

/-- The class and the field are parted by one byte. -/
theorem globalVariable_eq (owner name : Text) :
    globalVariable owner name = owner ++ Text.byte '_' :: name := by
  rw [globalVariable, List.append_assoc]
  rfl

/-- Every global variable has an underscore. -/
theorem underscore_mem_globalVariable (owner name : Text) :
    Text.byte '_' ∈ globalVariable owner name := by
  rw [globalVariable_eq]
  simp

/-- Two global variables have the same name if they are named for the same class and field, or if
one class goes on behind an underscore with what the field of the other one begins with. -/
theorem globalVariable_eq_iff : globalVariable owner name = globalVariable owner' name' ↔
    (owner = owner' ∧ name = name') ∨
    (∃ between, owner' = globalVariable owner between ∧ name = globalVariable between name') ∨
    ∃ between, owner = globalVariable owner' between ∧ name' = globalVariable between name := by
  simp only [globalVariable_eq]
  rw [List.append_eq_append_iff]
  constructor
  · rintro (⟨rest, howner, hrest⟩ | ⟨rest, howner, hrest⟩)
    · cases rest with
      | nil => exact .inl ⟨by simpa using howner.symm, by simpa using hrest⟩
      | cons b between =>
        obtain ⟨rfl, hname⟩ := List.cons.inj hrest
        exact .inr (.inl ⟨between, howner, hname⟩)
    · cases rest with
      | nil => exact .inl ⟨by simpa using howner, by simpa using hrest.symm⟩
      | cons b between =>
        obtain ⟨rfl, hname⟩ := List.cons.inj hrest
        exact .inr (.inr ⟨between, howner, hname⟩)
  · rintro (⟨rfl, rfl⟩ | ⟨between, rfl, rfl⟩ | ⟨between, rfl, rfl⟩)
    · exact .inl ⟨[], by simp, rfl⟩
    · exact .inl ⟨Text.byte '_' :: between, rfl, rfl⟩
    · exact .inr ⟨Text.byte '_' :: between, rfl, rfl⟩

/-- The class and the field of a global variable can be told apart if the names of classes have no
underscore. -/
theorem globalVariable_inj (howner : Text.byte '_' ∉ owner) (howner' : Text.byte '_' ∉ owner')
    (h : globalVariable owner name = globalVariable owner' name') :
    owner = owner' ∧ name = name' := by
  rw [globalVariable_eq, globalVariable_eq] at h
  exact Text.append_cons_inj howner howner' h

end Texts

section Loops

/-- What becomes of a loop with a variable of a type: primitive elements are enumerated boxed and
read into the variable, others are enumerated as they are. -/
inductive Enumerates (x : Text) (element : JavaType) : Stmt → Prop where
  | boxed (hprimitive : element.isPrimitive = true) (type source : Text) (inner : List Stmt) :
    Enumerates x element (.forIn "NSNumber *" (boxedVariable x) source
      (.block (.declare type x (message (boxedVariable x) (unboxSelector element.name)) :: inner)))
  | plain (hobject : element.isPrimitive = false) (type source : Text) (inner : Stmt) :
    Enumerates x element (.forIn type x source inner)

/-- What an action in a scope of its own gives is what it gives without. -/
theorem withScope_answers {C : Surroundings → Prop} {α : Type} {x : Lower α} {P : α → Prop}
    (h : Generating.Answers C x P) : Generating.Answers C (withScope x) P := by
  intro around s a s' haround hresult
  have hinner : (Generating.result x around { s with scopes := [] :: s.scopes }).1 = .ok a :=
    congrArg Prod.fst hresult
  exact h around _ a _ haround (Prod.ext hinner rfl)

variable {around : Surroundings} {s s' : BodyState} {α : Type} {x : Lower α} {n : Node}

/-- What an action gives in a run is what it gives where the same scopes are open. -/
theorem given?_of_ok {a : α} (hx : x.Formed)
    (h : Generating.result x around s = (.ok a, s')) : given? around s.scopes x = some a := by
  obtain ⟨outcome, noted, left, hrecords⟩ := hx.records around s.scopes
  have hresult : (Generating.result x around s).1 = outcome :=
    congrArg Prod.fst (hrecords.result_eq s.references)
  have hgiven : given? around s.scopes x = outcome.toOption :=
    congrArg (fun p : Except Refusal α × BodyState => p.1.toOption) (hrecords.result_eq {})
  rw [h] at hresult
  rw [hgiven, ← hresult]
  rfl

/-- A loop over elements of a primitive type, and no other, enumerates a boxed variable. -/
theorem forEach_enumerates {parts : Parts} {one : Stmt} (hparts : parts.Formed)
    (h : Generating.result (forEach parts) around s = (.ok one, s')) :
    Enumerates parts.name (loopLocal around s.scopes parts).2 one := by
  unfold forEach at h
  obtain ⟨last, s₁, hlast, h⟩ := bind_ok h
  obtain ⟨collection, s₂, hvalue, h⟩ := bind_ok h
  have helement : (loopLocal around s.scopes parts).2 =
      if (loopType parts).isVar then elementOf collection.type else loopType parts := by
    obtain ⟨hwhich, rfl⟩ : parts.dropLast.getLast? = some last ∧ s₁ = s := by
      cases hwhich : parts.dropLast.getLast? with
      | none =>
        rw [hwhich] at hlast
        exact absurd hlast throw_ok
      | some part =>
        rw [hwhich] at hlast
        obtain ⟨rfl, rfl⟩ := pure_ok hlast
        exact ⟨rfl, rfl⟩
    have hmem : last ∈ parts := List.mem_of_mem_dropLast (List.mem_of_getLast? hwhich)
    have hgiven := given?_of_ok (hparts last hmem).value hvalue
    simp only [loopLocal, hwhich, Option.map_some, Option.getD_some, typeIn, hgiven]
  rw [helement]
  refine withScope_answers (C := fun _ => True) ?_ around s₂ one s' trivial h
  refine .after fun _ => .after fun inside => .after fun inner => ?_
  refine .ite (fun hprimitive => ?_) fun hobject => ?_
  · exact .after fun ref => .after fun _ => .pure (.boxed hprimitive _ _ _)
  · exact .after fun ref => .pure (.plain (by simpa using hobject) _ _ _)

/-- A loop over elements becomes one statement. -/
theorem loop_enumerates {body : List Stmt} (hkind : n.kind = .enhancedForStmt)
    (h : Generating.result (attributed n).statements around s = (.ok body, s')) :
    ∃ one, body = [one] ∧ Enumerates (declaredName n)
      (loopLocal around s.scopes (n.children.map attributed)).2 one := by
  have hstatements : (attributed n).statements =
      (do return [← forEach (n.children.map attributed)]) := by
    rw [attributed_eq]
    change statements n _ = _
    simp only [statements, statement, hkind]
  rw [hstatements] at h
  obtain ⟨one, s₁, hone, h⟩ := bind_ok h
  obtain ⟨rfl, -⟩ := pure_ok h
  have hformed : Parts.Formed (n.children.map attributed) :=
    List.forall_mem_map.2 fun m _ => attributed_formed m
  exact ⟨one, rfl, name_map_attributed n ▸ forEach_enumerates hformed hone⟩

end Loops

section Reading

/-- A variable in generated code. -/
inductive Variable where
  /-- A local of the source. -/
  | declared (t : JavaType)
  /-- What a loop enumerates. -/
  | enumerated

namespace Layer

/-- The innermost variable of a name. -/
def read? (name : Text) : List Layer → Option Variable
  | [] => none
  | .scope locals :: outer =>
    match getKey? name locals with
    | some t => some (.declared t)
    | none => read? name outer
  | .enumerated x :: outer => if x = name then some .enumerated else read? name outer

/-- A loop enumerates a variable of a name, and no local of this name is declared inside of it. -/
def Captures (layers : List Layer) (name : Text) : Prop :=
  ∃ inner outer, layers = inner ++ .enumerated name :: outer ∧
    findLocal? name (scopes inner) = none

variable {layers outer : List Layer} {name x : Text} {locals : Scope}

theorem not_captures_nil : ¬ Captures [] name := by
  rintro ⟨inner, outer, heq, -⟩
  simp at heq

theorem findLocal?_cons (scopes : List Scope) : findLocal? name (locals :: scopes) =
    (getKey? name locals).or (findLocal? name scopes) := by
  rw [findLocal?, List.findSome?_cons]
  cases getKey? name locals <;> rfl

/-- A loop around a scope captures a name that the scope does not have. -/
theorem captures_scope_iff : Captures (.scope locals :: outer) name ↔
    getKey? name locals = none ∧ Captures outer name := by
  constructor
  · rintro ⟨inner, outer', heq, hnone⟩
    cases inner with
    | nil => cases heq
    | cons layer inner =>
      obtain ⟨rfl, rfl⟩ := List.cons.inj heq
      rw [scopes_scope, findLocal?_cons, Option.or_eq_none_iff] at hnone
      exact ⟨hnone.1, inner, outer', rfl, hnone.2⟩
  · rintro ⟨hlocals, inner, outer', rfl, hnone⟩
    refine ⟨.scope locals :: inner, outer', rfl, ?_⟩
    rw [scopes_scope, findLocal?_cons, hlocals, hnone]
    rfl

/-- A loop captures the name of its variable, and what loops around it capture. -/
theorem captures_enumerated_iff : Captures (.enumerated x :: outer) name ↔
    x = name ∨ Captures outer name := by
  constructor
  · rintro ⟨inner, outer', heq, hnone⟩
    cases inner with
    | nil => exact .inl (Layer.enumerated.inj (List.cons.inj heq).1)
    | cons layer inner =>
      obtain ⟨rfl, rfl⟩ := List.cons.inj heq
      exact .inr ⟨inner, outer', rfl, hnone⟩
  · rintro (rfl | ⟨inner, outer', rfl, hnone⟩)
    · exact ⟨[], outer, rfl, rfl⟩
    · exact ⟨.enumerated x :: inner, outer', rfl, hnone⟩

/-- A name reads an enumerated variable if a loop captures it, and otherwise the local that the scopes
of the source have. -/
theorem read?_eq (name : Text) (layers : List Layer) :
    (Captures layers name ∧ read? name layers = some .enumerated) ∨
      ¬ Captures layers name ∧
        read? name layers = (findLocal? name (scopes layers)).map .declared := by
  induction layers with
  | nil => exact .inr ⟨not_captures_nil, rfl⟩
  | cons layer outer ih =>
    cases layer with
    | scope locals =>
      rw [captures_scope_iff, scopes_scope, findLocal?_cons, read?]
      cases getKey? name locals with
      | some t => exact .inr ⟨fun h => absurd h.1 (by simp), rfl⟩
      | none => simpa using ih
    | enumerated x =>
      rw [captures_enumerated_iff, scopes_enumerated, read?]
      by_cases hx : x = name
      · exact .inl ⟨.inl hx, if_pos hx⟩
      · simpa [hx] using ih

/-- A name reads the local that it means exactly if no loop captures it. -/
theorem read?_eq_local_iff : read? name layers = (findLocal? name (scopes layers)).map .declared ↔
    ¬ Captures layers name := by
  rcases read?_eq name layers with ⟨hcaptures, hread⟩ | ⟨hfree, hread⟩
  · rw [hread]
    refine ⟨fun h => ?_, fun h => absurd hcaptures h⟩
    obtain ⟨t, -, ht⟩ := Option.map_eq_some_iff.1 h.symm
    cases ht
  · exact ⟨fun _ => hfree, fun _ => hread⟩

/-- A name reads no local exactly if no loop captures it and no scope has it. -/
theorem read?_eq_none_iff : read? name layers = none ↔
    ¬ Captures layers name ∧ findLocal? name (scopes layers) = none := by
  rcases read?_eq name layers with ⟨hcaptures, hread⟩ | ⟨hfree, hread⟩
  · simp [hread, hcaptures]
  · simp [hread, hfree]

end Layer

end Reading

section References

variable {around : Surroundings} {scopes : List Scope} {name x w : Text} {owner : ClassSignature}
  {n : Node} {s s' : BodyState} {v : Value}

/-- A name that is no local where given scopes are open, but a static field of a class. -/
def MeansStatic (around : Surroundings) (scopes : List Scope) (name : Text)
    (owner : ClassSignature) : Prop :=
  findLocal? name scopes = none ∧
    ∃ f, around.field? name = some (f, owner) ∧ f.isStatic = true

/-- A name means a static field of one class at most. -/
theorem MeansStatic.unique {owner' : ClassSignature} (h : MeansStatic around scopes name owner)
    (h' : MeansStatic around scopes name owner') : owner' = owner := by
  obtain ⟨-, f, hf, -⟩ := h
  obtain ⟨-, f', hf', -⟩ := h'
  rw [hf] at hf'
  cases hf'
  rfl

/-- A field is found by its name. -/
theorem Surroundings.field?_name {f : FieldSignature} (h : around.field? name = some (f, owner)) :
    f.name = name := by
  obtain ⟨c, -, hfield⟩ := List.exists_of_findSome?_eq_some h
  obtain ⟨found, hdeclared, hsame⟩ := Option.map_eq_some_iff.1 hfield
  cases hsame
  simpa using List.find?_some hdeclared

/-- A static field is written as its global variable. -/
theorem staticField_text {f : FieldSignature} (h : around.field? name = some (f, owner)) :
    (staticField f owner).text = globalVariable owner.name name := by
  rw [staticField, ← Surroundings.field?_name h]
  rfl

/-- A name that stands alone is written as it is, but a static field as its global variable. -/
theorem identifier_text (h : Generating.result (identifier name) around s = (.ok v, s')) :
    (v.text = name ∧ ∀ owner, ¬ MeansStatic around s.scopes name owner) ∨
    ∃ owner, MeansStatic around s.scopes name owner ∧
      v.text = globalVariable owner.name name := by
  have hfound : Generating.result (Lower.localType? name) around s =
      (.ok (findLocal? name s.scopes), s) := rfl
  rw [identifier, bind_result, hfound] at h
  unfold MeansStatic
  cases hlocal : findLocal? name s.scopes with
  | some t =>
    rw [hlocal] at h
    cases h
    exact .inl ⟨rfl, fun owner h => absurd h.1 (Option.some_ne_none t)⟩
  | none =>
    rw [hlocal] at h
    dsimp only at h
    rw [read_result] at h
    cases hfield : around.field? name with
    | none =>
      rw [hfield] at h
      cases h
      refine .inl ⟨rfl, fun owner h => ?_⟩
      obtain ⟨-, f, hf, -⟩ := h
      cases hf
    | some found =>
      obtain ⟨f, owner⟩ := found
      rw [hfield] at h
      cases h
      cases hstatic : f.isStatic with
      | true =>
        refine .inr ⟨owner, ⟨rfl, f, rfl, hstatic⟩, ?_⟩
        rw [if_pos rfl, staticField_text hfield]
      | false =>
        refine .inl ⟨rfl, fun owner' h => ?_⟩
        obtain ⟨-, f', hf', hstatic'⟩ := h
        cases hf'
        rw [hstatic] at hstatic'
        cases hstatic'

/-- The text of a node that is a name. -/
theorem value_text (hkind : n.kind = .identifier)
    (h : Generating.result (attributed n).value around s = (.ok v, s')) :
    (v.text = n.literal ∧ ∀ owner, ¬ MeansStatic around s.scopes n.literal owner) ∨
    ∃ owner, MeansStatic around s.scopes n.literal owner ∧
      v.text = globalVariable owner.name n.literal := by
  have hvalue : (attributed n).value = identifier n.literal := by
    rw [attributed_eq]
    change expression n _ = _
    simp only [expression, hkind]
  rw [hvalue] at h
  exact identifier_text h

/-- A node that refers to a static field where given scopes are open, and the global variable that it
is written as: a name that stands alone, a field of `this` or `super`, or a field of a class that is
no constant of the library. -/
inductive RefersTo (around : Surroundings) (scopes : List Scope) : Node → Text → Prop where
  | name {n : Node} {owner : ClassSignature} (hkind : n.kind = .identifier)
    (hstatic : MeansStatic around scopes n.literal owner) :
    RefersTo around scopes n (globalVariable owner.name n.literal)
  | own {n target selected : Node} {f : FieldSignature} {owner : ClassSignature}
    (hkind : n.kind = .fieldAccess) (htarget : n.children[0]? = some target)
    (hself : target.kind = .thisRef ∨ target.kind = .superRef)
    (hselected : n.children.getLast? = some selected)
    (hfield : around.field? selected.literal = some (f, owner)) (hstatic : f.isStatic = true) :
    RefersTo around scopes n (globalVariable owner.name selected.literal)
  | ofClass {n target selected : Node} {v : Value} {className : Text}
    (hkind : n.kind = .fieldAccess) (htarget : n.children[0]? = some target)
    (hother : ¬(target.kind = .thisRef ∨ target.kind = .superRef))
    (hselected : n.children.getLast? = some selected)
    (hvalue : given? around scopes (attributed target).value = some v)
    (hclass : v.className = some className)
    (hstream : ¬(className = "System" ∧ isStreamName selected.literal = true))
    (hvariable : LibraryCall.constant? className selected.literal = none) :
    RefersTo around scopes n (globalVariable (simpleName className) selected.literal)

/-- A static field that is named through its class is written as its global variable. -/
theorem fieldOfClass_text {className : Text} (hvariable : LibraryCall.constant? className name = none) :
    Generating.Answers (fun _ => True) (fieldOfClass className name) fun v =>
      v.text = globalVariable (simpleName className) name := by
  unfold fieldOfClass
  rw [hvariable]
  exact .after fun around => .ite (fun _ => .after fun _ => .pure rfl) fun _ => .pure rfl

/-- The parts of a field access that is no outer `this` or `super`. -/
theorem fieldAccess_ok {target selected : Node} (htarget : n.children[0]? = some target)
    (hselected : n.children.getLast? = some selected)
    (h : Generating.result (fieldAccess n (n.children.map attributed)) around s = (.ok v, s')) :
    Generating.result (if target.kind = .thisRef ∨ target.kind = .superRef
      then ownField selected.literal
      else (attributed target).value >>= fun r => fieldOf r selected.literal) around s =
        (.ok v, s') := by
  have hlast : Parts.lastChild (n.children.map attributed) = pure (attributed selected) := by
    rw [Parts.lastChild, List.getLast?_map, hselected]
    rfl
  have hfirst : Parts.child (n.children.map attributed) 0 = pure (attributed target) := by
    rw [Parts.child, List.getElem?_map, htarget]
    rfl
  unfold fieldAccess at h
  obtain ⟨last, s₁, hlast', h⟩ := bind_ok h
  rw [hlast] at hlast'
  obtain ⟨rfl, rfl⟩ := pure_ok hlast'
  split at h
  · exact absurd h throw_ok
  · split at h
    · exact absurd h throw_ok
    · obtain ⟨first, s₂, hfirst', h⟩ := bind_ok h
      rw [hfirst] at hfirst'
      obtain ⟨rfl, rfl⟩ := pure_ok hfirst'
      simpa only [attributed_kind, attributed_literal] using h

/-- What refers to a static field is written as the global variable. -/
theorem RefersTo.text (h : RefersTo around s.scopes n w)
    (hresult : Generating.result (attributed n).value around s = (.ok v, s')) : v.text = w := by
  have haccess : n.kind = .fieldAccess →
      Generating.result (fieldAccess n (n.children.map attributed)) around s = (.ok v, s') := by
    intro hkind
    rw [attributed_value, expression, hkind] at hresult
    exact hresult
  cases h with
  | name hkind hstatic =>
    rcases value_text hkind hresult with ⟨-, hnone⟩ | ⟨owner', howner', htext⟩
    · exact absurd hstatic (hnone _)
    · rw [htext, howner'.unique hstatic]
  | own hkind htarget hself hselected hfield hstatic =>
    have hown := fieldAccess_ok htarget hselected (haccess hkind)
    rw [if_pos hself, ownField, read_result, hfield] at hown
    cases hown
    rw [if_pos hstatic, staticField_text hfield]
  | @ofClass target selected r className hkind htarget hother hselected hvalue hclass hstream
      hvariable =>
    have hof := fieldAccess_ok htarget hselected (haccess hkind)
    rw [if_neg hother] at hof
    obtain ⟨r', s₁, hr, hfield⟩ := bind_ok hof
    have hsame : some r' = some r := (given?_of_ok (attributed_formed target).value hr).symm.trans hvalue
    obtain rfl := Option.some.inj hsame
    rw [fieldOf, hclass] at hfield
    dsimp only at hfield
    rw [if_neg hstream] at hfield
    exact fieldOfClass_text hvariable around s₁ v s' trivial hfield

end References

section Places

variable {around : Surroundings} {layers inner : List Layer} {p : Place} {s s' : BodyState} {v : Value}
  {w : Text}

/-- What is written for a name at a place reads the local that the name means, and no local if it
means none. -/
def Place.Keeps (p : Place) (text : Text) : Prop :=
  Layer.read? text p.layers =
    (findLocal? p.node.literal (Layer.scopes p.layers)).map .declared

/-- A name keeps what it means exactly if no loop captures what is written for it, and if no local
hides the static field that it means. -/
theorem keeps_iff (hkind : p.node.kind = .identifier) (hscopes : s.scopes = Layer.scopes p.layers)
    (h : Generating.result (attributed p.node).value around s = (.ok v, s')) :
    p.Keeps v.text ↔ ¬ Layer.Captures p.layers v.text ∧
      ∀ owner, MeansStatic around s.scopes p.node.literal owner →
        findLocal? v.text s.scopes = none := by
  unfold Place.Keeps
  rw [← hscopes]
  rcases value_text hkind h with ⟨htext, hnone⟩ | ⟨owner, howner, -⟩
  · rw [htext, hscopes, Layer.read?_eq_local_iff, ← hscopes]
    exact ⟨fun hfree => ⟨hfree, fun owner howner => absurd howner (hnone owner)⟩, And.left⟩
  · rw [howner.1, Option.map_none, Layer.read?_eq_none_iff, ← hscopes]
    exact and_congr_right fun _ => ⟨fun hlocal _ _ => hlocal, fun hlocal => hlocal owner howner⟩

/-- Layers whose locals have no underscore, and whose loops enumerate what is named for such locals. -/
structure Layer.Plain (layers : List Layer) : Prop where
  locals : ∀ locals ∈ Layer.scopes layers, ∀ e ∈ locals, Text.byte '_' ∉ e.1
  enumerated : ∀ x, .enumerated x ∈ layers → ∃ y, x = boxedVariable y ∧ Text.byte '_' ∉ y

namespace Layer.Plain

/-- A local is declared in one of the scopes. -/
theorem declare {x : Text} (h : Plain layers) (hx : Text.byte '_' ∉ x) (t : JavaType) :
    Plain (Layer.declare x t layers) := by
  refine ⟨?_, ?_⟩
  · have hlocals := h.locals
    rw [Layer.scopes_declare]
    cases hscopes : Layer.scopes layers with
    | nil => simpa [declareIn] using hx
    | cons locals outer =>
      rw [hscopes, List.forall_mem_cons] at hlocals
      exact List.forall_mem_cons.2 ⟨List.forall_mem_cons.2 ⟨hx, hlocals.1⟩, hlocals.2⟩
  · have hsame : ∀ (layers : List Layer) (y : Text),
        .enumerated y ∈ Layer.declare x t layers → .enumerated y ∈ layers := by
      intro layers y
      induction layers with
      | nil => simp [Layer.declare]
      | cons layer outer ih =>
        cases layer with
        | scope locals => simp [Layer.declare]
        | enumerated z =>
          simp only [Layer.declare, List.mem_cons]
          exact Or.imp_right ih
    exact fun y hy => h.enumerated y (hsame layers y hy)

/-- What opens in plain layers is plain if the locals that are declared have no underscore. -/
theorem grows (h : Plain layers) (hgrows : Grows (Text.byte '_' ∉ ·) layers inner) :
    Plain inner := by
  induction hgrows with
  | refl => exact h
  | scope _ ih =>
    exact ⟨List.forall_mem_cons.2 ⟨List.forall_mem_nil _, ih.locals⟩,
      fun x hx => ih.enumerated x (by simpa using hx)⟩
  | declare _ hx t ih => exact ih.declare hx t
  | @enumerated _ x _ hx ih =>
    refine ⟨ih.locals, fun y hy => ?_⟩
    rcases List.mem_cons.1 hy with heq | hy
    · exact ⟨x, Layer.enumerated.inj heq, hx⟩
    · exact ih.enumerated y hy

/-- In plain layers only what is spelled like a boxed variable is captured. -/
theorem eq_of_captures (h : Plain layers) (hcaptures : Layer.Captures layers w) :
    ∃ y, w = boxedVariable y ∧ Text.byte '_' ∉ y := by
  obtain ⟨inner, outer, rfl, -⟩ := hcaptures
  exact h.enumerated w (by simp)

/-- In plain layers no global variable is that of a loop or a local. -/
theorem read?_global (h : Plain layers) (owner name : Text) :
    Layer.read? (globalVariable owner name) layers = none := by
  rw [Layer.read?_eq_none_iff]
  refine ⟨fun hcaptures => ?_, ?_⟩
  · obtain ⟨y, heq, hy⟩ := h.eq_of_captures hcaptures
    rw [← underscore_mem_boxedVariable, ← heq] at hy
    exact hy (underscore_mem_globalVariable owner name)
  · by_contra hsome
    obtain ⟨t, ht⟩ := Option.ne_none_iff_exists'.1 hsome
    obtain ⟨locals, hlocals, hfound⟩ := List.exists_of_findSome?_eq_some ht
    exact h.locals locals hlocals _ (mem_of_getKey? hfound) (underscore_mem_globalVariable owner name)

/-- In plain layers a name that is not spelled like a boxed variable keeps what it means. -/
theorem keeps (h : Plain p.layers) (hkind : p.node.kind = .identifier)
    (hspelled : ∀ y, p.node.literal ≠ boxedVariable y) (hscopes : s.scopes = Layer.scopes p.layers)
    (hresult : Generating.result (attributed p.node).value around s = (.ok v, s')) :
    p.Keeps v.text := by
  rcases value_text hkind hresult with ⟨htext, -⟩ | ⟨owner, howner, htext⟩
  · rw [Place.Keeps, htext, Layer.read?_eq_local_iff]
    intro hcaptures
    obtain ⟨y, heq, -⟩ := h.eq_of_captures hcaptures
    exact hspelled y heq
  · rw [Place.Keeps, htext, h.read?_global, ← hscopes, howner.1]
    rfl

end Layer.Plain

/-- What a node refers to is a global variable. -/
theorem RefersTo.exists_global {scopes : List Scope} {n : Node} (h : RefersTo around scopes n w) :
    ∃ owner name, w = globalVariable owner name := by
  cases h <;> exact ⟨_, _, rfl⟩

end Places

namespace Generator

/-- The fields of a generated class have different names. -/
theorem fields_nodup {g : Generator} {path : Text} {cu : Node} {unit : GeneratedUnit}
    (h : g.generateUnit path cu = .ok unit) :
    (unit.model.fields.map TargetField.name).Nodup := by
  obtain ⟨hkind, hclean⟩ := accepted_of_generateUnit h
  obtain ⟨decl, supertypes, rows, imports, -, -, -, -, htrace, hmodel⟩ :=
    generateUnit_parts hkind hclean h
  have hfields : unit.model.fields =
      firstBy TargetField.name (rows.flatten.filterMap ClassPart.field?) := by
    rw [hmodel]
    exact htrace.fields_eq
  rw [hfields]
  exact firstBy_keys_nodup _ _

/-- The global variables of one class have different names. -/
theorem globalNames_nodup {g : Generator} {path : Text} {cu : Node} {unit : GeneratedUnit}
    (h : g.generateUnit path cu = .ok unit) :
    (unit.model.fields.map fun f => f.globalName unit.model.name).Nodup := by
  have hinjective : Function.Injective (globalVariable unit.model.name) :=
    fun _ _ heq => List.append_cancel_left heq
  have hnames := (fields_nodup h).map hinjective
  rwa [List.map_map] at hnames

/-- What is generated in a batch is generated from a parsed file. -/
theorem exists_of_mem_generateAll {g : Generator} {parsed : List (Text × Except Failure Node)}
    {path : Text} {unit : GeneratedUnit} (h : (path, .ok unit) ∈ g.generateAll parsed) :
    ∃ cu, g.generateUnit path cu = .ok unit := by
  obtain ⟨⟨path', outcome⟩, -, hresult⟩ := List.mem_map.1 h
  obtain ⟨rfl, hunit⟩ := Prod.mk.inj hresult
  cases outcome with
  | error f => cases hunit
  | ok cu => exact ⟨cu, hunit⟩

/-- How the names that the generator makes up in a body meet those of the source. -/
structure NamesMeet (around : Surroundings) : Prop where
  /-- A loop over primitives, and no other, enumerates a variable that is named for its own. -/
  loops : ∀ n s body s', n.kind = .enhancedForStmt →
    Generating.result (attributed n).statements around s = (.ok body, s') →
    ∃ one, body = [one] ∧ Enumerates (declaredName n)
      (loopLocal around s.scopes (n.children.map attributed)).2 one
  /-- The places of a node are the expressions that the rules of scopes find in it. -/
  places : ∀ n, HasPlaces around n
  /-- What stands in a loop over primitives stands inside of the variable that it enumerates. -/
  inside : ∀ layers n, n.kind = .enhancedForStmt → ∀ p ∈ (Lowering.places around layers n).1,
    ∃ front, p.layers = front ++ (Layer.ofLoop
      (loopLocal around (Layer.scopes layers) (n.children.map attributed)) ++ layers)
  /-- A name keeps what it means exactly if no loop captures what is written for it and no local
  hides the static field that it means. -/
  names : ∀ (p : Place) s v s', p.node.kind = .identifier → s.scopes = Layer.scopes p.layers →
    Generating.result (attributed p.node).value around s = (.ok v, s') →
    (p.Keeps v.text ↔ ¬ Layer.Captures p.layers v.text ∧
      ∀ owner, MeansStatic around s.scopes p.node.literal owner →
        findLocal? v.text s.scopes = none)
  /-- A static field is written as its global variable, which is read exactly if no loop captures it
  and no local hides it. -/
  statics : ∀ (p : Place) s v s' w, s.scopes = Layer.scopes p.layers →
    RefersTo around s.scopes p.node w →
    Generating.result (attributed p.node).value around s = (.ok v, s') →
    v.text = w ∧ (Layer.read? w p.layers = none ↔
      ¬ Layer.Captures p.layers w ∧ findLocal? w s.scopes = none)
  /-- Where no local has an underscore nothing hides a static field, and a name keeps what it means
  if it is not spelled like a boxed variable. -/
  fresh : ∀ layers n, Layer.Plain layers → DeclaresOnly (Text.byte '_' ∉ ·) n →
    ∀ p ∈ (Lowering.places around layers n).1, ∀ s v s', s.scopes = Layer.scopes p.layers →
      Generating.result (attributed p.node).value around s = (.ok v, s') →
      (p.node.kind = .identifier → (∀ y, p.node.literal ≠ boxedVariable y) → p.Keeps v.text) ∧
      ∀ w, RefersTo around s.scopes p.node w → v.text = w ∧ Layer.read? w p.layers = none

/-- How the global variables of the classes in a batch meet each other. -/
structure GlobalsMeet (batch : List (Text × Except Failure GeneratedUnit)) : Prop where
  /-- Two fields of one class have different global variables. -/
  within : ∀ path unit, (path, .ok unit) ∈ batch →
    (unit.model.fields.map fun f => f.globalName unit.model.name).Nodup
  /-- Two fields have the same global variable exactly if class and field have the same names, or if
  the name of one class goes on behind an underscore with what the field of the other begins with. -/
  across : ∀ path unit path' unit', (path, .ok unit) ∈ batch → (path', .ok unit') ∈ batch →
    ∀ f ∈ unit.model.fields, ∀ f' ∈ unit'.model.fields,
      (f.globalName unit.model.name = f'.globalName unit'.model.name ↔
        (unit.model.name = unit'.model.name ∧ f.name = f'.name) ∨
        (∃ between, unit'.model.name = globalVariable unit.model.name between ∧
          f.name = globalVariable between f'.name) ∨
        ∃ between, unit.model.name = globalVariable unit'.model.name between ∧
          f'.name = globalVariable between f.name)
  /-- Classes without an underscore share no global variable unless they share their name. -/
  fresh : (∀ path unit, (path, .ok unit) ∈ batch → Text.byte '_' ∉ unit.model.name) →
    ∀ path unit path' unit', (path, .ok unit) ∈ batch → (path', .ok unit') ∈ batch →
      ∀ f ∈ unit.model.fields, ∀ f' ∈ unit'.model.fields,
        f.globalName unit.model.name = f'.globalName unit'.model.name →
        unit.model.name = unit'.model.name ∧ f.name = f'.name

/-- When names that the generator makes up are those of other variables. In a body every expression
stands in the scopes that the rules give, and inside of the variables that the loops around it
enumerate. A name there reads what it means exactly if no loop captures what is written for it, and
if no local hides the static field that it means; names that are not spelled like boxed variables, in
a body whose locals have no underscore, always do. In a batch two static fields share a global
variable exactly if class and field have the same names, or if the name of one class goes on behind
an underscore with what the field of the other class begins with; without underscores in the names
of classes this never happens. -/
theorem made_up_names_clash_iff (around : Surroundings) (g : Generator)
    (parsed : List (Text × Except Failure Node)) :
    NamesMeet around ∧ GlobalsMeet ((g.declareAll parsed).generateAll parsed) := by
  constructor
  · exact
      { loops := fun n s body s' hkind h => loop_enumerates hkind h
        places := hasPlaces around
        inside := fun layers n hkind p hp => exists_append_of_mem_loop hkind hp
        names := fun p s v s' hkind hscopes h => keeps_iff hkind hscopes h
        statics := fun p s v s' w hscopes hrefers h =>
          ⟨hrefers.text h, by rw [Layer.read?_eq_none_iff, hscopes]⟩
        fresh := fun layers n hplain hn p hp s v s' hscopes h => by
          have hplain' : Layer.Plain p.layers :=
            hplain.grows ((places_grow hn layers).places p hp)
          refine ⟨fun hkind hspelled => hplain'.keeps hkind hspelled hscopes h,
            fun w hrefers => ⟨hrefers.text h, ?_⟩⟩
          obtain ⟨owner, name, rfl⟩ := hrefers.exists_global
          exact hplain'.read?_global owner name }
  · exact
      { within := fun path unit hunit => by
          obtain ⟨cu, hcu⟩ := exists_of_mem_generateAll hunit
          exact globalNames_nodup hcu
        across := fun _ _ _ _ _ _ _ _ _ _ => globalVariable_eq_iff
        fresh := fun hnames path unit path' unit' hunit hunit' f _ f' _ heq =>
          globalVariable_inj (hnames path unit hunit) (hnames path' unit' hunit') heq }

/-- A loop in whose body a name is used that is spelled like the variable of the enumeration. -/
def boxedParameterSource : Text :=
  "class A \x7b void f(int[] xs, int xBoxed) \x7b int s = 0; " ++
    "for (int x : xs) \x7b s += xBoxed; \x7d \x7d \x7d"

/-- A method with a local that is spelled like the global variable of a static field. -/
def hiddenFieldSource : Text :=
  "class A \x7b static int x; int f() \x7b int A_x = 1; return x + A_x; \x7d \x7d"

/-- A class with a static field, and one whose name goes on with the front of that field. -/
def underscoreSources : List (Text × Text) :=
  [("A.java", "class A \x7b static int b_c; \x7d"),
    ("A_b.java", "class A_b \x7b static int c; \x7d")]

/-- The implementation that is generated from a source. -/
def implementationOf (source : Text) : Option Text :=
  ((ofOptions {}).generateSource "A.java" source).1.toOption.map (·.model.implementation)

/-- The global variables of the classes that are generated in a batch. -/
def globalNamesOf (sources : List (Text × Text)) : List Text :=
  (((ofOptions {}).declareAll (parsedSources sources)).generateAll (parsedSources sources)).flatMap
    fun entry => (entry.2.toOption.map fun unit =>
      unit.model.fields.map fun f => f.globalName unit.model.name).getD []

/-- Names that the generator makes up can be those of other variables. The variable of an
enumeration hides the parameter that the body of the loop adds, a local hides the global variable of
a static field, and two classes of a batch share a global variable. -/
theorem made_up_names_clash :
    implementationOf boxedParameterSource = some ((["// A.m",
      "// Generated by java2objc. Do not edit.", "", "#import \"A.h\"", "", "@implementation A", "",
      "- (void)f:(NSMutableArray *)xs xBoxed:(int)xBoxed", "\x7b", "    int s = 0;",
      "    for (NSNumber *xBoxed in xs) \x7b", "        int x = [xBoxed intValue];",
      "        s += xBoxed;", "    \x7d", "\x7d", "", "@end"] : List Text).flatMap line) ∧
    implementationOf hiddenFieldSource = some ((["// A.m",
      "// Generated by java2objc. Do not edit.", "", "#import \"A.h\"", "", "int A_x = 0;", "",
      "@implementation A", "", "- (int)f", "\x7b", "    int A_x = 1;", "    return A_x + A_x;",
      "\x7d", "", "@end"] : List Text).flatMap line) ∧
    globalNamesOf underscoreSources = ["A_b_c", "A_b_c"] := by
  exact ⟨by decide +kernel, by decide +kernel, by decide +kernel⟩

end Generator

end JavaObjC
