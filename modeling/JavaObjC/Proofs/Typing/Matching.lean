import JavaObjC.Lowering.Statements
import JavaObjC.Proofs.Lowering.Agreement
import JavaObjC.Proofs.Typing.Types

/-!
# Actions that match in some states

Two actions match when they do the same from every state of some kind: they give
the same result or the same refusal and leave the same state. Along with this
goes what is known of the result and of the state that is left. Matching an
action with itself says just that.

What code generation keeps is bounded by a property of names, a property of the
surroundings, and one of the references. An action is tied to another one in an
environment if both match wherever the open scopes are this environment, and
leave these scopes as they are, whether they succeed or refuse.
-/

namespace JavaObjC

namespace Generating

variable {σ α β γ δ : Type}

/-- From states of a kind two actions do the same. What they give has a property; the state that is
left is of a second kind then, and of a third one after a refusal. -/
def Coincide (C : Surroundings → Prop) (I J E : σ → Prop) (x y : Generating σ α) (P : α → Prop) :
    Prop :=
  ∀ around s, C around → I s → y.result around s = x.result around s ∧
    match x.result around s with
    | (.ok a, s') => P a ∧ J s'
    | (.error _, s') => E s'

namespace Coincide

variable {C : Surroundings → Prop} {I J K E : σ → Prop} {P : α → Prop} {Q : β → Prop}

/-- Plain answers coincide. -/
theorem pure {a : α} (h : P a) :
    Coincide C I I E (Pure.pure a : Generating σ α) (Pure.pure a) P :=
  fun _ _ _ hs => ⟨rfl, h, hs⟩

/-- Actions coincide in a row when they do one by one. -/
theorem bind {x y : Generating σ α} {f g : α → Generating σ β} (hx : Coincide C I J E x y P)
    (hf : ∀ a, P a → Coincide C J K E (f a) (g a) Q) : Coincide C I K E (x >>= f) (y >>= g) Q := by
  intro around s haround hs
  obtain ⟨hsame, hleft⟩ := hx around s haround hs
  rw [bind_result, bind_result, hsame]
  generalize x.result around s = p at hleft ⊢
  obtain ⟨outcome, s'⟩ := p
  cases outcome with
  | ok a => exact hf a hleft.1 around s' haround hleft.2
  | error e => exact ⟨rfl, hleft⟩

/-- A weaker statement about the answer. -/
theorem mono {R : α → Prop} {x y : Generating σ α} (h : Coincide C I J E x y P)
    (hPR : ∀ a, P a → R a) : Coincide C I J E x y R := by
  intro around s haround hs
  obtain ⟨hsame, hleft⟩ := h around s haround hs
  refine ⟨hsame, ?_⟩
  generalize x.result around s = p at hleft ⊢
  obtain ⟨outcome, s'⟩ := p
  cases outcome with
  | ok a => exact ⟨hPR a hleft.1, hleft.2⟩
  | error e => exact hleft

/-- Answers that are changed alike coincide. -/
theorem map {x y : Generating σ α} {f : α → β} (hx : Coincide C I J E x y P)
    (hf : ∀ a, P a → Q (f a)) : Coincide C I J E (f <$> x) (f <$> y) Q := by
  rw [map_eq_pure_bind, map_eq_pure_bind]
  exact hx.bind fun a ha => .pure (hf a ha)

/-- A choice by the same condition coincides when both ways do. -/
theorem ite {x x' y y' : Generating σ α} {p : Prop} [Decidable p]
    (yes : p → Coincide C I J E x y P) (no : ¬ p → Coincide C I J E x' y' P) :
    Coincide C I J E (if p then x else x') (if p then y else y') P := by
  by_cases h : p
  · rw [if_pos h, if_pos h]
    exact yes h
  · rw [if_neg h, if_neg h]
    exact no h

/-- Both are given the same surroundings. -/
theorem read {f g : Surroundings → Generating σ α}
    (hf : ∀ around, C around → Coincide C I J E (f around) (g around) P) :
    Coincide C I J E (MonadReader.read >>= f) (MonadReader.read >>= g) P := by
  intro around s haround hs
  rw [read_result, read_result]
  exact hf around haround around s haround hs

/-- Both refuse the same. -/
theorem refused {r : Refusal} :
    Coincide C I J I (throw r : Generating σ α) (throw r) P := fun _ _ _ hs => ⟨rfl, hs⟩

/-- The results for corresponding items, which leave states of the same kind. -/
theorem mapM {T : γ → δ → Prop} {l : List γ} {m : List δ} {f : γ → Generating σ α}
    {g : δ → Generating σ α} (hl : List.Forall₂ T l m)
    (hf : ∀ c d, T c d → Coincide C I I E (f c) (g d) P) :
    Coincide C I I E (l.mapM f) (m.mapM g) fun as => ∀ a ∈ as, P a := by
  induction hl with
  | nil => exact .pure fun _ ha => nomatch ha
  | cons hcd _ ih =>
    rw [List.mapM_cons, List.mapM_cons]
    exact (hf _ _ hcd).bind fun a ha => ih.bind fun as has =>
      .pure (List.forall_mem_cons.2 ⟨ha, has⟩)

/-- What corresponding items make of a value. -/
theorem foldlM {T : γ → δ → Prop} {l : List γ} {m : List δ} {f : α → γ → Generating σ α}
    {g : α → δ → Generating σ α} (hl : List.Forall₂ T l m)
    (hf : ∀ {a c d}, P a → T c d → Coincide C I I E (f a c) (g a d) P) {a : α} (ha : P a) :
    Coincide C I I E (l.foldlM f a) (m.foldlM g a) P := by
  induction hl generalizing a with
  | nil => exact .pure ha
  | cons hcd _ ih =>
    rw [List.foldlM_cons, List.foldlM_cons]
    exact (hf ha hcd).bind fun a ha => ih ha

end Coincide

end Generating

open Generating Lower Lowering

/-- What is kept while code is generated: the names in types have a property, and so have the names
that stand in expressions, the surroundings and the references. -/
structure Bounds where
  literals : Text → Prop
  names : Text → Prop
  vocabulary : IsVocabulary names
  around : Surroundings → Prop
  bounded : ∀ {a}, around a → a.Over names
  /-- A name that stands alone for a class. -/
  classes : ∀ {a name}, around a → literals name → a.isClassName name = true → names name
  kept : References → Prop
  /-- Recording the class of a type. -/
  mapped : ∀ {a t c r}, around a → t.Over names → a.mapper.map a.registry t = .object c →
    kept r → kept (r.add a.ownName c)
  /-- Recording the class that a name stands for. -/
  named : ∀ {a name r}, around a → names name → kept r →
    kept (r.add a.ownName (a.classOf name))
  /-- Recording one of the classes that generated code itself uses. -/
  used : ∀ {a c r}, around a → c ∈ [ClassRef.nsNumber, ClassRef.nsMutableArray] → kept r →
    kept (r.add a.ownName c)

/-- Only the names in types are kept. -/
def Bounds.ofNames {names : Text → Prop} (vocabulary : IsVocabulary names) : Bounds where
  literals := names
  names := names
  vocabulary := vocabulary
  around := Surroundings.Over names
  bounded := id
  classes := fun _ hname _ => hname
  kept := fun _ => True
  mapped := fun _ _ _ _ => trivial
  named := fun _ _ _ => trivial
  used := fun _ _ _ => trivial

namespace Bounds

variable (b : Bounds) (env : List Scope) {α β : Type} {P : α → Prop} {Q : β → Prop}

/-- States with given open scopes, in which everything is bounded. -/
structure At (s : BodyState) : Prop where
  scopes : s.scopes = env
  known : ∀ scope ∈ env, ∀ e ∈ scope, e.2.Known b.names
  kept : b.kept s.references

/-- Two actions match where given scopes are open, and leave them as they are. -/
abbrev Ties (x y : Lower α) (P : α → Prop) : Prop :=
  Coincide b.around (b.At env) (b.At env) (b.At env) x y P

variable {b env}

namespace Ties

/-- A part that is required on both sides. -/
theorem require {part : Option α} (h : ∀ a ∈ part, P a) :
    b.Ties env (Lower.require part) (Lower.require part) P := by
  cases part with
  | some a => exact .pure (h a rfl)
  | none => exact .refused

/-- A part that is there on both sides, or on none. -/
theorem require_bind {γ δ : Type} {T : γ → δ → Prop} {part : Option γ} {part' : Option δ}
    {f : γ → Lower α} {g : δ → Lower α} (h : Option.Rel T part part')
    (hf : ∀ c d, c ∈ part → T c d → b.Ties env (f c) (g d) P) :
    b.Ties env (Lower.require part >>= f) (Lower.require part' >>= g) P := by
  cases h with
  | none => exact .refused (r := .malformed)
  | some hcd => exact hf _ _ rfl hcd

end Ties

/-- Recording a class leaves the scopes as they are. -/
theorem refer_ties {c : ClassRef}
    (h : ∀ {a r}, b.around a → b.kept r → b.kept (r.add a.ownName c)) :
    b.Ties env (refer c) (refer c) fun _ => True :=
  fun _ _ haround hs => ⟨rfl, trivial, hs.scopes, hs.known, h haround hs.kept⟩

/-- Mapping a type over the vocabulary is tied to itself. -/
theorem mapType_ties {t : JavaType} (ht : t.Over b.names) :
    b.Ties env (mapType t) (mapType t) fun _ => True := by
  intro around s haround hs
  refine ⟨rfl, ?_⟩
  unfold mapType
  rw [read_result]
  by_cases hparameter : around.isParameterType t
  · rw [if_pos hparameter]
    exact ⟨trivial, hs⟩
  · rw [if_neg hparameter]
    cases href : around.mapper.map around.registry t with
    | object c => exact ⟨trivial, hs.scopes, hs.known, b.mapped haround ht href hs.kept⟩
    | scalar name => exact ⟨trivial, hs⟩

/-- All arrays are of one class. -/
theorem mapType_ties_of_isArray {t : JavaType} (ht : t.isArray = true) :
    b.Ties env (mapType t) (mapType t) fun _ => True := by
  refine Coincide.read fun around haround => .ite (fun _ => .pure trivial) fun _ => ?_
  have href : around.mapper.map around.registry t = .object .nsMutableArray := by
    rw [TypeMapper.map, if_pos ht]
  rw [href]
  exact (refer_ties fun ha hr => b.used ha (by simp) hr).bind fun _ _ => .pure trivial

/-- Naming a class of the vocabulary is tied to itself. -/
theorem classNamed_ties {name : Text} (hname : b.names name) :
    b.Ties env (classNamed name) (classNamed name) fun _ => True := by
  intro around s haround hs
  refine ⟨rfl, ?_⟩
  unfold classNamed
  rw [read_result]
  by_cases hparameter : around.isTypeParameter name
  · rw [if_pos hparameter]
    exact ⟨trivial, hs⟩
  · rw [if_neg hparameter]
    exact ⟨trivial, hs.scopes, hs.known, b.named haround hname hs.kept⟩

/-- A local that is in scope, or none. -/
theorem localType?_ties (name : Text) : b.Ties env (localType? name) (localType? name) fun found =>
    found = findLocal? name env ∧ ∀ t ∈ found, t.Known b.names := by
  intro around s haround hs
  refine ⟨rfl, ⟨by rw [hs.scopes], fun t ht => ?_⟩, hs⟩
  rw [hs.scopes] at ht
  obtain ⟨scope, hscope, hfound⟩ := List.exists_of_findSome?_eq_some ht
  exact hs.known scope hscope _ (mem_of_getKey? hfound)

end Bounds

end JavaObjC
