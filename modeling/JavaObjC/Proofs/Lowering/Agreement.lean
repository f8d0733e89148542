import JavaObjC.Lowering.UnitDraft
import Mathlib.Data.List.Forall2

/-!
# Actions that agree

Code for a body and for a unit is generated by actions that share one form:
they read their surroundings, change a state and may refuse a construct. Two
actions agree when from the same state they leave the same state behind and
either give corresponding results or refuse the same construct, possibly at
different places. Neither meets a malformed tree: an action that agrees with
itself is one that never does.
-/

namespace JavaObjC

/-- What the actions on bodies and on units have in common. -/
abbrev Generating (σ : Type) := ReaderT Surroundings (ExceptT Refusal (StateM σ))

/-- Outcomes that correspond. A malformed tree corresponds to nothing. -/
inductive Corresponds {α β : Type} (R : α → β → Prop) :
    Except Refusal α → Except Refusal β → Prop where
  | ok {a : α} {b : β} (h : R a b) : Corresponds R (.ok a) (.ok b)
  | refused (construct : Text) (place place' : Position) :
    Corresponds R (.error (.unsupported construct place)) (.error (.unsupported construct place'))

namespace Generating

variable {σ α β γ δ : Type}

/-- The outcome of an action and the state it leaves. -/
def result (x : Generating σ α) (around : Surroundings) (s : σ) : Except Refusal α × σ :=
  (x.run around).run.run s

/-- Two actions agree up to places. -/
def Agrees (R : α → β → Prop) (x : Generating σ α) (y : Generating σ β) : Prop :=
  ∀ around s, Corresponds R (x.result around s).1 (y.result around s).1 ∧
    (y.result around s).2 = (x.result around s).2

/-- Whatever an action gives in surroundings of a kind and from a state of a kind has a property, and
the state it leaves is of the same kind. -/
def Upholds (C : Surroundings → Prop) (I : σ → Prop) (x : Generating σ α) (P : α → Prop) : Prop :=
  ∀ around s a s', C around → I s → x.result around s = (.ok a, s') → P a ∧ I s'

/-- Whatever an action gives in surroundings of a kind has a property. -/
def Answers (C : Surroundings → Prop) (x : Generating σ α) (P : α → Prop) : Prop :=
  ∀ around s a s', C around → x.result around s = (.ok a, s') → P a

/-- An action that never meets a malformed tree. -/
abbrev Sound (x : Generating σ α) : Prop := Agrees Eq x x

/-- One action after the other, unless the first one refuses. -/
theorem bind_result (x : Generating σ α) (f : α → Generating σ β) (around : Surroundings) (s : σ) :
    (x >>= f).result around s =
      match x.result around s with
      | (.ok a, s') => (f a).result around s'
      | (.error e, s') => (.error e, s') := by
  have hunfold : (x >>= f).result around s =
      StateT.run (m := Id) (ExceptT.bindCont (fun a => f a around) (x.result around s).1)
        (x.result around s).2 := rfl
  rw [hunfold]
  obtain ⟨result, s'⟩ := x.result around s
  cases result <;> rfl

/-- What an action is generated against is given to it. -/
theorem read_result (f : Surroundings → Generating σ β) (around : Surroundings) (s : σ) :
    (MonadReader.read >>= f).result around s = (f around).result around s := rfl

namespace Upholds

variable {C : Surroundings → Prop} {I : σ → Prop} {P : α → Prop} {Q : β → Prop}

/-- A plain answer upholds what it has. -/
theorem pure {a : α} (h : P a) : Upholds C I (Pure.pure a : Generating σ α) P := by
  rintro around s _ _ - hs ⟨⟩
  exact ⟨h, hs⟩

/-- What an action upholds is what the next one starts from. -/
theorem bind {x : Generating σ α} {f : α → Generating σ β} (hx : Upholds C I x P)
    (hf : ∀ a, P a → Upholds C I (f a) Q) : Upholds C I (x >>= f) Q := by
  intro around s b s' haround hs hresult
  rw [bind_result] at hresult
  cases hfirst : x.result around s with
  | mk outcome s₁ =>
    rw [hfirst] at hresult
    cases outcome with
    | error e => cases hresult
    | ok a =>
      obtain ⟨ha, hs₁⟩ := hx around s a s₁ haround hs hfirst
      exact hf a ha around s₁ b s' haround hs₁ hresult

/-- A weaker statement about the result. -/
theorem mono {R : α → Prop} {x : Generating σ α} (h : Upholds C I x P) (hPR : ∀ a, P a → R a) :
    Upholds C I x R := fun around s a s' haround hs hresult =>
  (h around s a s' haround hs hresult).imp_left (hPR a)

/-- A choice upholds what both of its actions do. -/
theorem ite {x y : Generating σ α} {p : Prop} [Decidable p] (yes : p → Upholds C I x P)
    (no : ¬ p → Upholds C I y P) : Upholds C I (if p then x else y) P := by
  by_cases h : p
  · rw [if_pos h]
    exact yes h
  · rw [if_neg h]
    exact no h

/-- The surroundings are those that are assumed. -/
theorem read : Upholds C I (MonadReader.read : Generating σ Surroundings) C := by
  rintro around s _ _ haround hs ⟨⟩
  exact ⟨haround, hs⟩

/-- A refusal upholds everything, for it gives no result. -/
theorem refuse {I : BodyState → Prop} (construct : Text) (n : Node) :
    Upholds C I (Lower.refuse construct n) P := by
  rintro around s a s' - - ⟨⟩

/-- A part that is required and there has what every such part has. -/
theorem require {I : BodyState → Prop} {part : Option α} (h : ∀ a ∈ part, P a) :
    Upholds C I (Lower.require part) P := by
  cases part with
  | some a => exact .pure (h a rfl)
  | none => rintro around s a s' - - ⟨⟩

/-- The results of an action for every member of a list. -/
theorem mapM {l : List γ} {f : γ → Generating σ α} {R : γ → α → Prop}
    (h : ∀ c ∈ l, Upholds C I (f c) (R c)) : Upholds C I (l.mapM f) (List.Forall₂ R l) := by
  induction l with
  | nil => exact .pure .nil
  | cons c l ih =>
    rw [List.forall_mem_cons] at h
    rw [List.mapM_cons]
    exact h.1.bind fun a ha => (ih h.2).bind fun rest hrest => .pure (.cons ha hrest)

end Upholds

/-- Giving something with a property is upholding nothing else. -/
theorem answers_iff {C : Surroundings → Prop} {x : Generating σ α} {P : α → Prop} :
    Answers C x P ↔ Upholds C (fun _ => True) x P := by
  simp [Answers, Upholds]

namespace Answers

variable {C : Surroundings → Prop} {P : α → Prop} {Q : β → Prop}

theorem pure {a : α} (h : P a) : Answers C (Pure.pure a : Generating σ α) P :=
  answers_iff.2 (.pure h)

/-- The answer of one action is what the next one starts from. -/
theorem bind {x : Generating σ α} {f : α → Generating σ β} (hx : Answers C x P)
    (hf : ∀ a, P a → Answers C (f a) Q) : Answers C (x >>= f) Q :=
  answers_iff.2 ((answers_iff.1 hx).bind fun a ha => answers_iff.1 (hf a ha))

theorem any (x : Generating σ α) : Answers C x fun _ => True := fun _ _ _ _ _ _ => trivial

/-- One action after another about which nothing need be known. -/
theorem after {x : Generating σ α} {f : α → Generating σ β} (hf : ∀ a, Answers C (f a) Q) :
    Answers C (x >>= f) Q := (any x).bind fun a _ => hf a

/-- A weaker statement about the answer. -/
theorem mono {R : α → Prop} {x : Generating σ α} (h : Answers C x P) (hPR : ∀ a, P a → R a) :
    Answers C x R := answers_iff.2 ((answers_iff.1 h).mono hPR)

/-- A choice gives what both of its actions give. -/
theorem ite {x y : Generating σ α} {p : Prop} [Decidable p] (yes : p → Answers C x P)
    (no : ¬ p → Answers C y P) : Answers C (if p then x else y) P :=
  answers_iff.2 (.ite (fun h => answers_iff.1 (yes h)) fun h => answers_iff.1 (no h))

theorem read : Answers C (MonadReader.read : Generating σ Surroundings) C :=
  answers_iff.2 .read

/-- A refusal gives nothing, so everything holds of what it gives. -/
theorem refuse (construct : Text) (n : Node) : Answers C (Lower.refuse construct n) P :=
  answers_iff.2 (.refuse construct n)

/-- A part that is required and there has what every such part has. -/
theorem require {part : Option α} (h : ∀ a ∈ part, P a) : Answers C (Lower.require part) P :=
  answers_iff.2 (.require h)

/-- The results of an action for every member of a list. -/
theorem mapM {l : List γ} {f : γ → Generating σ α} {R : γ → α → Prop}
    (h : ∀ c ∈ l, Answers C (f c) (R c)) : Answers C (l.mapM f) (List.Forall₂ R l) :=
  answers_iff.2 (.mapM fun c hc => answers_iff.1 (h c hc))

end Answers

namespace Agrees

variable {R : α → β → Prop} {S : γ → δ → Prop}

/-- Plain answers that are related agree. -/
theorem pure {a : α} {b : β} (h : R a b) :
    Agrees R (Pure.pure a : Generating σ α) (Pure.pure b) := fun _ _ => ⟨.ok h, rfl⟩

/-- Corresponding results of one action are used alike by the next. -/
theorem bind {x : Generating σ α} {y : Generating σ β} {f : α → Generating σ γ}
    {g : β → Generating σ δ} (hx : Agrees R x y) (hf : ∀ a b, R a b → Agrees S (f a) (g b)) :
    Agrees S (x >>= f) (y >>= g) := by
  intro around s
  obtain ⟨houtcome, hstate⟩ := hx around s
  rw [bind_result, bind_result]
  generalize x.result around s = p at houtcome hstate
  generalize y.result around s = q at houtcome hstate
  obtain ⟨result, s₁⟩ := p
  obtain ⟨result', s₂⟩ := q
  dsimp only at houtcome hstate
  subst hstate
  cases houtcome with
  | ok h => exact hf _ _ h around s₂
  | refused construct place place' => exact ⟨.refused construct place place', rfl⟩

/-- The same result is used alike. -/
theorem bind_eq {x y : Generating σ α} {f : α → Generating σ γ} {g : α → Generating σ δ}
    (hx : Agrees Eq x y) (hf : ∀ a, Agrees S (f a) (g a)) : Agrees S (x >>= f) (y >>= g) := by
  refine hx.bind ?_
  rintro a _ rfl
  exact hf a

/-- Related answers that are changed in related ways agree. -/
theorem map {x : Generating σ α} {y : Generating σ β} {f : α → γ} {g : β → δ} (hx : Agrees R x y)
    (hf : ∀ a b, R a b → S (f a) (g b)) : Agrees S (f <$> x) (g <$> y) := by
  rw [map_eq_pure_bind, map_eq_pure_bind]
  exact hx.bind fun a b hab => .pure (hf a b hab)

/-- Corresponding results correspond in any weaker way. -/
theorem mono {R' : α → β → Prop} {x : Generating σ α} {y : Generating σ β} (h : Agrees R x y)
    (hR : ∀ a b, R a b → R' a b) : Agrees R' x y := by
  intro around s
  obtain ⟨houtcome, hstate⟩ := h around s
  refine ⟨?_, hstate⟩
  generalize (x.result around s).1 = result, (y.result around s).1 = result' at houtcome
  cases houtcome with
  | ok h => exact .ok (hR _ _ h)
  | refused construct place place' => exact .refused construct place place'

/-- Both refuse the same construct. -/
theorem refused {construct construct' : Text} {place place' : Position}
    (h : construct = construct') :
    Agrees R (throw (.unsupported construct place) : Generating σ α)
      (throw (.unsupported construct' place')) := by
  subst h
  exact fun _ _ => ⟨.refused _ _ _, rfl⟩

/-- A choice by the same condition agrees when both ways do. -/
theorem ite {x x' : Generating σ α} {y y' : Generating σ β} {p : Prop} [Decidable p]
    (yes : p → Agrees R x y) (no : ¬ p → Agrees R x' y') :
    Agrees R (if p then x else x') (if p then y else y') := by
  by_cases h : p
  · rw [if_pos h, if_pos h]
    exact yes h
  · rw [if_neg h, if_neg h]
    exact no h

/-- Equal results for corresponding items, one for each. -/
theorem mapM_eq {T : α → β → Prop} {f : α → Generating σ γ} {g : β → Generating σ γ} {l : List α}
    {m : List β} (hl : List.Forall₂ T l m) (hf : ∀ a b, T a b → Agrees Eq (f a) (g b)) :
    Agrees (fun x y => x = y ∧ x.length = l.length) (l.mapM f) (m.mapM g) := by
  induction hl with
  | nil => exact .pure ⟨rfl, rfl⟩
  | cons hab _ ih =>
    rw [List.mapM_cons, List.mapM_cons]
    refine (hf _ _ hab).bind_eq fun c => ih.bind ?_
    rintro cs _ ⟨rfl, hlength⟩
    exact .pure ⟨rfl, by simp [hlength]⟩

/-- An action on a running value and each of corresponding items. -/
theorem foldlM {T : α → β → Prop} {f : γ → α → Generating σ γ} {g : δ → β → Generating σ δ}
    {l : List α} {m : List β} (hl : List.Forall₂ T l m)
    (hf : ∀ c d a b, S c d → T a b → Agrees S (f c a) (g d b)) {c : γ} {d : δ} (hcd : S c d) :
    Agrees S (l.foldlM f c) (m.foldlM g d) := by
  induction hl generalizing c d with
  | nil => exact .pure hcd
  | cons hab _ ih =>
    rw [List.foldlM_cons, List.foldlM_cons]
    exact (hf _ _ _ _ hcd hab).bind fun c' d' h => ih h

/-- An action on each of corresponding items, for its effect alone. -/
theorem forM {T : α → β → Prop} {f : α → Generating σ PUnit} {g : β → Generating σ PUnit}
    {l : List α} {m : List β} (hl : List.Forall₂ T l m) (hf : ∀ a b, T a b → Agrees Eq (f a) (g b)) :
    Agrees Eq (l.forM f) (m.forM g) := by
  induction hl with
  | nil => exact .pure rfl
  | cons hab _ ih =>
    exact (hf _ _ hab).bind_eq fun _ => ih

end Agrees

/-- An action whose outcome is always a result. -/
theorem Sound.of_ok {x : Generating σ α}
    (h : ∀ around s, ∃ a, (x.result around s).1 = .ok a) : Sound x := by
  intro around s
  obtain ⟨a, ha⟩ := h around s
  rw [ha]
  exact ⟨.ok rfl, rfl⟩

end Generating

namespace Lower

open Generating

variable {α β : Type} {R : α → β → Prop}

theorem read_sound : Sound (read : Lower Surroundings) := .of_ok fun around _ => ⟨around, rfl⟩

/-- Changing the state never fails. -/
theorem modify_sound (f : BodyState → BodyState) : Sound (modify f : Lower PUnit) :=
  .of_ok fun _ _ => ⟨(), rfl⟩

theorem refer_sound (c : ClassRef) : Sound (refer c) :=
  read_sound.bind_eq fun _ => modify_sound _

/-- Mapping a type never fails. -/
theorem mapType_sound (t : JavaType) : Sound (mapType t) := by
  refine read_sound.bind_eq fun around => .ite (fun _ => .pure rfl) fun _ => ?_
  dsimp only
  cases around.mapper.map around.registry t with
  | object c => exact (refer_sound c).bind_eq fun _ => .pure rfl
  | scalar _ => exact Agrees.bind_eq (.pure rfl) fun _ => .pure rfl

/-- Naming a class never fails. -/
theorem classNamed_sound (name : Text) : Sound (classNamed name) := by
  refine read_sound.bind_eq fun around => .ite (fun _ => .pure rfl) fun _ => ?_
  exact (refer_sound _).bind_eq fun _ => .pure rfl

/-- Declaring a local never fails. -/
theorem declareLocal_sound (name : Text) (t : JavaType) : Sound (declareLocal name t) :=
  modify_sound _

/-- Looking for a local never fails. -/
theorem localType?_sound (name : Text) : Sound (localType? name) :=
  .of_ok fun _ s => ⟨findLocal? name s.scopes, rfl⟩

/-- A part that is there on both sides. -/
theorem require_agrees {a : Option α} {b : Option β} (h : Option.Rel R a b) (ha : a.isSome) :
    Agrees R (require a) (require b) := by
  cases h with
  | none => cases ha
  | some h => exact .pure h

/-- Scopes of their own. -/
theorem withScope_agrees {x : Lower α} {y : Lower β} (h : Agrees R x y) :
    Agrees R (withScope x) (withScope y) := by
  intro around s
  obtain ⟨houtcome, hstate⟩ := h around { s with scopes := [] :: s.scopes }
  exact ⟨houtcome, congrArg (fun after : BodyState => { after with scopes := after.scopes.drop 1 })
    hstate⟩

end Lower

end JavaObjC
