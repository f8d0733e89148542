import JavaObjC.Proofs.Reading.Cursors

/-!
# Parsers side by side

The judgement that every production of the grammar satisfies. It compares two
runs of a parser from similar cursors and says four things at once: the cursors
they end at are similar again, the results are alike, the first run only moved
forward, and its problems are accounted for. The account is an equivalence: a
run meets no problem exactly if everything it leaves behind, its result
included, reports none. Each combinator gets one rule, and a production is
treated by following its definition from rule to rule.

Inside a lookahead results are thrown away, so nothing is accounted for there.
-/

namespace JavaObjC

open Cursor

/-- How the results of two runs compare, and when a result reports no problem. -/
structure Aspect (α : Type) where
  alike : α → α → Prop
  clean : α → Prop

namespace Aspect

/-- Results that have to be equal and cannot report problems. -/
def plain {α : Type} : Aspect α := ⟨Eq, fun _ => True⟩

/-- Tokens up to layout. -/
def token (r : Pairing) : Aspect Token := ⟨Token.Alike r, fun _ => True⟩

/-- Trees up to layout. -/
def node (r : Pairing) : Aspect Node := ⟨Node.Alike r, Node.Clean⟩

/-- Several trees up to layout. -/
def nodes (r : Pairing) : Aspect (List Node) := ⟨Node.AlikeAll r, Node.CleanAll⟩

/-- Results that may be missing. -/
def option {α : Type} (A : Aspect α) : Aspect (Option α) :=
  ⟨Option.Rel A.alike, fun o => ∀ a ∈ o, A.clean a⟩

/-- Results in whose place a value stays when they are missing. -/
def orElse {α : Type} (A : Aspect α) (a : α) : Aspect (Option α) :=
  ⟨Option.Rel A.alike, fun o => A.clean (o.getD a)⟩

/-- Two results. -/
def pair {α β : Type} (A : Aspect α) (B : Aspect β) : Aspect (α × β) :=
  ⟨fun x y => A.alike x.1 y.1 ∧ B.alike x.2 y.2, fun x => A.clean x.1 ∧ B.clean x.2⟩

section Projections

variable {α β : Type} {r : Pairing} {A : Aspect α} {B : Aspect β}

@[simp] theorem plain_clean {a : α} : (plain : Aspect α).clean a ↔ True := Iff.rfl

@[simp] theorem token_clean {t : Token} : (token r).clean t ↔ True := Iff.rfl

@[simp] theorem node_clean {a : Node} : (node r).clean a ↔ a.Clean := Iff.rfl

@[simp] theorem nodes_clean {a : List Node} : (nodes r).clean a ↔ Node.CleanAll a := Iff.rfl

@[simp] theorem option_clean {o : Option α} : A.option.clean o ↔ ∀ a ∈ o, A.clean a := Iff.rfl

@[simp] theorem orElse_clean {o : Option α} {a : α} :
    (A.orElse a).clean o ↔ A.clean (o.getD a) := Iff.rfl

@[simp] theorem pair_clean {x : α × β} : (A.pair B).clean x ↔ A.clean x.1 ∧ B.clean x.2 := Iff.rfl

end Projections

end Aspect

/-- Two runs side by side. With `tallied`, the first one meets no problem exactly
if its result is clean, nothing was found missing and no tree given up has a
problem, provided all this held before and `P` holds of what is already read. -/
structure Parallel {α : Type} (r : Pairing) (tallied : Bool) (A : Aspect α) (P : Prop)
    (p q : Parser α) (c d : Cursor) : Prop where
  similar : Similar r (p.run c).2 (q.run d).2
  alike : A.alike (p.run c).1 (q.run d).1
  reads : c.Reads (p.run c).2
  balance : tallied = true →
    ((p.run c).2.Quiet ∧ A.clean (p.run c).1 ↔
      c.Quiet ∧ P ∧ (p.run c).2.raised = c.raised)

/-- Two parsers that run side by side from any similar cursors. -/
def Tracks {α : Type} (r : Pairing) (A : Aspect α) (P : Prop) (p q : Parser α) : Prop :=
  ∀ c d, Similar r c d → Parallel r true A P p q c d

namespace Parallel

variable {α β : Type} {r : Pairing} {tallied : Bool} {A : Aspect α} {B : Aspect β}
  {P Q R : Prop} {c d : Cursor}

/-- What is already read can be described differently. -/
theorem of_iff {p q : Parser α} (h : Parallel r tallied A Q p q c d) (hPQ : P ↔ Q) :
    Parallel r tallied A P p q c d :=
  ⟨h.similar, h.alike, h.reads, fun ht => by rw [hPQ]; exact h.balance ht⟩

/-- A run that is accounted for can be taken as one that is not. -/
theorem relax {p q : Parser α} (h : Parallel r true A Q p q c d) :
    Parallel r tallied A Q p q c d := by
  cases tallied with
  | true => exact h
  | false => exact ⟨h.similar, h.alike, h.reads, nofun⟩

/-- Where nothing is accounted for, it does not matter what is already read. -/
theorem untallied {p q : Parser α} (h : Parallel r true A Q p q c d) :
    Parallel r false A P p q c d :=
  ⟨h.similar, h.alike, h.reads, nofun⟩

/-- One parser after the other. What the first one reads is part of what the second
one has already read. -/
theorem bind_run {p q : Parser α} {f g : α → Parser β} (hp : Parallel r tallied A Q p q c d)
    (hf : ∀ a b c' d', p.run c = (a, c') → A.alike a b → Similar r c' d' →
      Parallel r tallied B (R ∧ A.clean a) (f a) (g b) c' d') (hP : P ↔ Q ∧ R) :
    Parallel r tallied B P (p >>= f) (q >>= g) c d := by
  have hrest := hf (p.run c).1 (q.run d).1 (p.run c).2 (q.run d).2 rfl hp.alike hp.similar
  refine ⟨hrest.similar, hrest.alike, hp.reads.trans hrest.reads, fun ht => ?_⟩
  have hfirst := hp.balance ht
  have hsecond := hrest.balance ht
  have hle := hp.reads.raised_le
  have hle' := hrest.reads.raised_le
  constructor
  · intro hquiet
    obtain ⟨hquiet', ⟨hR, hclean⟩, hraised'⟩ := hsecond.1 hquiet
    obtain ⟨hquiet₀, hQ, hraised⟩ := hfirst.1 ⟨hquiet', hclean⟩
    exact ⟨hquiet₀, hP.2 ⟨hQ, hR⟩, hraised'.trans hraised⟩
  · rintro ⟨hquiet, hPq, hraised⟩
    change (((f (p.run c).1).run (p.run c).2).2).raised = c.raised at hraised
    obtain ⟨hquiet', hclean⟩ := hfirst.2 ⟨hquiet, (hP.1 hPq).1, by omega⟩
    exact hsecond.2 ⟨hquiet', ⟨(hP.1 hPq).2, hclean⟩, by omega⟩

/-- One parser after the other, when the first one takes over part of what is
already read. -/
theorem bind_from {p q : Parser α} {f g : α → Parser β} (hp : Parallel r tallied A Q p q c d)
    (hP : P ↔ Q ∧ R)
    (hf : ∀ a b, A.alike a b → ∀ c' d', Similar r c' d' →
      Parallel r tallied B (R ∧ A.clean a) (f a) (g b) c' d') :
    Parallel r tallied B P (p >>= f) (q >>= g) c d :=
  hp.bind_run (fun a b c' d' _ hab hs => hf a b hab c' d' hs) hP

/-- One parser after the other. -/
theorem bind {p q : Parser α} {f g : α → Parser β} (hp : Parallel r tallied A True p q c d)
    (hf : ∀ a b, A.alike a b → ∀ c' d', Similar r c' d' →
      Parallel r tallied B (P ∧ A.clean a) (f a) (g b) c' d') :
    Parallel r tallied B P (p >>= f) (q >>= g) c d :=
  hp.bind_from (by simp) hf

/-- A result without reading. -/
theorem pure {a b : α} (hs : Similar r c d) (hab : A.alike a b) (hP : A.clean a ↔ P) :
    Parallel r tallied A P (pure a) (pure b) c d :=
  ⟨hs, hab, .refl c, fun _ => by
    change c.Quiet ∧ A.clean a ↔ c.Quiet ∧ P ∧ c.raised = c.raised
    simp [hP]⟩

/-- A result of a lookahead, whatever was read before. -/
theorem answer {a b : α} (hs : Similar r c d) (hab : A.alike a b) :
    Parallel r false A P (Pure.pure a) (Pure.pure b) c d :=
  ⟨hs, hab, .refl c, nofun⟩

/-- Parsers that run the same way from the same cursors. -/
theorem of_run {p q p' q' : Parser α} (hp : p.run c = p'.run c) (hq : q.run d = q'.run d)
    (h : Parallel r tallied A P p' q' c d) : Parallel r tallied A P p q c d :=
  ⟨by rw [hp, hq]; exact h.similar, by rw [hp, hq]; exact h.alike,
    by rw [hp]; exact h.reads, by rw [hp]; exact h.balance⟩

/-- Parsers that take one token and go on. -/
theorem of_step {p q p' q' : Parser α} (hp : p.run c = p'.run c.step)
    (hq : q.run d = q'.run d.step) (h : Parallel r tallied A P p' q' c.step d.step) :
    Parallel r tallied A P p q c d := by
  refine ⟨by rw [hp, hq]; exact h.similar, by rw [hp, hq]; exact h.alike,
    by rw [hp]; exact (step_reads c).trans h.reads, fun ht => ?_⟩
  have hbalance := h.balance ht
  rw [step_quiet, step_raised] at hbalance
  rw [hp]
  exact hbalance

/-- A parser that only looks at the cursor. -/
theorem glance {p q : Parser α} {f g : α → Parser β} {a b : α} (hp : p.run c = (a, c))
    (hq : q.run d = (b, d)) (h : Parallel r tallied B P (f a) (g b) c d) :
    Parallel r tallied B P (p >>= f) (q >>= g) c d := by
  refine of_run ?_ ?_ h
  · change (f (p.run c).1).run (p.run c).2 = _
    rw [hp]
  · change (g (q.run d).1).run (q.run d).2 = _
    rw [hq]

/-- A case distinction that both runs make alike. -/
theorem ite {x x' y y' : Parser α} {b : Bool} (yes : b = true → Parallel r tallied A P x x' c d)
    (no : b = false → Parallel r tallied A P y y' c d) :
    Parallel r tallied A P (if b = true then x else y) (if b = true then x' else y') c d := by
  cases b with
  | true => exact yes rfl
  | false => exact no rfl

end Parallel

/-- Parsers that track each other run side by side from similar cursors. -/
theorem Tracks.run {α : Type} {r : Pairing} {A : Aspect α} {P : Prop} {p q : Parser α}
    (h : Tracks r A P p q) {tallied : Bool} {c d : Cursor} (hs : Similar r c d) :
    Parallel r tallied A P p q c d := (h c d hs).relax

end JavaObjC
