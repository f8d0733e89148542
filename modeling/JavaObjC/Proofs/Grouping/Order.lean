import JavaObjC.Proofs.Grouping.Composition
import Mathlib.Data.List.Chain

/-!
# What is open, in order

The operators that are open bind the more tightly the further inside they are.
So an expression stays one operand in front of an operator exactly if its own
outermost operator binds more tightly.
-/

namespace JavaObjC

namespace C

/-- Every frame that is open binds more tightly than the ones outside of it, as far as they could
have been finished. -/
def Ordered (s : List Frame) : Prop :=
  s.IsChain fun g f => ∀ q ∈ g.level?, f.yields q = false

section Order

variable {f g : Frame} {s : List Frame} {e e' : Expr} {w : Text} {q : Nat} {st st₁ : State}

/-- A frame may be pushed on frames that do not yield to it. -/
theorem Ordered.cons (h : Ordered s) (hg : ∀ q ∈ g.level?, ∀ f ∈ s.head?, f.yields q = false) :
    Ordered (g :: s) := by
  cases s with
  | nil => exact .singleton g
  | cons f s => exact .cons_cons (fun q hq => hg q hq f rfl) h

/-- The lower part of an ordered stack is ordered. -/
theorem Ordered.of_suffix {s' : List Frame} (h : Ordered s) (hs : s' <:+ s) : Ordered s' :=
  List.IsChain.suffix h hs

/-- Settling leaves the lower part of the stack. -/
theorem settle_suffix : (settle q s e).1 <:+ s := by
  cases h : settle q s e with
  | mk r e' =>
    cases r with
    | nil => exact List.nil_suffix
    | cons f r => exact (settle_head h).2

/-- Opening a frame with an operator. -/
theorem Ordered.operator (h : Ordered s) (hg : g.level? = some q) :
    Ordered (g :: (settle q s e).1) := by
  refine (h.of_suffix settle_suffix).cons fun p hp f hf => ?_
  obtain rfl : q = p := by simpa [hg] using hp
  cases hs : settle q s e with
  | mk r e' =>
    rw [hs] at hf
    cases r with
    | nil => cases hf
    | cons x r =>
      obtain rfl : x = f := by simpa using hf
      exact (settle_head hs).1

theorem Ordered.tail (h : Ordered (g :: s)) : Ordered s := h.of_suffix (List.suffix_cons g s)

/-- A frame without a level may be pushed on any frames. -/
theorem Ordered.single (h : Ordered s) (hg : g.level? = none) : Ordered (g :: s) :=
  h.cons fun q hq => by rw [hg] at hq; cases hq

/-- Reading a word where an operand is due keeps the order. -/
theorem Ordered.readFront (h : Ordered s) {k : Front} (hread : C.readFront s w k = some st) :
    Ordered st.stack := by
  cases k with
  | paren | sign => exact Option.some.inj hread ▸ h.single rfl
  | bracket | atom => exact Option.some.inj hread ▸ h
  | type =>
    change openType s w = some st at hread
    unfold openType at hread
    split at hread
    · exact Option.some.inj hread ▸ h.tail
    · cases hread
  | closing =>
    change closePointer s = some st at hread
    unfold closePointer at hread
    split at hread
    · obtain ⟨-, hread⟩ := Option.ite_none_right_eq_some.1 hread
      exact Option.some.inj hread ▸ h.tail.tail.single rfl
    · cases hread
  | other => cases hread

/-- Reading a word behind an operand keeps the order. -/
theorem Ordered.readBack (h : Ordered s) (hread : C.readBack s e w (back w) = some st) :
    Ordered st.stack := by
  have hsuffix : ∀ {r : List Frame} {e' : Expr}, settle 0 s e = (r, e') → Ordered r := fun hs => by
    have hsub : (settle 0 s e).1 <:+ s := settle_suffix
    rw [hs] at hsub
    exact h.of_suffix hsub
  cases hback : back w with
  | operator q =>
    rw [hback] at hread
    exact Option.some.inj hread ▸ h.operator (congrArg some (precedence_of_back hback))
  | question =>
    rw [hback] at hread
    exact Option.some.inj hread ▸ h.operator rfl
  | colon =>
    rw [hback] at hread
    change nextChoice (settle 0 s e) = some st at hread
    unfold nextChoice at hread
    split at hread
    · next c r yes hs =>
      have hr := hsuffix hs
      refine Option.some.inj hread ▸ hr.tail.cons fun q hq f hf => ?_
      cases r with
      | nil => cases hf
      | cons x r =>
        obtain rfl : x = f := by simpa using hf
        exact (List.isChain_cons_cons.1 hr).1 q hq
    · cases hread
  | closing =>
    rw [hback] at hread
    change closeGroup (settle 0 s e) = some st at hread
    unfold closeGroup at hread
    split at hread
    · next r e' hs => exact Option.some.inj hread ▸ (hsuffix hs).tail
    · cases hread
  | opening | point | step =>
    rw [hback] at hread
    exact Option.some.inj hread ▸ h
  | other =>
    rw [hback] at hread
    cases hread

/-- Reading a word keeps the order. -/
theorem Ordered.read (h : Ordered st.stack) (hread : st.read w = some st₁) : Ordered st₁.stack := by
  obtain ⟨s, m⟩ := st
  cases m with
  | operand => exact h.readFront (k := front w) hread
  | after e => exact h.readBack hread
  | type ws =>
    rcases read_type hread with ⟨-, rfl⟩ | ⟨-, -, rfl⟩
    · exact Ordered.single h rfl
    · exact h
  | member e point =>
    obtain ⟨-, hread⟩ := Option.ite_none_right_eq_some.1 hread
    exact Option.some.inj hread ▸ h
  | nested depth ws e => exact Option.some.inj hread ▸ h

/-- Reading words keeps the order. -/
theorem Ordered.readAll {ws : List Text} (h : Ordered st.stack) (hread : st.readAll ws = some st₁) :
    Ordered st₁.stack := by
  induction ws generalizing st with
  | nil => exact Option.some.inj hread ▸ h
  | cons w ws ih =>
    rw [State.readAll, List.foldlM_cons] at hread
    obtain ⟨st₂, hw, hread⟩ := Option.bind_eq_some_iff.1 hread
    exact ih (h.read hw) hread

/-- A frame is finished before an operator if the next one outside of it is. -/
theorem yields_of_outer (h : ∀ p ∈ g.level?, f.yields p = false) (hf : f.yields q = true)
    (hg : g.yields 0 = true) : g.yields q = true := by
  have hlevels : ∀ {p p' : Nat}, finishes p p' = false → finishes p q = true →
      finishes p' q = true := fun {p p'} h h' => by
    simp only [finishes, Bool.or_eq_true, decide_eq_true_eq, Bool.and_eq_true, beq_iff_eq,
      bne_iff_ne, Bool.or_eq_false_iff, decide_eq_false_iff_not, Bool.and_eq_false_iff,
      beq_eq_false_iff_ne, bne_eq_false_iff_eq] at h h' ⊢
    omega
  have hlevel : ∀ p ∈ g.level?, finishes p q = true := fun p hp => by
    have hp' := h p hp
    cases f with
    | operation l op => exact hlevels hp' hf
    | colon c yes => exact hlevels hp' hf
    | sign | cast => cases hp'
    | question | paren => cases hf
  cases g with
  | operation l op => exact hlevel _ rfl
  | colon c yes => exact hlevel _ rfl
  | sign | cast => rfl
  | question | paren => cases hg

/-- When every frame is finished before an operator, everything is. -/
theorem settle_of_forall (h : ∀ f ∈ s, f.yields q = true) :
    settle q s e = ([], s.foldl (fun e f => f.fill e) e) := by
  induction s generalizing e with
  | nil => rfl
  | cons f s ih =>
    rw [List.forall_mem_cons] at h
    rw [settle, if_pos h.1, ih h.2, List.foldl_cons]

/-- When all is finished, every frame is finished before the operator. -/
theorem forall_of_settle (h : settle q s e = ([], e')) : ∀ f ∈ s, f.yields q = true := by
  induction s generalizing e with
  | nil => simp
  | cons f s ih =>
    rw [settle] at h
    by_cases hf : f.yields q = true
    · rw [if_pos hf] at h
      exact List.forall_mem_cons.2 ⟨hf, ih h⟩
    · rw [if_neg hf] at h
      cases h

/-- When the outermost frame is finished before an operator, every frame is. -/
theorem Ordered.forall_yields (h : Ordered (s ++ [g])) (hzero : ∀ f ∈ s ++ [g], f.yields 0 = true)
    (hg : g.yields q = true) : ∀ f ∈ s ++ [g], f.yields q = true := by
  induction s with
  | nil => simpa using hg
  | cons f s ih =>
    rw [List.cons_append] at h hzero ⊢
    rw [List.forall_mem_cons] at hzero
    have hrest := ih h.tail hzero.2
    refine List.forall_mem_cons.2 ⟨?_, hrest⟩
    cases hr : s ++ [g] with
    | nil => simp at hr
    | cons x r =>
      rw [hr] at h hrest
      exact yields_of_outer (List.isChain_cons_cons.1 h).1 (hrest x List.mem_cons_self) hzero.1

/-- A firm expression is finished before the operator. -/
theorem Ordered.settle (h : Ordered s) (hs : C.settle 0 s e = ([], e')) (he : e'.isFirm q = true) :
    C.settle q s e = ([], e') := by
  have hzero := forall_of_settle hs
  have hall : ∀ f ∈ s, f.yields q = true := by
    cases s using List.reverseRecOn with
    | nil => simp
    | append_singleton s g ih =>
      clear ih
      obtain ⟨-, e'', -, rfl⟩ := settle_last hs
      have hlast := hzero g (by simp)
      refine h.forall_yields hzero ?_
      cases g with
      | operation l op => exact he
      | colon c yes => exact he
      | sign | cast => rfl
      | question | paren => cases hlast
  rw [settle_of_forall hall, ← settle_of_forall hzero, hs]

end Order

end C

end JavaObjC
