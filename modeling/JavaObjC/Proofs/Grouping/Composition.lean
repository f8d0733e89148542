import JavaObjC.Proofs.Grouping.Reading

/-!
# Reading behind something open

Words that can be read alone are read the same way behind something open, with
one difference: what is open takes as much of the expression as binds more
tightly. Step by step the two ways of reading differ in one frame only: it is
still open in one of them, or it has been filled with the left operand of the
outermost operator.
-/

namespace JavaObjC

namespace C

/-- An expression that nothing in front of it can take apart: it ends where it is read. -/
def Expr.isPrimary : Expr → Bool
  | .word _ | .bracketed _ | .group _ | .suffixed _ _ => true
  | _ => false

/-- How tightly the outermost operator binds; the highest level means that there is none. -/
def Expr.level : Expr → Nat
  | .operation op _ _ => precedence op
  | .choice _ _ _ => choiceLevel
  | _ => 14

/-- An expression that stays one operand in front of an operator. -/
def Expr.isFirm (e : Expr) (q : Nat) : Bool :=
  match e with
  | .operation op _ _ => finishes (precedence op) q
  | .choice _ _ _ => finishes choiceLevel q
  | _ => true

namespace Frame

/-- The operator that a frame was opened with, by how tightly it binds. -/
def level? : Frame → Option Nat
  | operation _ op => some (precedence op)
  | question _ | colon _ _ => some choiceLevel
  | _ => none

/-- An expression behind a frame: the frame takes as much of it as binds more tightly. -/
def plug (f : Frame) : Expr → Expr
  | .operation op l r =>
    if f.yields (precedence op) then .operation op (f.plug l) r else f.fill (.operation op l r)
  | .choice c yes no =>
    if f.yields choiceLevel then .choice (f.plug c) yes no else f.fill (.choice c yes no)
  | e => f.fill e

/-- Whether the first frame is finished before the operator of the second one. -/
def reaches (f g : Frame) : Bool := g.level?.any f.yields

/-- A frame with the first one in front of it. -/
def behind (f g : Frame) : Frame :=
  match g with
  | operation l op => operation (f.plug l) op
  | question c => question (f.plug c)
  | colon c yes => colon (f.plug c) yes
  | g => g

/-- A frame that waits for one operand. -/
def isOpen : Frame → Bool
  | question _ | paren => true
  | _ => false

variable {f g : Frame} {e : Expr} {q : Nat}

theorem yields_behind : (f.behind g).yields = g.yields := by cases g <;> rfl

/-- Every frame that waits for one operand is finished in the end. -/
theorem yields_zero (h : f.isOpen = false) : f.yields 0 = true := by
  have hzero : ∀ p, finishes p 0 = true := fun p => by
    cases p <;> simp [finishes, assignmentLevel, choiceLevel]
  cases f <;> simp_all [isOpen, yields]

/-- An open frame waits for its closing mark. -/
theorem not_yields_of_isOpen (h : f.isOpen = true) : f.yields q = false := by
  cases f <;> simp_all [isOpen, yields]

/-- What finishes an operator finishes those that it finishes. -/
theorem finishes_trans {p p' : Nat} (h : finishes p p' = true) (h' : finishes p' q = true) :
    finishes p q = true := by
  simp only [finishes, Bool.or_eq_true, decide_eq_true_eq, Bool.and_eq_true, beq_iff_eq, bne_iff_ne]
    at h h' ⊢
  omega

/-- A frame that is finished before an operator is finished before a looser one. -/
theorem yields_trans {p : Nat} (h : f.yields p = true) (h' : finishes p q = true) :
    f.yields q = true := by
  cases f with
  | operation l op => exact finishes_trans h h'
  | sign | cast => rfl
  | question | paren => cases h
  | colon => exact finishes_trans h h'

/-- An expression without an operator that the frame comes before is taken as a whole. -/
theorem plug_of_isPrimary (h : e.isPrimary = true) : f.plug e = f.fill e := by
  cases e <;> first | rfl | cases h

/-- What a frame makes of an expression, behind another frame. -/
theorem plug_fill (hg : g.isOpen = false) (h : f.reaches g = false) :
    f.plug (g.fill e) = f.fill (g.fill e) := by
  cases g with
  | operation l op => exact if_neg (by simpa [reaches, level?] using h)
  | colon c yes => exact if_neg (by simpa [reaches, level?] using h)
  | sign | cast => rfl
  | question | paren => cases hg

/-- To fill a frame behind another is to fill the inner one and plug the outer. -/
theorem fill_behind (hg : g.isOpen = false) (h : f.reaches g = true) :
    (f.behind g).fill e = f.plug (g.fill e) := by
  cases g with
  | operation l op => exact (if_pos (by simpa [reaches, level?] using h)).symm
  | colon c yes => exact (if_pos (by simpa [reaches, level?] using h)).symm
  | sign | cast => cases h
  | question | paren => cases hg

end Frame

section Operands

variable {f : Frame} {op : Text} {l r e : Expr} {q : Nat}

/-- An operand is no part of itself. -/
theorem operation_ne_right : Expr.operation op l r ≠ r := fun h => by
  have hsize := congrArg sizeOf h
  simp only [Expr.operation.sizeOf_spec] at hsize
  omega

/-- An operator is finished before those that do not bind more tightly. -/
theorem finishes_iff {p : Nat} (h : choiceLevel < p) : finishes p q = true ↔ q ≤ p := by
  simp only [finishes, Bool.or_eq_true, decide_eq_true_eq, Bool.and_eq_true, beq_iff_eq, bne_iff_ne]
  simp only [choiceLevel, assignmentLevel] at *
  omega

/-- The operand behind an operator is taken as a whole exactly when it binds more tightly. -/
theorem plug_operation_iff (hlow : choiceLevel < precedence op) (hhigh : precedence op < 14) :
    (Frame.operation l op).plug e = .operation op l e ↔ precedence op < e.level := by
  have hyields : ∀ q, (Frame.operation l op).yields q = true ↔ q ≤ precedence op := fun q =>
    finishes_iff hlow
  cases e with
  | operation op' l' r' =>
    by_cases hq : precedence op' ≤ precedence op
    · have hplug : (Frame.operation l op).plug (.operation op' l' r') =
          .operation op' ((Frame.operation l op).plug l') r' := if_pos ((hyields _).2 hq)
      rw [hplug]
      refine iff_of_false (fun h => ?_) (by simpa [Expr.level] using hq)
      exact operation_ne_right (Expr.operation.inj h).2.2.symm
    · have hplug : (Frame.operation l op).plug (.operation op' l' r') =
          .operation op l (.operation op' l' r') := if_neg fun h => hq ((hyields _).1 h)
      exact iff_of_true hplug (by simpa [Expr.level] using hq)
  | choice c yes no =>
    have hplug : (Frame.operation l op).plug (.choice c yes no) =
        .choice ((Frame.operation l op).plug c) yes no := if_pos ((hyields _).2 hlow.le)
    rw [hplug]
    exact iff_of_false (fun h => by cases h) (by simpa [Expr.level] using hlow.le)
  | word | bracketed | suffixed | group | sign | cast => exact iff_of_true rfl hhigh

/-- Behind an assignment everything but a comma is one operand. -/
theorem plug_assignment (hop : precedence op = assignmentLevel) (he : 1 < e.level) :
    (Frame.operation l op).plug e = .operation op l e := by
  have hyields : ∀ q, 1 < q → (Frame.operation l op).yields q = false := fun q hq => by
    have hlow : ¬q < 2 := by omega
    rw [Frame.yields, hop]
    simp [finishes, assignmentLevel, hlow]
  cases e with
  | operation op' l r => exact if_neg (by rw [hyields (precedence op') he]; simp)
  | choice c yes no => exact if_neg (by rw [hyields choiceLevel he]; simp)
  | word | bracketed | suffixed | group | sign | cast => rfl

/-- What binds at least as tightly as an operator stays one operand in front of it. -/
theorem isFirm_of_le (hlow : choiceLevel < q) (he : q ≤ e.level) : e.isFirm q = true := by
  cases e with
  | operation op l r => exact (finishes_iff (hlow.trans_le he)).2 he
  | choice c yes no => exact absurd he (by simpa [Expr.level] using hlow)
  | word | bracketed | suffixed | group | sign | cast => rfl

/-- An expression without an operator between operands at its top. -/
def Expr.isUnary : Expr → Bool
  | .operation _ _ _ | .choice _ _ _ => false
  | _ => true

/-- Whatever stands in front of it takes such an expression as a whole. -/
theorem plug_of_isUnary (he : e.isUnary = true) : f.plug e = f.fill e := by
  cases e <;> first | rfl | cases he

/-- Prefix operators and casts bind alike. -/
theorem level_of_isUnary (he : e.isUnary = true) : e.level = 14 := by
  cases e <;> first | rfl | cases he

/-- A cast in front of an expression changes nothing about how tightly it binds. -/
theorem level_plug_cast {type : List Text} : ((Frame.cast type).plug e).level = e.level := by
  cases e with
  | operation op l r =>
    have hplug : (Frame.cast type).plug (.operation op l r) =
        .operation op ((Frame.cast type).plug l) r := if_pos rfl
    rw [hplug]
    rfl
  | choice c yes no =>
    have hplug : (Frame.cast type).plug (.choice c yes no) =
        .choice ((Frame.cast type).plug c) yes no := if_pos rfl
    rw [hplug]
    rfl
  | word | bracketed | suffixed | group | sign | cast => rfl

end Operands

section Settling

variable {q : Nat} {s s' : List Frame} {e e' : Expr} {f g : Frame}

/-- Settling stops in the upper part of a stack or goes on in the lower one. -/
theorem settle_append (q : Nat) (s t : List Frame) (e : Expr) :
    settle q (s ++ t) e =
      if (settle q s e).1 = [] then settle q t (settle q s e).2
      else ((settle q s e).1 ++ t, (settle q s e).2) := by
  induction s generalizing e with
  | nil => rfl
  | cons f s ih =>
    rw [List.cons_append, settle, settle]
    by_cases hf : f.yields q = true
    · rw [if_pos hf, if_pos hf, ih]
    · rw [if_neg hf, if_neg hf]
      simp

/-- When the upper part is settled away the lower one goes on. -/
theorem settle_append_nil (h : settle q s e = ([], e')) (t : List Frame) :
    settle q (s ++ t) e = settle q t e' := by
  rw [settle_append, h, if_pos rfl]

/-- When the upper part stops the lower one is left alone. -/
theorem settle_append_cons (h : settle q s e = (f :: s', e')) (t : List Frame) :
    settle q (s ++ t) e = (f :: (s' ++ t), e') := by
  rw [settle_append, h, if_neg (by simp), List.cons_append]

/-- What is left open is not finished before the operator. -/
theorem settle_head (h : settle q s e = (f :: s', e')) :
    f.yields q = false ∧ f :: s' <:+ s := by
  induction s generalizing e with
  | nil => cases h
  | cons g s ih =>
    rw [settle] at h
    by_cases hg : g.yields q = true
    · rw [if_pos hg] at h
      exact ⟨(ih h).1, (ih h).2.trans (List.suffix_cons g s)⟩
    · rw [if_neg hg] at h
      cases h
      exact ⟨by simpa using hg, List.suffix_refl _⟩

/-- When everything is finished, the outermost frame is filled last. -/
theorem settle_last (h : settle q (s ++ [g]) e = ([], e')) :
    g.yields q = true ∧ ∃ e'', settle q s e = ([], e'') ∧ e' = g.fill e'' := by
  cases hs : settle q s e with
  | mk s' e'' =>
    cases s' with
    | cons f s' =>
      rw [settle_append_cons hs] at h
      cases h
    | nil =>
      rw [settle_append_nil hs, settle] at h
      by_cases hg : g.yields q = true
      · rw [if_pos hg] at h
        cases h
        exact ⟨hg, e'', rfl, rfl⟩
      · rw [if_neg hg] at h
        cases h

/-- The expression that finishing everything gives is taken as a whole by a frame that comes
before none of the operators. -/
theorem plug_of_settle (h : settle q s e = ([], e')) (he : e.isPrimary = true)
    (hlast : ∀ g ∈ s.getLast?, f.reaches g = false) : f.plug e' = f.fill e' := by
  cases s using List.reverseRecOn with
  | nil =>
    cases h
    exact Frame.plug_of_isPrimary he
  | append_singleton s g =>
    obtain ⟨hg, e'', -, rfl⟩ := settle_last h
    refine Frame.plug_fill ?_ (hlast g (by simp))
    cases hopen : g.isOpen with
    | false => rfl
    | true => rw [Frame.not_yields_of_isOpen hopen] at hg; cases hg

end Settling

/-- Where reading is, with nothing behind an operand that could be taken apart, and within
brackets that are open. -/
def Mode.isWhole : Mode → Bool
  | .after e => e.isPrimary
  | .nested depth _ _ => depth != 0
  | _ => true

/-- A state of reading behind a frame, next to the state without the frame: the frame is still
open, or it has been filled with the left operand of the outermost operator. -/
inductive Behind (f : Frame) : State → State → Prop where
  | waiting {s : List Frame} {m : Mode} (hlast : ∀ g ∈ s.getLast?, f.reaches g = false)
    (hm : m.isWhole = true) : Behind f ⟨s, m⟩ ⟨s ++ [f], m⟩
  | filled {s : List Frame} {g : Frame} {m : Mode} (hlast : f.reaches g = true)
    (hm : m.isWhole = true) : Behind f ⟨s ++ [g], m⟩ ⟨s ++ [f.behind g], m⟩

section Steps

variable {f g : Frame} {s : List Frame} {e : Expr} {w : Text} {q : Nat}
variable {st st' st₁ : State} {m : Mode}

theorem Behind.start (f : Frame) : Behind f (.open []) (.open [f]) :=
  .waiting (by simp) rfl

/-- Opening one more frame. -/
theorem Behind.push (h : Behind f ⟨s, m⟩ st') (hs : s ≠ [] ∨ f.reaches g = false) {n : Mode}
    (hn : n.isWhole = true) : ∃ s', st' = ⟨s', m⟩ ∧ Behind f ⟨g :: s, n⟩ ⟨g :: s', n⟩ := by
  cases h with
  | waiting hlast hm =>
    refine ⟨_, rfl, ?_⟩
    rw [← List.cons_append]
    refine .waiting (fun g' hg' => ?_) hn
    cases s with
    | nil =>
      obtain rfl : g = g' := by simpa using hg'
      exact hs.resolve_left (by simp)
    | cons x s =>
      rw [List.getLast?_cons_cons] at hg'
      exact hlast g' hg'
  | filled hlast hm =>
    exact ⟨_, rfl, List.cons_append ▸ List.cons_append ▸ .filled hlast hn⟩

/-- Within a parenthesis that is open, the frame is not reached. -/
theorem Behind.inner {a r : List Frame} (h : Behind f ⟨a ++ .paren :: r, m⟩ st') :
    ∃ r', st' = ⟨a ++ .paren :: r', m⟩ ∧
      ∀ n : Mode, n.isWhole = true → Behind f ⟨r, n⟩ ⟨r', n⟩ := by
  generalize hs : a ++ .paren :: r = s at h
  cases h with
  | waiting hlast hm =>
    refine ⟨r ++ [f], by rw [← hs, List.append_assoc, List.cons_append], fun n hn =>
      .waiting (fun g hg => hlast g ?_) hn⟩
    cases r with
    | nil => cases hg
    | cons x r => rw [← hs, List.getLast?_append, List.getLast?_cons_cons, hg]; rfl
  | @filled s g _ hlast hm =>
    cases r using List.reverseRecOn with
    | nil =>
      obtain ⟨rfl, hg⟩ := List.append_inj' hs rfl
      obtain rfl := List.singleton_inj.1 hg
      cases hlast
    | append_singleton r x =>
      rw [← List.cons_append, ← List.append_assoc] at hs
      obtain ⟨rfl, hg⟩ := List.append_inj' hs rfl
      obtain rfl := List.singleton_inj.1 hg
      exact ⟨r ++ [f.behind x], by simp, fun n hn => .filled hlast hn⟩

/-- What finishing the inner frames leaves, with the frame and without it. -/
inductive Behind.Settled (f : Frame) (q : Nat) : List Frame × Expr → List Frame × Expr → Prop where
  | within {s s' : List Frame} {e : Expr} (hne : s ≠ [])
    (h : ∀ m : Mode, m.isWhole = true → Behind f ⟨s, m⟩ ⟨s', m⟩) : Settled f q (s, e) (s', e)
  | reached {e : Expr} (h : f.yields q = true) : Settled f q ([], e) ([], f.plug e)
  | above {e : Expr} (h : f.yields q = false) : Settled f q ([], e) ([f], e)

/-- Settling goes on above the frame in the same way. -/
theorem Behind.settle (h : Behind f ⟨s, .after e⟩ st') (q : Nat) :
    ∃ s', st' = ⟨s', .after e⟩ ∧ Settled f q (C.settle q s e) (C.settle q s' e) := by
  cases h with
  | waiting hlast hm =>
    refine ⟨s ++ [f], rfl, ?_⟩
    cases hs : C.settle q s e with
    | mk r e' =>
      cases r with
      | cons x r =>
        rw [settle_append_cons hs, ← List.cons_append]
        refine .within (by simp) fun m hm => .waiting (fun g hg => hlast g ?_) hm
        obtain ⟨a, rfl⟩ := (settle_head hs).2
        rw [List.getLast?_append, hg]
        rfl
      | nil =>
        rw [settle_append_nil hs, C.settle]
        by_cases hf : f.yields q = true
        · rw [if_pos hf, ← plug_of_settle hs hm hlast]
          exact .reached hf
        · rw [if_neg hf]
          exact .above (by simpa using hf)
  | @filled s g _ hlast hm =>
    refine ⟨s ++ [f.behind g], rfl, ?_⟩
    cases hs : C.settle q s e with
    | mk r e' =>
      cases r with
      | cons x r =>
        rw [settle_append_cons hs, settle_append_cons hs, ← List.cons_append, ← List.cons_append]
        exact .within (by simp) fun m hm => .filled hlast hm
      | nil =>
        rw [settle_append_nil hs, settle_append_nil hs]
        simp only [C.settle, Frame.yields_behind]
        by_cases hg : g.yields q = true
        · rw [if_pos hg, if_pos hg]
          have hopen : g.isOpen = false := by
            rw [← Bool.not_eq_true]
            exact fun hopen => by rw [Frame.not_yields_of_isOpen hopen] at hg; cases hg
          rw [Frame.fill_behind hopen hlast]
          refine .reached ?_
          cases g with
          | operation l op =>
            exact Frame.yields_trans (by simpa [Frame.reaches, Frame.level?] using hlast) hg
          | colon c yes =>
            exact Frame.yields_trans (by simpa [Frame.reaches, Frame.level?] using hlast) hg
          | sign | cast => cases hlast
          | question | paren => cases hg
        · rw [if_neg hg, if_neg hg]
          exact .within (by simp) fun m hm => .filled (s := []) hlast hm

/-- An operator: what is finished before it becomes its left operand. -/
theorem Behind.operator {k : Expr → Frame} (hlevel : ∀ e, (k e).level? = some q)
    (hk : ∀ e, f.behind (k e) = k (f.plug e)) (h : Behind f ⟨s, .after e⟩ st') :
    ∃ s', st' = ⟨s', .after e⟩ ∧ Behind f ⟨k (C.settle q s e).2 :: (C.settle q s e).1, .operand⟩
      ⟨k (C.settle q s' e).2 :: (C.settle q s' e).1, .operand⟩ := by
  obtain ⟨s', rfl, hsettled⟩ := h.settle q
  refine ⟨s', rfl, ?_⟩
  generalize C.settle q s e = before at hsettled ⊢
  generalize C.settle q s' e = behind at hsettled ⊢
  cases hsettled with
  | within hne h =>
    obtain ⟨r, hr, hpush⟩ := (h .operand rfl).push (.inl hne) (n := .operand) rfl
    cases hr
    exact hpush
  | @reached e h =>
    have hreach : f.reaches (k e) = true := by rw [Frame.reaches, hlevel, Option.any_some, h]
    exact hk e ▸ .filled (s := []) hreach rfl
  | @above e h =>
    have hreach : f.reaches (k e) = false := by rw [Frame.reaches, hlevel, Option.any_some, h]
    exact .waiting (s := [k e]) (by simpa using hreach) rfl

/-- Keeping the stack. -/
theorem Behind.keep (h : Behind f ⟨s, m⟩ st') {n : Mode} (hn : n.isWhole = true) :
    ∃ s', st' = ⟨s', m⟩ ∧ Behind f ⟨s, n⟩ ⟨s', n⟩ := by
  cases h with
  | waiting hlast hm => exact ⟨_, rfl, .waiting hlast hn⟩
  | filled hlast hm => exact ⟨_, rfl, .filled hlast hn⟩

/-- Reading one word in front of an operand, behind the frame. -/
theorem Behind.readFront (h : Behind f ⟨s, .operand⟩ st') {k : Front}
    (hread : C.readFront s w k = some st₁) :
    ∃ s', st' = ⟨s', .operand⟩ ∧ ∃ st₁', C.readFront s' w k = some st₁' ∧ Behind f st₁ st₁' := by
  have hnone : ∀ {g : Frame}, g.level? = none → f.reaches g = false := fun hg => by
    rw [Frame.reaches, hg, Option.any_none]
  cases k with
  | paren =>
    obtain rfl := Option.some.inj hread
    obtain ⟨s', rfl, hs'⟩ := h.push (g := .paren) (n := .operand) (.inr (hnone rfl)) rfl
    exact ⟨s', rfl, _, rfl, hs'⟩
  | bracket =>
    obtain rfl := Option.some.inj hread
    obtain ⟨s', rfl, hs'⟩ := h.keep (n := .nested 1 [w] none) rfl
    exact ⟨s', rfl, _, rfl, hs'⟩
  | sign =>
    obtain rfl := Option.some.inj hread
    obtain ⟨s', rfl, hs'⟩ := h.push (g := .sign w) (n := .operand) (.inr (hnone rfl)) rfl
    exact ⟨s', rfl, _, rfl, hs'⟩
  | type =>
    change openType s w = some st₁ at hread
    unfold openType at hread
    split at hread
    · obtain rfl := Option.some.inj hread
      obtain ⟨r', rfl, hr'⟩ := h.inner (a := [])
      exact ⟨_, rfl, _, rfl, hr' _ rfl⟩
    · cases hread
  | closing =>
    change closePointer s = some st₁ at hread
    unfold closePointer at hread
    split at hread
    · next t star r =>
      obtain ⟨hstar, hread⟩ := Option.ite_none_right_eq_some.1 hread
      obtain rfl := Option.some.inj hread
      obtain ⟨r', rfl, hr'⟩ := h.inner (a := [.operation (.word t) star])
      obtain ⟨_, hr, hpush⟩ := (hr' .operand rfl).push (g := .cast [t, star]) (n := .operand)
        (.inr (hnone rfl)) rfl
      cases hr
      exact ⟨_, rfl, _, if_pos hstar, hpush⟩
    · cases hread
  | atom =>
    obtain rfl := Option.some.inj hread
    obtain ⟨s', rfl, hs'⟩ := h.keep (n := .after (.word w)) rfl
    exact ⟨s', rfl, _, rfl, hs'⟩
  | other => cases hread

/-- The precedence of an operator is the one it is read with. -/
theorem precedence_of_back (h : back w = .operator q) : precedence w = q := by
  unfold back at h
  split at h
  · next q' hq =>
    obtain rfl := Back.operator.inj h
    rw [precedence, hq, Option.getD_some]
  · split_ifs at h

/-- The frame that a colon meets. -/
theorem Behind.question {c : Expr} {r : List Frame} (h : Behind f ⟨.question c :: r, m⟩ st')
    (yes : Expr) : ∃ c' r', st' = ⟨.question c' :: r', m⟩ ∧
      Behind f ⟨.colon c yes :: r, .operand⟩ ⟨.colon c' yes :: r', .operand⟩ := by
  generalize hs : Frame.question c :: r = s at h
  cases h with
  | waiting hlast hm =>
    subst hs
    refine ⟨c, r ++ [f], rfl, .waiting (fun g hg => ?_) rfl⟩
    cases r with
    | nil =>
      obtain rfl : Frame.colon c yes = g := by simpa using hg
      exact hlast (.question c) rfl
    | cons x r => exact hlast g hg
  | @filled s g _ hlast hm =>
    cases s with
    | nil =>
      obtain ⟨rfl, rfl⟩ := List.cons.inj hs
      exact ⟨f.plug c, [], rfl, .filled (s := []) hlast rfl⟩
    | cons x s =>
      obtain ⟨rfl, rfl⟩ := List.cons.inj hs
      exact ⟨c, s ++ [f.behind g], rfl, .filled (s := .colon c yes :: s) hlast rfl⟩

/-- The colon of a choice, behind the frame. -/
theorem Behind.Settled.nextChoice {inner outer : List Frame × Expr} (h : Settled f q inner outer)
    (hread : C.nextChoice inner = some st₁) :
    ∃ st₁', C.nextChoice outer = some st₁' ∧ Behind f st₁ st₁' := by
  unfold C.nextChoice at hread
  split at hread
  · next c r yes =>
    obtain rfl := Option.some.inj hread
    cases h with
    | within hne h =>
      obtain ⟨c', r', hr, hcolon⟩ := (h .operand rfl).question yes
      cases hr
      exact ⟨_, rfl, hcolon⟩
  · cases hread

/-- The end of a group, behind the frame. -/
theorem Behind.Settled.closeGroup {inner outer : List Frame × Expr} (h : Settled f q inner outer)
    (hread : C.closeGroup inner = some st₁) :
    ∃ st₁', C.closeGroup outer = some st₁' ∧ Behind f st₁ st₁' := by
  unfold C.closeGroup at hread
  split at hread
  · next r e' =>
    obtain rfl := Option.some.inj hread
    cases h with
    | within hne h =>
      obtain ⟨r', hr, hinner⟩ := (h .operand rfl).inner (a := [])
      cases hr
      exact ⟨_, rfl, hinner _ rfl⟩
  · cases hread

/-- Reading one word behind an operand, behind the frame. -/
theorem Behind.readBack (h : Behind f ⟨s, .after e⟩ st')
    (hread : C.readBack s e w (back w) = some st₁) :
    ∃ s', st' = ⟨s', .after e⟩ ∧
      ∃ st₁', C.readBack s' e w (back w) = some st₁' ∧ Behind f st₁ st₁' := by
  cases hback : back w with
  | operator q =>
    rw [hback] at hread
    obtain rfl := Option.some.inj hread
    obtain ⟨s', rfl, hs'⟩ := h.operator (k := (.operation · w)) (q := q)
      (fun _ => congrArg some (precedence_of_back hback)) (fun _ => rfl)
    exact ⟨s', rfl, _, rfl, hs'⟩
  | question =>
    rw [hback] at hread
    obtain rfl := Option.some.inj hread
    obtain ⟨s', rfl, hs'⟩ := h.operator (k := .question) (q := choiceLevel) (fun _ => rfl)
      (fun _ => rfl)
    exact ⟨s', rfl, _, rfl, hs'⟩
  | colon =>
    rw [hback] at hread
    obtain ⟨s', rfl, hs'⟩ := h.settle 0
    exact ⟨s', rfl, hs'.nextChoice hread⟩
  | closing =>
    rw [hback] at hread
    obtain ⟨s', rfl, hs'⟩ := h.settle 0
    exact ⟨s', rfl, hs'.closeGroup hread⟩
  | opening =>
    rw [hback] at hread
    obtain rfl := Option.some.inj hread
    obtain ⟨s', rfl, hs'⟩ := h.keep (n := .nested 1 [w] (some e)) rfl
    exact ⟨s', rfl, _, rfl, hs'⟩
  | point =>
    rw [hback] at hread
    obtain rfl := Option.some.inj hread
    obtain ⟨s', rfl, hs'⟩ := h.keep (n := .member e w) rfl
    exact ⟨s', rfl, _, rfl, hs'⟩
  | step =>
    rw [hback] at hread
    obtain rfl := Option.some.inj hread
    obtain ⟨s', rfl, hs'⟩ := h.keep (n := .after (.suffixed e [w])) rfl
    exact ⟨s', rfl, _, rfl, hs'⟩
  | other =>
    rw [hback] at hread
    cases hread

/-- A bracketed text leaves a state that may be whole. -/
theorem isWhole_bracketMode (ws : List Text) (e : Option Expr) (depth : Nat) :
    (bracketMode ws e depth).isWhole = true := by
  cases depth with
  | zero => cases e <;> rfl
  | succ depth => rfl

/-- Reading a word of the type of a cast. -/
theorem read_type {ws : List Text} (hread : State.read ⟨s, .type ws⟩ w = some st₁) :
    w = Text.ofString ")" ∧ st₁ = ⟨.cast ws :: s, .operand⟩ ∨
      w ≠ Text.ofString ")" ∧ (opens w || closes w) = false ∧ st₁ = ⟨s, .type (ws ++ [w])⟩ := by
  change (if w = Text.ofString ")" then some _ else if opens w || closes w then none else some _) =
    some st₁ at hread
  by_cases hw : w = Text.ofString ")"
  · rw [if_pos hw] at hread
    exact .inl ⟨hw, (Option.some.inj hread).symm⟩
  · rw [if_neg hw] at hread
    obtain ⟨hbracket, hread⟩ := Option.ite_none_left_eq_some.1 hread
    exact .inr ⟨hw, by simpa using hbracket, (Option.some.inj hread).symm⟩

/-- Reading one word behind the frame. -/
theorem Behind.read (h : Behind f st st') (hread : st.read w = some st₁) :
    ∃ st₁', st'.read w = some st₁' ∧ Behind f st₁ st₁' := by
  obtain ⟨s, m⟩ := st
  cases m with
  | operand =>
    obtain ⟨s', rfl, hs'⟩ := h.readFront (k := front w) hread
    exact hs'
  | after e =>
    obtain ⟨s', rfl, hs'⟩ := h.readBack hread
    exact hs'
  | type ws =>
    rcases read_type hread with ⟨hw, rfl⟩ | ⟨hw, hbracket, rfl⟩
    · obtain ⟨s', rfl, hs'⟩ := h.push (g := .cast ws) (n := .operand) (.inr rfl) rfl
      exact ⟨_, if_pos hw, hs'⟩
    · obtain ⟨s', rfl, hs'⟩ := h.keep (n := .type (ws ++ [w])) rfl
      exact ⟨_, (if_neg hw).trans (if_neg (by simp [hbracket])), hs'⟩
  | member e point =>
    obtain ⟨hw, hread⟩ := Option.ite_none_right_eq_some.1 hread
    obtain rfl := Option.some.inj hread
    obtain ⟨s', rfl, hs'⟩ := h.keep (n := .after (.suffixed e [point, w])) rfl
    exact ⟨_, if_pos hw, hs'⟩
  | nested depth ws e =>
    obtain rfl := Option.some.inj hread
    obtain ⟨s', rfl, hs'⟩ := h.keep (isWhole_bracketMode (ws ++ [w]) e (depthAfter w depth))
    exact ⟨_, rfl, hs'⟩

/-- Reading words behind the frame. -/
theorem Behind.readAll {ws : List Text} (h : Behind f st st') (hread : st.readAll ws = some st₁) :
    ∃ st₁', st'.readAll ws = some st₁' ∧ Behind f st₁ st₁' := by
  induction ws generalizing st st' with
  | nil =>
    obtain rfl := Option.some.inj hread
    exact ⟨st', rfl, h⟩
  | cons w ws ih =>
    rw [State.readAll, List.foldlM_cons] at hread
    obtain ⟨st₂, hw, hread⟩ := Option.bind_eq_some_iff.1 hread
    obtain ⟨st₂', hw', h₂⟩ := h.read hw
    obtain ⟨st₁', hrest, h₁⟩ := ih h₂ hread
    refine ⟨st₁', ?_, h₁⟩
    rw [State.readAll, List.foldlM_cons, hw']
    exact hrest

/-- Where reading ends behind the frame, with the expression that is read without it. -/
theorem Behind.result (h : Behind f st st') (hresult : st.result? = some e) :
    ∃ s' e', st' = ⟨s', .after e'⟩ ∧
      C.settle 0 s' e' = if f.isOpen then ([f], e) else ([], f.plug e) := by
  obtain ⟨s, m⟩ := st
  cases m with
  | after e₀ =>
    obtain ⟨s', rfl, hs'⟩ := h.settle 0
    refine ⟨s', e₀, rfl, ?_⟩
    unfold State.result? at hresult
    dsimp only at hresult
    generalize C.settle 0 s e₀ = before at hresult hs'
    generalize C.settle 0 s' e₀ = behind at hs' ⊢
    split at hresult
    · obtain rfl := Option.some.inj hresult
      cases hs' with
      | within hne h => exact absurd rfl hne
      | reached h =>
        rw [if_neg fun hopen => ?_]
        rw [Frame.not_yields_of_isOpen hopen] at h
        cases h
      | above h =>
        rw [if_pos]
        cases hopen : f.isOpen with
        | true => rfl
        | false => rw [Frame.yields_zero hopen] at h; cases h
    · cases hresult
  | operand | type | member | nested => cases hresult

end Steps

end C

end JavaObjC
