import JavaObjC.Proofs.Reading.Parallel

/-!
# The combinators side by side

One rule for each way of reading tokens: looking at the tokens ahead, taking
one, recording problems, looking ahead, and repeating. Taking a token needs to
know that it is not the end of file, so the rules for case distinctions hand
what they found out about the next tokens to their branches.
-/

namespace JavaObjC

open Cursor

namespace Parser

/-- A token is taken if it has the kind. -/
theorem skip_run (kind : TokenKind) (c : Cursor) :
    (skip kind).run c = if (c.tokenAt 0).kind = kind then (true, c.step) else (false, c) := by
  by_cases h : (c.tokenAt 0).kind = kind
  · simp [skip, accept, check, kindAt, advance, peek, h]
    rfl
  · simp [skip, accept, check, kindAt, h]
    rfl

/-- A case distinction by whether a token could be taken. -/
theorem ifSkip_run {β : Type} (kind : TokenKind) (x y : Parser β) (c : Cursor) :
    (skip kind >>= fun b => if b = true then x else y).run c =
      if (c.tokenAt 0).kind = kind then x.run c.step else y.run c := by
  rw [StateT.run_bind, skip_run]
  split <;> rfl

variable {c₀ c : Cursor} {kind first second : TokenKind} {kinds : List TokenKind}

/-- A token that was wanted and is there has the kind that was wanted. -/
theorem kind_of_expect {t : Token} (h : (expect kind).run c₀ = (some t, c)) : t.kind = kind := by
  by_cases hkind : (c₀.tokenAt 0).kind = kind
  · have hrun : (expect kind).run c₀ = (some (c₀.tokenAt 0), c₀.step) := by
      simp [expect, accept, check, kindAt, advance, peek, hkind]
      rfl
    obtain ⟨heq, -⟩ := Prod.mk.inj (hrun.symm.trans h)
    rwa [← Option.some.inj heq]
  · have hrun : ((expect kind).run c₀).1 = none := by
      simp [expect, accept, check, kindAt, hkind]
      rfl
    rw [h] at hrun
    cases hrun

/-- A test that succeeded says what stands ahead, and takes nothing. -/
theorem kind_of_check (h : (check kind).run c₀ = (true, c)) : (c.tokenAt 0).kind = kind := by
  obtain ⟨hkind, rfl⟩ := Prod.mk.inj h
  simpa using hkind

/-- A check of two that passes tells the kinds of both tokens. -/
theorem kinds_of_check2 (h : (check2 first second).run c₀ = (true, c)) :
    (c.tokenAt 0).kind = first ∧ (c.tokenAt 1).kind = second := by
  obtain ⟨hkinds, rfl⟩ := Prod.mk.inj h
  simpa using hkinds

/-- A check that passes tells that the token is one of the kinds. -/
theorem mem_of_checkAny (h : (checkAny kinds).run c₀ = (true, c)) :
    (c.tokenAt 0).kind ∈ kinds := by
  obtain ⟨hkind, rfl⟩ := Prod.mk.inj h
  simpa using hkind

end Parser

namespace Parallel

variable {α β : Type} {r : Pairing} {tallied : Bool} {A : Aspect α} {B : Aspect β}
  {P : Prop} {c d : Cursor}

section Looking

variable {f g : TokenKind → Parser β} {x x' y y' : Parser β}

/-- Places in the source play no part in the comparison. -/
theorem here_bind {f g : Position → Parser β}
    (h : Parallel r tallied B P (f (c.tokenAt 0).span.start) (g (d.tokenAt 0).span.start) c d) :
    Parallel r tallied B P (Parser.here >>= f) (Parser.here >>= g) c d :=
  glance rfl rfl h

/-- Both runs see the same kinds of tokens ahead. -/
theorem kindAt_bind {n : Nat} (hs : Similar r c d)
    (h : Parallel r tallied B P (f (c.tokenAt n).kind) (g (c.tokenAt n).kind) c d) :
    Parallel r tallied B P (Parser.kindAt n >>= f) (Parser.kindAt n >>= g) c d := by
  refine glance (b := (c.tokenAt n).kind) rfl ?_ h
  rw [← hs.kind_eq n]
  rfl

/-- Both runs agree on whether the next token can be a name. -/
theorem checkName_bind {f g : Bool → Parser β} (hs : Similar r c d)
    (h : Parallel r tallied B P (f (c.tokenAt 0).kind.isName) (g (c.tokenAt 0).kind.isName) c d) :
    Parallel r tallied B P (Parser.checkName >>= f) (Parser.checkName >>= g) c d :=
  kindAt_bind (f := fun k => f k.isName) (g := fun k => g k.isName) hs h

/-- Both runs agree on whether the next token has a kind. -/
theorem check_bind {kind : TokenKind} {f g : Bool → Parser β} (hs : Similar r c d)
    (h : Parallel r tallied B P (f ((c.tokenAt 0).kind == kind)) (g ((c.tokenAt 0).kind == kind))
      c d) :
    Parallel r tallied B P (Parser.check kind >>= f) (Parser.check kind >>= g) c d :=
  kindAt_bind (f := fun k => f (k == kind)) (g := fun k => g (k == kind)) hs h

/-- A case distinction by the kind of the next token. -/
theorem ifCheck {kind : TokenKind} (hs : Similar r c d)
    (yes : (c.tokenAt 0).kind = kind → Parallel r tallied B P x x' c d)
    (no : (c.tokenAt 0).kind ≠ kind → Parallel r tallied B P y y' c d) :
    Parallel r tallied B P (Parser.check kind >>= fun b => if b = true then x else y)
      (Parser.check kind >>= fun b => if b = true then x' else y') c d := by
  refine check_bind hs ?_
  exact ite (fun h => yes (by simpa using h)) (fun h => no (by simpa using h))

/-- A case distinction by the kinds of the next two tokens. -/
theorem ifCheck2 {first second : TokenKind} (hs : Similar r c d)
    (yes : (c.tokenAt 0).kind = first → (c.tokenAt 1).kind = second →
      Parallel r tallied B P x x' c d)
    (no : Parallel r tallied B P y y' c d) :
    Parallel r tallied B P (Parser.check2 first second >>= fun b => if b = true then x else y)
      (Parser.check2 first second >>= fun b => if b = true then x' else y') c d := by
  refine kindAt_bind (f := fun k => Parser.kindAt 1 >>= fun l =>
    if (k == first && l == second) = true then x else y) (g := fun k => Parser.kindAt 1 >>= fun l =>
    if (k == first && l == second) = true then x' else y') hs ?_
  refine kindAt_bind hs (ite (fun h => ?_) fun _ => no)
  simp only [Bool.and_eq_true, beq_iff_eq] at h
  exact yes h.1 h.2

/-- A case distinction by several kinds of the next token. -/
theorem ifCheckAny {kinds : List TokenKind} (hs : Similar r c d)
    (yes : (c.tokenAt 0).kind ∈ kinds → Parallel r tallied B P x x' c d)
    (no : (c.tokenAt 0).kind ∉ kinds → Parallel r tallied B P y y' c d) :
    Parallel r tallied B P (Parser.checkAny kinds >>= fun b => if b = true then x else y)
      (Parser.checkAny kinds >>= fun b => if b = true then x' else y') c d := by
  refine kindAt_bind (f := fun k => if kinds.contains k = true then x else y)
    (g := fun k => if kinds.contains k = true then x' else y') hs ?_
  exact ite (fun h => yes (by simpa using h)) (fun h => no (by simpa using h))

/-- A case distinction by whether the next token can be a name. -/
theorem ifCheckName (hs : Similar r c d)
    (yes : (c.tokenAt 0).kind.isName = true → Parallel r tallied B P x x' c d)
    (no : Parallel r tallied B P y y' c d) :
    Parallel r tallied B P (Parser.checkName >>= fun b => if b = true then x else y)
      (Parser.checkName >>= fun b => if b = true then x' else y') c d := by
  refine checkName_bind hs ?_
  exact ite yes fun _ => no

/-- A question about the kinds of the tokens ahead. -/
theorem check (kind : TokenKind) (hs : Similar r c d) :
    Parallel r tallied .plain True (Parser.check kind) (Parser.check kind) c d :=
  kindAt_bind hs (.pure hs rfl Iff.rfl)

/-- Similar cursors answer alike whether a token is another one. -/
theorem checkNot (kind : TokenKind) (hs : Similar r c d) :
    Parallel r tallied .plain True (Parser.checkNot kind) (Parser.checkNot kind) c d :=
  check_bind hs (.pure hs rfl Iff.rfl)

/-- Similar cursors answer alike whether a token is one of some. -/
theorem checkAny (kinds : List TokenKind) (hs : Similar r c d) :
    Parallel r tallied .plain True (Parser.checkAny kinds) (Parser.checkAny kinds) c d :=
  kindAt_bind hs (.pure hs rfl Iff.rfl)

/-- Similar cursors answer alike whether a token is a name. -/
theorem checkName (hs : Similar r c d) :
    Parallel r tallied .plain True Parser.checkName Parser.checkName c d :=
  kindAt_bind hs (.pure hs rfl Iff.rfl)

/-- Similar cursors answer alike about two tokens. -/
theorem check2 (first second : TokenKind) (hs : Similar r c d) :
    Parallel r tallied .plain True (Parser.check2 first second) (Parser.check2 first second) c d :=
  kindAt_bind hs (kindAt_bind hs (.pure hs rfl Iff.rfl))

/-- Similar cursors answer alike whether a list goes on. -/
theorem before (kinds : List TokenKind) (hs : Similar r c d) :
    Parallel r tallied .plain True (Parser.before kinds) (Parser.before kinds) c d :=
  (checkAny _ hs).bind fun _ _ h _ _ hs => .pure hs (congrArg not h) (by simp)

end Looking

section Taking

/-- Taking a token and going on after it. -/
theorem advance_bind {f g : Token → Parser β} (hs : Similar r c d)
    (h : ∀ t u, Token.Alike r t u → t = c.tokenAt 0 →
      Parallel r tallied B P (f t) (g u) c.step d.step) :
    Parallel r tallied B P (Parser.advance >>= f) (Parser.advance >>= g) c d := by
  exact of_step rfl rfl (h (c.tokenAt 0) (d.tokenAt 0) hs.head rfl)

/-- Taking two tokens and going on after them. -/
theorem two_bind {x x' : Parser β} (hs : Similar r c d) (h₀ : (c.tokenAt 0).kind ≠ .eof)
    (h₁ : (c.tokenAt 1).kind ≠ .eof)
    (h : ∀ c' d', Similar r c' d' → Parallel r tallied B P x x' c' d') :
    Parallel r tallied B P (Parser.advance >>= fun _ => Parser.advance >>= fun _ => x)
      (Parser.advance >>= fun _ => Parser.advance >>= fun _ => x') c d := by
  have hs₁ := hs.step h₀
  refine advance_bind hs fun _ _ _ _ => advance_bind hs₁ fun _ _ _ _ => ?_
  exact h _ _ (hs₁.step (by rw [tokenAt_step]; exact h₁))

/-- A token that is taken. -/
theorem advance (hs : Similar r c d) (hk : (c.tokenAt 0).kind ≠ .eof) :
    Parallel r tallied (.token r) True Parser.advance Parser.advance c d :=
  ⟨hs.step hk, hs.head, step_reads c, fun _ => by
    change c.step.Quiet ∧ True ↔ c.Quiet ∧ True ∧ c.step.raised = c.raised
    simp [step_quiet]⟩

/-- A token that is taken as a leaf. -/
theorem leaf {kind : NodeKind} (hs : Similar r c d) (hk : (c.tokenAt 0).kind ≠ .eof)
    (hkind : kind ≠ .error) (hleast : kind.leastChildren = 0)
    (hrequired : kind.requiredParts = []) :
    Parallel r tallied (.node r) True (Parser.leaf kind) (Parser.leaf kind) c d := by
  refine advance_bind hs fun t u htu ht => ?_
  exact .pure (hs.step hk) (Node.alike_ofToken hkind hleast hrequired (ht ▸ hk) htu)
    (by simp [Aspect.node, Node.clean_ofToken])

/-- The next token is taken if it has the kind. -/
theorem accept {kind : TokenKind} [kind.Inner] (hs : Similar r c d) :
    Parallel r tallied (.option (.token r)) True (Parser.accept kind) (Parser.accept kind)
      c d := by
  refine ifCheck hs (fun hkind => ?_) fun _ => ?_
  · refine (advance hs (by rw [hkind]; exact TokenKind.Inner.ne_eof)).bind fun t u htu c d hs => ?_
    exact .pure hs (.some htu) (by simp)
  · exact .pure hs .none (by simp)

/-- Similar cursors skip a token alike. -/
theorem skip {kind : TokenKind} [kind.Inner] (hs : Similar r c d) :
    Parallel r tallied .plain True (Parser.skip kind) (Parser.skip kind) c d := by
  refine (accept hs).bind fun t u htu c d hs => ?_
  refine .pure hs ?_ (by simp)
  cases htu <;> rfl

/-- A case distinction by whether a token could be taken. -/
theorem ifSkip {kind : TokenKind} [kind.Inner] {x x' y y' : Parser β} (hs : Similar r c d)
    (yes : ∀ c' d', Similar r c' d' → Parallel r tallied B P x x' c' d')
    (no : (c.tokenAt 0).kind ≠ kind → Parallel r tallied B P y y' c d) :
    Parallel r tallied B P (Parser.skip kind >>= fun b => if b = true then x else y)
      (Parser.skip kind >>= fun b => if b = true then x' else y') c d := by
  by_cases hkind : (c.tokenAt 0).kind = kind
  · have hkind' : (d.tokenAt 0).kind = kind := by rw [hs.kind_eq, hkind]
    refine of_step ?_ ?_ (yes _ _ (hs.step (by rw [hkind]; exact TokenKind.Inner.ne_eof)))
    · rw [Parser.ifSkip_run, if_pos hkind]
    · rw [Parser.ifSkip_run, if_pos hkind']
  · have hkind' : (d.tokenAt 0).kind ≠ kind := by rw [hs.kind_eq]; exact hkind
    refine of_run ?_ ?_ (no hkind)
    · rw [Parser.ifSkip_run, if_neg hkind]
    · rw [Parser.ifSkip_run, if_neg hkind']

end Taking

section Problems

/-- A missing token is on record afterwards. -/
theorem not_quiet_expected (kinds : List TokenKind) (c : Cursor) :
    ¬ ((Parser.expected kinds).run c).2.Quiet := by
  rintro ⟨hnil, -⟩
  change (if c.isReported then c.missing else _) = [] at hnil
  split at hnil
  · rename_i hreported
    simp [isReported, hnil] at hreported
  · cases hnil

/-- Recording that a token is missing. -/
theorem expected (kinds : List TokenKind) (hs : Similar r c d) :
    Parallel r tallied .plain P (Parser.expected kinds) (Parser.expected kinds) c d := by
  have hgot := hs.head
  have hdescribe : Parser.describe (d.tokenAt 0) = Parser.describe (c.tokenAt 0) := by
    simp only [Parser.describe, hgot.kind_eq, hgot.literal_eq]
  refine ⟨?_, rfl, .of_takes (.of_eq rfl rfl ?_ rfl) (Nat.le_succ _), fun _ => ?_⟩
  · refine hs.with_missing ?_
    rw [hs.isReported_eq]
    split
    · exact hs.missing
    · refine .cons ⟨?_, rfl, hgot⟩ hs.missing
      simp only [hdescribe]
  · change c.missing <:+ if c.isReported then c.missing else _ :: c.missing
    split
    · exact List.suffix_rfl
    · exact List.suffix_cons _ _
  · have hnot := not_quiet_expected kinds c
    have hraised : ((Parser.expected kinds).run c).2.raised ≠ c.raised := Nat.succ_ne_self _
    simp [hnot, hraised]

/-- Taking a token that has to be there. -/
theorem expect {kind : TokenKind} [kind.Inner] (hs : Similar r c d) :
    Parallel r tallied (.option (.token r)) True (Parser.expect kind) (Parser.expect kind)
      c d := by
  refine (accept hs).bind fun t u htu c d hs => ?_
  cases htu with
  | none =>
    refine (expected _ hs).bind fun _ _ _ c d hs => ?_
    exact .pure hs .none (by simp)
  | some htu => exact .pure hs (.some htu) (by simp)

/-- Similar cursors miss a token alike. -/
theorem need {kind : TokenKind} [kind.Inner] (hs : Similar r c d) :
    Parallel r tallied .plain True (Parser.need kind) (Parser.need kind) c d := by
  refine (expect hs).bind fun _ _ _ c d hs => ?_
  exact .pure hs rfl (by simp)

/-- Going on after a token that has to be there. -/
theorem need_bind {kind : TokenKind} [kind.Inner] {f g : Unit → Parser β} (hs : Similar r c d)
    (h : ∀ c' d', Similar r c' d' → Parallel r tallied B P (f ()) (g ()) c' d') :
    Parallel r tallied B P (Parser.need kind >>= f) (Parser.need kind >>= g) c d :=
  (need hs).bind fun _ _ _ c d hs => (h c d hs).of_iff (by simp)

/-- Taking a name, or recording that one is missing. -/
theorem name (hs : Similar r c d) :
    Parallel r tallied (.nodes r) True Parser.name Parser.name c d := by
  refine ifCheckName hs (fun hname => ?_) ?_
  · have hk : (c.tokenAt 0).kind ≠ .eof := by
      intro heof
      rw [heof] at hname
      cases hname
    refine (leaf hs hk (by decide) rfl rfl).bind fun n m hnm c d hs => ?_
    exact .pure hs (.cons hnm .nil) (by simp)
  · refine (expected _ hs).bind fun _ _ _ c d hs => ?_
    exact .pure hs .nil (by simp)

/-- Reporting a phrase that cannot be read. -/
theorem problem (message : String) (recovery expected : List TokenKind) (hs : Similar r c d) :
    Parallel r tallied (.node r) P (Parser.problem message recovery expected)
      (Parser.problem message recovery expected) c d := by
  have hproblem : Problem.Alike r ⟨message, expected, c.tokenAt 0⟩
      ⟨message, expected, d.tokenAt 0⟩ := ⟨rfl, rfl, hs.head⟩
  refine ⟨(hs.recover recovery).with_missing (hs.recover recovery).missing,
    Node.alike_ofProblem hproblem,
    .of_takes ⟨(recover_takes c recovery).moves, (recover_takes c recovery).missing,
      (recover_takes c recovery).missteps_eq⟩
      (Nat.le_succ _), fun _ => ?_⟩
  have hclean := Node.not_clean_ofProblem ⟨message, expected, c.tokenAt 0⟩
  have hraised : ((Parser.problem message recovery expected).run c).2.raised ≠ c.raised :=
    Nat.succ_ne_self _
  constructor
  · intro h
    exact absurd h.2 hclean
  · intro h
    exact absurd h.2.2 hraised

end Problems

section Building

/-- Ending a node whose parts are alike. -/
theorem finishWith {kind : NodeKind} {t t' : Option Token} {start start' : Position}
    {children children' : List Node} (hs : Similar r c d)
    (ht : t.map Token.erase = t'.map Token.erase)
    (hc : Node.AlikeAll r children children') (hfits : ∀ s, Node.Fits ⟨kind, s, t, none, children⟩)
    (hlexed : ∀ s, Node.Lexed ⟨kind, s, t, none, children⟩) (hP : Node.CleanAll children ↔ P) :
    Parallel r tallied (.node r) P (Parser.finishWith kind t start children)
      (Parser.finishWith kind t' start' children') c d :=
  glance rfl rfl (.pure hs (.of_children ht hc (hfits _) (hlexed _)) (by
    rw [← hP]
    exact Node.clean_mk _ _ _ _))

/-- Ending an inner node whose parts are alike. -/
theorem finish {kind : NodeKind} {start start' : Position} {children children' : List Node}
    (hs : Similar r c d) (hc : Node.AlikeAll r children children')
    (hfits : ∀ s, Node.Fits ⟨kind, s, none, none, children⟩)
    (hP : Node.CleanAll children ↔ P) :
    Parallel r tallied (.node r) P (Parser.finish kind start children)
      (Parser.finish kind start' children') c d :=
  finishWith hs rfl hc hfits (fun _ => Node.lexed_of_none rfl) hP

/-- Ending a node again at a later place. -/
theorem extend {n m : Node} (hs : Similar r c d) (h : Node.Alike r n m) :
    Parallel r tallied (.node r) n.Clean (Parser.extend n) (Parser.extend m) c d :=
  glance rfl rfl (.pure hs (h.with_span _ _) (Node.clean_with_span _ _))

/-- A result that a loop goes on with. -/
theorem some_of {p q : Parser Node} {a : Node} (h : Parallel r tallied (.node r) P p q c d) :
    Parallel r tallied (.orElse (.node r) a) P (p >>= fun n => Pure.pure (some n))
      (q >>= fun n => Pure.pure (some n)) c d :=
  h.bind_from (R := True) (by simp) fun _ _ hn _ _ hs => .pure hs (.some hn) (by simp)

/-- Giving up a tree. -/
theorem discard {n m : Node} (hs : Similar r c d) :
    Parallel r tallied .plain n.Clean (Parser.discard n) (Parser.discard m) c d :=
  ⟨⟨hs.consumed, hs.rest, hs.missing, hs.ends, hs.open_consumed⟩, rfl,
    .of_takes (.of_eq rfl rfl List.suffix_rfl rfl) (Nat.le_refl _), fun _ => by
      change (c.missing = [] ∧ Node.CleanAll (n :: c.discarded)) ∧ True ↔
        (c.missing = [] ∧ Node.CleanAll c.discarded) ∧ n.Clean ∧ c.raised = c.raised
      rw [Node.cleanAll_cons]
      tauto⟩

end Building

section Ahead

/-- A question about what follows is answered alike and leaves no problem. -/
theorem lookahead {p q : Parser Bool} (hs : Similar r c d)
    (h : Parallel r false .plain P p q c d) :
    Parallel r tallied .plain True (Parser.lookahead p) (Parser.lookahead q) c d := by
  obtain ⟨taken, htaken, hrest⟩ := h.reads.moves
  have hback : ((Parser.lookahead p).run c).2 =
      { c with rest := taken ++ (p.run c).2.rest, missteps := (p.run c).2.missteps } :=
    goBack_eq htaken h.reads.missing
  refine ⟨h.similar.goBack hs, h.alike, ?_, fun _ => ?_⟩
  · rw [hback]
    exact ⟨⟨[], rfl, hrest⟩, List.suffix_rfl, Nat.le_refl _⟩
  · rw [hback]
    change c.Quiet ∧ True ↔ c.Quiet ∧ True ∧ c.raised = c.raised
    simp

/-- The rest of a compound token stays ahead when its first mark is taken. -/
theorem split {t u : Token} {rest rest' : List Token} {kind : TokenKind} (hs : Similar r c d)
    (hc : c.rest = t :: rest) (hd : d.rest = u :: rest')
    (hk : Parser.remainder? t.kind = some kind) :
    Similar r { c with rest := Parser.shorten t kind :: rest }
      { d with rest := Parser.shorten u kind :: rest' } := by
  have hrest := hs.rest
  rw [hc, hd, List.forall₂_cons] at hrest
  obtain ⟨mark, hmark⟩ := Token.exists_mark_of_remainder hk
  obtain ⟨left, hleft, -, -⟩ := Token.remainder_spelling (hmark ▸ hk)
  have hends := hs.ends
  rw [hc] at hends
  exact ⟨hs.consumed, .cons (hrest.1.shorten hk) hrest.2, hs.missing,
    hends.replace (by rw [hmark]; nofun) (by simp [Parser.shorten, hleft]), hs.open_consumed⟩

/-- One mark `>` is taken, or none is there. -/
theorem skipGreater (hs : Similar r c d) :
    Parallel r tallied .plain True Parser.skipGreater Parser.skipGreater c d := by
  refine ifSkip hs (fun c d hs => .pure hs rfl (by simp)) fun _ => ?_
  refine glance (a := c) (b := d) rfl rfl ?_
  obtain ⟨t, rest, hc⟩ := List.exists_cons_of_ne_nil hs.ends.ne_nil
  have hrest := hs.rest
  rw [hc, List.forall₂_cons_left_iff] at hrest
  obtain ⟨u, rest', htu, -, hd⟩ := hrest
  simp only [hc, hd, htu.kind_eq]
  cases hk : Parser.remainder? t.kind with
  | none => exact .pure hs rfl (by simp)
  | some kind =>
    refine ⟨split hs hc hd hk, rfl, ⟨⟨[], rfl, ?_⟩, List.suffix_rfl, Nat.le_refl _⟩, fun _ => ?_⟩
    · rw [hc]
      exact .cons (.single ⟨kind, hk, rfl⟩) (forall₂_trims_refl rest)
    · change c.Quiet ∧ True ↔ c.Quiet ∧ True ∧ c.raised = c.raised
      simp

end Ahead

section Repeating

variable {step step' : α → Parser (Option α)}

/-- Bounds that are reached play no part in the comparison. -/
theorem misstep (hs : Similar r c d) :
    Parallel r tallied .plain True Parser.misstep Parser.misstep c d :=
  ⟨⟨hs.consumed, hs.rest, hs.missing, hs.ends, hs.open_consumed⟩, rfl,
    ⟨⟨[], rfl, forall₂_trims_refl c.rest⟩, List.suffix_rfl, Nat.le_refl _⟩, fun _ => by
      change c.Quiet ∧ True ↔ c.Quiet ∧ True ∧ c.raised = c.raised
      simp⟩

/-- Steps that run side by side, each from a value that is already read. -/
theorem iterate (hstep : ∀ a a', A.alike a a' → ∀ c d, Similar r c d →
      Parallel r tallied (A.orElse a) (A.clean a) (step a) (step' a') c d) (bound : Nat) {a a' : α}
    (ha : A.alike a a') (hs : Similar r c d) :
    Parallel r tallied A (A.clean a) (Parser.iterate step bound a)
      (Parser.iterate step' bound a') c d := by
  induction bound generalizing a a' c d with
  | zero => exact (misstep hs).bind fun _ _ _ c d hs => .pure hs ha (by simp)
  | succ bound ih =>
    refine (hstep a a' ha c d hs).bind_from (R := True) (by simp) fun o o' ho c d hs => ?_
    cases ho with
    | none => exact .pure hs ha (by simp)
    | some hb => exact (ih hb hs).of_iff (by simp)

/-- A loop over steps that run side by side. -/
theorem loop (hstep : ∀ a a', A.alike a a' → ∀ c d, Similar r c d →
      Parallel r tallied (A.orElse a) (A.clean a) (step a) (step' a') c d) {a a' : α}
    (ha : A.alike a a') (hs : Similar r c d) :
    Parallel r tallied A (A.clean a) (Parser.loop step a) (Parser.loop step' a') c d := by
  refine glance (a := c) (b := d) rfl rfl ?_
  rw [hs.rest_length_eq]
  exact iterate hstep (1 + c.rest.length) ha hs

variable {test : Parser Bool} {item : Parser Node}

/-- Items while a test succeeds. The item may rely on what the test found. -/
theorem manyUpTo (htest : ∀ c d, Similar r c d → Parallel r tallied .plain True test test c d)
    (hitem : ∀ c₀ c d, test.run c₀ = (true, c) → Similar r c d →
      Parallel r tallied (.node r) True item item c d) (bound : Nat) (hs : Similar r c d) :
    Parallel r tallied (.nodes r) True (Parser.manyUpTo test item bound)
      (Parser.manyUpTo test item bound) c d := by
  induction bound generalizing c d with
  | zero => exact (misstep hs).bind fun _ _ _ c d hs => .pure hs .nil (by simp)
  | succ bound ih =>
    refine (htest c d hs).bind_run (R := True) (fun b b' c₁ d₁ hrun hb hs₁ => ?_) (by simp)
    cases hb
    refine ite (fun hyes => ?_) fun _ => ?_
    · subst hyes
      refine (hitem c c₁ d₁ hrun hs₁).bind fun n n' hn c d hs => ?_
      refine (ih hs).bind fun l l' hl c d hs => ?_
      exact .pure hs (.cons hn hl) (by simp)
    · exact .pure hs₁ .nil (by simp)

/-- Similar cursors repeat alike when their items are read alike. -/
theorem many (htest : ∀ c d, Similar r c d → Parallel r tallied .plain True test test c d)
    (hitem : ∀ c₀ c d, test.run c₀ = (true, c) → Similar r c d →
      Parallel r tallied (.node r) True item item c d) (hs : Similar r c d) :
    Parallel r tallied (.nodes r) True (Parser.many test item) (Parser.many test item) c d := by
  refine glance (a := c) (b := d) rfl rfl ?_
  rw [hs.rest_length_eq]
  exact manyUpTo htest hitem (1 + c.rest.length) hs

/-- Items up to a closing token. The item may rely on the end of file not being next. -/
theorem manyBefore {closing : TokenKind}
    (hitem : ∀ c d, Similar r c d → Parallel r tallied (.node r) True item item c d)
    (hs : Similar r c d) :
    Parallel r tallied (.nodes r) True (Parser.manyBefore closing item)
      (Parser.manyBefore closing item) c d :=
  many (fun _ _ hs => before _ hs) (fun _ c d _ hs => hitem c d hs) hs

/-- Items separated by commas. -/
theorem commaList (hitem : ∀ c d, Similar r c d → Parallel r tallied (.node r) True item item c d)
    (hs : Similar r c d) :
    Parallel r tallied (.nodes r) True (Parser.commaList item) (Parser.commaList item) c d := by
  refine (hitem c d hs).bind fun n n' hn c d hs => ?_
  refine (many (fun _ _ hs => skip hs) (fun _ c d _ hs => hitem c d hs) hs).bind
    fun l l' hl c d hs => ?_
  exact .pure hs (.cons hn hl) (by simp)

/-- Items separated by commas up to a closing token, a bounded number of them. -/
theorem commaListUpTo {closing : TokenKind}
    (hitem : ∀ c d, Similar r c d → Parallel r tallied (.node r) True item item c d) (bound : Nat)
    (hs : Similar r c d) :
    Parallel r tallied (.nodes r) True (Parser.commaListUpTo closing item bound)
      (Parser.commaListUpTo closing item bound) c d := by
  induction bound generalizing c d with
  | zero => exact (misstep hs).bind fun _ _ _ c d hs => .pure hs .nil (by simp)
  | succ bound ih =>
    refine (before [closing] hs).bind fun b b' hb c d hs => ?_
    cases hb
    refine ite (fun _ => ?_) fun _ => .pure hs .nil (by simp)
    refine (hitem c d hs).bind fun n n' hn c d hs => ?_
    refine ifSkip hs (fun c d hs => ?_) fun _ => ?_
    · refine (ih hs).bind fun l l' hl c d hs => ?_
      exact .pure hs (.cons hn hl) (by simp)
    · exact .pure hs (.cons hn .nil) (by simp)

/-- Similar cursors read lists alike when their items are. -/
theorem commaListBefore {closing : TokenKind}
    (hitem : ∀ c d, Similar r c d → Parallel r tallied (.node r) True item item c d)
    (hs : Similar r c d) :
    Parallel r tallied (.nodes r) True (Parser.commaListBefore closing item)
      (Parser.commaListBefore closing item) c d := by
  refine glance (a := c) (b := d) rfl rfl ?_
  rw [hs.rest_length_eq]
  exact commaListUpTo hitem (1 + c.rest.length) hs

/-- An item if a test succeeds. The item may rely on what the test found. -/
theorem optional (htest : Parallel r tallied .plain True test test c d)
    (hitem : ∀ c' d', test.run c = (true, c') → Similar r c' d' →
      Parallel r tallied (.node r) True item item c' d') :
    Parallel r tallied (.nodes r) True (Parser.optional test item) (Parser.optional test item)
      c d := by
  refine htest.bind_run (R := True) (fun b b' c₁ d₁ hrun hb hs => ?_) (by simp)
  cases hb
  refine ite (fun hyes => ?_) fun _ => .pure hs .nil (by simp)
  subst hyes
  refine (hitem c₁ d₁ hrun hs).bind fun n n' hn c d hs => ?_
  exact .pure hs (.cons hn .nil) (by simp)

end Repeating

end Parallel

end JavaObjC
