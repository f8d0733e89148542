import JavaObjC.Proofs.TypePhrases.Derivations

/-!
# What is accepted as a type

Where no annotation is ahead, a run that meets no problem shows what the tokens
were. A judgement about parsers relates the tokens ahead of such a run, its
value, and the tokens it leaves; it holds of a sequence of parsers if it holds
of each of them. By induction on the depth to which phrases may be nested, what
the grammar accepts as a type is a derived phrase, followed by what is left of
the marks that close its lists.
-/

namespace JavaObjC

open Cursor Grammar JavaObjC.Parser Node

/-- Tokens without annotations among them. -/
def Unannotated (ts : List Token) : Prop := ∀ t ∈ ts, t.kind ≠ Symbol.atSign

/-- A relation between the tokens ahead of a parser, its value and the tokens it leaves, which
holds where no annotation is ahead and no problem is met. -/
def Accepts {α : Type} (p : Parser α) (R : List Token → α → List Token → Prop) : Prop :=
  ∀ c : Cursor, Unannotated c.rest → c.raised ≤ (p.run c).2.raised ∧
    Unannotated (p.run c).2.rest ∧
      ((p.run c).2.raised = c.raised → R c.rest (p.run c).1 (p.run c).2.rest)

/-- The next token; past the last one stands an empty end of file. -/
def frontToken (ts : List Token) : Token := (ts[0]?).getD ⟨.eof, {}, []⟩

namespace Unannotated

variable {ts us vs : List Token}

/-- Fewer tokens have no annotation either. -/
theorem of_subset (h : Unannotated ts) (hsub : ∀ t ∈ us, t ∈ ts) : Unannotated us :=
  fun t ht => h t (hsub t ht)

/-- Behind a token there is still no annotation. -/
theorem step {c : Cursor} (h : Unannotated c.rest) : Unannotated c.step.rest := by
  refine h.of_subset fun t ht => ?_
  rw [Cursor.step] at ht
  split at ht
  · exact ht
  · rename_i u rest hrest
    rw [hrest]
    exact List.mem_cons_of_mem u ht

end Unannotated

namespace Accepts

variable {α β : Type} {p : Parser α} {f : α → Parser β}
  {R : List Token → α → List Token → Prop} {S : List Token → β → List Token → Prop}

/-- A weaker statement about what was read. -/
theorem imp {R' : List Token → α → List Token → Prop} (h : Accepts p R)
    (himp : ∀ ts a us, R ts a us → R' ts a us) : Accepts p R' := by
  intro c hc
  obtain ⟨hle, hrest, hrel⟩ := h c hc
  exact ⟨hle, hrest, fun heq => himp _ _ _ (hrel heq)⟩

/-- What is known of the first parser is at hand where the second one is accounted for. -/
theorem bind (hp : Accepts p R)
    (hf : ∀ a, Accepts (f a) fun us b vs => ∀ ts, R ts a us → S ts b vs) :
    Accepts (p >>= f) S := by
  intro c hc
  obtain ⟨hle, hrest, hrel⟩ := hp c hc
  obtain ⟨hle', hrest', hrel'⟩ := hf (p.run c).1 (p.run c).2 hrest
  have hrun : (p >>= f).run c = (f (p.run c).1).run (p.run c).2 := rfl
  rw [hrun]
  refine ⟨Nat.le_trans hle hle', hrest', fun heq => ?_⟩
  exact hrel' (by omega) _ (hrel (by omega))

/-- A parser that reads nothing accepts nothing. -/
theorem pure (a : α) : Accepts (Pure.pure a) fun ts b us => b = a ∧ us = ts :=
  fun _ hc => ⟨Nat.le_refl _, hc, fun _ => ⟨rfl, rfl⟩⟩

/-- A parser that looks at the tokens ahead. -/
theorem glance {g : List Token → α} (hp : ∀ c : Cursor, p.run c = (g c.rest, c))
    (hf : ∀ a, Accepts (f a) fun ts b us => a = g ts → S ts b us) : Accepts (p >>= f) S := by
  intro c hc
  rw [bind_of_run (hp c)]
  obtain ⟨hle, hrest, hrel⟩ := hf (g c.rest) c hc
  exact ⟨hle, hrest, fun heq => hrel heq rfl⟩

/-- Where a node begins does not matter to what is accepted. -/
theorem here {f : Position → Parser β} (hf : ∀ start, Accepts (f start) S) :
    Accepts (Parser.here >>= f) S :=
  glance (g := fun ts => (frontToken ts).span.start) (fun _ => rfl) fun start =>
    (hf start).imp fun _ _ _ h _ => h

/-- A choice accepts what both of its parsers do. -/
theorem ite {b : Prop} [Decidable b] {p q : Parser α} (hp : b → Accepts p R)
    (hq : ¬ b → Accepts q R) : Accepts (if b then p else q) R := by
  by_cases h : b
  · rw [if_pos h]
    exact hp h
  · rw [if_neg h]
    exact hq h

/-- The token in front is next, if it is not the end of the file. -/
theorem next_of_head {kind : TokenKind} [kind.Inner] {ts : List Token}
    (h : (frontToken ts).kind = kind) : Next (· = kind) ts := by
  cases ts with
  | nil => exact absurd h.symm TokenKind.Inner.ne_eof
  | cons t ts => exact h

/-- A case distinction by the kind of the next token. -/
theorem ifCheck {kind : TokenKind} [kind.Inner] {x y : Parser β}
    (hx : Accepts x fun ts b us => Next (· = kind) ts → S ts b us)
    (hy : Accepts y fun ts b us => ¬ Next (· = kind) ts → S ts b us) :
    Accepts (check kind >>= fun b => if b = true then x else y) S := by
  refine glance (g := fun ts => (frontToken ts).kind == kind) (fun _ => rfl)
    fun b => .ite (fun hb => ?_) fun hb => ?_
  · exact hx.imp fun ts a us h hhead => h (next_of_head (eq_of_beq (hhead ▸ hb)))
  · refine hy.imp fun ts a us h hhead => h fun hnext => hb ?_
    cases ts with
    | nil => exact hnext.elim
    | cons t ts => exact hhead.trans (beq_iff_eq.2 hnext)

/-- A case distinction by the kinds of the next two tokens. -/
theorem ifCheck2 {first second : TokenKind} [first.Inner] [second.Inner] {x y : Parser β}
    (hx : Accepts x fun ts b us => (∃ t u vs, ts = t :: u :: vs ∧ t.kind = first ∧
      u.kind = second) → S ts b us)
    (hy : Accepts y S) :
    Accepts (check2 first second >>= fun b => if b = true then x else y) S := by
  intro c hc
  cases hanswer : ((check2 first second).run c).1 with
  | true =>
    have hrun : (check2 first second).run c = (true, c) := Prod.ext hanswer rfl
    obtain ⟨t, u, vs, hrest, ht, hu, -⟩ := rest_of_check2 hrun
    obtain ⟨hle, hleft, hrel⟩ := hx c hc
    rw [bind_of_run hrun, if_pos rfl]
    exact ⟨hle, hleft, fun heq => hrel heq ⟨t, u, vs, hrest, ht, hu⟩⟩
  | false =>
    have hrun : (check2 first second).run c = (false, c) := Prod.ext hanswer rfl
    rw [bind_of_run hrun, if_neg Bool.false_ne_true]
    exact hy c hc

/-- A report of a problem is met by no relation. -/
theorem problem (message : String) (recovery expected : List TokenKind)
    {R : List Token → Node → List Token → Prop} :
    Accepts (Parser.problem message recovery expected) R := by
  intro c hc
  refine ⟨Nat.le_succ _, ?_, fun heq => absurd heq (Nat.succ_ne_self _)⟩
  obtain ⟨taken, -, hmoves⟩ := (recover_takes c recovery).moves
  refine hc.of_subset fun t ht => ?_
  rw [hmoves]
  exact List.mem_append_right taken ht

/-- A missing token is met by no relation. -/
theorem expected (kinds : List TokenKind) {R : List Token → Unit → List Token → Prop} :
    Accepts (Parser.expected kinds) R :=
  fun _ hc => ⟨Nat.le_succ _, hc, fun heq => absurd heq (Nat.succ_ne_self _)⟩

/-- Advancing accepts one token. -/
theorem advance : Accepts Parser.advance fun ts t us => ∀ u vs, ts = u :: vs → t = u ∧ us = vs := by
  intro c hc
  have hrun : Parser.advance.run c = (c.tokenAt 0, c.step) := rfl
  rw [hrun]
  refine ⟨(step_raised c).ge, hc.step, fun _ u vs hrest => ?_⟩
  exact ⟨tokenAt_zero_cons hrest, step_rest hrest⟩

/-- A leaf accepts one token. -/
theorem leaf (kind : NodeKind) : Accepts (Parser.leaf kind) fun ts n us =>
    ∀ u vs, ts = u :: vs → n = .ofToken kind u ∧ us = vs := by
  refine advance.bind fun t => (pure _).imp ?_
  rintro us n vs ⟨rfl, rfl⟩ ts h u rest hts
  obtain ⟨rfl, rfl⟩ := h u rest hts
  exact ⟨rfl, rfl⟩

/-- Skipping accepts a token of the kind or nothing. -/
theorem skip {kind : TokenKind} [kind.Inner] : Accepts (Parser.skip kind) fun ts b us =>
    (b = true → ∃ t, t.kind = kind ∧ ts = t :: us) ∧ (b = false → us = ts) := by
  intro c hc
  rw [skip_run]
  split
  · rename_i hk
    refine ⟨(step_raised c).ge, hc.step, fun _ => ⟨fun _ => ?_, fun h => by cases h⟩⟩
    obtain ⟨t, rest, hrest, ht⟩ := rest_of_tokenAt hk TokenKind.Inner.ne_eof
    exact ⟨t, ht, by rw [step_rest hrest, hrest]⟩
  · exact ⟨Nat.le_refl _, hc, fun _ => ⟨fun h => (Bool.false_ne_true h).elim, fun _ => rfl⟩⟩

/-- Without a problem a token that is needed was there. -/
theorem need {kind : TokenKind} [kind.Inner] : Accepts (Parser.need kind) fun ts _ us =>
    ∃ t, t.kind = kind ∧ ts = t :: us := by
  intro c hc
  by_cases hk : (c.tokenAt 0).kind = kind
  · obtain ⟨t, rest, hrest, ht⟩ := rest_of_tokenAt hk TokenKind.Inner.ne_eof
    rw [need_past hrest ht]
    refine ⟨Nat.le_refl _, hc.of_subset fun u hu => ?_, fun _ => ⟨t, ht, hrest⟩⟩
    rw [hrest]
    exact List.mem_cons_of_mem t hu
  · have haccept : (accept kind).run c = (none, c) := by
      have hno : (check kind).run c = (false, c) := by
        change ((c.tokenAt 0).kind == kind, c) = _
        rw [beq_eq_false_iff_ne.2 hk]
      rw [accept, bind_of_run hno]
      rfl
    have hrun : (Parser.need kind).run c = (Parser.expected [kind]).run c := by
      rw [Parser.need, expect]
      simp only [bind_assoc]
      rw [bind_of_run haccept]
      rfl
    obtain ⟨hle, hrest, hrel⟩ := expected [kind] (R := fun _ _ _ => False) c hc
    rw [hrun]
    exact ⟨hle, hrest, fun heq => (hrel heq).elim⟩

/-- Finishing a node accepts nothing more. -/
theorem finish (kind : NodeKind) (start : Position) (children : List Node) :
    Accepts (Parser.finish kind start children) fun ts n us =>
      n.erase = bare kind (children.map erase) ∧ us = ts := by
  refine fun c hc => ⟨Nat.le_refl _, hc, fun _ => ⟨?_, rfl⟩⟩
  change erase ⟨kind, _, none, none, children⟩ = _
  rw [erase, eraseAll_eq_map]
  rfl

/-- A test that only looks, and an item if it succeeds. -/
theorem optional {kind : TokenKind} [kind.Inner] {item : Parser Node}
    {R : List Token → Node → List Token → Prop} (hitem : Accepts item R) :
    Accepts (Parser.optional (check kind) item) fun ts nodes us =>
      (nodes = [] ∧ us = ts) ∨ ∃ n, nodes = [n] ∧ Next (· = kind) ts ∧ R ts n us := by
  refine ifCheck (hitem.bind fun n => (pure _).imp ?_) ((pure _).imp ?_)
  · rintro us nodes vs ⟨rfl, rfl⟩ ts h hnext
    exact .inr ⟨n, rfl, hnext, h⟩
  · rintro ts nodes us ⟨rfl, rfl⟩ -
    exact .inl ⟨rfl, rfl⟩

/-- No annotations are read where there are none. -/
theorem annotations (item : Parser Node) : Accepts (Parser.many (check Symbol.atSign) item)
    fun ts nodes us => nodes = [] ∧ us = ts := by
  intro c hc
  have hnone : (check Symbol.atSign).run c = (false, c) := by
    have hne : ((c.tokenAt 0).kind == .symbol .atSign) = false := by
      refine beq_eq_false_iff_ne.2 fun hk => ?_
      obtain ⟨t, rest, hrest, ht⟩ := rest_of_tokenAt hk (by decide)
      exact hc t (by rw [hrest]; exact List.mem_cons_self) ht
    change ((c.tokenAt 0).kind == .symbol .atSign, c) = _
    rw [hne]
  rw [many_none hnone]
  exact ⟨Nat.le_refl _, hc, fun _ => ⟨rfl, rfl⟩⟩

/-- A step that is repeated until it declines. The relation goes from what is ahead of the first
round to what is left after the last one. -/
theorem loop {step : α → Parser (Option α)} {T : α → List Token → α → List Token → Prop}
    (hstop : ∀ a ts, T a ts a ts)
    (hstep : ∀ a, Accepts (step a) fun ts o us => (o = none → us = ts) ∧
      ∀ b, o = some b → ∀ a' vs, T b us a' vs → T a ts a' vs)
    (a : α) : Accepts (Parser.loop step a) (T a) := by
  suffices h : ∀ n a, Accepts (Parser.iterate step n a) (T a) from fun c hc => h _ a c hc
  intro n
  induction n with
  | zero => exact fun a c hc => ⟨Nat.le_refl _, hc, fun _ => hstop a c.rest⟩
  | succ n ih =>
    intro a
    refine (hstep a).bind fun o => ?_
    cases o with
    | none =>
      refine (pure a).imp ?_
      rintro us b vs ⟨rfl, rfl⟩ ts h
      rw [← h.1 rfl]
      exact hstop b _
    | some b => exact (ih b).imp fun us a' vs h ts hround => hround.2 b rfl a' vs h

/-- Items behind separators. -/
inductive Separated (separator : TokenKind) (R : List Token → Node → List Token → Prop) :
    List Token → List Node → List Token → Prop where
  | nil (ts : List Token) : Separated separator R ts [] ts
  | cons {t : Token} {ts us vs : List Token} {n : Node} {nodes : List Node}
      (ht : t.kind = separator) (h : R ts n us) (hmore : Separated separator R us nodes vs) :
      Separated separator R (t :: ts) (n :: nodes) vs

/-- A repetition behind separators accepts separated items. -/
theorem manyUpTo {separator : TokenKind} [separator.Inner] {item : Parser Node}
    {R : List Token → Node → List Token → Prop}
    (hitem : Accepts item R) (bound : Nat) :
    Accepts (Parser.manyUpTo (Parser.skip separator) item bound) (Separated separator R) := by
  induction bound with
  | zero => exact fun c hc => ⟨Nat.le_refl _, hc, fun _ => .nil _⟩
  | succ bound ih =>
    refine skip.bind fun b => .ite (fun hb => ?_) fun hb => ?_
    · refine hitem.bind fun n => ih.bind fun nodes => (pure _).imp ?_
      rintro ts all us ⟨rfl, rfl⟩ ts' hmore ts'' h ts''' hskip
      obtain ⟨t, ht, rfl⟩ := hskip.1 hb
      exact .cons ht h hmore
    · refine (pure _).imp ?_
      rintro us nodes vs ⟨rfl, rfl⟩ ts h
      rw [h.2 (Bool.eq_false_iff.2 hb)]
      exact .nil _

/-- A list with commas accepts an item and others behind commas. -/
theorem commaList {item : Parser Node} {R : List Token → Node → List Token → Prop}
    (hitem : Accepts item R) : Accepts (Parser.commaList item) fun ts nodes us =>
      ∃ n more vs, nodes = n :: more ∧ R ts n vs ∧ Separated Symbol.comma R vs more us := by
  have hmany : Accepts (Parser.many (Parser.skip Symbol.comma) item)
      (Separated Symbol.comma R) := fun c hc => manyUpTo hitem _ c hc
  refine hitem.bind fun n => hmany.bind fun more => (pure _).imp ?_
  rintro us nodes vs ⟨rfl, rfl⟩ ts hmore ts' h
  exact ⟨n, more, ts, rfl, h, hmore⟩

end Accepts

/-- Marks that close a number of lists are taken away from the front of some tokens, the last
one perhaps only in part. -/
inductive Opened : Nat → List Token → List Token → Prop where
  | zero (ts : List Token) : Opened 0 ts ts
  | whole {n : Nat} {t : Token} {ts us : List Token} (ht : t.kind = Symbol.gt)
      (h : Opened n ts us) : Opened (n + 1) (t :: ts) us
  | front {n : Nat} {t : Token} {ts us : List Token} {kind : TokenKind}
      (ht : remainder? t.kind = some kind) (h : Opened n (shorten t kind :: ts) us) :
      Opened (n + 1) (t :: ts) us

/-- What can be left of a token whose first mark is taken away. -/
def remainders : List TokenKind :=
  [Symbol.gt, Symbol.shr, Symbol.assign, Symbol.ge, Symbol.shrAssign]

/-- What is left of a split token is a closing angle. -/
theorem mem_remainders {kind kind' : TokenKind} (h : remainder? kind = some kind') :
    kind' ∈ remainders := by
  unfold remainder? at h
  split at h
  all_goals cases h
  all_goals decide

/-- What is left of a token closes lists only if the token closes one more. -/
theorem closes_of_remainder {kind kind' : TokenKind} (h : remainder? kind = some kind')
    (hkind' : kind' ∈ closingAngles) :
    kind ∈ closingAngles ∧ closings kind = closings kind' + 1 := by
  unfold remainder? at h
  split at h
  all_goals cases h
  all_goals first
    | exact ⟨by decide, rfl⟩
    | exact absurd hkind' (by decide)

namespace Opened

variable {n : Nat} {ts us vs : List Token}

/-- Closing one list more opens one list less. -/
theorem one (h : Opened n ts us) (h' : Opened 1 us vs) : Opened (n + 1) ts vs := by
  induction h with
  | zero => exact h'
  | whole ht _ ih => exact .whole ht (ih h')
  | front ht _ ih => exact .front ht (ih h')

/-- Only whole tokens are taken away if what follows cannot be left of one. -/
theorem closes (h : Opened n ts us) (hus : Next (· ∉ remainders) us) :
    ∃ run, Closes n run ∧ ts = run ++ us := by
  induction h with
  | zero => exact ⟨[], .nil, rfl⟩
  | @whole n t ts us ht _ ih =>
    obtain ⟨run, hrun, rfl⟩ := ih hus
    have hcount : closings t.kind + n = n + 1 := by
      rw [ht]
      exact Nat.add_comm 1 n
    exact ⟨t :: run, hcount ▸ hrun.cons (by rw [ht]; decide), rfl⟩
  | @front n t ts us kind ht _ ih =>
    obtain ⟨run, hrun, heq⟩ := ih hus
    cases run with
    | nil =>
      rw [List.nil_append] at heq
      rw [← heq] at hus
      exact absurd (mem_remainders ht) hus
    | cons u run =>
      obtain ⟨rfl, rfl⟩ := List.cons_eq_cons.1 heq
      obtain ⟨m, hm, hrest⟩ := hrun.tail
      have hangle : kind ∈ closingAngles := hrun.angles (shorten t kind) List.mem_cons_self
      have hkinds := closes_of_remainder ht hangle
      have hcount : closings t.kind + m = n + 1 := by
        rw [hkinds.2]
        change n = closings kind + m at hm
        omega
      exact ⟨t :: run, hcount ▸ hrest.cons hkinds.1, rfl⟩

end Opened

/-- Splitting closing angles brings no annotation. -/
theorem Unannotated.opened {n : Nat} {ts us : List Token} (h : Opened n ts us)
    (hts : Unannotated ts) : Unannotated us := by
  induction h with
  | zero => exact hts
  | whole _ _ ih => exact ih fun t ht => hts t (List.mem_cons_of_mem _ ht)
  | front ht _ ih =>
    refine ih (List.forall_mem_cons.2 ⟨fun hk => ?_, (List.forall_mem_cons.1 hts).2⟩)
    exact absurd (mem_remainders ht) (by
      change _ = TokenKind.symbol .atSign at hk
      dsimp only [shorten] at hk
      rw [hk]
      decide)

section Angles

/-- A closing angle is skipped, or nothing is. -/
theorem skipGreater_accepts : Accepts skipGreater fun ts b us =>
    (b = true → Opened 1 ts us) ∧ (b = false → us = ts) := by
  refine Accepts.skip.bind fun b => .ite (fun hb => ?_) fun hb => ?_
  · refine (Accepts.pure true).imp ?_
    rintro us b vs ⟨rfl, rfl⟩ ts h
    obtain ⟨t, ht, rfl⟩ := h.1 hb
    exact ⟨fun _ => .whole ht (.zero _), nofun⟩
  · intro c hc
    rw [bind_of_run (rfl : (get : Parser Cursor).run c = (c, c))]
    cases hrest : c.rest with
    | nil =>
      refine ⟨Nat.le_refl _, hc, fun _ ts h => ⟨nofun, fun _ => ?_⟩⟩
      exact hrest.trans (h.2 (Bool.eq_false_iff.2 hb))
    | cons t rest =>
      dsimp only
      cases hkind : remainder? t.kind with
      | none =>
        refine ⟨Nat.le_refl _, hc, fun _ ts h => ⟨nofun, fun _ => ?_⟩⟩
        exact hrest.trans (h.2 (Bool.eq_false_iff.2 hb))
      | some kind =>
        have hopened : Opened 1 (t :: rest) (shorten t kind :: rest) := .front hkind (.zero _)
        refine ⟨Nat.le_refl _, .opened hopened (hrest ▸ hc), fun _ ts h => ⟨fun _ => ?_, ?_⟩⟩
        · rw [← h.2 (Bool.eq_false_iff.2 hb)]
          exact hopened
        · exact nofun

/-- Without a problem one list was closed. -/
theorem closeAngle_accepts : Accepts closeAngle fun ts _ us => Opened 1 ts us := by
  refine skipGreater_accepts.bind fun b => .ite (fun hb => ?_) fun _ => .expected _
  refine (Accepts.pure ()).imp ?_
  rintro us _ vs ⟨-, rfl⟩ ts h
  exact h.1 hb

end Angles

/-- A part of a phrase that some tokens begin with, and what is left of them when the marks that
close its lists are taken away. -/
def Derived (part : TypePart) (ts : List Token) (nodes : List Node) (us : List Token) : Prop :=
  ∃ k vs ws, TypePhrase part k vs (nodes.map erase) ∧ ts = vs ++ ws ∧ Opened k ws us

section Names

/-- Tokens with which a qualified name does not go on. -/
def NameEnds (ts : List Token) : Prop :=
  ∀ t u vs, ts = t :: u :: vs → t.kind = Symbol.dot → u.kind ≠ .identifier

/-- A name is read as far as it goes. -/
theorem nameParts_found {bound : Nat} {c : Cursor} (hbound : c.rest.length < bound) :
    ∃ (more : List (Token.Among [Symbol.dot] × Token.Among [.identifier])) (rest : List Token),
      c.rest = (more.flatMap fun part => [part.1.1, part.2.1]) ++ rest ∧ NameEnds rest ∧
        Lands c (· = rest) (Likes (more.map fun part => .word part.2.1))
          (manyUpTo (check2 Symbol.dot .identifier) (advance >>= fun _ => leaf .identifier)
            bound) := by
  induction bound generalizing c with
  | zero => exact absurd hbound (Nat.not_lt_zero _)
  | succ bound ih =>
    cases hanswer : ((check2 Symbol.dot .identifier).run c).1 with
    | true =>
      have hrun : (check2 Symbol.dot .identifier).run c = (true, c) := Prod.ext hanswer rfl
      obtain ⟨t, u, rest, hrest, ht, hu, -⟩ := rest_of_check2 hrun
      have hshorter : (c.past [t, u] rest).rest.length < bound := by
        rw [hrest] at hbound
        simp only [List.length_cons] at hbound
        rw [past_rest]
        omega
      obtain ⟨more, after, hmore, hends, hland⟩ := ih hshorter
      rw [past_rest] at hmore
      have hleaf : (advance >>= fun _ => leaf .identifier).run c =
          (.ofToken .identifier u, c.past [t, u] rest) := by
        rw [bind_of_run (advance_past hrest (by rw [ht]; decide)),
          leaf_past rfl (by rw [hu]; decide), past_past]
        rfl
      refine ⟨(⟨t, List.mem_singleton.2 ht⟩, ⟨u, List.mem_singleton.2 hu⟩) :: more, after, ?_,
        hends, ?_⟩
      · rw [hrest, hmore]
        rfl
      · have hround : (manyUpTo (check2 Symbol.dot .identifier)
            (advance >>= fun _ => leaf .identifier) (bound + 1)).run c =
            (manyUpTo (check2 Symbol.dot .identifier) (advance >>= fun _ => leaf .identifier)
              bound >>= fun more => Pure.pure (Node.ofToken .identifier u :: more)).run
                (c.past [t, u] rest) := by
          rw [manyUpTo, bind_of_run hrun, if_pos rfl, bind_of_run hleaf]
        refine .of_run hround (.past c _ _) (hland.bind fun nodes d hd hnodes => ?_)
        exact .pure (.cons rfl hnodes) hd
    | false =>
      have hrun : (check2 Symbol.dot .identifier).run c = (false, c) := Prod.ext hanswer rfl
      refine ⟨[], c.rest, rfl, ?_, .manyUpTo_nil hrun rfl⟩
      rintro t u vs hrest ht hu
      rw [check2_yes hrest ht hu] at hanswer
      cases hanswer

/-- A qualified name is accepted as far as its dots lead to identifiers. -/
theorem qualifiedName_accepts : Accepts qualifiedName fun ts n us => Next (· = .identifier) ts →
    ∃ name : WrittenName, n.erase = name.tree ∧ ts = name.tokens ++ us ∧ NameEnds us := by
  intro c hc
  by_cases hname : (c.tokenAt 0).kind.isName = true
  · obtain ⟨t, rest, hrest, ht⟩ := rest_of_tokenAt (c := c) rfl (by
      intro heof
      rw [heof] at hname
      cases hname)
    have hcheck : checkName.run c = (true, c) := by
      change ((c.tokenAt 0).kind.isName, c) = _
      rw [hname]
    have heof : t.kind ≠ .eof := by
      intro heof
      rw [tokenAt_zero_cons hrest, heof] at hname
      cases hname
    obtain ⟨more, after, hmore, hends, hland⟩ :=
      nameParts_found (c := c.past [t] rest) (Nat.lt_add_of_pos_left Nat.one_pos)
    rw [past_rest] at hmore
    have hwhole : Lands c (· = after) (Like (bare .qualifiedName
        (word t :: more.map fun part => word part.2.1))) qualifiedName := by
      refine .here fun start => .glance hcheck ?_
      rw [if_pos rfl]
      refine .step (leaf_past hrest heof) ((Lands.many hland).bind fun nodes d hd hnodes => ?_)
      exact .finish_at (.cons rfl hnodes) hd
    refine ⟨hwhole.keeps.raised.ge, ?_, fun _ hfront => ?_⟩
    · rw [hwhole.rest]
      refine hc.of_subset fun u hu => ?_
      rw [hrest, hmore]
      exact List.mem_cons_of_mem t (List.mem_append_right _ hu)
    · rw [hrest] at hfront ⊢
      rw [hwhole.rest]
      exact ⟨⟨⟨t, List.mem_singleton.2 hfront⟩, more⟩, hwhole.result, by rw [hmore]; rfl, hends⟩
  · have hcheck : checkName.run c = (false, c) := by
      change ((c.tokenAt 0).kind.isName, c) = _
      rw [Bool.eq_false_iff.2 hname]
    have hrun : qualifiedName.run c =
        (Parser.problem "expected identifier" [] [.identifier]).run c := by
      rw [qualifiedName, bind_of_run (rfl : here.run c = ((c.tokenAt 0).span.start, c)),
        bind_of_run hcheck, if_neg Bool.false_ne_true]
    have hproblem := Accepts.problem "expected identifier" [] [.identifier]
      (R := fun _ _ _ => False) c hc
    rw [hrun]
    exact ⟨hproblem.1, hproblem.2.1, fun heq => (hproblem.2.2 heq).elim⟩

/-- As many array types are made as there are pairs of brackets. -/
theorem arrayBrackets_accepts (element : Node) : Accepts (arrayBrackets element) fun ts n us =>
    ∃ brackets : List BracketPair, ts = bracketTokens brackets ++ us ∧
      n.erase = inBrackets brackets.length element.erase := by
  refine Accepts.loop (T := fun inner ts n us => ∃ brackets : List BracketPair,
    ts = bracketTokens brackets ++ us ∧ n.erase = inBrackets brackets.length inner.erase)
    (fun inner ts => ⟨[], rfl, rfl⟩) (fun inner => ?_) element
  refine .ifCheck2 ?_ ?_
  · refine Accepts.advance.bind fun _ => Accepts.advance.bind fun _ =>
      (Accepts.finish _ _ _).bind fun outer => (Accepts.pure _).imp ?_
    rintro us o vs ⟨rfl, rfl⟩ ts₁ ⟨hfinish, rfl⟩ ts₂ hsecond ts₃ hfirst ⟨t, u, rest, rfl, ht, hu⟩
    obtain ⟨-, rfl⟩ := hfirst t _ rfl
    obtain ⟨-, rfl⟩ := hsecond u _ rfl
    refine ⟨nofun, ?_⟩
    rintro b ⟨⟩ n after ⟨brackets, rfl, hn⟩
    refine ⟨⟨⟨t, List.mem_singleton.2 ht⟩, ⟨u, List.mem_singleton.2 hu⟩⟩ :: brackets, rfl, ?_⟩
    rw [hn, hfinish]
    rfl
  · refine (Accepts.pure _).imp ?_
    rintro us o vs ⟨rfl, rfl⟩
    exact ⟨fun _ => rfl, nofun⟩

end Names

section Productions

variable {rule : Rules}

/-- A wildcard has a bound or none. -/
theorem wildcard_accepts
    (hr : Accepts (rule .type) fun ts n us => Derived .type ts [n] us) :
    Accepts (wildcard rule) fun ts n us => Derived .argument ts [n] us := by
  refine .here fun start => Accepts.need.bind fun _ => ?_
  refine .glance (g := fun ts => boundWords.contains (frontToken ts).kind) (fun _ => rfl)
    fun b => .ite (fun hb => ?_) fun hb => ?_
  · refine (Accepts.leaf _).bind fun direction => hr.bind fun bound =>
      (Accepts.finish _ _ _).imp ?_
    rintro ts₁ n us ⟨hn, rfl⟩ ts₂ ⟨k, vs, ws, hphrase, rfl, hopened⟩ ts₃ hleaf hfront ts₄ hneed
    obtain ⟨question, hquestion, rfl⟩ := hneed
    have hmem : (frontToken ts₃).kind ∈ boundWords := List.contains_iff_mem.1 (hfront ▸ hb)
    cases ts₃ with
    | nil => exact absurd hmem (by decide)
    | cons t rest =>
      obtain ⟨rfl, rfl⟩ := hleaf t rest rfl
      refine ⟨k, question :: t :: vs, ws, ?_, rfl, hopened⟩
      have hnode : [n].map erase = [bare .wildcard [Node.word t, bound.erase]] :=
        congrArg (· :: []) hn
      rw [hnode]
      exact .bounded ⟨question, List.mem_singleton.2 hquestion⟩ ⟨t, hmem⟩ hphrase
  · refine (Accepts.finish _ _ _).imp ?_
    rintro ts₁ n us ⟨hn, rfl⟩ - ts₂ ⟨question, hquestion, rfl⟩
    refine ⟨0, [question], _, ?_, rfl, .zero _⟩
    have hnode : [n].map erase = [bare .wildcard []] := congrArg (· :: []) hn
    rw [hnode]
    exact .wildcard ⟨question, List.mem_singleton.2 hquestion⟩

/-- A type argument is a wildcard or a type. -/
theorem typeArgument_accepts
    (hr : Accepts (rule .type) fun ts n us => Derived .type ts [n] us) :
    Accepts (typeArgument rule) fun ts n us => Derived .argument ts [n] us := by
  refine .ifCheck ((wildcard_accepts hr).imp fun _ _ _ h _ => h) (hr.imp ?_)
  rintro ts n us ⟨k, vs, ws, hphrase, rfl, hopened⟩ -
  exact ⟨k, vs, ws, .type hphrase, rfl, hopened⟩

/-- An argument and others behind commas are a list of arguments. -/
theorem Derived.list {ts us vs : List Token} {n : Node} {more : List Node}
    (h : Derived .argument ts [n] us)
    (hmore : Accepts.Separated Symbol.comma (fun ts n us => Derived .argument ts [n] us) us more
      vs) : Derived .list ts (n :: more) vs := by
  induction hmore generalizing ts n with
  | nil =>
    obtain ⟨k, vs, ws, hphrase, rfl, hopened⟩ := h
    exact ⟨k, vs, ws, .last hphrase, rfl, hopened⟩
  | @cons t us _ _ _ _ ht hnext _ ih =>
    obtain ⟨k, vs, ws, hphrase, rfl, hopened⟩ := h
    obtain ⟨m, vs', ws', hlist, rfl, hopened'⟩ := ih hnext
    have hcomma : Next (· ∉ remainders) (t :: (vs' ++ ws')) := by
      change t.kind ∉ _
      rw [ht]
      decide
    obtain ⟨run, hrun, rfl⟩ := hopened.closes hcomma
    refine ⟨m, vs ++ (run ++ t :: vs'), ws', ?_, by simp, hopened'⟩
    exact .more hphrase hrun ⟨t, List.mem_singleton.2 ht⟩ hlist

/-- Type arguments that some tokens begin with, and what is left of them. -/
def DerivedArguments (ts : List Token) (n : Node) (us : List Token) : Prop :=
  ∃ k vs ws given, TypePhrase .arguments k vs given ∧ n.erase = bare .typeArguments given ∧
    ts = vs ++ ws ∧ Opened k ws us

/-- Type arguments are a diamond or a list in angles. -/
theorem typeArguments_accepts
    (hr : Accepts (rule .type) fun ts n us => Derived .type ts [n] us) :
    Accepts (typeArguments rule) DerivedArguments := by
  refine .here fun start => Accepts.need.bind fun _ =>
    skipGreater_accepts.bind fun b => .ite (fun hb => ?_) fun hb => ?_
  · refine (Accepts.finish _ _ _).imp ?_
    rintro ts₁ n us ⟨hn, rfl⟩ ts₂ hgreater ts₃ ⟨opening, hopening, rfl⟩
    exact ⟨1, [opening], ts₂, [], .diamond ⟨opening, List.mem_singleton.2 hopening⟩, hn, rfl,
      hgreater.1 hb⟩
  · refine (typeArgument_accepts hr).commaList.bind fun items => closeAngle_accepts.bind fun _ =>
      (Accepts.finish _ _ _).imp ?_
    rintro ts₁ n us ⟨hn, rfl⟩ ts₂ hclose ts₃ ⟨first, more, ts, rfl, hfirst, hmore⟩ ts₄ hgreater
      ts₅ ⟨opening, hopening, rfl⟩
    obtain ⟨k, vs, ws, hlist, rfl, hopened⟩ := hfirst.list hmore
    obtain rfl := hgreater.2 (Bool.eq_false_iff.2 hb)
    exact ⟨k + 1, opening :: vs, ws, _, .listed ⟨opening, List.mem_singleton.2 hopening⟩ hlist, hn,
      rfl, hopened.one hclose⟩

/-- One name of a class type, with type arguments or without them. -/
def DerivedPart (ts : List Token) (nodes : List Node) (us : List Token) : Prop :=
  ∃ name : WrittenName,
    (nodes.map erase = [name.tree] ∧ ts = name.tokens ++ us ∧ NameEnds us) ∨
      ∃ k vs ws given, TypePhrase .arguments k vs given ∧
        nodes.map erase = [name.tree, bare .typeArguments given] ∧
          ts = name.tokens ++ (vs ++ ws) ∧ Opened k ws us

/-- Further names behind a dot, if there are any. -/
def DerivedRest (ts : List Token) (nodes : List Node) (us : List Token) : Prop :=
  (nodes = [] ∧ us = ts) ∨ ∃ (dot : Token) (ts' : List Token), dot.kind = Symbol.dot ∧
    ts = dot :: ts' ∧ Next (· = .identifier) ts' ∧ Derived .names ts' nodes us

/-- A part of a class type is a name, perhaps with arguments. -/
theorem classPart_accepts
    (hr : Accepts (rule .type) fun ts n us => Derived .type ts [n] us) :
    Accepts (classPart rule) fun ts nodes us =>
      Next (· = .identifier) ts → DerivedPart ts nodes us := by
  refine qualifiedName_accepts.bind fun name =>
    (Accepts.optional (typeArguments_accepts hr)).bind fun given =>
      (Accepts.pure _).imp ?_
  rintro us nodes vs ⟨rfl, rfl⟩ ts₁ hgiven ts₂ hname hfront
  obtain ⟨written, htree, rfl, hends⟩ := hname hfront
  refine ⟨written, ?_⟩
  rcases hgiven with ⟨rfl, rfl⟩ | ⟨n, rfl, -, k, vs, ws, given, hphrase, hn, rfl, hopened⟩
  · exact .inl ⟨congrArg (· :: []) htree, rfl, hends⟩
  · refine .inr ⟨k, vs, ws, given, hphrase, ?_, rfl, hopened⟩
    rw [List.map_cons, List.map_singleton, htree, hn]

/-- A name and what follows it make names. -/
theorem DerivedPart.join {ts us vs : List Token} {nodes more : List Node}
    (h : DerivedPart ts nodes us) (hmore : DerivedRest us more vs) :
    Derived .names ts (nodes ++ more) vs := by
  obtain ⟨name, ⟨hnodes, rfl, hends⟩ | ⟨k, vs, ws, given, hphrase, hnodes, rfl, hopened⟩⟩ := h
  · rcases hmore with ⟨rfl, rfl⟩ | ⟨dot, ts', hdot, rfl, hnext, -⟩
    · refine ⟨0, name.tokens, _, ?_, rfl, .zero _⟩
      rw [List.append_nil, hnodes]
      exact .name name
    · -- A name is followed by no further part of a name.
      cases ts' with
      | nil => exact hnext.elim
      | cons u rest => exact absurd hnext (hends dot u rest rfl hdot)
  · rcases hmore with ⟨rfl, rfl⟩ | ⟨dot, ts', hdot, rfl, -, m, vs', ws', hnames, rfl, hopened'⟩
    · refine ⟨k, name.tokens ++ vs, ws, ?_, by simp, hopened⟩
      rw [List.append_nil, hnodes]
      exact .given name hphrase
    · have hnext : Next (· ∉ remainders) (dot :: (vs' ++ ws')) := by
        change dot.kind ∉ _
        rw [hdot]
        decide
      obtain ⟨run, hrun, rfl⟩ := hopened.closes hnext
      refine ⟨m, name.tokens ++ (vs ++ (run ++ dot :: vs')), ws', ?_, by simp, hopened'⟩
      rw [List.map_append, hnodes]
      exact .inner name hphrase hrun ⟨dot, List.mem_singleton.2 hdot⟩ hnames

/-- Inner classes are accepted one after another behind their dots. -/
theorem innerParts_accept
    (hr : Accepts (rule .type) fun ts n us => Derived .type ts [n] us) (parts : List Node) :
    Accepts (loop (innerPart rule) parts) fun ts all us =>
      ∃ more, all = parts ++ more ∧ DerivedRest ts more us := by
  refine Accepts.loop (T := fun parts ts all us => ∃ more, all = parts ++ more ∧
    DerivedRest ts more us) (fun parts ts => ⟨[], (List.append_nil _).symm, .inl ⟨rfl, rfl⟩⟩)
    (fun parts => ?_) parts
  refine .ifCheck2 ?_ ?_
  · refine Accepts.advance.bind fun _ => (classPart_accepts hr).bind fun found =>
      (Accepts.pure _).imp ?_
    rintro us o vs ⟨rfl, rfl⟩ ts₁ hfound ts₂ hadvance ⟨dot, u, rest, rfl, hdot, hu⟩
    obtain ⟨-, rfl⟩ := hadvance dot _ rfl
    refine ⟨nofun, ?_⟩
    rintro b ⟨⟩ all after ⟨more, rfl, hmore⟩
    exact ⟨found ++ more, List.append_assoc _ _ _,
      .inr ⟨dot, u :: rest, hdot, rfl, hu, (hfound hu).join hmore⟩⟩
  · refine (Accepts.pure _).imp ?_
    rintro us o vs ⟨rfl, rfl⟩
    exact ⟨fun _ => rfl, nofun⟩

/-- What is made of an element by the brackets after it is derived. -/
theorem Derived.brackets {ts us vs : List Token} {parts : List Node} {node n : Node}
    {brackets : List BracketPair} (h : Derived .names ts parts us)
    (hnode : node.erase = bare .type (parts.map erase))
    (hus : us = bracketTokens brackets ++ vs)
    (hn : n.erase = inBrackets brackets.length node.erase) : Derived .type ts [n] vs := by
  obtain ⟨k, us', ws, hphrase, rfl, hopened⟩ := h
  have htree : [n].map erase = [inBrackets brackets.length (bare .type (parts.map erase))] := by
    rw [List.map_singleton, hn, hnode]
  subst hus
  cases brackets with
  | nil => exact ⟨k, us', ws, htree ▸ .named hphrase, rfl, hopened⟩
  | cons first brackets =>
    have hnext : Next (· ∉ remainders) (bracketTokens (first :: brackets) ++ vs) := by
      change first.opening.1.kind ∉ _
      rw [first.opening.kind_eq]
      decide
    obtain ⟨run, hrun, rfl⟩ := hopened.closes hnext
    refine ⟨0, us' ++ (run ++ bracketTokens (first :: brackets)), vs, ?_, by simp, .zero _⟩
    rw [htree]
    exact .array hphrase hrun first brackets

/-- The words that are types by themselves. -/
theorem mem_wordTypes {kind : TokenKind}
    (h : (kind.isPrimitive || kind == .keyword .voidKw) = true) : kind ∈ wordTypes := by
  rcases Bool.or_eq_true_iff.1 h with hprimitive | hvoid
  · unfold TokenKind.isPrimitive at hprimitive
    split at hprimitive
    · unfold Keyword.isPrimitive at hprimitive
      split at hprimitive
      all_goals first
        | decide
        | exact absurd hprimitive Bool.false_ne_true
    · exact absurd hprimitive Bool.false_ne_true
  · rw [eq_of_beq hvoid]
    decide

/-- A type that is accepted without a problem is derived by the grammar of types. -/
theorem type_accepts
    (hr : Accepts (rule .type) fun ts n us => Derived .type ts [n] us) :
    Accepts (Grammar.type rule) fun ts n us => Derived .type ts [n] us := by
  refine .here fun start => (Accepts.annotations _).bind fun marks => ?_
  refine .glance (g := fun ts => (frontToken ts).kind) (fun _ => rfl) fun kind =>
    .ite (fun hword => ?_) fun _ => .ite (fun hname => ?_) fun _ => .problem _ _ _
  · refine (Accepts.leaf _).bind fun word => (Accepts.finish _ _ _).bind fun node =>
      (arrayBrackets_accepts node).imp ?_
    rintro ts₁ n us ⟨brackets, rfl, hn⟩ ts₂ ⟨hnode, rfl⟩ ts₃ hleaf hkind ts₄ ⟨rfl, rfl⟩
    have hmem := mem_wordTypes (hkind ▸ hword)
    cases ts₃ with
    | nil => exact absurd hmem (by decide)
    | cons t rest =>
      obtain ⟨rfl, rfl⟩ := hleaf t rest rfl
      refine ⟨0, t :: bracketTokens brackets, us, ?_, rfl, .zero _⟩
      rw [List.map_singleton, hn, hnode]
      exact .word ⟨t, hmem⟩ brackets
  · have hnames : Accepts (classPart rule >>= fun found => loop (innerPart rule) found)
        fun ts parts us => Next (· = .identifier) ts → Derived .names ts parts us := by
      refine (classPart_accepts hr).bind fun found => (innerParts_accept hr found).imp ?_
      rintro us parts vs ⟨more, rfl, hmore⟩ ts hfound hfront
      exact (hfound hfront).join hmore
    have hrest : Accepts ((classPart rule >>= fun found => loop (innerPart rule) found) >>=
        fun parts => finish .type start (marks ++ parts) >>= arrayBrackets)
        fun ts n us => kind = (frontToken ts).kind → ∀ ts', marks = [] ∧ ts = ts' →
          Derived .type ts' [n] us := by
      refine hnames.bind fun parts => (Accepts.finish _ _ _).bind fun node =>
        (arrayBrackets_accepts node).imp ?_
      rintro ts₁ n us ⟨brackets, rfl, hn⟩ ts₂ ⟨hnode, rfl⟩ ts₃ hparts hkind ts₄ ⟨rfl, rfl⟩
      have hfront : Next (· = .identifier) ts₃ :=
        Accepts.next_of_head (hkind ▸ eq_of_beq hname)
      exact (hparts hfront).brackets hnode rfl hn
    simpa only [classPart, innerPart_eq, bind_assoc, pure_bind] using hrest

/-- What is accepted as a type, however deep phrases may be nested, is derived. -/
theorem parse_type_accepts (fuel : Nat) :
    Accepts (parse fuel .type) fun ts n us => Derived .type ts [n] us := by
  induction fuel with
  | zero => exact .problem _ _ _
  | succ fuel ih => exact type_accepts ih

end Productions

end JavaObjC
