import JavaObjC.Proofs.Progress.Regions
import JavaObjC.Proofs.Reading.Scanning

/-!
# Parsers that proceed

The judgement that says how a production makes its way through a source. It
compares a parser with another one that is built from other parsers for the
phrases inside, and says that both run the same from a given cursor, that the
run stays inside the region and never takes the end of file, and what holds of
its result. Loops end because each of their steps takes a token; a
bound on the tokens ahead says how deep phrases can still be nested.

Numbers of tokens ahead are compared throughout: inside a region the end of
file is next exactly if there are fewer than two.
-/

namespace JavaObjC

open Cursor Grammar

/-- Two parsers run the same from a cursor inside the region and lead to another one there. -/
structure Proceeds {α : Type} (R : Region) (c : Cursor) (Q : α → Cursor → Prop)
    (p q : Parser α) : Prop where
  same : q.run c = p.run c
  leads : c.Leads R (p.run c).2
  result : Q (p.run c).1 (p.run c).2

/-- A tree inside the region was read from where `n` tokens were ahead, and at least one of
them was taken unless the end of file was next. -/
def Took (R : Region) (n : Nat) (node : Node) (c : Cursor) : Prop :=
  node.Within R ∧ (2 ≤ n → c.rest.length < n)

/-- A tree inside the region. -/
def Placed (R : Region) (node : Node) (_ : Cursor) : Prop := node.Within R

/-- Trees inside the region. -/
def PlacedAll (R : Region) (nodes : List Node) (_ : Cursor) : Prop := Node.WithinAll R nodes

namespace Proceeds

variable {α β : Type} {R : Region} {c : Cursor} {Q : α → Cursor → Prop} {S : β → Cursor → Prop}

/-- A weaker statement about the result. -/
theorem imp {Q' : α → Cursor → Prop} {p q : Parser α} (h : Proceeds R c Q p q)
    (himp : ∀ a c', c'.rest.length ≤ c.rest.length → Q a c' → Q' a c') : Proceeds R c Q' p q :=
  ⟨h.same, h.leads, himp _ _ h.leads.reads.rest_length_le h.result⟩

/-- A node that took a token is placed in particular. -/
theorem placed {n : Nat} {p q : Parser Node} (h : Proceeds R c (Took R n) p q) :
    Proceeds R c (Placed R) p q := h.imp fun _ _ _ htook => htook.1

/-- What one parser proceeds to is where the next one starts, with no more tokens ahead. -/
theorem bind {p q : Parser α} {f g : α → Parser β} (hp : Proceeds R c Q p q)
    (hf : ∀ a c', c'.Within R → c'.rest.length ≤ c.rest.length → Q a c' →
      Proceeds R c' S (f a) (g a)) : Proceeds R c S (p >>= f) (q >>= g) := by
  have hrest := hf _ _ hp.leads.within hp.leads.reads.rest_length_le hp.result
  refine ⟨?_, hp.leads.trans hrest.leads, hrest.result⟩
  change (g (q.run c).1).run (q.run c).2 = (f (p.run c).1).run (p.run c).2
  rw [hp.same]
  exact hrest.same

/-- A parser that reads nothing proceeds to where it is. -/
theorem pure {a : α} (hc : c.Within R) (h : Q a c) : Proceeds R c Q (Pure.pure a) (Pure.pure a) :=
  ⟨rfl, .refl hc, h⟩

/-- Parsers that run from the cursor like ones that proceed. -/
theorem of_run {p q p' q' : Parser α} (h : Proceeds R c Q p' q') (hp : p.run c = p'.run c)
    (hq : q.run c = q'.run c) : Proceeds R c Q p q := by
  refine ⟨?_, ?_, ?_⟩
  · rw [hp, hq]
    exact h.same
  · rw [hp]
    exact h.leads
  · rw [hp]
    exact h.result

/-- A parser that only looks at the cursor. -/
theorem glance {p : Parser α} {f g : α → Parser β} {a : α} (hp : p.run c = (a, c))
    (h : Proceeds R c S (f a) (g a)) : Proceeds R c S (p >>= f) (p >>= g) := by
  have hrun : ∀ f : α → Parser β, (p >>= f).run c = (f a).run c := by
    intro f
    change (f (p.run c).1).run (p.run c).2 = _
    rw [hp]
  exact h.of_run (hrun f) (hrun g)

/-- A question that leaves the cursor alone, whatever its answer. -/
theorem ask {p : Parser Bool} {f g : Bool → Parser β} (hp : Stays p)
    (h : Proceeds R c S (f (p.run c).1) (g (p.run c).1)) : Proceeds R c S (p >>= f) (p >>= g) :=
  glance (a := (p.run c).1) (Prod.ext rfl (hp c)) h

/-- A choice proceeds both ways. -/
theorem ite {x x' y y' : Parser α} {b : Bool} (yes : b = true → Proceeds R c Q x x')
    (no : b = false → Proceeds R c Q y y') :
    Proceeds R c Q (if b = true then x else y) (if b = true then x' else y') := by
  cases b with
  | true => exact yes rfl
  | false => exact no rfl

section Looking

variable {x x' y y' : Parser β}

/-- A node begins at a place of the region. -/
theorem here_bind {f g : Position → Parser β} (hc : c.Within R)
    (h : R.place (c.tokenAt 0).span.start →
      Proceeds R c S (f (c.tokenAt 0).span.start) (g (c.tokenAt 0).span.start)) :
    Proceeds R c S (Parser.here >>= f) (Parser.here >>= g) :=
  glance rfl (h (R.start hc.head))

/-- Both parsers look at the same token. -/
theorem kindAt_bind {n : Nat} {f g : TokenKind → Parser β}
    (h : Proceeds R c S (f (c.tokenAt n).kind) (g (c.tokenAt n).kind)) :
    Proceeds R c S (Parser.kindAt n >>= f) (Parser.kindAt n >>= g) := glance rfl h

/-- Both parsers choose alike by the next token. -/
theorem ifCheck {kind : TokenKind} (yes : (c.tokenAt 0).kind = kind → Proceeds R c S x x')
    (no : (c.tokenAt 0).kind ≠ kind → Proceeds R c S y y') :
    Proceeds R c S (Parser.check kind >>= fun b => if b = true then x else y)
      (Parser.check kind >>= fun b => if b = true then x' else y') :=
  glance rfl (ite (fun h => yes (by simpa using h)) fun h => no (by simpa using h))

/-- Both parsers choose alike by the next two tokens. -/
theorem ifCheck2 {first second : TokenKind}
    (yes : (c.tokenAt 0).kind = first → (c.tokenAt 1).kind = second → Proceeds R c S x x')
    (no : Proceeds R c S y y') :
    Proceeds R c S (Parser.check2 first second >>= fun b => if b = true then x else y)
      (Parser.check2 first second >>= fun b => if b = true then x' else y') := by
  refine glance rfl (ite (fun h => ?_) fun _ => no)
  have hkinds : (c.tokenAt 0).kind = first ∧ (c.tokenAt 1).kind = second := by simpa using h
  exact yes hkinds.1 hkinds.2

/-- Both parsers choose alike among some tokens. -/
theorem ifCheckAny {kinds : List TokenKind} (yes : (c.tokenAt 0).kind ∈ kinds → Proceeds R c S x x')
    (no : Proceeds R c S y y') :
    Proceeds R c S (Parser.checkAny kinds >>= fun b => if b = true then x else y)
      (Parser.checkAny kinds >>= fun b => if b = true then x' else y') :=
  glance rfl (ite (fun h => yes (by simpa using h)) fun _ => no)

/-- Both parsers choose alike by a name. -/
theorem ifCheckName (yes : (c.tokenAt 0).kind.isName = true → Proceeds R c S x x')
    (no : (c.tokenAt 0).kind.isName = false → Proceeds R c S y y') :
    Proceeds R c S (Parser.checkName >>= fun b => if b = true then x else y)
      (Parser.checkName >>= fun b => if b = true then x' else y') :=
  glance rfl (ite yes no)

end Looking

section Taking

/-- A token that is not the end of file is taken. -/
theorem advance (hc : c.Within R) (hk : (c.tokenAt 0).kind ≠ .eof) :
    Proceeds R c (fun t c' => R.token t ∧ c'.rest.length < c.rest.length ∧ c' = c.step)
      Parser.advance Parser.advance := by
  have hlength := step_rest_length hk
  refine ⟨rfl, hc.step hk, hc.head, ?_, rfl⟩
  change c.step.rest.length < c.rest.length
  omega

/-- A token that is not the end of file is taken as a leaf. -/
theorem leaf {kind : NodeKind} (hc : c.Within R) (hk : (c.tokenAt 0).kind ≠ .eof) :
    Proceeds R c (fun n c' => n.Within R ∧ c'.rest.length < c.rest.length)
      (Parser.leaf kind) (Parser.leaf kind) :=
  (advance hc hk).bind fun _ _ hc' _ h => .pure hc' ⟨Node.within_ofToken h.1, h.2.1⟩

/-- A leaf alone. -/
theorem leaf_took {kind : NodeKind} (hc : c.Within R) (hk : (c.tokenAt 0).kind ≠ .eof) :
    Proceeds R c (Took R c.rest.length) (Parser.leaf kind) (Parser.leaf kind) :=
  (leaf hc hk).imp fun _ _ _ h => ⟨h.1, fun _ => h.2⟩

/-- Two tokens that are not the end of file are taken. -/
theorem two_bind {x y : Parser β} (hc : c.Within R) (h₀ : (c.tokenAt 0).kind ≠ .eof)
    (h₁ : (c.tokenAt 1).kind ≠ .eof)
    (h : ∀ c', c'.Within R → c'.rest.length < c.rest.length → Proceeds R c' S x y) :
    Proceeds R c S (Parser.advance >>= fun _ => Parser.advance >>= fun _ => x)
      (Parser.advance >>= fun _ => Parser.advance >>= fun _ => y) := by
  refine (advance hc h₀).bind fun _ c₁ hc₁ _ hfirst => ?_
  obtain ⟨-, hlt, rfl⟩ := hfirst
  refine (advance hc₁ (by rw [tokenAt_step]; exact h₁)).bind fun _ c₂ hc₂ _ hsecond => ?_
  exact h c₂ hc₂ (Nat.lt_trans hsecond.2.1 hlt)

/-- The next token is taken if it has the kind. -/
theorem accept {kind : TokenKind} [kind.Inner] (hc : c.Within R) :
    Proceeds R c (fun o c' => (∀ t ∈ o, R.token t) ∧
      ((c.tokenAt 0).kind = kind → c'.rest.length < c.rest.length) ∧
      (o.isSome = true → c'.rest.length < c.rest.length)) (Parser.accept kind)
      (Parser.accept kind) := by
  refine ifCheck (fun hkind => ?_) fun hkind => ?_
  · refine (advance hc (ne_eof_of_eq hkind)).bind fun t c' hc' _ h => ?_
    exact .pure hc' ⟨by simpa using h.1, fun _ => h.2.1, fun _ => h.2.1⟩
  · exact .pure hc ⟨by simp, fun h => absurd h hkind, by simp⟩

/-- The next token is taken if it has the kind, and the answer says so. -/
theorem skip {kind : TokenKind} [kind.Inner] (hc : c.Within R) :
    Proceeds R c (fun b c' => b = true → c'.rest.length < c.rest.length) (Parser.skip kind)
      (Parser.skip kind) :=
  (accept hc).bind fun _ _ hc' _ h => .pure hc' h.2.2

/-- A case distinction by whether a token could be taken. -/
theorem ifSkip {kind : TokenKind} [kind.Inner] {x x' y y' : Parser β} (hc : c.Within R)
    (yes : ∀ c', c'.Within R → c'.rest.length < c.rest.length → Proceeds R c' S x x')
    (no : (c.tokenAt 0).kind ≠ kind → Proceeds R c S y y') :
    Proceeds R c S (Parser.skip kind >>= fun b => if b = true then x else y)
      (Parser.skip kind >>= fun b => if b = true then x' else y') := by
  by_cases hkind : (c.tokenAt 0).kind = kind
  · have hne := ne_eof_of_eq hkind
    have hstep := hc.step hne
    have hlength := step_rest_length hne
    have hyes := yes c.step hstep.within (by omega)
    have hrun := Parser.ifSkip_run kind x y c
    have hrun' := Parser.ifSkip_run kind x' y' c
    rw [if_pos hkind] at hrun hrun'
    refine ⟨?_, ?_, ?_⟩
    · rw [hrun, hrun']
      exact hyes.same
    · rw [hrun]
      exact hstep.trans hyes.leads
    · rw [hrun]
      exact hyes.result
  · have hrun := Parser.ifSkip_run kind x y c
    have hrun' := Parser.ifSkip_run kind x' y' c
    rw [if_neg hkind] at hrun hrun'
    exact (no hkind).of_run hrun hrun'

end Taking

section Problems

/-- Recording that a token is missing moves nothing. -/
theorem expected (kinds : List TokenKind) (hc : c.Within R) :
    Proceeds R c (fun _ e => e.rest = c.rest) (Parser.expected kinds) (Parser.expected kinds) := by
  have hgot : R.Placed (c.tokenAt 0).span := Region.placed_of_token hc.head
  have hsuffix : c.missing <:+ ((Parser.expected kinds).run c).2.missing := by
    change c.missing <:+ if c.isReported then c.missing else _ :: c.missing
    split
    · exact List.suffix_rfl
    · exact List.suffix_cons _ _
  have hmissing : ∀ p ∈ ((Parser.expected kinds).run c).2.missing, R.Placed p.span := by
    change ∀ p ∈ if c.isReported then c.missing else _ :: c.missing, R.Placed p.span
    split
    · exact hc.missing
    · exact List.forall_mem_cons.2 ⟨hgot, hc.missing⟩
  exact ⟨rfl, ⟨.of_takes (.of_eq rfl rfl hsuffix rfl) (Nat.le_succ _),
    ⟨hc.consumed, hc.rest, hmissing, hc.discarded, hc.ends, hc.open_consumed⟩, rfl,
    fun horder => horder.expected hc.ends.ne_nil kinds⟩, rfl⟩

/-- Taking a token that has to be there. -/
theorem expect {kind : TokenKind} [kind.Inner] (hc : c.Within R) :
    Proceeds R c (fun o c' => (∀ t ∈ o, R.token t) ∧
      ((c.tokenAt 0).kind = kind → c'.rest.length < c.rest.length)) (Parser.expect kind)
      (Parser.expect kind) := by
  refine (accept hc).bind fun o c' hc' _ h => ?_
  cases o with
  | some t => exact .pure hc' ⟨h.1, h.2.1⟩
  | none =>
    refine (expected [kind] hc').bind fun _ c'' hc'' hle _ => .pure hc'' ⟨by simp, fun hkind => ?_⟩
    exact Nat.lt_of_le_of_lt hle (h.2.1 hkind)

/-- Going on after a token that has to be there. If it is there, one less is ahead. -/
theorem need_bind {kind : TokenKind} [kind.Inner] {f g : Unit → Parser β} (hc : c.Within R)
    (h : ∀ c', c'.Within R → c'.rest.length ≤ c.rest.length →
      ((c.tokenAt 0).kind = kind → c'.rest.length < c.rest.length) → Proceeds R c' S (f ()) (g ())) :
    Proceeds R c S (Parser.need kind >>= f) (Parser.need kind >>= g) :=
  ((expect hc).bind fun _ _ hc' _ hlt => .pure hc' hlt.2 : Proceeds R c
    (fun _ c' => (c.tokenAt 0).kind = kind → c'.rest.length < c.rest.length) (Parser.need kind)
    (Parser.need kind)).bind fun _ c' hc' hle hlt => h c' hc' hle hlt

/-- Going on after the token that a node begins with, which is one token less to go. -/
theorem opening_bind {kind : TokenKind} [kind.Inner] {f g : Position → Unit → Parser β} (hc : c.Within R)
    (hfront : (c.tokenAt 0).kind = kind)
    (h : R.place (c.tokenAt 0).span.start → ∀ c', c'.Within R → c'.rest.length < c.rest.length →
      Proceeds R c' S (f (c.tokenAt 0).span.start ()) (g (c.tokenAt 0).span.start ())) :
    Proceeds R c S (Parser.here >>= fun start => Parser.need kind >>= f start)
      (Parser.here >>= fun start => Parser.need kind >>= g start) :=
  .here_bind hc fun hstart => .need_bind hc fun c' hc' _ hlt =>
    h hstart c' hc' (hlt hfront)

/-- Taking a name, or recording that one is missing. -/
theorem name (hc : c.Within R) :
    Proceeds R c (fun nodes c' => Node.WithinAll R nodes ∧
      ((c.tokenAt 0).kind.isName = true → c'.rest.length < c.rest.length)) Parser.name
      Parser.name := by
  refine ifCheckName (fun hname => ?_) fun hname => ?_
  · refine (leaf hc (ne_eof_of_isName hname)).bind fun n c' hc' _ h => ?_
    exact .pure hc' ⟨by simpa using h.1, fun _ => h.2⟩
  · refine (expected _ hc).bind fun _ c' hc' _ _ => .pure hc' ⟨by simp, fun h => ?_⟩
    rw [hname] at h
    cases h

/-- Reporting a phrase that cannot be read takes a token unless the end of file is next. -/
theorem problem (message : String) (recovery expected : List TokenKind) (hc : c.Within R) :
    Proceeds R c (Took R c.rest.length) (Parser.problem message recovery expected)
      (Parser.problem message recovery expected) := by
  have hrecover := hc.recover recovery
  have hlength : 2 ≤ c.rest.length → (c.recover recovery).rest.length < c.rest.length :=
    fun h => recover_rest_length_lt recovery (hc.ne_eof_iff.2 h)
  have hwithin := hrecover.within
  have horder : c.InOrder → (c.recover recovery).InOrder := hrecover.inOrder
  refine ⟨rfl, ⟨⟨hrecover.reads.moves, hrecover.reads.missing, Nat.le_succ _⟩, ?_,
    hrecover.missteps_eq, fun h => ⟨(horder h).genuine, (horder h).ordered,
      (horder h).descending, (horder h).passed⟩⟩,
    Node.within_ofProblem (Region.placed_of_token hc.head), hlength⟩
  exact ⟨hwithin.consumed, hwithin.rest, hwithin.missing, hwithin.discarded, hwithin.ends,
    hwithin.open_consumed⟩

end Problems

section Building

/-- Ending a node whose parts are inside the region. -/
theorem finishWith {kind : NodeKind} {t : Option Token} {start : Position} {children : List Node}
    (hc : c.Within R) (hstart : R.place start)
    (htoken : kind = .identifier → ∀ u ∈ t, R.token u) (hchildren : Node.WithinAll R children) :
    Proceeds R c (fun n c' => n.Within R ∧ c' = c) (Parser.finishWith kind t start children)
      (Parser.finishWith kind t start children) :=
  glance rfl (.pure hc ⟨Node.within_mk ⟨hstart, hc.lastStop⟩ htoken hchildren, rfl⟩)

/-- A node that is finished within the region is placed in it. -/
theorem finish {kind : NodeKind} {start : Position} {children : List Node}
    (hc : c.Within R) (hstart : R.place start) (hchildren : Node.WithinAll R children) :
    Proceeds R c (Placed R) (Parser.finish kind start children)
      (Parser.finish kind start children) :=
  (finishWith hc hstart (by simp) hchildren).imp fun _ _ _ h => h.1

/-- Ending a node after at least one of `n` tokens. -/
theorem finish_took {kind : NodeKind} {start : Position} {children : List Node} {n : Nat}
    (hc : c.Within R) (hstart : R.place start) (hchildren : Node.WithinAll R children)
    (hlt : 2 ≤ n → c.rest.length < n) :
    Proceeds R c (Took R n) (Parser.finish kind start children)
      (Parser.finish kind start children) :=
  (finishWith hc hstart (by simp) hchildren).imp fun _ _ _ h => ⟨h.1, by rw [h.2]; exact hlt⟩

/-- A tree that a loop goes on with. -/
theorem some_of {p q : Parser Node} {n : Nat}
    (h : Proceeds R c (fun m e => m.Within R ∧ e.rest.length < n) p q) :
    Proceeds R c (fun o e => ∀ m ∈ o, m.Within R ∧ e.rest.length < n)
      (p >>= fun m => Pure.pure (some m)) (q >>= fun m => Pure.pure (some m)) := by
  refine h.bind fun m c₁ hc₁ _ hm => .pure hc₁ fun m' hm' => ?_
  cases hm'
  exact hm

/-- Ending a node that a loop goes on with. -/
theorem finish_some {kind : NodeKind} {start : Position} {children : List Node} {n : Nat}
    (hc : c.Within R) (hstart : R.place start) (hchildren : Node.WithinAll R children)
    (hlt : c.rest.length < n) :
    Proceeds R c (fun o e => ∀ m ∈ o, m.Within R ∧ e.rest.length < n)
      (Parser.finish kind start children >>= fun m => Pure.pure (some m))
      (Parser.finish kind start children >>= fun m => Pure.pure (some m)) :=
  some_of ((finishWith hc hstart (by simp) hchildren).imp fun _ _ _ h =>
    ⟨h.1, by rw [h.2]; exact hlt⟩)

/-- Ending a node again at a later place. -/
theorem extend {node : Node} {n : Nat} (hc : c.Within R) (hnode : node.Within R)
    (hlt : 2 ≤ n → c.rest.length < n) :
    Proceeds R c (Took R n) (Parser.extend node) (Parser.extend node) :=
  glance rfl (.pure hc ⟨hnode.with_stop hc.lastStop, hlt⟩)

/-- Giving up a tree. -/
theorem discard {node : Node} (hc : c.Within R) (hnode : node.Within R) :
    Proceeds R c (fun _ _ => True) (Parser.discard node) (Parser.discard node) :=
  ⟨rfl, ⟨.of_takes (.of_eq rfl rfl List.suffix_rfl rfl) (Nat.le_refl _),
    ⟨hc.consumed, hc.rest, hc.missing, Node.withinAll_cons.2 ⟨hnode, hc.discarded⟩, hc.ends,
      hc.open_consumed⟩, rfl, fun h => ⟨h.genuine, h.ordered, h.descending, h.passed⟩⟩, trivial⟩

end Building

section Ahead

/-- A question about what follows, after which all tokens are ahead again. -/
theorem lookahead {p q : Parser Bool} {T : Bool → Cursor → Prop} (hc : c.Within R)
    (h : Proceeds R c T p q) :
    Proceeds R c (fun _ c' => c'.rest.length = c.rest.length) (Parser.lookahead p)
      (Parser.lookahead q) := by
  have hback := h.leads.goBack hc
  refine ⟨?_, hback.1, hback.2⟩
  change ((q.run c).1, (q.run c).2.goBack c) = ((p.run c).1, (p.run c).2.goBack c)
  rw [h.same]

/-- One mark `>` is taken, or none is there. -/
theorem skipGreater (hc : c.Within R) :
    Proceeds R c (fun _ _ => True) Parser.skipGreater Parser.skipGreater := by
  refine ifSkip hc (fun c hc _ => .pure hc trivial) fun _ => ?_
  refine glance (a := c) rfl ?_
  obtain ⟨t, rest, hrest⟩ := List.exists_cons_of_ne_nil hc.ends.ne_nil
  simp only [hrest]
  cases hk : Parser.remainder? t.kind with
  | none => exact .pure hc trivial
  | some kind =>
    obtain ⟨mark, hmark⟩ := Token.exists_mark_of_remainder hk
    obtain ⟨left, hleft, -, -⟩ := Token.remainder_spelling (hmark ▸ hk)
    have hends := hc.ends
    have hall := hc.rest
    rw [hrest] at hends hall
    have hwithin : Cursor.Within R { c with rest := Parser.shorten t kind :: rest } := by
      refine ⟨hc.consumed, ?_, hc.missing, hc.discarded, ?_, hc.open_consumed⟩
      · have ht := hall t List.mem_cons_self
        exact List.forall_mem_cons.2
          ⟨R.shorten ht hk, fun u hu => hall u (List.mem_cons_of_mem _ hu)⟩
      · exact hends.replace (by simp [hmark]) (by simp [Parser.shorten, hleft])
    have hreads : c.Reads { c with rest := Parser.shorten t kind :: rest } := by
      refine ⟨⟨[], rfl, ?_⟩, List.suffix_rfl, Nat.le_refl _⟩
      rw [hrest]
      exact .cons (.single ⟨kind, hk, rfl⟩) (forall₂_trims_refl rest)
    exact ⟨rfl, ⟨hreads, hwithin, rfl, fun horder => horder.of_reads hreads rfl⟩, trivial⟩

end Ahead

section Repeating

variable {step step' : α → Parser (Option α)} {I : α → Prop} {E : Cursor → Prop}

/-- Steps that each take a token do not reach a bound above the number of tokens ahead. The
last of them declines. -/
theorem iterate {bound : Nat} {a : α}
    (hstep : ∀ a c', I a → c'.Within R → c'.rest.length ≤ c.rest.length →
      Proceeds R c' (fun o e => (∀ b ∈ o, I b ∧ e.rest.length < c'.rest.length) ∧ (o = none → E e))
        (step a) (step' a))
    (ha : I a) (hc : c.Within R) (hbound : c.rest.length < bound) :
    Proceeds R c (fun b e => I b ∧ E e) (Parser.iterate step bound a)
      (Parser.iterate step' bound a) := by
  induction bound generalizing a c with
  | zero => exact absurd hbound (Nat.not_lt_zero _)
  | succ bound ih =>
    refine (hstep a c ha hc (Nat.le_refl _)).bind fun o c' hc' hle hgoes => ?_
    cases o with
    | none => exact .pure hc' ⟨ha, hgoes.2 rfl⟩
    | some b =>
      obtain ⟨hb, hlt⟩ := hgoes.1 b rfl
      exact ih (fun a e ha he hle' => hstep a e ha he (Nat.le_trans hle' hle)) hb hc' (by omega)

/-- A loop over steps that each take a token, which ends where a step declines. -/
theorem loopUntil {a : α}
    (hstep : ∀ a c', I a → c'.Within R → c'.rest.length ≤ c.rest.length →
      Proceeds R c' (fun o e => (∀ b ∈ o, I b ∧ e.rest.length < c'.rest.length) ∧ (o = none → E e))
        (step a) (step' a))
    (ha : I a) (hc : c.Within R) :
    Proceeds R c (fun b e => I b ∧ E e) (Parser.loop step a) (Parser.loop step' a) :=
  glance (a := c) rfl (iterate hstep ha hc (by omega))

/-- A loop over steps that each take a token. -/
theorem loop {a : α}
    (hstep : ∀ a c', I a → c'.Within R → c'.rest.length ≤ c.rest.length →
      Proceeds R c' (fun o e => ∀ b ∈ o, I b ∧ e.rest.length < c'.rest.length) (step a) (step' a))
    (ha : I a) (hc : c.Within R) :
    Proceeds R c (fun b _ => I b) (Parser.loop step a) (Parser.loop step' a) := by
  refine (loopUntil (E := fun _ => True) (fun a e ha he hle => ?_) ha hc).imp fun _ _ _ h => h.1
  exact (hstep a e ha he hle).imp fun _ _ _ h => ⟨h, fun _ => trivial⟩

variable {test : Parser Bool} {item item' : Parser Node}

/-- Items while a test succeeds, where the test and the item together take a token. -/
theorem manyUpTo {bound : Nat}
    (hround : ∀ c', c'.Within R → c'.rest.length ≤ c.rest.length →
      Proceeds R c' (fun b e => b = true →
        Proceeds R e (fun n e' => n.Within R ∧ e'.rest.length < c'.rest.length) item item')
        test test)
    (hc : c.Within R) (hbound : c.rest.length < bound) :
    Proceeds R c (fun l e => Node.WithinAll R l ∧
        ((test.run c).1 = true → e.rest.length < c.rest.length) ∧
        ((test.run c).1 = false → e = (test.run c).2))
      (Parser.manyUpTo test item bound) (Parser.manyUpTo test item' bound) := by
  induction bound generalizing c with
  | zero => exact absurd hbound (Nat.not_lt_zero _)
  | succ bound ih =>
    have hfirst := hround c hc (Nat.le_refl _)
    have hanswer : Proceeds R c (fun b e => test.run c = (b, e) ∧ (b = true →
        Proceeds R e (fun n e' => n.Within R ∧ e'.rest.length < c.rest.length) item item'))
        test test := ⟨rfl, hfirst.leads, rfl, hfirst.result⟩
    refine hanswer.bind fun b c₁ hc₁ hle hitem => ?_
    obtain ⟨hrun, hitem⟩ := hitem
    rw [hrun]
    refine ite (fun hyes => ?_) fun hno => .pure hc₁ ⟨Node.withinAll_nil, ?_, fun _ => rfl⟩
    · refine (hitem hyes).bind fun n c₂ hc₂ _ hn => ?_
      have hlater := ih (c := c₂) (fun e he hle' => hround e he (by omega)) hc₂ (by omega)
      refine hlater.bind fun l c₃ hc₃ hle₃ hl =>
        .pure hc₃ ⟨Node.withinAll_cons.2 ⟨hn.1, hl.1⟩, fun _ => by omega, fun hno => ?_⟩
      rw [hyes] at hno
      cases hno
    · intro hyes
      rw [hno] at hyes
      cases hyes

/-- Items while a question that leaves the cursor alone has the answer yes. A token is taken
if it has that answer at first, and nothing happens otherwise. -/
theorem manyWhile (htest : Stays test) (hahead : ∀ e, (test.run e).1 = true →
      (e.tokenAt 0).kind ≠ .eof)
    (hitem : ∀ e, e.Within R → e.rest.length ≤ c.rest.length → (test.run e).1 = true →
      Proceeds R e (Took R e.rest.length) item item') (hc : c.Within R) :
    Proceeds R c (fun l e => Node.WithinAll R l ∧
        ((test.run c).1 = true → e.rest.length < c.rest.length) ∧
        ((test.run c).1 = false → e = c))
      (Parser.many test item) (Parser.many test item') := by
  refine glance (a := c) rfl ((manyUpTo (fun e he hle => ?_) hc (by omega)).imp
    fun l e _ h => ⟨h.1, h.2.1, fun hno => (h.2.2 hno).trans (htest c)⟩)
  refine ⟨rfl, by rw [htest e]; exact .refl he, fun hyes => ?_⟩
  rw [htest e]
  have hlength := he.ne_eof_iff.1 (hahead e hyes)
  exact (hitem e he hle hyes).imp fun _ _ _ h => ⟨h.1, h.2 hlength⟩

/-- Items up to a closing token or the end of file. -/
theorem manyBefore {kinds : List TokenKind}
    (hitem : ∀ e, e.Within R → e.rest.length ≤ c.rest.length → (e.tokenAt 0).kind ∉ kinds →
      Proceeds R e (Took R e.rest.length) item item') (hc : c.Within R) :
    Proceeds R c (fun l e => Node.WithinAll R l ∧
        ((c.tokenAt 0).kind ≠ .eof → (c.tokenAt 0).kind ∉ kinds → e.rest.length < c.rest.length))
      (Parser.many (Parser.before kinds) item) (Parser.many (Parser.before kinds) item') := by
  have hbefore : ∀ e : Cursor, ((Parser.before kinds).run e).1 = true ↔
      (e.tokenAt 0).kind ≠ .eof ∧ (e.tokenAt 0).kind ∉ kinds := by
    intro e
    change (!(TokenKind.eof :: kinds).contains (e.tokenAt 0).kind) = true ↔ _
    simp
  refine (manyWhile (fun _ => rfl) (fun e hyes => ((hbefore e).1 hyes).1)
    (fun e he hle hyes => hitem e he hle ((hbefore e).1 hyes).2) hc).imp fun l e _ h => ?_
  exact ⟨h.1, fun hk hkinds => h.2.1 ((hbefore c).2 ⟨hk, hkinds⟩)⟩

/-- One item after each separator. -/
theorem manyAfter {kind : TokenKind} [kind.Inner]
    (hitem : ∀ e, e.Within R → e.rest.length < c.rest.length →
      Proceeds R e (Placed R) item item') (hc : c.Within R) :
    Proceeds R c (PlacedAll R) (Parser.many (Parser.skip kind) item)
      (Parser.many (Parser.skip kind) item') := by
  refine glance (a := c) rfl ((manyUpTo (fun e he hle => ?_) hc (by omega)).imp
    fun _ _ _ h => h.1)
  have hskip : Proceeds R e (fun b c' => b = true → c'.rest.length < e.rest.length)
      (Parser.skip kind) (Parser.skip kind) := skip he
  refine ⟨rfl, hskip.leads, fun hyes => ?_⟩
  have hlt := hskip.result hyes
  exact (hitem _ hskip.leads.within (by omega)).imp fun _ _ hle h => ⟨h, by omega⟩

/-- Items separated by commas. -/
theorem commaList (hitem : ∀ e, e.Within R → e.rest.length ≤ c.rest.length →
      Proceeds R e (Placed R) item item') (hc : c.Within R) :
    Proceeds R c (PlacedAll R) (Parser.commaList item) (Parser.commaList item') := by
  refine (hitem c hc (Nat.le_refl _)).bind fun n c₁ hc₁ hle hn => ?_
  refine (manyAfter (fun e he hlt => hitem e he (by omega)) hc₁).bind
    fun l c₂ hc₂ _ hl => ?_
  exact .pure hc₂ (Node.withinAll_cons.2 ⟨hn, hl⟩)

/-- Items separated by commas up to a closing token. -/
theorem commaListBefore {closing : TokenKind}
    (hitem : ∀ e, e.Within R → e.rest.length ≤ c.rest.length →
      Proceeds R e (Took R e.rest.length) item item') (hc : c.Within R) :
    Proceeds R c (PlacedAll R) (Parser.commaListBefore closing item)
      (Parser.commaListBefore closing item') := by
  have hbounded : ∀ bound e, Cursor.Within R e → e.rest.length ≤ c.rest.length →
      e.rest.length < bound → Proceeds R e (PlacedAll R) (Parser.commaListUpTo closing item bound)
        (Parser.commaListUpTo closing item' bound) := by
    intro bound
    induction bound with
    | zero => exact fun e _ _ h => absurd h (Nat.not_lt_zero _)
    | succ bound ih =>
      intro e he hle hbound
      refine glance rfl (ite (fun hyes => ?_) fun _ => .pure he Node.withinAll_nil)
      have hlength : 2 ≤ e.rest.length := by
        refine he.ne_eof_iff.1 fun heof => ?_
        change (!(TokenKind.eof :: [closing]).contains (e.tokenAt 0).kind) = true at hyes
        simp [heof] at hyes
      refine (hitem e he hle).bind fun n c₁ hc₁ hle₁ hn => ?_
      have hlt := hn.2 hlength
      refine ifSkip hc₁ (fun c₂ hc₂ hlt₂ => ?_) fun _ => ?_
      · refine (ih c₂ hc₂ (by omega) (by omega)).bind fun l c₃ hc₃ _ hl => ?_
        exact .pure hc₃ (Node.withinAll_cons.2 ⟨hn.1, hl⟩)
      · exact .pure hc₁ (Node.withinAll_cons.2 ⟨hn.1, Node.withinAll_nil⟩)
  exact glance (a := c) rfl (hbounded _ c hc (Nat.le_refl _) (by omega))

/-- An item if a question that leaves the cursor alone has the answer yes. -/
theorem optional (htest : Stays test) (hc : c.Within R)
    (hitem : (test.run c).1 = true → Proceeds R c (Placed R) item item') :
    Proceeds R c (PlacedAll R) (Parser.optional test item) (Parser.optional test item') := by
  refine ask htest (ite (fun hyes => ?_) fun _ => .pure hc Node.withinAll_nil)
  exact (hitem hyes).bind fun n c' hc' _ hn =>
    .pure hc' (Node.withinAll_cons.2 ⟨hn, Node.withinAll_nil⟩)

/-- An item if the next token has the kind. -/
theorem optionalCheck {kind : TokenKind} (hc : c.Within R)
    (hitem : (c.tokenAt 0).kind = kind → Proceeds R c (Placed R) item item') :
    Proceeds R c (PlacedAll R) (Parser.optional (Parser.check kind) item)
      (Parser.optional (Parser.check kind) item') := by
  refine optional (fun _ => rfl) hc fun hyes => hitem ?_
  change ((c.tokenAt 0).kind == kind) = true at hyes
  exact beq_iff_eq.1 hyes

/-- A leaf if the next token has the kind. -/
theorem optionalLeaf {kind : TokenKind} [kind.Inner] {leafKind : NodeKind} (hc : c.Within R) :
    Proceeds R c (PlacedAll R) (Parser.optional (Parser.check kind) (Parser.leaf leafKind))
      (Parser.optional (Parser.check kind) (Parser.leaf leafKind)) :=
  optionalCheck hc fun h => (leaf_took hc (ne_eof_of_eq h)).placed

/-- An item if a token could be taken. -/
theorem optionalAfter {kind : TokenKind} [kind.Inner] (hc : c.Within R)
    (hitem : ∀ e, e.Within R → e.rest.length < c.rest.length →
      Proceeds R e (Placed R) item item') :
    Proceeds R c (PlacedAll R) (Parser.optional (Parser.skip kind) item)
      (Parser.optional (Parser.skip kind) item') := by
  refine ifSkip hc (fun c₁ hc₁ hlt => ?_) fun _ => .pure hc Node.withinAll_nil
  exact (hitem c₁ hc₁ hlt).bind fun n c₂ hc₂ _ hn =>
    .pure hc₂ (Node.withinAll_cons.2 ⟨hn, Node.withinAll_nil⟩)

end Repeating

end Proceeds

end JavaObjC
