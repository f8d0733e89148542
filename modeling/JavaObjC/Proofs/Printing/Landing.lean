import JavaObjC.Proofs.Printing.Inversion

/-!
# Reading up to certain tokens

Where type arguments are closed, tokens are split, so the cursor after a type
cannot be told from the tokens alone. A parser lands at certain tokens with a
certain value if these are the tokens ahead of it in the end and it has met no
problem. Values are compared without their places. Rules for putting such
statements together follow the parsers.
-/

namespace JavaObjC

open Cursor JavaObjC.Parser

namespace Node

/-- An inner node without its place. -/
def bare (kind : NodeKind) (children : List Node) : Node := ⟨kind, {}, none, none, children⟩

/-- Trees that are a given one but for places. -/
def Like (tree n : Node) : Prop := n.erase = tree

/-- Lists of trees that are given ones but for places. -/
def Likes (trees ns : List Node) : Prop := ns.map erase = trees

theorem like_erase (n : Node) : Like n.erase n := rfl

theorem likes_nil : Likes [] [] := rfl

/-- Lists are alike when their first nodes and the others are. -/
theorem Likes.cons {tree n : Node} {trees ns : List Node} (h : Like tree n) (hs : Likes trees ns) :
    Likes (tree :: trees) (n :: ns) := by
  have hn : n.erase = tree := h
  have hns : ns.map erase = trees := hs
  rw [Likes, List.map_cons, hn, hns]

/-- Alike lists in a row are alike. -/
theorem Likes.append {trees trees' ns ns' : List Node} (h : Likes trees ns)
    (h' : Likes trees' ns') : Likes (trees ++ trees') (ns ++ ns') := by
  have hns : ns.map erase = trees := h
  have hns' : ns'.map erase = trees' := h'
  rw [Likes, List.map_append, hns, hns']

theorem Like.single {tree n : Node} (h : Like tree n) : Likes [tree] [n] := .cons h likes_nil

end Node

open Node

/-- A cursor that has met no problem since another one. -/
structure Cursor.Keeps (c c' : Cursor) : Prop where
  missing : c'.missing = c.missing
  raised : c'.raised = c.raised
  discarded : c'.discarded = c.discarded

namespace Cursor.Keeps

variable {c c' c'' : Cursor}

theorem refl (c : Cursor) : c.Keeps c := ⟨rfl, rfl, rfl⟩

/-- No problem on two stretches is no problem on the whole way. -/
theorem trans (h : c.Keeps c') (h' : c'.Keeps c'') : c.Keeps c'' :=
  ⟨h'.missing.trans h.missing, h'.raised.trans h.raised, h'.discarded.trans h.discarded⟩

theorem past (c : Cursor) (ts rest : List Token) : c.Keeps (c.past ts rest) := ⟨rfl, rfl, rfl⟩

end Cursor.Keeps

/-- A parser that lands, from a cursor, at tokens of a certain sort with a certain value. -/
structure Lands {α : Type} (c : Cursor) (sort : List Token → Prop) (Q : α → Prop)
    (p : Parser α) : Prop where
  result : Q (p.run c).1
  rest : sort (p.run c).2.rest
  keeps : c.Keeps (p.run c).2

namespace Lands

variable {α β : Type} {c : Cursor} {sort mid : List Token → Prop} {Q : α → Prop} {S : β → Prop}

/-- A weaker statement about the tokens ahead and about the value. -/
theorem imp {Q' : α → Prop} {sort' : List Token → Prop} {p : Parser α} (h : Lands c sort Q p)
    (hsort : ∀ ts, sort ts → sort' ts) (hQ : ∀ a, Q a → Q' a) : Lands c sort' Q' p :=
  ⟨hQ _ h.result, hsort _ h.rest, h.keeps⟩

/-- A parser that lands is followed by one that starts where it landed. -/
theorem bind {p : Parser α} {f : α → Parser β} (hp : Lands c mid Q p)
    (hf : ∀ a (c' : Cursor), mid c'.rest → Q a → Lands c' sort S (f a)) :
    Lands c sort S (p >>= f) := by
  have hrest := hf _ _ hp.rest hp.result
  exact ⟨hrest.result, hrest.rest, hp.keeps.trans hrest.keeps⟩

/-- A parser lands where another one does that continues its run. -/
theorem of_run {c' : Cursor} {p q : Parser α} (h : p.run c = q.run c') (hkeeps : c.Keeps c')
    (hq : Lands c' sort Q q) : Lands c sort Q p :=
  ⟨h ▸ hq.result, h ▸ hq.rest, h ▸ hkeeps.trans hq.keeps⟩

/-- A parser that does here what another one does. -/
theorem of_eq {p q : Parser α} (h : p.run c = q.run c) (hq : Lands c sort Q q) :
    Lands c sort Q p := of_run h (.refl c) hq

/-- A parser that reads nothing lands where it is. -/
theorem pure {a : α} (ha : Q a) (hrest : sort c.rest) : Lands c sort Q (Pure.pure a) :=
  ⟨ha, hrest, .refl c⟩

/-- A parser that looks at the cursor. -/
theorem glance {p : Parser β} {f : β → Parser α} {b : β} (hp : p.run c = (b, c))
    (hf : Lands c sort Q (f b)) : Lands c sort Q (p >>= f) :=
  of_eq (bind_of_run hp) hf

/-- A parser that takes exactly some tokens. -/
theorem step {p : Parser β} {f : β → Parser α} {b : β} {ts rest : List Token}
    (hp : p.run c = (b, c.past ts rest)) (hf : Lands (c.past ts rest) sort Q (f b)) :
    Lands c sort Q (p >>= f) :=
  of_run (bind_of_run hp) (.past c ts rest) hf

/-- A parser whose run is known to take certain tokens lands behind them. -/
theorem of_past {p : Parser α} {a : α} {ts rest : List Token}
    (hp : p.run c = (a, c.past ts rest)) (ha : Q a) (hrest : sort rest) : Lands c sort Q p := by
  refine ⟨?_, ?_, ?_⟩
  · rw [hp]
    exact ha
  · rw [hp]
    exact hrest
  · rw [hp]
    exact .past c ts rest

/-- The place of the next token does not matter. -/
theorem here {f : Position → Parser α} (hf : ∀ start, Lands c sort Q (f start)) :
    Lands c sort Q (Parser.here >>= f) :=
  glance (rfl : Parser.here.run c = ((c.tokenAt 0).span.start, c)) (hf _)

/-- A node is finished like the tree of its kind, its token and trees like its children. -/
theorem finishWith {kind : NodeKind} {token : Option Token} {start : Position}
    {children trees : List Node} (h : Likes trees children) (hrest : sort c.rest) :
    Lands c sort (Like ⟨kind, {}, token.map Token.erase, none, trees⟩)
      (Parser.finishWith kind token start children) := by
  refine ⟨?_, hrest, .refl c⟩
  have htrees : children.map erase = trees := h
  change erase ⟨kind, _, token, none, children⟩ = _
  rw [erase, eraseAll_eq_map, htrees]
  rfl

/-- An inner node is finished like the tree of its kind over trees like its children. -/
theorem finish {kind : NodeKind} {start : Position} {children trees : List Node}
    (h : Likes trees children) (hrest : sort c.rest) :
    Lands c sort (Like (bare kind trees)) (Parser.finish kind start children) :=
  have hfinish : Lands c sort (Like ⟨kind, {}, (none : Option Token).map Token.erase, none, trees⟩)
      (Parser.finishWith kind none start children) := finishWith h hrest
  hfinish

/-- A node that is finished in front of known tokens. -/
theorem finish_at {kind : NodeKind} {start : Position} {children trees : List Node}
    {rest : List Token} (h : Likes trees children) (hrest : c.rest = rest) :
    Lands c (· = rest) (Like (bare kind trees)) (Parser.finish kind start children) :=
  finish h hrest

/-- Extending a node changes its span, and likeness ignores spans. -/
theorem extend {n tree : Node} (h : Like tree n) (hrest : sort c.rest) :
    Lands c sort (Like tree) (Parser.extend n) := by
  refine ⟨?_, hrest, .refl c⟩
  have htree : n.erase = tree := h
  rw [← htree]
  cases n
  rfl

section Repeating

variable {n : Nat} {test : Parser Bool} {item : Parser Node} {tree : Node} {trees : List Node}

/-- A value where a test succeeds. -/
theorem optional_some {c' : Cursor} (htest : test.run c = (true, c')) (hkeeps : c.Keeps c')
    (hitem : Lands c' sort (Like tree) item) :
    Lands c sort (Likes [tree]) (Parser.optional test item) := by
  have hrun : (Parser.optional test item).run c =
      (item >>= fun n => Pure.pure [n]).run c' := by
    rw [Parser.optional, bind_of_run htest, if_pos rfl]
  exact of_run hrun hkeeps (hitem.bind fun n c hrest hn => pure hn.single hrest)

/-- No value where a test fails. -/
theorem optional_none (htest : test.run c = (false, c)) (hrest : sort c.rest) :
    Lands c sort (Likes []) (Parser.optional test item) := by
  have hrun : (Parser.optional test item).run c = (Pure.pure [] : Parser (List Node)).run c := by
    rw [Parser.optional, bind_of_run htest, if_neg Bool.false_ne_true]
  exact of_eq hrun (pure likes_nil hrest)

/-- No value in front of known tokens. -/
theorem optional_none_at {rest : List Token} (htest : test.run c = (false, c))
    (hrest : c.rest = rest) : Lands c (· = rest) (Likes []) (Parser.optional test item) :=
  optional_none htest hrest

/-- A repetition ends where its test says no. -/
theorem manyUpTo_stop {T : List Node → Prop} (htest : test.run c = (false, c)) (hT : T [])
    (hrest : sort c.rest) : Lands c sort T (Parser.manyUpTo test item (n + 1)) := by
  have hrun : (Parser.manyUpTo test item (n + 1)).run c =
      (Pure.pure [] : Parser (List Node)).run c := by
    rw [Parser.manyUpTo, bind_of_run htest, if_neg Bool.false_ne_true]
  exact of_eq hrun (pure hT hrest)

/-- A repetition goes on where its test says yes: one item lands, then the others do. -/
theorem manyUpTo_go {P : Node → Prop} {S T : List Node → Prop} {c' : Cursor}
    (htest : test.run c = (true, c')) (hkeeps : c.Keeps c') (hitem : Lands c' mid P item)
    (hmore : ∀ d : Cursor, mid d.rest → Lands d sort S (Parser.manyUpTo test item n))
    (hcons : ∀ node nodes, P node → S nodes → T (node :: nodes)) :
    Lands c sort T (Parser.manyUpTo test item (n + 1)) := by
  have hrun : (Parser.manyUpTo test item (n + 1)).run c =
      (item >>= fun first => Parser.manyUpTo test item n >>= fun more =>
        Pure.pure (first :: more)).run c' := by
    rw [Parser.manyUpTo, bind_of_run htest, if_pos rfl]
  refine of_run hrun hkeeps (hitem.bind fun first d hd hfirst => ?_)
  exact (hmore d hd).bind fun more d hd hmore => pure (hcons first more hfirst hmore) hd

/-- A repetition that ends at once has read no trees. -/
theorem manyUpTo_nil (htest : test.run c = (false, c)) (hrest : sort c.rest) :
    Lands c sort (Likes []) (Parser.manyUpTo test item (n + 1)) :=
  manyUpTo_stop htest likes_nil hrest

/-- A repetition reads a first tree and then the others. -/
theorem manyUpTo_cons {c' : Cursor} (htest : test.run c = (true, c')) (hkeeps : c.Keeps c')
    (hitem : Lands c' mid (Like tree) item)
    (hmore : ∀ d : Cursor, mid d.rest → Lands d sort (Likes trees) (Parser.manyUpTo test item n)) :
    Lands c sort (Likes (tree :: trees)) (Parser.manyUpTo test item (n + 1)) :=
  manyUpTo_go htest hkeeps hitem hmore fun _ _ hnode hnodes => .cons hnode hnodes

/-- A repetition has as many rounds as there are tokens, and one more. -/
theorem many {T : List Node → Prop}
    (h : Lands c sort T (Parser.manyUpTo test item (1 + c.rest.length))) :
    Lands c sort T (Parser.many test item) := ⟨h.result, h.rest, h.keeps⟩

/-- A loop ends where its step gives nothing. -/
theorem iterate_stop {step : α → Parser (Option α)} {a : α} (hstep : (step a).run c = (none, c))
    (ha : Q a) (hrest : sort c.rest) : Lands c sort Q (Parser.iterate step (n + 1) a) := by
  have hrun : (Parser.iterate step (n + 1) a).run c = (Pure.pure a : Parser α).run c := by
    rw [Parser.iterate, bind_of_run hstep]
  exact of_eq hrun (pure ha hrest)

/-- A loop goes on from what its step gives. -/
theorem iterate_go {step : α → Parser (Option α)} {a : α} {P : α → Prop}
    (hstep : Lands c mid (fun o => ∃ b, o = some b ∧ P b) (step a))
    (hmore : ∀ b (d : Cursor), mid d.rest → P b → Lands d sort Q (Parser.iterate step n b)) :
    Lands c sort Q (Parser.iterate step (n + 1) a) := by
  refine hstep.bind fun o d hd ho => ?_
  obtain ⟨b, rfl, hb⟩ := ho
  exact hmore b d hd hb

/-- A loop has as many rounds as there are tokens, and one more. -/
theorem loop {step : α → Parser (Option α)} {a : α}
    (h : Lands c sort Q (Parser.iterate step (1 + c.rest.length) a)) :
    Lands c sort Q (Parser.loop step a) := ⟨h.result, h.rest, h.keeps⟩

end Repeating

end Lands

/-- The next token has a kind of a certain sort. -/
def Next (sort : TokenKind → Prop) : List Token → Prop
  | [] => False
  | t :: _ => sort t.kind

section Looking

variable {c : Cursor} {sort sort' : TokenKind → Prop} {ts : List Token}

/-- A weaker statement about the next token. -/
theorem Next.imp (h : Next sort ts) (himp : ∀ {kind : TokenKind}, sort kind → sort' kind) :
    Next sort' ts := by
  cases ts with
  | nil => exact h.elim
  | cons t ts => exact himp h

/-- A token that was built with one of some kinds is of no other kind. -/
theorem Token.Among.next_ne {kinds : List TokenKind} {kind : TokenKind} (t : Token.Among kinds)
    (h : kind ∉ kinds) : Next (· ≠ kind) (t.1 :: ts) :=
  fun hkind => h (hkind ▸ t.2)

/-- What is known of the next token is known of the token the cursor is at. -/
theorem Next.kind (h : Next sort c.rest) : sort (c.tokenAt 0).kind := by
  cases hrest : c.rest with
  | nil =>
    rw [hrest] at h
    exact h.elim
  | cons t rest =>
    rw [hrest] at h
    rw [tokenAt_zero_cons hrest]
    exact h

/-- A token ahead is next in particular. -/
theorem Ahead.next (h : Ahead sort ts) : Next sort ts := by
  obtain ⟨t, ts, rfl, ht⟩ := h.head
  exact ht

/-- The token after the next one. -/
theorem tokenAt_one_cons {t u : Token} (h : c.rest = t :: u :: ts) : c.tokenAt 1 = u := by
  rw [tokenAt, h]
  rfl

/-- A token of another kind fails the check and nothing is taken. -/
theorem check_no {kind : TokenKind} (h : Next (· ≠ kind) c.rest) :
    (check kind).run c = (false, c) := by
  have hkind : ((c.tokenAt 0).kind == kind) = false := beq_eq_false_iff_ne.2 h.kind
  change ((c.tokenAt 0).kind == kind, c) = _
  rw [hkind]

/-- A token of the kind passes the check and stays. -/
theorem check_yes {kind : TokenKind} (h : Next (· = kind) c.rest) :
    (check kind).run c = (true, c) := by
  have hkind : ((c.tokenAt 0).kind == kind) = true := beq_iff_eq.2 h.kind
  change ((c.tokenAt 0).kind == kind, c) = _
  rw [hkind]

/-- A token of another kind is not skipped. -/
theorem skip_no {kind : TokenKind} (h : Next (· ≠ kind) c.rest) :
    (skip kind).run c = (false, c) := by
  rw [skip_run, if_neg h.kind]

/-- A first token of another kind fails the check of two. -/
theorem check2_no {first second : TokenKind} (h : Next (· ≠ first) c.rest) :
    (check2 first second).run c = (false, c) := by
  have hkind : ((c.tokenAt 0).kind == first) = false := beq_eq_false_iff_ne.2 h.kind
  change ((c.tokenAt 0).kind == first && (c.tokenAt 1).kind == second, c) = _
  rw [hkind, Bool.false_and]

/-- Two tokens of the kinds pass the check of two and stay. -/
theorem check2_yes {first second : TokenKind} {t u : Token} (h : c.rest = t :: u :: ts)
    (ht : t.kind = first) (hu : u.kind = second) : (check2 first second).run c = (true, c) := by
  change ((c.tokenAt 0).kind == first && (c.tokenAt 1).kind == second, c) = _
  rw [tokenAt_zero_cons h, tokenAt_one_cons h, ht, hu, beq_self_eq_true, beq_self_eq_true,
    Bool.and_self]

/-- A second token of another kind fails the check of two. -/
theorem check2_no_second {first second : TokenKind} {t u : Token} (h : c.rest = t :: u :: ts)
    (hu : u.kind ≠ second) : (check2 first second).run c = (false, c) := by
  have hkind : (u.kind == second) = false := beq_eq_false_iff_ne.2 hu
  change ((c.tokenAt 0).kind == first && (c.tokenAt 1).kind == second, c) = _
  rw [tokenAt_one_cons h, hkind, Bool.and_false]

/-- A token of none of the kinds fails the check. -/
theorem checkAny_no {kinds : List TokenKind} (h : Next (· ∉ kinds) c.rest) :
    (checkAny kinds).run c = (false, c) := by
  have hkind : kinds.contains (c.tokenAt 0).kind = false :=
    Bool.eq_false_iff.2 fun hmem => h.kind (List.contains_iff_mem.1 hmem)
  change (kinds.contains (c.tokenAt 0).kind, c) = _
  rw [hkind]

/-- A token of one of the kinds passes the check. -/
theorem checkAny_yes {kinds : List TokenKind} (h : Next (· ∈ kinds) c.rest) :
    (checkAny kinds).run c = (true, c) := by
  have hkind : kinds.contains (c.tokenAt 0).kind = true := List.contains_iff_mem.2 h.kind
  change (kinds.contains (c.tokenAt 0).kind, c) = _
  rw [hkind]

/-- A repetition does not go on at one of the tokens that end it. -/
theorem before_no {kinds : List TokenKind} (h : Next (· ∈ kinds) c.rest) :
    (before kinds).run c = (false, c) := by
  have hany : (checkAny (.eof :: kinds)).run c = (true, c) :=
    checkAny_yes (h.imp (List.mem_cons_of_mem _))
  rw [before, bind_of_run hany]
  rfl

/-- A repetition goes on at every other token of the file. -/
theorem before_yes {kinds : List TokenKind} (h : Next (· ∉ .eof :: kinds) c.rest) :
    (before kinds).run c = (true, c) := by
  rw [before, bind_of_run (checkAny_no h)]
  rfl

/-- A repetition whose test says no at once reads nothing. -/
theorem many_none {test : Parser Bool} {item : Parser Node} (h : test.run c = (false, c)) :
    (many test item).run c = ([], c) := by
  have hrun : (many test item).run c = (manyUpTo test item (1 + c.rest.length)).run c := rfl
  rw [hrun, Nat.add_comm, manyUpTo, bind_of_run h, if_neg Bool.false_ne_true]
  rfl

/-- A loop whose step gives nothing at once reads nothing. -/
theorem loop_none {α : Type} {step : α → Parser (Option α)} {a : α}
    (h : (step a).run c = (none, c)) : (loop step a).run c = (a, c) := by
  have hrun : (loop step a).run c = (iterate step (1 + c.rest.length) a).run c := rfl
  rw [hrun, Nat.add_comm, iterate, bind_of_run h]
  rfl

end Looking

/-- There are no more items than tokens, if every item has tokens. -/
theorem length_flatMap_le {α : Type} {f : α → List Token} (hf : ∀ a, f a ≠ [])
    (items : List α) : items.length ≤ (items.flatMap f).length := by
  induction items with
  | nil => exact Nat.zero_le _
  | cons a items ih =>
    have hpos : 0 < (f a).length := List.length_pos_of_ne_nil (hf a)
    rw [List.flatMap_cons, List.length_append, List.length_cons]
    omega

/-- Tokens that are read as items with a separator between them. -/
inductive Series (separator : TokenKind) (item : Parser Node) (sort : List Token → Prop) :
    List Token → List Node → Prop where
  | last {ts : List Token} {tree : Node}
      (hitem : ∀ c : Cursor, c.rest = ts → Lands c sort (Like tree) item)
      (hstop : ∀ us, sort us → Next (· ≠ separator) us) : Series separator item sort ts [tree]
  | more {ts us : List Token} {t : Token} {tree : Node} {trees : List Node}
      (hitem : ∀ c : Cursor, c.rest = ts → Lands c (· = t :: us) (Like tree) item)
      (ht : t.kind = separator) (hlength : us.length < ts.length)
      (hmore : Series separator item sort us trees) : Series separator item sort ts (tree :: trees)

namespace Series

variable {separator : TokenKind} {item : Parser Node} {sort : List Token → Prop}
  {ts : List Token} {trees : List Node} {c : Cursor}

/-- A series has a separator between any two of its items, so it is no longer than its tokens. -/
theorem length_le (h : Series separator item sort ts trees) : trees.length ≤ ts.length + 1 := by
  induction h with
  | last _ _ => exact Nat.le_add_left 1 _
  | more _ _ hlength _ ih =>
    rw [List.length_cons]
    omega

/-- The first item, and more of them after separators, with a bound that is not reached. -/
theorem lands_upTo [separator.Inner] (h : Series separator item sort ts trees)
    {n : Nat} (hn : trees.length ≤ n) (hc : c.rest = ts) :
    Lands c sort (Likes trees) (item >>= fun first =>
      manyUpTo (skip separator) item n >>= fun more => Pure.pure (first :: more)) := by
  induction h generalizing n c with
  | last hitem hstop =>
    obtain ⟨m, rfl⟩ : ∃ m, n = m + 1 := ⟨n - 1, by rw [List.length_singleton] at hn; omega⟩
    refine (hitem c hc).bind fun first d hd hfirst => ?_
    have hmore : Lands d sort (Likes []) (manyUpTo (skip separator) item (m + 1)) :=
      .manyUpTo_nil (skip_no (hstop _ hd)) hd
    exact hmore.bind fun more d hd hmore => .pure (.cons hfirst hmore) hd
  | @more ts us t tree trees hitem ht hlength hmore ih =>
    obtain ⟨m, rfl⟩ : ∃ m, n = m + 1 := ⟨n - 1, by rw [List.length_cons] at hn; omega⟩
    have hm : trees.length ≤ m := by
      rw [List.length_cons] at hn
      omega
    refine (hitem c hc).bind fun first d hd hfirst => ?_
    have hskip : (skip separator).run d = (true, d.past [t] us) := skip_past hd ht
    have hrun : (manyUpTo (skip separator) item (m + 1)).run d = (item >>= fun first =>
        manyUpTo (skip separator) item m >>= fun more =>
          Pure.pure (first :: more)).run (d.past [t] us) := by
      rw [manyUpTo, bind_of_run hskip, if_pos rfl]
    have hrest := Lands.of_run hrun (.past d [t] us) (ih hm rfl)
    exact hrest.bind fun more d hd hmore => .pure (.cons hfirst hmore) hd

/-- The first item, and all that follow after separators. -/
theorem lands [separator.Inner] (h : Series separator item sort ts trees)
    (hc : c.rest = ts) :
    Lands c sort (Likes trees) (item >>= fun first =>
      many (skip separator) item >>= fun more => Pure.pure (first :: more)) := by
  cases h with
  | last hitem hstop =>
    refine (hitem c hc).bind fun first d hd hfirst => ?_
    have hbound : 1 + d.rest.length = d.rest.length + 1 := Nat.add_comm _ _
    have hmore : Lands d sort (Likes []) (many (skip separator) item) :=
      .many (hbound ▸ .manyUpTo_nil (skip_no (hstop _ hd)) hd)
    exact hmore.bind fun more d hd hmore => .pure (.cons hfirst hmore) hd
  | @more _ us t tree trees hitem ht hlength hmore =>
    refine (hitem c hc).bind fun first d hd hfirst => ?_
    have hskip : (skip separator).run d = (true, d.past [t] us) := skip_past hd ht
    have hbound : 1 + d.rest.length = (us.length + 1) + 1 := by
      rw [hd, List.length_cons]
      omega
    have hrun : (manyUpTo (skip separator) item (1 + d.rest.length)).run d = (item >>= fun first =>
        manyUpTo (skip separator) item (us.length + 1) >>= fun more =>
          Pure.pure (first :: more)).run (d.past [t] us) := by
      rw [hbound, manyUpTo, bind_of_run hskip, if_pos rfl]
    have hrest := Lands.of_run hrun (.past d [t] us)
      (hmore.lands_upTo hmore.length_le rfl)
    exact (Lands.many hrest).bind fun more d hd hmore => .pure (.cons hfirst hmore) hd

/-- Items between commas. -/
theorem commaList (h : Series Symbol.comma item sort ts trees) (hc : c.rest = ts) :
    Lands c sort (Likes trees) (Parser.commaList item) := h.lands hc

end Series

end JavaObjC
